import Scriptorium.Script.Value

/-!
# Code

A function of a script is compiled to instructions for a machine with an operand stack. The top of the stack
is the last operand; an instruction takes its operands from there and leaves its results there.

Each function has slots for its variables. A variable that an inner function captures lives in a cell of the
store instead, so that both see its changes; its slot then holds the place of the cell.
-/

namespace Scriptorium.Script

/-! ## Where a value comes from -/

inductive OriginKind where
  | localVariable
  | upvalue
  | global
  | field
  | method
  | constant
  | metamethod
  | iterator
  deriving DecidableEq, Repr, Inhabited

def OriginKind.label : OriginKind → String
  | .localVariable => "local"
  | .upvalue => "upvalue"
  | .global => "global"
  | .field => "field"
  | .method => "method"
  | .constant => "constant"
  | .metamethod => "metamethod"
  | .iterator => "for iterator"

/-- Where an operand comes from, for the messages about it. -/
inductive Origin where
  | unknown
  | named (kind : OriginKind) (name : Bytes)
  deriving DecidableEq, Inhabited

/-- The remark on an operand in a message. -/
def Origin.remark : Origin → Bytes
  | .unknown => .empty
  | .named kind name => bytes (" (" ++ kind.label ++ " '") ++ name ++ bytes "')"

/-! ## Operators -/

inductive ArithOp where
  | add | sub | mul | div | mod | pow | intDiv
  deriving DecidableEq, Repr, Inhabited

inductive BitOp where
  | and | or | xor | shiftLeft | shiftRight
  deriving DecidableEq, Repr, Inhabited

inductive CompareOp where
  | less | lessEqual
  deriving DecidableEq, Repr, Inhabited

/-- The name of an operator's metamethod, without the underscores. -/
def ArithOp.event : ArithOp → String
  | .add => "add"
  | .sub => "sub"
  | .mul => "mul"
  | .div => "div"
  | .mod => "mod"
  | .pow => "pow"
  | .intDiv => "idiv"

def BitOp.event : BitOp → String
  | .and => "band"
  | .or => "bor"
  | .xor => "bxor"
  | .shiftLeft => "shl"
  | .shiftRight => "shr"

def CompareOp.event : CompareOp → String
  | .less => "lt"
  | .lessEqual => "le"

/-! ## Instructions -/

/-- How many results are wanted. -/
inductive Want where
  | exactly (n : Nat)
  | all
  deriving DecidableEq, Repr, Inhabited

inductive Instr where
  | push (v : Value)
  | drop (n : Nat)
  /-- Pushes the variable in a slot, in a cell, or captured. -/
  | getSlot (slot : Nat)
  | getCell (slot : Nat)
  | getCaptured (index : Nat)
  | setSlot (slot : Nat)
  | setCell (slot : Nat)
  | setCaptured (index : Nat)
  /-- Puts a new cell with the value on top into a slot. -/
  | newCell (slot : Nat)
  | newTable
  /-- `object key → value` -/
  | index (object : Origin)
  /-- `object key value →` -/
  | setIndex (object : Origin)
  /-- `table key value → table`, without metatables -/
  | initField
  /-- `table values… → table`, the values under whole numbers from `first` on -/
  | initItems (first count : Nat) (spread : Bool)
  /-- `object → method object` -/
  | method (name : Bytes) (object : Origin)
  | closure (function : Nat)
  | arith (op : ArithOp) (a b : Origin)
  | bitwise (op : BitOp) (a b : Origin)
  | bitNot (a : Origin)
  | negate (a : Origin)
  | length (a : Origin)
  | not
  | concat (operands : List Origin)
  | equal
  | compare (op : CompareOp)
  | swap
  /-- Goes on so many instructions further, or further back than the next one. -/
  | jump (skip : Nat)
  | jumpBack (count : Nat)
  /-- Takes the top and jumps if it is false. -/
  | jumpUnless (skip : Nat)
  /-- Jumps and keeps the top if it is false or true, and else drops it. -/
  | jumpKeepingFalse (skip : Nat)
  | jumpKeepingTrue (skip : Nat)
  /-- A place that a goto can lead to. -/
  | label (n : Nat)
  /-- A goto whose place is not known yet. -/
  | goto (n : Nat)
  /-- Closes values until `closing` are left, and goes on at an instruction. -/
  | leap (closing target : Nat)
  /-- `function arguments… → results…` -/
  | call (arguments : Nat) (spread : Bool) (want : Want) (callee : Origin)
  /-- Calls a function in place of the running one; what is no function of a script leaves all its results. -/
  | tailCall (arguments : Nat) (spread : Bool) (callee : Origin)
  | varargs (want : Want)
  | result (count : Nat) (spread : Bool)
  /-- Prepares the counter, limit and step in three slots; jumps if there is no round. -/
  | forPrepare (base skip : Nat)
  /-- Steps the counter and jumps back if there is another round. -/
  | forStep (base back : Nat)
  /-- Calls the iterator in the slots for the next round and pushes its results. -/
  | forCall (base results : Nat)
  /-- Takes the first result of the iterator into its slot; jumps if it is `nil`. -/
  | forCheck (base skip : Nat)
  /-- Will close the value on top when its block ends. -/
  | markClosing (name : Bytes)
  /-- Closes values until `count` are left. -/
  | closeDownTo (count : Nat)
  deriving DecidableEq, Inhabited

/-- Where a captured variable is found when its function is made. -/
inductive Capture where
  | slot (n : Nat)
  | captured (index : Nat)
  deriving DecidableEq, Repr, Inhabited

/-- A compiled function. -/
structure Proto where
  code : Array Instr
  /-- The line of each instruction. -/
  lines : Array Nat
  /-- The number of slots; the parameters come first. -/
  slots : Nat
  parameters : Nat
  isVariadic : Bool
  /-- Does an inner function capture a variable of this one? -/
  hasCells : Bool
  captures : List Capture
  deriving DecidableEq, Inhabited

/-- A compiled script. Its last function is the main one. -/
structure Chunk where
  name : Bytes
  functions : Array Proto
  deriving DecidableEq, Inhabited

end Scriptorium.Script
