import Scriptorium.Script.Code

/-!
# Syntax trees

Names are resolved: an expression names a variable by its slot in its own function, or by its place among the
variables that its function captures. A global variable is a field of the variable `_ENV`. Each function of a
script has a number.
-/

namespace Scriptorium.Script

/-- A variable as the function that uses it sees it. -/
inductive VariableRef where
  | slot (n : Nat) (name : Bytes)
  | captured (index : Nat) (name : Bytes)
  deriving DecidableEq, Inhabited

inductive UnaryOp where
  | negate | not | length | bitNot
  deriving DecidableEq, Repr, Inhabited

inductive BinaryOp where
  | arith (op : ArithOp)
  | bitwise (op : BitOp)
  | concat
  | equal | notEqual
  | less | lessEqual | greater | greaterEqual
  | and | or
  deriving DecidableEq, Repr, Inhabited

mutual

inductive Expr where
  | literal (v : Value)
  /-- A variable whose value is known without running the script. -/
  | constant (name : Bytes) (v : Value)
  | varargs
  | var (v : VariableRef)
  | index (object key : Expr) (line : Nat)
  | call (f : Expr) (args : List Expr) (line : Nat)
  | method (object : Expr) (name : Bytes) (args : List Expr) (line : Nat)
  | function (n : Nat)
  | paren (e : Expr)
  | unary (op : UnaryOp) (a : Expr) (line : Nat)
  | binary (op : BinaryOp) (a b : Expr) (line : Nat)
  /-- Operands that are joined from the right. -/
  | concat (operands : List Expr) (line : Nat)
  | table (fields : List TableField) (line : Nat)

inductive TableField where
  | item (e : Expr)
  | entry (key value : Expr)

end

instance : Inhabited Expr := ⟨.varargs⟩

inductive Stat where
  | expression (e : Expr)
  | assign (targets values : List Expr) (temporaries : List Nat) (line : Nat)
  | declare (slots : List Nat) (values : List Expr) (line : Nat)
  | declareFunction (slot function : Nat)
  /-- Will close the variable in a slot when its block ends. -/
  | closing (slot : Nat) (name : Bytes) (line : Nat)
  | closeDownTo (count : Nat) (line : Nat)
  | block (body : List Stat)
  | whileLoop (condition : Expr) (body : List Stat) (line : Nat)
  | repeatLoop (body : List Stat) (condition : Expr) (close : List Stat) (line : Nat)
  | branch (condition : Expr) (yes no : List Stat) (line : Nat)
  | count (base control : Nat) (start limit step : Expr) (body : List Stat) (forLine line : Nat)
  | iterate (base : Nat) (controls : List Nat) (values : List Expr) (body : List Stat) (line : Nat)
  | label (n : Nat)
  | goto (n : Nat) (line : Nat)
  | result (values : List Expr) (tail : Bool) (line : Nat)
  deriving Inhabited

/-- Where a goto leads: a label, and how many values are still to be closed there. -/
structure Leap where
  goto : Nat
  label : Nat
  closing : Nat
  deriving DecidableEq, Repr, Inhabited

/-- A function of a script. -/
structure FunctionTree where
  parameters : Nat
  isVariadic : Bool
  slots : Nat
  /-- The slots whose variables inner functions capture. -/
  shared : List Nat
  captures : List Capture
  leaps : List Leap
  body : List Stat
  lastLine : Nat
  deriving Inhabited

/-- Has the expression any number of values? -/
def Expr.isMulti : Expr → Bool
  | .varargs | .call .. | .method .. => true
  | _ => false

/-- The name of the variable that holds the global variables. -/
def environmentName : Bytes := bytes "_ENV"

/-- The greatest index that messages tell to be a whole number. -/
def namedIndexLimit : Int64 := 255

/-- The name of the variable, if the expression is one. -/
def Expr.variableName? : Expr → Option Bytes
  | .var (.slot _ name) | .var (.captured _ name) => some name
  | _ => none

/-- Where the value of an expression comes from. -/
def Expr.origin : Expr → Origin
  | .literal (.text b) | .constant _ (.text b) => .named .constant b
  | .var (.slot _ name) => .named .localVariable name
  | .var (.captured _ name) => .named .upvalue name
  | .index o (.literal (.text b)) _ =>
    if o.variableName? = some environmentName then .named .global b else .named .field b
  | .index _ (.literal (.integer n)) _ =>
    .named .field (bytes (if 0 ≤ n && n ≤ namedIndexLimit then "integer index" else "?"))
  | .index .. => .named .field (bytes "?")
  | .paren e => if e.isMulti then .unknown else e.origin
  | _ => .unknown

end Scriptorium.Script
