import Scriptorium.Script.Builtin
import Scriptorium.Host.World

/-!
# Values of scripts

A value is plain data; tables, functions with captured variables and host objects are known by their place in
the store. `Key` is a value in the form that tables look it up by: a float that is a whole number is the same
key as that number.
-/

namespace Scriptorium.Script

inductive Value where
  | nil
  | boolean (b : Bool)
  | integer (n : Int64)
  | float (x : Float)
  | text (bytes : Bytes)
  | table (place : Nat)
  | closure (place : Nat)
  | builtin (b : Builtin)
  | object (place : Nat)
  /-- A coroutine. Coroutines are values like others, but the functions that make them and run them are left out. -/
  | thread (place : Nat)
  /-- A failure of the host that the script has caught. -/
  | failure (f : HostFailure)
  deriving DecidableEq, Inhabited

/-- The bytes of a text. -/
abbrev bytes (s : String) : Bytes := s.toUTF8

namespace Value

def ofString (s : String) : Value := .text s.toUTF8

/-- All values but `nil` and `false` count as true. -/
def isTrue : Value → Bool
  | .nil | .boolean false => false
  | _ => true

def isNil : Value → Bool
  | .nil => true
  | _ => false

/-- The name of the type of a value. -/
def typeName : Value → String
  | .nil => "nil"
  | .boolean _ => "boolean"
  | .integer _ | .float _ => "number"
  | .text _ => "string"
  | .table _ => "table"
  | .closure _ | .builtin _ => "function"
  | .object _ | .failure _ => "userdata"
  | .thread _ => "thread"

end Value

/-! ## Whole floats -/

/-- The whole number that a float is, if it is one in the 64-bit range. -/
def wholeOf? (x : Float) : Option Int64 :=
  if x.floor == x && (-9223372036854775808.0 ≤ x && x < 9223372036854775808.0) then some x.toInt64
  else none

/-! ## Keys -/

/-- What tables are looked up by. -/
inductive Key where
  | boolean (b : Bool)
  | integer (n : Int64)
  /-- A float that is no whole number, by its bits. -/
  | float (bits : UInt64)
  | text (bytes : Bytes)
  | table (place : Nat)
  | closure (place : Nat)
  | builtin (b : Builtin)
  | object (place : Nat)
  | thread (place : Nat)
  | failure (text : String)
  deriving DecidableEq, Hashable, Inhabited

/-- The key of a value; `nil` and NaN are none. -/
def Value.key? : Value → Option Key
  | .nil => none
  | .boolean b => some (.boolean b)
  | .integer n => some (.integer n)
  | .float x =>
    match wholeOf? x with
    | some n => some (.integer n)
    | none => if x.isNaN then none else some (.float x.toBits)
  | .text bytes => some (.text bytes)
  | .table p => some (.table p)
  | .closure p => some (.closure p)
  | .builtin b => some (.builtin b)
  | .object p => some (.object p)
  | .thread p => some (.thread p)
  | .failure f => some (.failure f.message)

/-- The value that a key stands for. -/
def Key.value : Key → Value
  | .boolean b => .boolean b
  | .integer n => .integer n
  | .float bits => .float (Float.ofBits bits)
  | .text bytes => .text bytes
  | .table p => .table p
  | .closure p => .closure p
  | .builtin b => .builtin b
  | .object p => .object p
  | .thread p => .thread p
  | .failure t => .failure (.conversion t)

/-- Are two values the same without asking a metatable? -/
def Value.same : Value → Value → Bool
  | .nil, .nil => true
  | .boolean a, .boolean b => a == b
  | .integer a, .integer b => a == b
  | .float a, .float b => a == b
  | .integer a, .float b => wholeOf? b == some a
  | .float a, .integer b => wholeOf? a == some b
  | .text a, .text b => a == b
  | .table a, .table b => a == b
  | .closure a, .closure b => a == b
  | .builtin a, .builtin b => a == b
  | .object a, .object b => a == b
  | .thread a, .thread b => a == b
  | .failure a, .failure b => a == b
  | _, _ => false

end Scriptorium.Script
