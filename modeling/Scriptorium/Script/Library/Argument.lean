import Scriptorium.Script.Operation

/-!
# Arguments of library functions

A library function checks its arguments in order. Messages name the function as its caller does, and count the
arguments from one; a method does not count the object that it is called on.
-/

namespace Scriptorium.Script

/-- A library function as it was called. -/
structure Callee where
  builtin : Builtin
  origin : Origin
  deriving Inhabited

namespace Callee

/-- The name that messages give to the function. -/
def name (c : Callee) : Bytes :=
  match c.origin with
  | .named _ name => name
  | .unknown => bytes c.builtin.qualifiedName

/-- An argument is not what the function takes. -/
def argumentFault (c : Callee) (i : Nat) (message : Bytes) : Act α :=
  let refuse (i : Nat) : Act α :=
    .fail (Operation.joined
      [bytes ("bad argument #" ++ toString i ++ " to '"), c.name, bytes "' (", message, bytes ")"])
  match c.origin with
  | .named .method name =>
    if i = 1 then
      .fail (Operation.joined [bytes "calling '", name, bytes "' on bad self (", message, bytes ")"])
    else refuse (i - 1)
  | _ => refuse i

end Callee

namespace Args

/-- The argument of a number, counted from one. -/
def at? (args : List Value) (i : Nat) : Option Value := args[i - 1]?

/-- The argument of a number, or `nil`. -/
def value (args : List Value) (i : Nat) : Value := (at? args i).getD .nil

/-- Is an argument missing or `nil`? -/
def isAbsentAt (args : List Value) (i : Nat) : Bool := (value args i).isNil

/-- An argument is of another type than expected. -/
def typeFault (c : Callee) (args : List Value) (i : Nat) (expected : String) : Act α :=
  .read fun s =>
    let got := match at? args i with
      | some v => s.typeNameOf v
      | none => bytes "no value"
    c.argumentFault i (bytes (expected ++ " expected, got ") ++ got)

/-- An argument that has to be there. -/
def any (c : Callee) (args : List Value) (i : Nat) : Act Value :=
  match at? args i with
  | some v => .done v
  | none => c.argumentFault i (bytes "value expected")

/-- A text; a number is taken as its text. -/
def text (c : Callee) (args : List Value) (i : Nat) : Act Bytes :=
  match (value args i).text? with
  | some b => .done b
  | none => typeFault c args i "string"

/-- A number; a text is taken as the number that it writes. -/
def number (c : Callee) (args : List Value) (i : Nat) : Act Value :=
  match (value args i).number? with
  | some v => .done v
  | none => typeFault c args i "number"

def float (c : Callee) (args : List Value) (i : Nat) : Act Float :=
  match (value args i).float? with
  | some x => .done x
  | none => typeFault c args i "number"

/-- A whole number. -/
def integer (c : Callee) (args : List Value) (i : Nat) : Act Int64 :=
  let v := value args i
  match v.integer? with
  | some n => .done n
  | none =>
    if v.number?.isSome then c.argumentFault i (bytes "number has no integer representation")
    else typeFault c args i "number"

def integerOr (c : Callee) (args : List Value) (i : Nat) (default : Int64) : Act Int64 :=
  if isAbsentAt args i then .done default else integer c args i

def textOr (c : Callee) (args : List Value) (i : Nat) (default : Bytes) : Act Bytes :=
  if isAbsentAt args i then .done default else text c args i

/-- The place of a table. -/
def table (c : Callee) (args : List Value) (i : Nat) : Act Nat :=
  match value args i with
  | .table p => .done p
  | _ => typeFault c args i "table"

end Args

end Scriptorium.Script
