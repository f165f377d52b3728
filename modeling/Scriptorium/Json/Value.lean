import Scriptorium.Decimal.Float64

/-!
# JSON values

A JSON value keeps the members of an object in their order, so that a writer can choose one and a reader
can see a key that occurs twice.
-/

namespace Scriptorium

inductive Json where
  | null
  | bool (b : Bool)
  | int (n : Int)
  | float (x : Float)
  | str (s : String)
  | arr (items : List Json)
  | obj (members : List (String × Json))
  | garbled
  deriving Inhabited

namespace Json

/-- Members ordered by key. -/
def keyBefore (a b : String × Json) : Bool := !decide (b.1 < a.1)

/-- An object whose members are written in the order of their keys. -/
def sorted (members : List (String × Json)) : Json := .obj (members.mergeSort keyBefore)

/-- A text, or null. -/
def ofOption (f : α → Json) : Option α → Json
  | some a => f a
  | none => .null

end Json

end Scriptorium
