import Scriptorium.Text.Blank
import Scriptorium.Decimal.Read
import Scriptorium.Decimal.Shortest

/-!
# Cells and column types

A cell holds nothing, a number, a truth value or text. The type of a column is the least one that admits all
its cells, so types form a lattice: `merge` is its join, with `empty` below everything, `integer` below
`float`, and `text` above everything. `Cell.classify` reads a text as the narrowest type it writes.
-/

namespace Scriptorium

open Text Decimal

inductive Cell where
  | null
  | integer (n : Int64)
  | float (x : Float)
  | boolean (b : Bool)
  | text (s : String)
  deriving Inhabited

inductive ColumnType where
  | empty
  | integer
  | float
  | boolean
  | text
  deriving DecidableEq, Repr, Inhabited

namespace ColumnType

def label : ColumnType → String
  | .empty => "empty"
  | .integer => "integer"
  | .float => "float"
  | .boolean => "boolean"
  | .text => "text"

/-- The least type that admits what either type admits. -/
def merge : ColumnType → ColumnType → ColumnType
  | .empty, t | t, .empty => t
  | .integer, .integer => .integer
  | .boolean, .boolean => .boolean
  | .integer, .float | .float, .integer | .float, .float => .float
  | _, _ => .text

theorem merge_comm (a b : ColumnType) : merge a b = merge b a := by cases a <;> cases b <;> rfl

theorem merge_assoc (a b c : ColumnType) : merge (merge a b) c = merge a (merge b c) := by
  cases a <;> cases b <;> cases c <;> rfl

@[simp] theorem merge_self (a : ColumnType) : merge a a = a := by cases a <;> rfl

@[simp] theorem empty_merge (a : ColumnType) : merge .empty a = a := by cases a <;> rfl

@[simp] theorem merge_empty (a : ColumnType) : merge a .empty = a := by cases a <;> rfl

end ColumnType

/-! ## Values written in text -/

/-- The whole number that a text writes. -/
def readInteger? (cs : List Char) : Option Int64 := (readInt? cs).map Int64.ofInt

/-- The finite number that a text writes. -/
def readFinite? (cs : List Char) : Option Float := (readFloat? cs).filter (·.isFinite)

/-- The truth value that a text writes, in letters of any case. -/
def readBoolean? (cs : List Char) : Option Bool :=
  let lower := cs.map Char.toLower
  if lower = "true".toList then some true
  else if lower = "false".toList then some false
  else none

/-- The narrowest type that a text writes a value of; a blank one writes none. -/
def classifyText (cs : List Char) : ColumnType :=
  if (trim cs).isEmpty then .empty
  else if (readInteger? (trim cs)).isSome then .integer
  else if (readFinite? (trim cs)).isSome then .float
  else if (readBoolean? (trim cs)).isSome then .boolean
  else .text

namespace Cell

/-- Nothing, or text of blanks only. -/
def isBlank : Cell → Bool
  | .null => true
  | .text s => isBlankText s.toList
  | _ => false

/-- The text of a text cell. -/
def asText? : Cell → Option String
  | .text s => some s
  | _ => none

/-- A cell as it is shown and written to files. -/
def shown : Cell → String
  | .null => ""
  | .integer n => toString n.toInt
  | .float x => shortestText x
  | .boolean b => if b then "true" else "false"
  | .text s => s

/-- The narrowest type that admits the cell. -/
def classify : Cell → ColumnType
  | .null => .empty
  | .integer _ => .integer
  | .float _ => .float
  | .boolean _ => .boolean
  | .text s => classifyText s.toList

/-- A text cell without the blanks at either end. -/
def trimmed : Cell → Cell
  | .text s => .text (trimString s)
  | c => c

/-- A text cell as a value of a type. Empty text becomes nothing; text that writes no value of the type
stays. -/
def coerce (type : ColumnType) : Cell → Cell
  | .text s =>
    if s.isEmpty then .null
    else
      let value? := match type with
        | .integer => (readInteger? s.toList).map Cell.integer
        | .float => (readFloat? s.toList).map Cell.float
        | .boolean => (readBoolean? s.toList).map Cell.boolean
        | .empty | .text => none
      value?.getD (.text s)
  | c => c

end Cell

end Scriptorium
