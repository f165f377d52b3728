import Scriptorium.Script.Library.Argument

/-!
# Methods of table objects

A table object is read by rows and columns, both counted from one; a column can be given by its name.
-/

namespace Scriptorium.Script.Library

open Operation Args

/-- A refused argument of a method of table objects. -/
def gridFault (method argument : String) (f : HostFailure) : Act α :=
  let place := "bad argument " ++ argument ++ " to `TableObject." ++ method ++ "`: "
  .raise (.failure (.conversion (place ++ f.message)))

/-- How messages name the object that a method is called on. -/
def selfName : String := "`self`"

/-- How messages name the argument after that object. -/
def secondName : String := "#2"

/-- The table behind the object that a method is called on. -/
def gridOf (method : String) (args : List Value) : Act Table :=
  .read fun s =>
    match value args 1 with
    | .object p =>
      match s.objects[p]? with
      | some (.grid t) => .done t
      | _ => gridFault method selfName (.conversion "userdata is not expected type")
    | v => gridFault method selfName
        (.conversion ("error converting Lua " ++ kindOf s v ++ " to userdata"))

/-- A value as the number of a row: a float is cut, a text is read. -/
def rowNumber? (v : Value) : Option Int64 :=
  match v.number? with
  | some (.integer n) => some n
  | some (.float x) =>
    if -9223372036854775808.0 ≤ x && x < 9223372036854775808.0 then some x.toInt64 else none
  | _ => none

/-- The position of a column that is given by its name or its number. -/
def columnIndex? (t : Table) (column : Value) : Option Nat :=
  match column with
  | .text b => (String.fromUTF8? b).bind t.columnIndex?
  | .integer n =>
    if 1 ≤ n && n.toNatClampNeg ≤ t.columnCount then some (n.toNatClampNeg - 1) else none
  | _ => none

/-- The content of a cell; nothing outside the table. -/
def cellAt (t : Table) (row : Int64) (column : Value) : Datum :=
  if row < 1 then .nil
  else
    match columnIndex? t column with
    | none => .nil
    | some j => ((t.cell? (row.toNatClampNeg - 1) j).map Datum.ofCell).getD .nil

/-- A row as a record of its cells. -/
def rowRecord (t : Table) (row : List Cell) : Datum :=
  .record ((t.names.zip row).map fun (name, cell) => (name, .ofCell cell))

def gridRows (args : List Value) : Act (List Value) := do
  let t ← gridOf "rows" args
  Act.ofData [.list (t.rows.map (rowRecord t))]

def gridColumns (args : List Value) : Act (List Value) := do
  let t ← gridOf "columns" args
  Act.ofData [.list (t.names.map .ofString)]

def gridColumnType (args : List Value) : Act (List Value) := do
  let t ← gridOf "column_type" args
  let v := value args 2
  match HostObject.asText (← Act.look fun s => s.datum v) with
  | .error f => gridFault "column_type" secondName f
  | .ok name =>
    Act.ofData [((t.columnIndex? name).map fun i => .ofString (t.columnType i).label).getD .nil]

def gridGet (args : List Value) : Act (List Value) := do
  let t ← gridOf "get" args
  match rowNumber? (value args 2) with
  | some row => Act.ofData [cellAt t row (value args 3)]
  | none =>
    let kind ← Act.look fun s => kindOf s (value args 2)
    let reason := if (value args 2).number?.isSome then "out of range"
      else "expected number or string coercible to number"
    gridFault "get" secondName
      (.conversion ("error converting Lua " ++ kind ++ " to i64 (" ++ reason ++ ")"))

end Scriptorium.Script.Library
