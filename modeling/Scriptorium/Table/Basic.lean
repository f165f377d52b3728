import Scriptorium.Table.Cell
import Scriptorium.Repetition

/-!
# Tables

A table has column names, all different, and rows with one cell for each name. The type of a column is not
stored: it is the join of the types of its cells. `process` builds a tidy table from a table: blank rows go,
and every text is read as a value of its column's type.
-/

namespace Scriptorium

structure Table where
  names : List String := []
  rows : List (List Cell) := []
  distinct : names.Nodup := by decide
  rectangular : ∀ row ∈ rows, row.length = names.length := by decide

structure Column where
  name : String
  type : ColumnType
  deriving DecidableEq, Repr, Inhabited

inductive TableError where
  | duplicateColumn (name : String)
  /-- A row, counted from one, of another length than the header. -/
  | raggedRow (number found expected : Nat)
  | noHeader
  | disk (message : String)
  deriving DecidableEq, Repr

def TableError.message : TableError → String
  | .duplicateColumn name => "duplicate column name '" ++ name ++ "'"
  | .raggedRow number found expected =>
    "row " ++ toString number ++ " has " ++ toString found ++ " values, expected " ++ toString expected
  | .noHeader => "no header line"
  | .disk message => message

namespace Table

/-- No columns and no rows. -/
def empty : Table := {}

instance : Inhabited Table := ⟨empty⟩

theorem ext_of_rows {t u : Table} (hnames : t.names = u.names) (hrows : t.rows = u.rows) : t = u := by
  cases t
  cases u
  cases hnames
  cases hrows
  rfl

/-- The number, counted from `n`, and the length of the first row that has not the length. -/
def raggedRow? (length : Nat) : Nat → List (List Cell) → Option (Nat × Nat)
  | _, [] => none
  | n, row :: rows => if row.length = length then raggedRow? length (n + 1) rows else some (n, row.length)

theorem raggedRow?_eq_none_iff {length n : Nat} {rows : List (List Cell)} :
    raggedRow? length n rows = none ↔ ∀ row ∈ rows, row.length = length := by
  induction rows generalizing n with
  | nil => simp [raggedRow?]
  | cons row rows ih => by_cases h : row.length = length <;> simp [raggedRow?, h, ih]

/-- The table of a header and rows. The names have to be distinct and the rows as long as the header. -/
def ofRows? (names : List String) (rows : List (List Cell)) : Except TableError Table :=
  match hn : firstRepeat? [] names with
  | some name => .error (.duplicateColumn name)
  | none =>
    match hr : raggedRow? names.length 1 rows with
    | some (number, found) => .error (.raggedRow number found names.length)
    | none => .ok ⟨names, rows, (firstRepeat?_eq_none_iff.1 hn).1, raggedRow?_eq_none_iff.1 hr⟩

/-! ## Looking -/

/-- The cells of a column. -/
def column (rows : List (List Cell)) (i : Nat) : List Cell := rows.filterMap (·[i]?)

/-- The least type that admits all the cells. -/
def typeOf (cells : List Cell) : ColumnType :=
  cells.foldl (fun type c => type.merge c.classify) .empty

/-- The type of a column. -/
def columnType (t : Table) (i : Nat) : ColumnType := typeOf (column t.rows i)

def columns (t : Table) : List Column :=
  t.names.zipIdx.map fun (name, i) => ⟨name, t.columnType i⟩

def rowCount (t : Table) : Nat := t.rows.length

def columnCount (t : Table) : Nat := t.names.length

/-- A table without columns. -/
def isEmpty (t : Table) : Bool := t.names.isEmpty

/-- The place of a column, counted from zero. -/
def columnIndex? (t : Table) (name : String) : Option Nat := t.names.findIdx? (· == name)

/-- The cell in a row, counted from zero, and a column. -/
def cell? (t : Table) (row column : Nat) : Option Cell := t.rows[row]?.bind (·[column]?)

/-- The cell in a row, counted from zero, of a named column. -/
def value? (t : Table) (row : Nat) (name : String) : Option Cell :=
  (t.columnIndex? name).bind (t.cell? row)

/-! ## Processing -/

/-- The rows with trimmed texts that are not all blank. -/
def tidyRows (rows : List (List Cell)) : List (List Cell) :=
  (rows.map (·.map Cell.trimmed)).filter fun row => !row.all Cell.isBlank

/-- Trims every text, drops blank rows and reads each text as a value of its column's type. -/
def process (t : Table) : Table :=
  let rows := tidyRows t.rows
  let types := (List.range t.columnCount).map fun i => typeOf (column rows i)
  { names := t.names
    rows := rows.map fun row => List.zipWith Cell.coerce types row
    distinct := t.distinct
    rectangular := by
      intro row h
      obtain ⟨r, hr, rfl⟩ := List.mem_map.1 h
      obtain ⟨r', hr', rfl⟩ := List.mem_map.1 (List.mem_filter.1 hr).1
      simp [types, columnCount, t.rectangular r' hr'] }

end Table

end Scriptorium
