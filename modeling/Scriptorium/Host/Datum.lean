import Scriptorium.Table.Basic
import Scriptorium.Disk.Basic
import Scriptorium.Text.Decoding

/-!
# Data between scripts and the host

What a script hands to a host member and what it gets back. A script's own tables are handed over as the list
of their items; a table of the host stays whole.
-/

namespace Scriptorium

inductive Datum where
  | nil
  | boolean (b : Bool)
  | integer (n : Int64)
  | number (x : Float)
  | text (bytes : Bytes)
  /-- A table of the script, as its items from one on. -/
  | list (items : List Datum)
  /-- A table of the script with named values. -/
  | record (fields : List (String × Datum))
  | function
  | thread
  /-- A table of the host. -/
  | grid (t : Table)
  /-- A host object for a namespace. -/
  | hostObject (namespaceName : String)
  /-- An error of the host that a script has caught. -/
  | failure (text : String)
  deriving Inhabited

namespace Datum

def ofString (s : String) : Datum := .text s.toUTF8

/-- The name of the kind of a datum. -/
def kind : Datum → String
  | .nil => "nil"
  | .boolean _ => "boolean"
  | .integer _ => "integer"
  | .number _ => "number"
  | .text _ => "string"
  | .list _ | .record _ => "table"
  | .function => "function"
  | .thread => "thread"
  | .grid _ | .hostObject _ => "userdata"
  | .failure _ => "error"

/-- A float as scripts show it: without a point when it is whole and below `1e15`. -/
def floatText (x : Float) : String :=
  if x.floor == x && x.abs < 1e15 then
    let n := toString x.abs.toUInt64.toNat
    if Decimal.isNegative x then "-" ++ n else n
  else Decimal.shortestText x

/-- A datum as it is shown to the user. -/
def shown : Datum → String
  | .nil => "nil"
  | .boolean b => if b then "true" else "false"
  | .integer n => toString n.toInt
  | .number x => floatText x
  | .text bytes => (String.fromUTF8? bytes).getD "<invalid utf8>"
  | .failure t => "error: " ++ t
  | d => d.kind

/-- The content of a cell. -/
def ofCell : Cell → Datum
  | .null => .nil
  | .integer n => .integer n
  | .float x => .number x
  | .boolean b => .boolean b
  | .text s => ofString s

end Datum

/-- The texts of data, with tabs between them. -/
def joinedText (args : List Datum) : String := "\t".intercalate (args.map Datum.shown)

end Scriptorium
