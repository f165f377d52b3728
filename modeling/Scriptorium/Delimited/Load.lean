import Scriptorium.Table.Basic
import Scriptorium.Delimited.Record
import Scriptorium.Text.Newline
import Scriptorium.Text.Decoding
import Scriptorium.Disk.Basic

/-!
# Tables in delimited files

The first record of a text is the header. A record of another length than the header is skipped and reported;
all others become rows of text cells. A table is written with a header and the shown text of its cells.

`sniff` guesses the delimiter of a text from its first lines: the candidate that cuts the most lines into as
many fields as the first one, weighed by the number of those fields.
-/

namespace Scriptorium.Delimited

open Text

/-! ## The delimiter of a text -/

/-- The delimiters tried, in order. -/
def candidates : List Char := ['\t', ';', ',', '|']

/-- The number of lines looked at. -/
def sampleSize : Nat := 10

/-- The number of fields in a line. -/
def fieldCount (d : Char) (line : List Char) : Nat :=
  match readRecords d line with
  | r :: _ => r.fields.length
  | [] => 1

/-- The weight of a delimiter: the number of lines with as many fields as the first one, times these fields.
A delimiter that does not cut the first line has none. -/
def score (d : Char) (sample : List (List Char)) : Nat :=
  match sample.map (fieldCount d) with
  | [] => 0
  | target :: counts => if target ≤ 1 then 0 else (target :: counts).count target * target

/-- The first of the heaviest delimiters, or the given one when none has weight. -/
def heaviest (sample : List (List Char)) : Char → Nat → List Char → Char
  | best, _, [] => best
  | best, weight, d :: ds =>
    if weight < score d sample then heaviest sample d (score d sample) ds
    else heaviest sample best weight ds

/-- The likely delimiter of a text; a comma when nothing speaks for another. -/
def sniff (cs : List Char) : Char := heaviest ((lines cs).take sampleSize) ',' 0 candidates

/-! ## Records and tables -/

/-- A record left out of a table. -/
structure Skipped where
  line : Nat
  expected : Nat
  found : Nat
  deriving DecidableEq, Repr

def Skipped.message (s : Skipped) : String :=
  "skipping line " ++ toString s.line ++ ": expected " ++ toString s.expected ++ " fields, found " ++
    toString s.found

/-- The records of a length as rows of text cells. -/
def rowsOf (length : Nat) (records : List Record) : List (List Cell) :=
  (records.filter (·.fields.length == length)).map fun r =>
    r.fields.map fun field => .text (String.ofList field)

/-- The records of another length. -/
def skippedOf (length : Nat) (records : List Record) : List Skipped :=
  (records.filter (·.fields.length != length)).map fun r => ⟨r.line, length, r.fields.length⟩

/-- The table that a text holds, and the records left out of it. -/
def load (d : Char) (cs : List Char) : Except TableError Table × List Skipped :=
  match readRecords d cs with
  | [] => (.error .noHeader, [])
  | header :: records =>
    let names := header.fields.map fun field => String.ofList (trim field)
    (Table.ofRows? names (rowsOf names.length records), skippedOf names.length records)

/-- The text of a table. -/
def render (d : Char) (t : Table) : List Char :=
  let header := if t.isEmpty then [] else [t.names.map String.toList]
  writeRecords d (header ++ t.rows.map fun row => row.map fun c => c.shown.toList)

/-! ## Files -/

/-- The delimiter of comma-separated files. -/
def comma : Char := ','

/-- The text of a file in any encoding. -/
def readFile (disk : Disk) (path : String) : Except TableError (List Char) :=
  match disk.read path with
  | .ok bytes => .ok (decodeAny bytes).toList
  | .error e => .error (.disk (path ++ ": " ++ e.message))

/-- The table in a file. Without a delimiter the likely one is used. -/
def loadFile (disk : Disk) (path : String) (d? : Option Char) : Except TableError Table × List Skipped :=
  match readFile disk path with
  | .error e => (.error e, [])
  | .ok cs => load (d?.getD (sniff cs)) cs

/-- Writes a table to a file. -/
def saveFile (disk : Disk) (path : String) (d : Char) (t : Table) : Except TableError Unit × Disk :=
  match disk.write path (String.ofList (render d t)).toUTF8 with
  | (.ok (), disk) => (.ok (), disk)
  | (.error e, disk) => (.error (.disk e.message), disk)

end Scriptorium.Delimited
