/-!
# Delimited records

A text of records: fields are separated by a delimiter, and a record ends at CR, LF or CR LF. A field in
quotes may hold anything, with a quote written twice. Empty lines between records do not count, and
neither does a byte order mark at the start.

`readRecords` reads any text; `writeRecord` writes a record so that it is read back.
-/

namespace Scriptorium.Delimited

/-- A record with the line that it is counted on. -/
structure Record where
  line : Nat
  fields : List (List Char)
  deriving DecidableEq, Repr, Inhabited

/-- A character at which records end. -/
def isLineEnd (c : Char) : Bool := c == '\n' || c == '\r'

/-- A character at which a field that is not in quotes ends. -/
def endsField (d c : Char) : Bool := c == d || isLineEnd c

/-! ## Reading -/

/-- The rest of a field that is not in quotes, and what follows it. -/
def readPlain (d : Char) (cs : List Char) : List Char × List Char :=
  (cs.takeWhile (!endsField d ·), cs.dropWhile (!endsField d ·))

/-- The field after its opening quote, and what follows it. Characters after the closing quote belong to the
field as they stand; a quote that is never closed runs to the end. -/
def readQuoted (d : Char) : List Char → List Char × List Char
  | [] => ([], [])
  | '"' :: '"' :: cs =>
    let (field, rest) := readQuoted d cs
    ('"' :: field, rest)
  | c :: cs =>
    if c = '"' then readPlain d cs
    else
      let (field, rest) := readQuoted d cs
      (c :: field, rest)

/-- The field at the start of a text, and what follows it. -/
def readField (d : Char) : List Char → List Char × List Char
  | '"' :: cs => readQuoted d cs
  | cs => readPlain d cs

theorem readPlain_length (d : Char) (cs : List Char) : (readPlain d cs).2.length ≤ cs.length :=
  (List.dropWhile_suffix _).length_le

theorem readQuoted_length (d : Char) (cs : List Char) : (readQuoted d cs).2.length ≤ cs.length := by
  fun_induction readQuoted d cs with
  | case1 => simp
  | case2 cs field rest h ih => simp only [h] at ih; simp only [List.length_cons]; omega
  | case3 cs _ =>
    have := readPlain_length d cs
    simp only [List.length_cons]; omega
  | case4 c cs _ hc field rest h ih => simp only [h] at ih; simp only [List.length_cons]; omega

theorem readField_length (d : Char) (cs : List Char) : (readField d cs).2.length ≤ cs.length := by
  unfold readField
  split
  · rename_i cs
    have := readQuoted_length d cs
    simp only [List.length_cons]; omega
  · exact readPlain_length d _

/-- The fields of the record at the start of a text, and what follows the character that ends it. -/
def readFields (d : Char) (cs : List Char) : List (List Char) × List Char :=
  match _h : readField d cs with
  | (field, []) => ([field], [])
  | (field, c :: rest) =>
    if c = d then
      let (fields, rest) := readFields d rest
      (field :: fields, rest)
    else ([field], rest)
termination_by cs.length
decreasing_by
  have := readField_length d cs
  rw [_h] at this
  simp only [List.length_cons] at this
  omega

theorem readFields_nil (d : Char) : readFields d [] = ([[]], []) := by
  unfold readFields
  rfl

theorem readFields_length_le (d : Char) (cs : List Char) :
    (readFields d cs).2.length ≤ cs.length - 1 := by
  fun_induction readFields d cs with
  | case1 cs field h => simp
  | case2 cs field rest _ _ hr h ih =>
    have := readField_length d cs
    simp only [h, hr, List.length_cons] at this ih ⊢
    omega
  | case3 cs field c rest h hc =>
    have := readField_length d cs
    simp only [h, List.length_cons] at this ⊢
    omega

theorem readFields_length (d : Char) (cs : List Char) (h : cs ≠ []) :
    (readFields d cs).2.length < cs.length := by
  have := readFields_length_le d cs
  have := List.length_pos_iff.2 h
  omega

/-- The number of LFs in a text. -/
def lineFeeds (cs : List Char) : Nat := cs.count '\n'

/-- The records of a text that starts on a line. -/
def recordsFrom (d : Char) (line : Nat) (cs : List Char) : List Record :=
  match _h : cs.dropWhile isLineEnd with
  | [] => []
  | c :: body =>
    let read := readFields d (c :: body)
    ⟨line, read.1⟩ :: recordsFrom d (line + (lineFeeds cs - lineFeeds read.2)) read.2
termination_by cs.length
decreasing_by
  have hr := readFields_length d (c :: body) (List.cons_ne_nil _ _)
  have hd := (List.dropWhile_suffix (l := cs) isLineEnd).length_le
  rw [_h] at hd
  omega

/-- The text without a byte order mark at its start. -/
def withoutMark : List Char → List Char
  | '\uFEFF' :: cs => cs
  | cs => cs

/-- The records of a text. -/
def readRecords (d : Char) (cs : List Char) : List Record := recordsFrom d 1 (withoutMark cs)

/-! ## Writing -/

/-- Does a field need quotes? -/
def needsQuotes (d : Char) (field : List Char) : Bool :=
  field.any fun c => c == d || c == '"' || isLineEnd c

/-- A field with its quotes written twice. -/
def doubled (field : List Char) : List Char :=
  field.flatMap fun c => if c = '"' then ['"', '"'] else [c]

/-- A field, in quotes if it needs them. -/
def writeField (d : Char) (field : List Char) : List Char :=
  if needsQuotes d field then '"' :: (doubled field ++ ['"']) else field

/-- Fields with the delimiter between them. -/
def writeFields (d : Char) : List (List Char) → List Char
  | [] => []
  | [field] => writeField d field
  | field :: fields => writeField d field ++ d :: writeFields d fields

/-- A record with its LF. A record that would leave its line empty is written as an empty field in
quotes. -/
def writeRecord (d : Char) (fields : List (List Char)) : List Char :=
  let line := writeFields d fields
  (if line.isEmpty then ['"', '"'] else line) ++ ['\n']

/-- The text of records. -/
def writeRecords (d : Char) (records : List (List (List Char))) : List Char :=
  records.flatMap (writeRecord d)

end Scriptorium.Delimited
