import Mathlib.Data.List.Basic
import Scriptorium.Delimited.Record
import Scriptorium.Proofs.Text.Runs

/-!
# Reading back written records

What is written for records is read back as these records: `readField_writeField` for a field,
`readFields_writeRecord` for a record, `readRecords_writeRecords` for a text of records. Each step is stated
for a text that goes on, since it is the character after a field that ends it.
-/

namespace Scriptorium.Delimited

open Text

/-- A character that can separate fields: ASCII, and neither the quote nor a line end. -/
structure Separates (d : Char) : Prop where
  ascii : d.toNat < 128
  not_quote : d ≠ '"'
  not_lineEnd : isLineEnd d = false

variable {d : Char}

theorem endsField_self (d : Char) : endsField d d = true := by simp [endsField]

theorem endsField_lineFeed (d : Char) : endsField d '\n' = true := by simp [endsField, isLineEnd]

theorem Separates.ne_quote_of_endsField (hd : Separates d) {c : Char} (hc : endsField d c = true) :
    c ≠ '"' := by
  rintro rfl
  simp [endsField, isLineEnd, hd.not_quote.symm] at hc

theorem Separates.lineFeed_ne (hd : Separates d) : '\n' ≠ d := by
  rintro rfl
  exact absurd hd.not_lineEnd (by decide)

/-! ## Fields -/

theorem readPlain_append {field rest : List Char} (hfield : ∀ x ∈ field, endsField d x = false)
    (hrest : ∀ c ∈ rest.head?, endsField d c = true) : readPlain d (field ++ rest) = (field, rest) := by
  unfold readPlain
  rw [takeWhile_of_head? (by simpa using hfield) (by simpa using hrest),
    dropWhile_of_head? (by simpa using hfield) (by simpa using hrest)]

@[simp] theorem doubled_nil : doubled [] = [] := rfl

@[simp] theorem doubled_cons (x : Char) (field : List Char) :
    doubled (x :: field) = (if x = '"' then ['"', '"'] else [x]) ++ doubled field := rfl

theorem readQuoted_pair (cs : List Char) :
    readQuoted d ('"' :: '"' :: cs) = ('"' :: (readQuoted d cs).1, (readQuoted d cs).2) := by
  rw [readQuoted]

theorem readQuoted_close {rest : List Char} (hrest : ∀ c ∈ rest.head?, c ≠ '"') :
    readQuoted d ('"' :: rest) = readPlain d rest := by
  rw [readQuoted, if_pos rfl]
  rintro cs' - rfl
  exact hrest '"' rfl rfl

theorem readQuoted_of_ne {c : Char} (hc : c ≠ '"') (cs : List Char) :
    readQuoted d (c :: cs) = (c :: (readQuoted d cs).1, (readQuoted d cs).2) := by
  rw [readQuoted, if_neg hc]
  rintro cs' h -
  exact hc h

/-- A doubled field is read up to the quote after it. -/
theorem readQuoted_doubled (hd : Separates d) (field : List Char) {rest : List Char}
    (hrest : ∀ c ∈ rest.head?, endsField d c = true) :
    readQuoted d (doubled field ++ '"' :: rest) = (field, rest) := by
  induction field with
  | nil =>
    rw [doubled_nil, List.nil_append, readQuoted_close fun c hc => hd.ne_quote_of_endsField (hrest c hc)]
    have hnone : readPlain d ([] ++ rest) = ([], rest) := readPlain_append (by simp) hrest
    exact hnone
  | cons x field ih =>
    rw [doubled_cons]
    by_cases hx : x = '"'
    · rw [if_pos hx, List.append_assoc, List.cons_append, List.cons_append, List.nil_append,
        readQuoted_pair, ih, hx]
    · rw [if_neg hx, List.append_assoc, List.cons_append, List.nil_append, readQuoted_of_ne hx, ih]

theorem readField_of_head? {cs : List Char} (hcs : ∀ c ∈ cs.head?, c ≠ '"') : readField d cs = readPlain d cs := by
  unfold readField
  split
  · exact absurd rfl (hcs '"' rfl)
  · rfl

theorem needsQuotes_eq_false_iff {field : List Char} :
    needsQuotes d field = false ↔ ∀ x ∈ field, x ≠ '"' ∧ endsField d x = false := by
  simp only [needsQuotes, List.any_eq_false, endsField]
  refine forall₂_congr fun x _ => ?_
  cases isLineEnd x <;> by_cases h : x = '"' <;> simp [h]

/-- A written field is read back when a delimiter, a line end or nothing follows it. -/
theorem readField_writeField (hd : Separates d) (field : List Char) {rest : List Char}
    (hrest : ∀ c ∈ rest.head?, endsField d c = true) :
    readField d (writeField d field ++ rest) = (field, rest) := by
  unfold writeField
  split
  · have h := readQuoted_doubled hd field hrest
    simpa [readField] using h
  · next hquotes =>
    have hplain := needsQuotes_eq_false_iff.1 (Bool.eq_false_iff.2 hquotes)
    rw [readField_of_head?, readPlain_append (fun x hx => (hplain x hx).2) hrest]
    cases field with
    | nil => exact fun c hc => hd.ne_quote_of_endsField (hrest c hc)
    | cons x field => exact fun c hc => Option.some.inj hc ▸ (hplain x List.mem_cons_self).1

/-! ## Records -/

theorem readFields_of_readField {cs field rest : List Char} {c : Char}
    (h : readField d cs = (field, c :: rest)) :
    readFields d cs =
      if c = d then (field :: (readFields d rest).1, (readFields d rest).2) else ([field], rest) := by
  rw [readFields]
  split
  · rename_i field' h'
    rw [h] at h'
    simp at h'
  · rename_i field' c' rest' h'
    rw [h] at h'
    obtain ⟨rfl, rfl, rfl⟩ : field = field' ∧ c = c' ∧ rest = rest' := by simpa using h'
    rfl

theorem writeFields_cons_cons (field next : List Char) (fields : List (List Char)) :
    writeFields d (field :: next :: fields) = writeField d field ++ d :: writeFields d (next :: fields) := rfl

theorem readFields_of_readField_nil {cs field : List Char} (h : readField d cs = (field, [])) :
    readFields d cs = ([field], []) := by
  rw [readFields]
  split
  · next field' h' =>
    rw [h] at h'
    rw [(Prod.mk.inj h').1]
  · next field' c' rest' h' =>
    rw [h] at h'
    cases (Prod.mk.inj h').2

/-- Written fields are read back up to the end of their line. -/
theorem readFields_writeFields (hd : Separates d) {rest : List Char} (hrest : ∀ c ∈ rest.head?, isLineEnd c = true) :
    ∀ fields : List (List Char), fields ≠ [] →
      readFields d (writeFields d fields ++ rest) = (fields, rest.tail)
  | [], h => absurd rfl h
  | [field], _ => by
    have hread : readField d (writeField d field ++ rest) = (field, rest) :=
      readField_writeField hd field fun c hc => Bool.or_eq_true_iff.2 (.inr (hrest c hc))
    rw [writeFields]
    cases rest with
    | nil => exact readFields_of_readField_nil hread
    | cons c rest =>
      have hne : c ≠ d := fun h => Bool.eq_false_iff.1 hd.not_lineEnd (h ▸ hrest c rfl)
      rw [readFields_of_readField hread, if_neg hne, List.tail_cons]
  | field :: next :: fields, _ => by
    have ih := readFields_writeFields hd hrest (next :: fields) (by simp)
    have hread : readField d (writeField d field ++ d :: (writeFields d (next :: fields) ++ rest)) =
        (field, d :: (writeFields d (next :: fields) ++ rest)) :=
      readField_writeField hd field (by simp [endsField_self])
    rw [writeFields_cons_cons, List.append_assoc, List.cons_append, readFields_of_readField hread, if_pos rfl, ih]

/-- A record that is written as an empty line has no more than one empty field. -/
theorem writeFields_eq_nil {fields : List (List Char)} (h : writeFields d fields = []) (hne : fields ≠ []) :
    fields = [[]] := by
  match fields, hne with
  | [field], _ =>
    simp only [writeFields, writeField] at h
    split at h
    · cases h
    · rw [h]
  | field :: next :: fields, _ =>
    simp [writeFields_cons_cons] at h

/-- A written record is read back. -/
theorem readFields_writeRecord (hd : Separates d) {fields : List (List Char)} (hne : fields ≠ [])
    (rest : List Char) : readFields d (writeRecord d fields ++ rest) = (fields, rest) := by
  unfold writeRecord
  by_cases hempty : writeFields d fields = []
  · have hquoted : readField d ('"' :: '"' :: '\n' :: rest) = ([], '\n' :: rest) :=
      readQuoted_doubled hd [] (by simp [endsField_lineFeed])
    obtain rfl := writeFields_eq_nil hempty hne
    simp [hempty, readFields_of_readField hquoted, hd.lineFeed_ne]
  · have hread : readFields d (writeFields d fields ++ '\n' :: rest) = (fields, rest) :=
      readFields_writeFields hd (by simp [isLineEnd]) fields hne
    simpa [hempty] using hread

theorem writeField_cases (d : Char) (field : List Char) :
    (∃ body, writeField d field = '"' :: body) ∨
      (writeField d field = field ∧ ∀ x ∈ field, x ≠ '"' ∧ endsField d x = false) := by
  unfold writeField
  split
  · exact .inl ⟨_, rfl⟩
  · rename_i hquotes
    exact .inr ⟨rfl, needsQuotes_eq_false_iff.1 (Bool.eq_false_iff.2 hquotes)⟩

/-- A written record begins with a quote, the delimiter, or a plain character of its first field. -/
theorem exists_cons_writeRecord (d : Char) (first : List Char) (fields : List (List Char)) :
    ∃ c cs, writeRecord d (first :: fields) = c :: cs ∧
      (c = '"' ∨ c = d ∨ (first.head? = some c ∧ endsField d c = false)) := by
  unfold writeRecord
  rcases writeField_cases d first with ⟨body, hq⟩ | ⟨hp, hplain⟩
  · cases fields with
    | nil => exact ⟨'"', body ++ ['\n'], by simp [writeFields, hq], .inl rfl⟩
    | cons next fields =>
      exact ⟨'"', body ++ d :: writeFields d (next :: fields) ++ ['\n'],
        by simp [writeFields_cons_cons, hq], .inl rfl⟩
  · cases first with
    | nil =>
      cases fields with
      | nil => exact ⟨'"', ['"', '\n'], by simp [writeFields, hp], .inl rfl⟩
      | cons next fields =>
        exact ⟨d, writeFields d (next :: fields) ++ ['\n'], by simp [writeFields_cons_cons, hp],
          .inr (.inl rfl)⟩
    | cons x first =>
      have hx := (hplain x (by simp)).2
      cases fields with
      | nil => exact ⟨x, first ++ ['\n'], by simp [writeFields, hp], .inr (.inr ⟨rfl, hx⟩)⟩
      | cons next fields =>
        exact ⟨x, first ++ d :: writeFields d (next :: fields) ++ ['\n'],
          by simp [writeFields_cons_cons, hp], .inr (.inr ⟨rfl, hx⟩)⟩

/-! ## Texts of records -/

/-- The record at the start of a text that does not begin with a line end. -/
theorem recordsFrom_cons {c : Char} (hc : isLineEnd c = false) (line : Nat) (cs : List Char) :
    recordsFrom d line (c :: cs) = ⟨line, (readFields d (c :: cs)).1⟩ ::
      recordsFrom d (line + (lineFeeds (c :: cs) - lineFeeds (readFields d (c :: cs)).2))
        (readFields d (c :: cs)).2 := by
  have hdrop : (c :: cs).dropWhile isLineEnd = c :: cs := by simp [hc]
  rw [recordsFrom]
  split
  · rename_i h
    rw [hdrop] at h
    cases h
  · rename_i c' body h
    rw [hdrop] at h
    obtain ⟨rfl, rfl⟩ := List.cons.inj h
    rfl

theorem recordsFrom_nil (line : Nat) : recordsFrom d line [] = [] := by
  rw [recordsFrom]
  split
  · rfl
  · rename_i h
    cases h

theorem map_fields_recordsFrom (hd : Separates d) (records : List (List (List Char)))
    (hne : ∀ fields ∈ records, fields ≠ []) (line : Nat) :
    (recordsFrom d line (writeRecords d records)).map Record.fields = records := by
  induction records generalizing line with
  | nil => rw [writeRecords, List.flatMap_nil, recordsFrom_nil, List.map_nil]
  | cons fields records ih =>
    have hfields : fields ≠ [] := hne fields (by simp)
    obtain ⟨c, cs, hcs, hc⟩ : ∃ c cs, writeRecord d fields = c :: cs ∧ isLineEnd c = false := by
      obtain ⟨first, fields, rfl⟩ := List.exists_cons_of_ne_nil hfields
      obtain ⟨c, cs, hcs, rfl | rfl | ⟨-, hc⟩⟩ := exists_cons_writeRecord d first fields
      · exact ⟨_, cs, hcs, by decide⟩
      · exact ⟨_, cs, hcs, hd.not_lineEnd⟩
      · exact ⟨_, cs, hcs, (Bool.or_eq_false_iff.1 hc).2⟩
    have hread := readFields_writeRecord hd hfields (writeRecords d records)
    have hwrite : writeRecords d (fields :: records) = c :: (cs ++ writeRecords d records) := by
      rw [writeRecords, List.flatMap_cons, hcs, List.cons_append, writeRecords]
    rw [hcs, List.cons_append] at hread
    rw [hwrite, recordsFrom_cons hc, List.map_cons, hread,
      ih (fun fields h => hne fields (List.mem_cons_of_mem _ h))]

theorem withoutMark_of_ne {c : Char} (hc : c ≠ '\uFEFF') (cs : List Char) :
    withoutMark (c :: cs) = c :: cs := by
  unfold withoutMark
  split
  · rename_i h
    exact absurd (List.cons.inj h).1 hc
  · rfl

/-- The records of a text are read back, unless its first field begins with a byte order mark. -/
theorem readRecords_writeRecords (hd : Separates d) {first : List Char} {header : List (List Char)}
    (hmark : first.head? ≠ some '\uFEFF') {records : List (List (List Char))}
    (hne : ∀ fields ∈ records, fields ≠ []) :
    (readRecords d (writeRecords d ((first :: header) :: records))).map Record.fields =
      (first :: header) :: records := by
  obtain ⟨c, cs, hcs, hc⟩ := exists_cons_writeRecord d first header
  have hmark' : c ≠ '\uFEFF' := by
    rintro rfl
    rcases hc with h | h | ⟨h, -⟩
    · exact absurd h (by decide)
    · exact absurd hd.ascii (by rw [← h]; decide)
    · exact hmark h
  have hwithout : withoutMark (writeRecords d ((first :: header) :: records)) =
      writeRecords d ((first :: header) :: records) := by
    rw [writeRecords, List.flatMap_cons, hcs, List.cons_append, withoutMark_of_ne hmark']
  rw [readRecords, hwithout]
  refine map_fields_recordsFrom hd _ ?_ 1
  intro fields hfields
  rcases List.mem_cons.1 hfields with rfl | hfields
  · simp
  · exact hne fields hfields

end Scriptorium.Delimited
