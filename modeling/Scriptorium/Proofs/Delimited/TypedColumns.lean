import Mathlib.Order.Bounds.Basic
import Scriptorium.Proofs.Delimited.ProcessedRoundTrip

/-!
# Types of processed tables

Processing a loaded table loses nothing (`processed_typed`): the rows that are not blank stay, in order, each column
gets the least type that admits all its texts, and each text is read as a value of that type. Inference and reading go
through the same readers, so no text stays in a column of numbers or truth values.
-/

namespace Scriptorium

open Text Decimal

variable {cs : List Char} {type : ColumnType}

/-! ## What a type admits -/

/-- Does the text write a value of the type? -/
def ColumnType.Admits (cs : List Char) : ColumnType → Prop
  | .empty => False
  | .integer => (readInteger? cs).isSome
  | .float => (readFinite? cs).isSome
  | .boolean => (readBoolean? cs).isSome
  | .text => True

theorem ColumnType.le_iff {a b : ColumnType} :
    a ≤ b ↔ a = b ∨ a = .empty ∨ (a = .integer ∧ b = .float) ∨ b = .text := by
  cases a <;> cases b <;> decide

theorem readFinite?_of_readInteger? (h : (readInteger? cs).isSome = true) : (readFinite? cs).isSome = true := by
  obtain ⟨x, hx, hfinite⟩ := Cell.exists_readFinite?_of_readInteger? h
  rw [readFinite?, hx, Option.filter_some, if_pos hfinite]
  rfl

/-- A truth value begins with a letter, and it is none of the words that write a float. -/
theorem readFinite?_of_readBoolean? (h : (readBoolean? cs).isSome = true) : readFinite? cs = none := by
  have hwords : cs.map Char.toLower = "true".toList ∨ cs.map Char.toLower = "false".toList := by
    unfold readBoolean? at h
    dsimp only at h
    split_ifs at h with htrue hfalse
    · exact .inl htrue
    · exact .inr hfalse
    · cases h
  obtain ⟨c, tail, rfl, hc⟩ : ∃ c tail, cs = c :: tail ∧ (c.toLower = 't' ∨ c.toLower = 'f') := by
    cases cs with
    | nil => rcases hwords with hwords | hwords <;> cases hwords
    | cons c tail => exact ⟨c, tail, rfl, hwords.imp (fun h => (List.cons.inj h).1) fun h => (List.cons.inj h).1⟩
  have hne {x : Char} (hx : x.toLower ≠ 't' ∧ x.toLower ≠ 'f') : c ≠ x := by
    rintro rfl
    exact hc.elim hx.1 hx.2
  have hdigit : c.isDigit = false := by
    rw [← Bool.not_eq_true]
    intro hdigit
    have hlower : c.toLower = c := by
      simp only [Char.isDigit, Bool.and_eq_true, decide_eq_true_eq] at hdigit
      rw [Char.toLower, dif_neg]
      exact fun hupper => absurd (UInt32.le_trans hupper.1 hdigit.2) (by decide)
    rw [hlower] at hc
    rcases hc with rfl | rfl <;> cases hdigit
  have hsign : spanSign (c :: tail) = (false, c :: tail) := by
    rw [spanSign.eq_def]
    split
    · next heq => exact absurd (List.cons.inj heq).1 (hne (by decide))
    · next heq => exact absurd (List.cons.inj heq).1 (hne (by decide))
    · rfl
  have hmagnitude : readMagnitude? (c :: tail) = none := by
    have hpoint : c ≠ '.' := hne (by decide)
    simp [readMagnitude?, spanDigits, hdigit, hpoint]
  rw [readFinite?, readFloat?, hsign]
  rcases hwords with hwords | hwords
  all_goals
    simp only [hwords, String.ofList_toList, hmagnitude]
    decide

/-- The type of a text is the least one that admits it. -/
theorem classifyText_le_iff (hfull : isBlankText cs = false) :
    classifyText cs ≤ type ↔ type.Admits (trim cs) := by
  have hne : (trim cs).isEmpty = false := by
    rw [← Bool.not_eq_true, List.isEmpty_iff, trim_eq_nil_iff, hfull]
    exact Bool.false_ne_true
  rw [classifyText, hne, if_neg Bool.false_ne_true, ColumnType.le_iff]
  have hnotBoolean (h : (readFinite? (trim cs)).isSome = true) : (readBoolean? (trim cs)).isSome = false := by
    rw [← Bool.not_eq_true]
    intro hboolean
    rw [readFinite?_of_readBoolean? hboolean] at h
    cases h
  by_cases hinteger : (readInteger? (trim cs)).isSome = true
  · have hfloat := readFinite?_of_readInteger? hinteger
    cases type <;> simp [ColumnType.Admits, hinteger, hfloat, hnotBoolean hfloat]
  · by_cases hfloat : (readFinite? (trim cs)).isSome = true
    · cases type <;> simp [ColumnType.Admits, hinteger, hfloat, hnotBoolean hfloat]
    · by_cases hboolean : (readBoolean? (trim cs)).isSome = true
      · cases type <;> simp [ColumnType.Admits, hinteger, hfloat, hboolean]
      · cases type <;> simp [ColumnType.Admits, hinteger, hfloat, hboolean]

/-! ## Cells -/

namespace Cell

/-- The cell that a text becomes in a column of a type: nothing if it is blank, or else the value of that type that it
writes without the blanks at either end. -/
inductive ReadAs (s : String) : ColumnType → Cell → Prop where
  | null {type : ColumnType} (blank : isBlankText s.toList = true) : ReadAs s type .null
  | value {type : ColumnType} {c : Cell} (full : isBlankText s.toList = false)
      (writes : Writes (trimString s) type c) : ReadAs s type c
  | text (full : isBlankText s.toList = false) : ReadAs s .text (.text (trimString s))

theorem ReadAs.eq_null_iff {s : String} {c : Cell} (h : ReadAs s type c) :
    c = .null ↔ isBlankText s.toList = true := by
  cases h with
  | null blank => exact iff_of_true rfl blank
  | value full writes =>
    refine iff_of_false ?_ (by simp [full])
    rintro rfl
    cases writes
  | text full => exact iff_of_false nofun (by simp [full])

/-- A type that admits a text reads it as a value. -/
theorem readAs_coerce {s : String} (h : (text s).classify ≤ type) :
    ReadAs s type ((text s).trimmed.coerce type) := by
  have htrim := trimmed_trimmed (text s)
  have hsettled : Settled type ((text s).trimmed.coerce type) :=
    settled_coerce htrim (by rwa [← trimmed, classify_trimmed])
  have hblank : (text s).trimmed.isBlank = isBlankText s.toList := isBlank_trimmed (text s)
  rcases coerce_cases type (text s).trimmed with heq | ⟨hempty, heq⟩ | ⟨s', value, htext, hs', heq, hwrites⟩
  · rw [heq] at hsettled ⊢
    cases hsettled with
    | text _ hne => exact .text (hblank ▸ not_isBlank_of_trimmed htrim hne)
  · rw [heq]
    rw [hempty] at hblank
    exact .null hblank.symm
  · rw [heq]
    obtain rfl : trimString s = s' := Cell.text.inj htext
    exact .value (hblank ▸ not_isBlank_of_trimmed htrim hs') hwrites

end Cell

/-! ## Tables -/

namespace Table

variable {t : Table} {i : ℕ}

/-- The rows that processing keeps. -/
def fullRows (t : Table) : List (List Cell) := t.rows.filter fun row => row.any (!·.isBlank)

theorem tidyRows_eq (t : Table) : tidyRows t.rows = t.fullRows.map (·.map Cell.trimmed) := by
  rw [tidyRows, fullRows, List.filter_map]
  congr 2
  funext row
  simp [Function.comp_def, List.not_all_eq_any_not]

/-- The type of a column is the least one that admits each text in it that is not blank. -/
theorem isLeast_columnType (htext : ∀ row ∈ t.rows, ∀ c ∈ row, ∃ s, c = .text s) (i : ℕ) :
    IsLeast {type : ColumnType | ∀ s, .text s ∈ column t.rows i → isBlankText s.toList = false →
      type.Admits (trim s.toList)} (t.columnType i) := by
  refine ⟨fun s hs hfull => (classifyText_le_iff hfull).1 (classify_le_typeOf hs), fun type htype => ?_⟩
  refine typeOf_le_iff.2 fun c hc => ?_
  obtain ⟨row, hrow, hcell⟩ := mem_column.1 hc
  obtain ⟨s, rfl⟩ := htext row hrow c (List.mem_of_getElem? hcell)
  cases hblank : isBlankText s.toList with
  | true =>
    have hempty : (Cell.text s).classify = .empty := Cell.isBlank_iff_classify.1 hblank
    rw [hempty]
    exact ColumnType.empty_le type
  | false => exact (classifyText_le_iff hblank).2 (htype s hc hblank)

/-- Each text of a row is read as a value of its column's type. -/
theorem forall₂_rows_process (htext : ∀ row ∈ t.rows, ∀ c ∈ row, ∃ s, c = .text s) :
    List.Forall₂ (fun row row' => ∀ i < t.columnCount, ∃ s c, row[i]? = some (.text s) ∧ row'[i]? = some c ∧
      c.ReadAs s (t.columnType i)) t.fullRows t.process.rows := by
  rw [rows_process, tidyRows_eq, List.map_map, List.forall₂_map_right_iff, List.forall₂_same]
  intro row hrow i hi
  have hmem := (List.mem_filter.1 hrow).1
  have hlength : i < row.length := by rwa [t.rectangular row hmem]
  obtain ⟨s, hs⟩ := htext row hmem row[i] (List.getElem_mem hlength)
  have hcell : row[i]? = some (.text s) := by rw [List.getElem?_eq_getElem hlength, hs]
  refine ⟨s, _, hcell, ?_, Cell.readAs_coerce (classify_le_typeOf (mem_column.2 ⟨row, hmem, hcell⟩))⟩
  rw [Function.comp_apply, getElem?_coerce (getElem?_typesOf hi), List.getElem?_map, hcell, ← tidyRows_eq,
    typeOf_column_tidyRows]
  rfl

end Table

namespace Delimited

/-- Processing a loaded table loses nothing. The columns keep their names; the rows are, in order, those with a cell
that is not blank, all of the header's length; the type of a column is the least one that admits all its texts that are
not blank; and every cell is read as a value of its column's type, where a blank one and no other becomes nothing. -/
theorem processed_typed {d : Char} {t : Table} {skipped : List Skipped} (hload : load d cs = (.ok t, skipped)) :
    t.process.names = t.names ∧ (∀ row ∈ t.process.rows, row.length = t.names.length) ∧
    (∀ a b : ColumnType, a ≤ b ↔ a = b ∨ a = .empty ∨ (a = .integer ∧ b = .float) ∨ b = .text) ∧
    (∀ i < t.columnCount, IsLeast {type : ColumnType | ∀ s, .text s ∈ Table.column t.rows i →
      isBlankText s.toList = false → type.Admits (trim s.toList)} (t.process.columnType i)) ∧
    List.Forall₂ (fun row row' => ∀ i < t.columnCount, ∃ s c, row[i]? = some (.text s) ∧ row'[i]? = some c ∧
      c.ReadAs s (t.process.columnType i) ∧ (c = .null ↔ isBlankText s.toList = true)) t.fullRows t.process.rows := by
  have htext := (loaded_of_load hload).exists_text
  refine ⟨rfl, t.process.rectangular, fun _ _ => ColumnType.le_iff, fun i hi => ?_,
    (Table.forall₂_rows_process htext).imp ?_⟩
  · rw [Table.columnType_process t hi]
    exact Table.isLeast_columnType htext i
  · intro row row' h i hi
    obtain ⟨s, c, hs, hc, hread⟩ := h i hi
    exact ⟨s, c, hs, hc, (Table.columnType_process t hi).symm ▸ hread, hread.eq_null_iff⟩

/-- A sign, a number beyond 64 bits beside a whole one, an infinity, blanks of several kinds and a blank row. -/
theorem processed_typed_mixed : ∃ cs t,
    cs = "n, x ,b,s,e\n+7,9223372036854775808,TRUE, inf ,\n\u00a0,\u2003,,,\n,-0,false,7,\u3000\n".toList ∧
    load comma cs = (.ok t, []) ∧
    t.process.columns = [⟨"n", .integer⟩, ⟨"x", .float⟩, ⟨"b", .boolean⟩, ⟨"s", .text⟩, ⟨"e", .empty⟩] ∧
    t.rowCount = 3 ∧ t.process.rowCount = 2 ∧
    IsLeast {type : ColumnType | ∀ s, .text s ∈ Table.column t.rows 1 → isBlankText s.toList = false →
      type.Admits (trim s.toList)} .float := by
  obtain ⟨cs, hcs⟩ : ∃ cs,
    cs = "n, x ,b,s,e\n+7,9223372036854775808,TRUE, inf ,\n\u00a0,\u2003,,,\n,-0,false,7,\u3000\n".toList := ⟨_, rfl⟩
  have hfacts : (load comma cs).1.toOption.map
        (fun t => (t.process.columns, t.rowCount, t.fullRows.length, t.columnCount, t.process.columnType 1)) =
        some ([⟨"n", .integer⟩, ⟨"x", .float⟩, ⟨"b", .boolean⟩, ⟨"s", .text⟩, ⟨"e", .empty⟩], 3, 2, 5, .float) ∧
      (load comma cs).2 = [] := by
    subst hcs
    decide +kernel
  rcases hload : load comma cs with ⟨e | t, skipped⟩
  · rw [hload] at hfacts
    cases hfacts.1
  rw [hload] at hfacts
  obtain ⟨hcolumns, htable⟩ := Prod.mk.inj (Option.some.inj hfacts.1)
  simp only [Prod.mk.injEq] at htable
  obtain ⟨hcount, hfull, hwidth, htype⟩ := htable
  obtain rfl : skipped = [] := hfacts.2
  obtain ⟨-, -, -, hleast, hrows⟩ := processed_typed hload
  refine ⟨cs, t, hcs, hload, hcolumns, hcount, ?_, ?_⟩
  · rw [Table.rowCount, ← hrows.length_eq, hfull]
  · rw [← htype]
    exact hleast 1 (by rw [hwidth]; decide)

end Delimited

end Scriptorium
