import Scriptorium.Proofs.Decimal.ReadBack
import Scriptorium.Proofs.Table.Processing

/-!
# Cells read back

The cells that processing leaves in a column are read back from their shown text, once the type of the column is
known (`Settled.coerce_written`). The shown texts give the type as well, with one exception: floats that are all
shown as whole numbers are taken for a column of integers (`typeOf_written`, `typeOf_written_of_showsWhole`).
-/

namespace Scriptorium

open Text Decimal

namespace Cell

variable {c : Cell} {type : ColumnType} {s : String} {cs : List Char}

/-- The shown text of a cell, as a cell. -/
def written (c : Cell) : Cell := .text c.shown

/-- Is the cell shown as a whole number of 64 bits? -/
def showsWhole (c : Cell) : Bool := (readInteger? c.shown.toList).isSome

/-- What processing leaves in a column of a type: nothing, or a value of the type. -/
inductive Settled : ColumnType → Cell → Prop where
  | null {type : ColumnType} : Settled type .null
  | integer (n : Int64) : Settled .integer (.integer n)
  | float {x : Float} (finite : x.isFinite = true) : Settled .float (.float x)
  | boolean (b : Bool) : Settled .boolean (.boolean b)
  | text {s : String} (trimmed : (text s).trimmed = text s) (ne : s ≠ "") : Settled .text (.text s)

/-! ## Types of texts -/

theorem classifyText_eq (htrim : trim cs = cs) (hne : cs ≠ []) :
    classifyText cs =
      if (readInteger? cs).isSome then .integer
      else if (readFinite? cs).isSome then .float
      else if (readBoolean? cs).isSome then .boolean
      else .text := by
  have hempty : cs.isEmpty = false := by simpa using hne
  rw [classifyText, htrim, hempty]
  rfl

theorem exists_readFinite?_of_readInteger? (h : (readInteger? cs).isSome = true) :
    ∃ x, readFloat? cs = some x ∧ x.isFinite = true := by
  obtain ⟨n, hn⟩ := Option.isSome_iff_exists.1 h
  obtain ⟨i, hi, -⟩ := Option.map_eq_some_iff.1 hn
  exact exists_readFloat?_of_readInt? hi

theorem exists_of_readFinite? (h : (readFinite? cs).isSome = true) :
    ∃ x, readFloat? cs = some x ∧ x.isFinite = true := by
  obtain ⟨x, hx⟩ := Option.isSome_iff_exists.1 h
  exact ⟨x, Option.filter_eq_some_iff.1 hx⟩

/-- Coercing a trimmed text to a type that admits it leaves a value of that type. -/
theorem settled_coerce (htrim : (text s).trimmed = text s) (h : (text s).classify ≤ type) :
    Settled type ((text s).coerce type) := by
  by_cases hs : s = ""
  · subst hs
    exact .null
  have hempty : s.isEmpty = false := by simpa using hs
  have hclass := classifyText_eq (trimmed_text_iff.1 htrim) (by simpa using hs)
  rw [classify, hclass] at h
  simp only [coerce, hempty, Bool.false_eq_true, if_false]
  split_ifs at h with hinteger hfloat hboolean
  · obtain ⟨n, hn⟩ := Option.isSome_iff_exists.1 hinteger
    obtain ⟨x, hx, hfinite⟩ := exists_readFinite?_of_readInteger? hinteger
    cases type with
    | integer => rw [hn]; exact .integer n
    | float => rw [hx]; exact .float hfinite
    | text => exact .text htrim hs
    | empty => cases h
    | boolean => cases h
  · obtain ⟨x, hx, hfinite⟩ := exists_of_readFinite? hfloat
    cases type with
    | float => rw [hx]; exact .float hfinite
    | text => exact .text htrim hs
    | empty => cases h
    | integer => cases h
    | boolean => cases h
  · obtain ⟨b, hb⟩ := Option.isSome_iff_exists.1 hboolean
    cases type with
    | boolean => rw [hb]; exact .boolean b
    | text => exact .text htrim hs
    | empty => cases h
    | integer => cases h
    | float => cases h
  · obtain rfl : type = .text := le_antisymm (ColumnType.le_text _) h
    exact .text htrim hs

/-! ## Shown values -/

theorem readInteger?_shown (n : Int64) : readInteger? (integer n).shown.toList = some n := by
  have hmin := n.le_toInt
  have hmax := n.toInt_lt
  rw [readInteger?, shown, readInt?_toString, Option.map_some, Int64.ofInt_toInt]
  · exact hmin
  · exact Int.le_of_lt_add_one hmax

theorem readFloat?_shown {x : Float} (h : x.isFinite = true) : readFloat? (float x).shown.toList = some x :=
  readFloat?_shortestText (not_isNaN_of_isFinite h).1 (not_isNaN_of_isFinite h).2

namespace Settled

theorem classify_le (h : Settled type c) : c.classify ≤ type := by
  cases h with
  | null => exact ColumnType.empty_le _
  | text => exact ColumnType.le_text _
  | _ => exact le_rfl

theorem trimmed_written (h : Settled type c) : c.written.trimmed = c.written := by
  rw [written, trimmed_text_iff]
  cases h with
  | null => rfl
  | integer n =>
    refine trim_of_all fun c hc => ?_
    rcases Json.eq_or_isDigit_of_mem_toString hc with rfl | hdigit
    · rfl
    · exact isBlank_of_isDigit hdigit
  | float hfinite =>
    obtain ⟨hnan, hinf⟩ := not_isNaN_of_isFinite hfinite
    exact trim_of_all fun c hc => not_isBlank_of_mem_shortestText hnan hinf hc
  | boolean b => cases b <;> decide
  | text htrim => exact trimmed_text_iff.1 htrim

theorem shown_ne_empty (h : Settled type c) (hblank : c.isBlank = false) : c.shown ≠ "" := by
  intro hshown
  cases h with
  | null => cases hblank
  | integer n =>
    have hread := readInteger?_shown n
    rw [hshown] at hread
    cases hread
  | float hfinite =>
    have hread := readFloat?_shown hfinite
    rw [hshown] at hread
    cases hread
  | boolean b => cases b <;> exact absurd hshown (by decide)
  | text _ hne => exact hne hshown

theorem isBlank_written (h : Settled type c) (hblank : c.isBlank = false) : c.written.isBlank = false :=
  not_isBlank_of_trimmed h.trimmed_written (h.shown_ne_empty hblank)

theorem eq_null (h : Settled type c) (hblank : c.isBlank = true) : c = .null := by
  cases h with
  | null => rfl
  | text htrim hne =>
    rw [not_isBlank_of_trimmed htrim hne] at hblank
    cases hblank
  | _ => cases hblank

/-- A cell is read back from its shown text as a value of its column's type. -/
theorem coerce_written (h : Settled type c) : c.written.coerce type = c := by
  cases hblank : c.isBlank with
  | true =>
    obtain rfl := h.eq_null hblank
    rfl
  | false =>
    have hempty : c.shown.isEmpty = false := by simpa using h.shown_ne_empty hblank
    simp only [written, coerce, hempty, Bool.false_eq_true, if_false]
    cases h with
    | null => cases hblank
    | integer n => rw [readInteger?_shown n]; rfl
    | float hfinite => rw [readFloat?_shown hfinite]; rfl
    | boolean b => cases b <;> rfl
    | text => rfl

theorem classify_written_of_showsWhole (h : Settled type c) (hwhole : c.showsWhole = true) :
    c.written.classify = .integer := by
  have hne : c.shown.toList ≠ [] := by
    intro hnil
    rw [showsWhole, hnil] at hwhole
    cases hwhole
  rw [written, classify, classifyText_eq (trimmed_text_iff.1 h.trimmed_written) hne]
  exact if_pos hwhole

theorem classify_written (h : Settled type c) (hwhole : c.showsWhole = false) :
    c.written.classify = c.classify := by
  cases h with
  | null => rfl
  | integer n =>
    rw [showsWhole, readInteger?_shown n] at hwhole
    cases hwhole
  | @float x hfinite =>
    have hsettled : Settled .float (.float x) := .float hfinite
    have hne : (Cell.float x).shown.toList ≠ [] := by simpa using hsettled.shown_ne_empty rfl
    have hread : (readFinite? (Cell.float x).shown.toList).isSome = true := by
      rw [readFinite?, readFloat?_shown hfinite, Option.filter_some, if_pos hfinite]
      rfl
    rw [showsWhole] at hwhole
    show classifyText (Cell.float x).shown.toList = .float
    rw [classifyText_eq (trimmed_text_iff.1 hsettled.trimmed_written) hne, hwhole, hread]
    rfl
  | boolean b => cases b <;> rfl
  | text => rfl

theorem integer_le (h : Settled type c) (hwhole : c.showsWhole = true) : .integer ≤ type := by
  cases h with
  | null => cases hwhole
  | integer => exact le_rfl
  | float => rfl
  | boolean b => cases b <;> cases hwhole
  | text => exact ColumnType.le_text _

theorem classify_written_le (h : Settled type c) : c.written.classify ≤ type := by
  cases hwhole : c.showsWhole with
  | true => exact (h.classify_written_of_showsWhole hwhole).trans_le (h.integer_le hwhole)
  | false => exact (h.classify_written hwhole).trans_le h.classify_le

/-- Only a float can be shown as a value of another type. -/
theorem classify_written_of_ne (h : Settled type c) (hne : type ≠ .float) : c.written.classify = c.classify := by
  cases hwhole : c.showsWhole with
  | false => exact h.classify_written hwhole
  | true =>
    rw [h.classify_written_of_showsWhole hwhole]
    cases h with
    | null => cases hwhole
    | integer => rfl
    | float => exact absurd rfl hne
    | boolean b => cases b <;> cases hwhole
    | text htrim hs =>
      have hsettled : Settled .text (.text _) := .text htrim hs
      exact (hsettled.classify_written_of_showsWhole hwhole).symm

end Settled

end Cell

namespace Table

variable {cells : List Cell}

/-- The shown texts of cells have the type of the cells, unless these are floats that are all shown as whole
numbers. -/
theorem typeOf_written (hcells : ∀ c ∈ cells, c.Settled (typeOf cells))
    (h : typeOf cells = .float → ∃ c ∈ cells, c.isBlank = false ∧ c.showsWhole = false) :
    typeOf (cells.map Cell.written) = typeOf cells := by
  refine typeOf_eq_of_le (List.forall_mem_map.2 fun c hc => (hcells c hc).classify_written_le) fun c hc => ?_
  by_cases hfloat : typeOf cells = .float
  · -- one float that is not shown as a whole number is enough
    obtain ⟨c', hc', hblank, hwhole⟩ := h hfloat
    have hsettled := hcells c' hc'
    have hclass : c'.classify = .float := by
      rw [hfloat] at hsettled
      cases hsettled with
      | null => cases hblank
      | float => rfl
    calc c.classify ≤ typeOf cells := classify_le_typeOf hc
      _ = c'.written.classify := by rw [hsettled.classify_written hwhole, hclass, hfloat]
      _ ≤ typeOf (cells.map Cell.written) := classify_le_typeOf (List.mem_map_of_mem hc')
  · rw [← (hcells c hc).classify_written_of_ne hfloat]
    exact classify_le_typeOf (List.mem_map_of_mem hc)

theorem typeOf_written_of_showsWhole (hcells : ∀ c ∈ cells, c.Settled (typeOf cells))
    (hfloat : typeOf cells = .float) (h : ∀ c ∈ cells, c.isBlank = false → c.showsWhole = true) :
    typeOf (cells.map Cell.written) = .integer := by
  refine le_antisymm (typeOf_le_iff.2 (List.forall_mem_map.2 fun c hc => ?_)) ?_
  · cases hblank : c.isBlank with
    | false => exact ((hcells c hc).classify_written_of_showsWhole (h c hc hblank)).le
    | true =>
      rw [(hcells c hc).eq_null hblank]
      exact ColumnType.empty_le _
  · -- cells that are all blank would have the least type
    obtain ⟨c, hc, hblank⟩ : ∃ c ∈ cells, c.isBlank = false := by
      by_contra hall
      have hle : typeOf cells ≤ .empty := typeOf_le_iff.2 fun c hc => by
        rw [Cell.isBlank_iff_classify.1 (by simpa using fun h => hall ⟨c, hc, h⟩)]
      rw [hfloat] at hle
      cases hle
    rw [← (hcells c hc).classify_written_of_showsWhole (h c hc hblank)]
    exact classify_le_typeOf (List.mem_map_of_mem hc)

end Table

end Scriptorium
