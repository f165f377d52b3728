import Scriptorium.Proofs.Table.Types
import Scriptorium.Proofs.Text.Trim

/-!
# Processed tables

Processing changes cells, but no cell leaves the bounds of its column: the type of a coerced cell lies between
its own and the type of the column (`Cell.classify_le_coerce`, `Cell.coerce_classify_le`). So each column
keeps its type, and a processed table is a fixed point of processing (`process_fixed`).
-/

namespace Scriptorium

open Text

namespace Cell

variable {c : Cell} {type : ColumnType}

/-! ## Trimmed cells -/

@[simp] theorem trimmed_trimmed (c : Cell) : c.trimmed.trimmed = c.trimmed := by
  cases c with
  | text s => simp [trimmed, trimString]
  | _ => rfl

@[simp] theorem classify_trimmed (c : Cell) : c.trimmed.classify = c.classify := by
  cases c with
  | text s => simp [trimmed, trimString, classify, classifyText]
  | _ => rfl

theorem isBlank_iff_classify : c.isBlank = true ↔ c.classify = .empty := by
  cases c with
  | text s =>
    rw [isBlank, ← trim_eq_nil_iff, classify, classifyText]
    split
    next h => exact iff_of_true (List.isEmpty_iff.1 h) rfl
    next h =>
      refine iff_of_false (fun hnil => h (List.isEmpty_iff.2 hnil)) ?_
      split_ifs <;> simp
  | null => exact iff_of_true rfl rfl
  | integer n => exact iff_of_false (by simp [isBlank]) (by simp [classify])
  | float x => exact iff_of_false (by simp [isBlank]) (by simp [classify])
  | boolean b => exact iff_of_false (by simp [isBlank]) (by simp [classify])

@[simp] theorem isBlank_trimmed (c : Cell) : c.trimmed.isBlank = c.isBlank := by
  rw [Bool.eq_iff_iff, isBlank_iff_classify, isBlank_iff_classify, classify_trimmed]

theorem trimmed_text_iff {s : String} : (text s).trimmed = text s ↔ trim s.toList = s.toList := by
  rw [trimmed, text.injEq, trimString, ← String.toList_inj, String.toList_ofList]

theorem not_isBlank_of_trimmed {s : String} (h : (text s).trimmed = text s) (hne : s ≠ "") :
    (text s).isBlank = false := by
  rw [isBlank, ← Bool.not_eq_true, ← trim_eq_nil_iff, trimmed_text_iff.1 h]
  simpa using hne

/-! ## Coerced cells -/

/-- A value that a text writes, as a cell of the type. -/
inductive Writes (s : String) : ColumnType → Cell → Prop where
  | integer {n : Int64} (read : readInteger? s.toList = some n) : Writes s .integer (.integer n)
  | float {x : Float} (read : Decimal.readFloat? s.toList = some x) : Writes s .float (.float x)
  | boolean {b : Bool} (read : readBoolean? s.toList = some b) : Writes s .boolean (.boolean b)

theorem Writes.classify {s : String} {value : Cell} (h : Writes s type value) : value.classify = type := by
  cases h <;> rfl

/-- Coercing leaves a cell as it is, empties an empty text, or puts a value in place of the text that writes
it. -/
theorem coerce_cases (type : ColumnType) (c : Cell) :
    c.coerce type = c ∨ (c = text "" ∧ c.coerce type = null) ∨
      ∃ s value, c = text s ∧ s ≠ "" ∧ c.coerce type = value ∧ Writes s type value := by
  cases c with
  | text s =>
    by_cases hs : s = ""
    · subst hs
      exact .inr (.inl ⟨rfl, rfl⟩)
    · have hempty : s.isEmpty = false := by simpa using hs
      simp only [coerce, hempty, Bool.false_eq_true, if_false]
      cases type with
      | empty => exact .inl rfl
      | text => exact .inl rfl
      | integer =>
        cases hread : readInteger? s.toList with
        | none => exact .inl rfl
        | some n => exact .inr (.inr ⟨s, _, rfl, hs, rfl, .integer hread⟩)
      | float =>
        cases hread : Decimal.readFloat? s.toList with
        | none => exact .inl rfl
        | some x => exact .inr (.inr ⟨s, _, rfl, hs, rfl, .float hread⟩)
      | boolean =>
        cases hread : readBoolean? s.toList with
        | none => exact .inl rfl
        | some b => exact .inr (.inr ⟨s, _, rfl, hs, rfl, .boolean hread⟩)
  | _ => exact .inl rfl

theorem coerce_coerce (type : ColumnType) (c : Cell) : (c.coerce type).coerce type = c.coerce type := by
  rcases coerce_cases type c with he | ⟨-, he⟩ | ⟨s, value, -, -, he, hw⟩
  · rw [he, he]
  · rw [he]
    rfl
  · rw [he]
    cases hw <;> rfl

theorem classify_le_coerce (h : c.classify ≤ type) : c.classify ≤ (c.coerce type).classify := by
  rcases coerce_cases type c with he | ⟨rfl, he⟩ | ⟨s, value, -, -, he, hw⟩
  · rw [he]
  · exact ColumnType.empty_le _
  · rwa [he, hw.classify]

theorem coerce_classify_le (h : c.classify ≤ type) : (c.coerce type).classify ≤ type := by
  rcases coerce_cases type c with he | ⟨-, he⟩ | ⟨s, value, -, -, he, hw⟩
  · rwa [he]
  · rw [he]
    exact ColumnType.empty_le _
  · rw [he, hw.classify]

theorem trimmed_coerce (h : c.trimmed = c) : (c.coerce type).trimmed = c.coerce type := by
  rcases coerce_cases type c with he | ⟨-, he⟩ | ⟨s, value, -, -, he, hw⟩
  · rwa [he]
  · rw [he]
    rfl
  · rw [he]
    cases hw <;> rfl

theorem isBlank_coerce (h : c.trimmed = c) : (c.coerce type).isBlank = c.isBlank := by
  rcases coerce_cases type c with he | ⟨rfl, he⟩ | ⟨s, value, rfl, hs, he, hw⟩
  · rw [he]
  · rw [he]
    rfl
  · rw [not_isBlank_of_trimmed h hs, he]
    cases hw <;> rfl

end Cell

namespace Table

variable {rows : List (List Cell)} {row : List Cell} {types : List ColumnType} {type : ColumnType} {i : Nat}

/-! ## Tidy rows -/

theorem mem_tidyRows :
    row ∈ tidyRows rows ↔ ∃ r ∈ rows, r.map Cell.trimmed = row ∧ ∃ c ∈ row, c.isBlank = false := by
  simp only [tidyRows, List.mem_filter, List.mem_map, Bool.not_eq_true', List.all_eq_false, Bool.not_eq_true]
  constructor
  · rintro ⟨⟨r, hr, rfl⟩, hblank⟩
    exact ⟨r, hr, rfl, hblank⟩
  · rintro ⟨r, hr, rfl, hblank⟩
    exact ⟨⟨r, hr, rfl⟩, hblank⟩

theorem trimmed_of_mem_tidyRows (hrow : row ∈ tidyRows rows) {c : Cell} (hc : c ∈ row) : c.trimmed = c := by
  obtain ⟨r, -, rfl, -⟩ := mem_tidyRows.1 hrow
  obtain ⟨c, -, rfl⟩ := List.mem_map.1 hc
  exact c.trimmed_trimmed

/-- Rows of trimmed cells that are not all blank are tidy. -/
theorem tidyRows_of_tidy (htrimmed : ∀ row ∈ rows, ∀ c ∈ row, c.trimmed = c)
    (hblank : ∀ row ∈ rows, ∃ c ∈ row, c.isBlank = false) : tidyRows rows = rows := by
  have hmap : rows.map (·.map Cell.trimmed) = rows := by
    conv_rhs => rw [← List.map_id rows]
    refine List.map_congr_left fun row hrow => ?_
    conv_rhs => rw [id, ← List.map_id row]
    exact List.map_congr_left (htrimmed row hrow)
  rw [tidyRows, hmap, List.filter_eq_self]
  intro row hrow
  obtain ⟨c, hc, hfull⟩ := hblank row hrow
  simpa using ⟨c, hc, hfull⟩

theorem mem_column {c : Cell} : c ∈ column rows i ↔ ∃ row ∈ rows, row[i]? = some c := List.mem_filterMap

/-- Trimming and dropping blank rows does not change the type of a column. -/
theorem typeOf_column_tidyRows (rows : List (List Cell)) (i : Nat) :
    typeOf (column (tidyRows rows) i) = typeOf (column rows i) := by
  refine typeOf_eq_of_le ?_ ?_
  · intro c hc
    obtain ⟨row, hrow, hcell⟩ := mem_column.1 hc
    obtain ⟨r, hr, rfl, -⟩ := mem_tidyRows.1 hrow
    rw [List.getElem?_map] at hcell
    obtain ⟨c₀, hcell₀, rfl⟩ := Option.map_eq_some_iff.1 hcell
    rw [Cell.classify_trimmed]
    exact classify_le_typeOf (mem_column.2 ⟨r, hr, hcell₀⟩)
  · intro c hc
    obtain ⟨r, hr, hcell⟩ := mem_column.1 hc
    have hcell' : (r.map Cell.trimmed)[i]? = some c.trimmed := by rw [List.getElem?_map, hcell]; rfl
    by_cases hfull : ∃ c ∈ r.map Cell.trimmed, c.isBlank = false
    · have hmem : c.trimmed ∈ column (tidyRows rows) i :=
        mem_column.2 ⟨_, mem_tidyRows.2 ⟨r, hr, rfl, hfull⟩, hcell'⟩
      rw [← Cell.classify_trimmed]
      exact classify_le_typeOf hmem
    · -- a blank row is dropped, and its cells have the least type
      have hblank : c.trimmed.isBlank = true := by
        rw [← Bool.not_eq_false]
        exact fun h => hfull ⟨_, List.mem_of_getElem? hcell', h⟩
      rw [Cell.isBlank_trimmed, Cell.isBlank_iff_classify] at hblank
      rw [hblank]
      exact ColumnType.empty_le _

/-! ## Coerced rows -/

theorem getElem?_coerce (h : types[i]? = some type) :
    (List.zipWith Cell.coerce types row)[i]? = row[i]?.map (Cell.coerce type) := by
  rw [List.getElem?_zipWith, h]
  cases row[i]? <;> rfl

theorem column_coerce (h : types[i]? = some type) :
    column (rows.map (List.zipWith Cell.coerce types)) i = (column rows i).map (Cell.coerce type) := by
  simp only [column, List.filterMap_map, List.map_filterMap, Function.comp_def, getElem?_coerce h]

theorem zipWith_coerce_coerce (types : List ColumnType) (row : List Cell) :
    List.zipWith Cell.coerce types (List.zipWith Cell.coerce types row) =
      List.zipWith Cell.coerce types row := by
  refine List.ext_getElem? fun i => ?_
  cases h : types[i]? with
  | none => simp only [List.getElem?_zipWith, h]
  | some type =>
    rw [getElem?_coerce h, getElem?_coerce h, Option.map_map]
    exact congrArg (Option.map · row[i]?) (funext (Cell.coerce_coerce type))

theorem exists_of_mem_coerced {c : Cell} (h : c ∈ List.zipWith Cell.coerce types row) :
    ∃ type ∈ types, ∃ c₀ ∈ row, c = Cell.coerce type c₀ := by
  rw [← List.map_uncurry_zip_eq_zipWith] at h
  obtain ⟨⟨type, c₀⟩, hmem, rfl⟩ := List.mem_map.1 h
  exact ⟨type, List.of_mem_zip hmem |>.1, c₀, List.of_mem_zip hmem |>.2, rfl⟩

/-- Coercing cells to their common type keeps that type. -/
theorem typeOf_map_coerce (cells : List Cell) :
    typeOf (cells.map (Cell.coerce (typeOf cells))) = typeOf cells := by
  refine typeOf_eq_of_le ?_ ?_
  · intro c hc
    obtain ⟨c₀, hc₀, rfl⟩ := List.mem_map.1 hc
    exact Cell.coerce_classify_le (classify_le_typeOf hc₀)
  · intro c hc
    exact (Cell.classify_le_coerce (classify_le_typeOf hc)).trans
      (classify_le_typeOf (List.mem_map_of_mem hc))

/-! ## Processing -/

/-- The types of the first `n` columns. -/
def typesOf (n : Nat) (rows : List (List Cell)) : List ColumnType :=
  (List.range n).map fun i => typeOf (column rows i)

theorem getElem?_typesOf {n : Nat} (h : i < n) : (typesOf n rows)[i]? = some (typeOf (column rows i)) := by
  simp [typesOf, h]

theorem rows_process (t : Table) : t.process.rows =
    (tidyRows t.rows).map (List.zipWith Cell.coerce (typesOf t.columnCount (tidyRows t.rows))) := rfl

@[simp] theorem names_process (t : Table) : t.process.names = t.names := rfl

theorem column_process (t : Table) (h : i < t.columnCount) :
    column t.process.rows i = (column (tidyRows t.rows) i).map (Cell.coerce (t.columnType i)) := by
  rw [rows_process, column_coerce (getElem?_typesOf h), typeOf_column_tidyRows]
  rfl

theorem columnType_process (t : Table) (h : i < t.columnCount) :
    t.process.columnType i = t.columnType i := by
  rw [columnType, column_process t h, columnType, ← typeOf_column_tidyRows, typeOf_map_coerce]

theorem length_of_mem_tidyRows (t : Table) (h : row ∈ tidyRows t.rows) : row.length = t.columnCount := by
  obtain ⟨r, hr, rfl, -⟩ := mem_tidyRows.1 h
  rw [List.length_map, t.rectangular r hr]
  rfl

theorem trimmed_of_mem_process (t : Table) (hrow : row ∈ t.process.rows) {c : Cell} (hc : c ∈ row) :
    c.trimmed = c := by
  rw [rows_process] at hrow
  obtain ⟨r, hr, rfl⟩ := List.mem_map.1 hrow
  obtain ⟨type, -, c₀, hc₀, rfl⟩ := exists_of_mem_coerced hc
  exact Cell.trimmed_coerce (trimmed_of_mem_tidyRows hr hc₀)

theorem exists_not_isBlank_of_mem_process (t : Table) (hrow : row ∈ t.process.rows) :
    ∃ c ∈ row, c.isBlank = false := by
  rw [rows_process] at hrow
  obtain ⟨r, hr, rfl⟩ := List.mem_map.1 hrow
  obtain ⟨-, -, -, c, hc, hfull⟩ := mem_tidyRows.1 hr
  obtain ⟨i, hi, hcell⟩ := List.getElem_of_mem hc
  have hcell' : r[i]? = some c := by rw [List.getElem?_eq_getElem hi, hcell]
  rw [length_of_mem_tidyRows t hr] at hi
  refine ⟨_, List.mem_of_getElem? ((getElem?_coerce (getElem?_typesOf hi)).trans (by rw [hcell']; rfl)), ?_⟩
  rw [Cell.isBlank_coerce (trimmed_of_mem_tidyRows hr hc), hfull]

theorem tidyRows_process (t : Table) : tidyRows t.process.rows = t.process.rows :=
  tidyRows_of_tidy (fun _ hrow _ hc => t.trimmed_of_mem_process hrow hc)
    fun _ hrow => t.exists_not_isBlank_of_mem_process hrow

theorem columns_process (t : Table) : t.process.columns = t.columns := by
  rw [columns, columns, names_process]
  refine List.map_congr_left fun (name, i) h => ?_
  have hi : i < t.columnCount := by
    have := (List.mem_zipIdx h).2.1
    rwa [Nat.zero_add] at this
  exact congrArg (Column.mk name) (columnType_process t hi)

/-- Processing a processed table changes nothing, and a processed table has the columns of the table it was made
from: the same names, in order, with the same types. -/
theorem process_fixed (t : Table) : t.process.process = t.process ∧ t.process.columns = t.columns := by
  refine ⟨ext_of_rows rfl ?_, columns_process t⟩
  have htypes : typesOf t.columnCount t.process.rows = typesOf t.columnCount (tidyRows t.rows) := by
    refine List.map_congr_left fun i hi => ?_
    rw [column_process t (List.mem_range.1 hi), columnType, ← typeOf_column_tidyRows, typeOf_map_coerce]
  have hcount : t.process.columnCount = t.columnCount := rfl
  rw [rows_process t.process, tidyRows_process, hcount, htypes, rows_process t, List.map_map]
  exact List.map_congr_left fun row _ => zipWith_coerce_coerce _ row

end Table

end Scriptorium
