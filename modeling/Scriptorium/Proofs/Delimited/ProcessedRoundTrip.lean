import Scriptorium.Proofs.Delimited.TableRoundTrip
import Scriptorium.Proofs.Table.ShownCells

/-!
# Processed tables in files

A processed table is written with the shown texts of its cells, and these are what loading finds
(`load_render`). Processing them again finds every column as it was, except for floats that are all
shown as whole numbers: they become integers (`processed_reloaded`).
-/

namespace Scriptorium

namespace Table

variable {t : Table} {i : ℕ}

/-- A column of floats that are all shown as whole numbers. -/
def ShowsWhole (t : Table) (i : ℕ) : Prop :=
  t.columnType i = .float ∧ ∀ c ∈ column t.rows i, c.isBlank = false → c.showsWhole = true

instance (t : Table) (i : ℕ) : Decidable (t.ShowsWhole i) := inferInstanceAs (Decidable (_ ∧ _))

/-- The shown texts of all cells. -/
def written (t : Table) : Table where
  names := t.names
  rows := t.rows.map (·.map Cell.written)
  distinct := t.distinct
  rectangular := by
    intro row h
    obtain ⟨r, hr, rfl⟩ := List.mem_map.1 h
    rw [List.length_map, t.rectangular r hr]

/-- What processing makes sure of: no row is blank, and every cell has a value of its column's type or none. -/
structure Tidy (t : Table) : Prop where
  settled : ∀ i < t.columnCount, ∀ c ∈ column t.rows i, c.Settled (t.columnType i)
  full : ∀ row ∈ t.rows, ∃ c ∈ row, c.isBlank = false

theorem tidy_process (h : ∀ row ∈ t.rows, ∀ c ∈ row, ∃ s, c = .text s) : t.process.Tidy where
  full _ hrow := t.exists_not_isBlank_of_mem_process hrow
  settled i hi c hc := by
    rw [column_process t hi] at hc
    obtain ⟨c₀, hc₀, rfl⟩ := List.mem_map.1 hc
    rw [columnType_process t hi]
    obtain ⟨row, hrow, hcell⟩ := mem_column.1 hc₀
    have hmem := List.mem_of_getElem? hcell
    have htrim := trimmed_of_mem_tidyRows hrow hmem
    have htype : c₀.classify ≤ t.columnType i := by
      rw [columnType, ← typeOf_column_tidyRows]
      exact classify_le_typeOf hc₀
    obtain ⟨r, hr, rfl, -⟩ := mem_tidyRows.1 hrow
    obtain ⟨c₁, hc₁, rfl⟩ := List.mem_map.1 hmem
    obtain ⟨s, rfl⟩ := h r hr c₁ hc₁
    exact Cell.settled_coerce htrim htype

/-! ## Looking at cells -/

theorem mem_column_of_cell? {row : ℕ} {c : Cell} (h : t.cell? row i = some c) : c ∈ column t.rows i := by
  obtain ⟨r, hr, hcell⟩ := Option.bind_eq_some_iff.1 h
  exact mem_column.2 ⟨r, List.mem_of_getElem? hr, hcell⟩

theorem ext_of_cells {u : Table} (hnames : t.names = u.names) (hcount : t.rowCount = u.rowCount)
    (hcells : ∀ i < t.columnCount, ∀ row, t.cell? row i = u.cell? row i) : t = u := by
  refine ext_of_rows hnames (List.ext_getElem hcount fun row ht hu => List.ext_getElem? fun i => ?_)
  by_cases hi : i < t.columnCount
  · have hcell := hcells i hi row
    simpa only [cell?, List.getElem?_eq_getElem ht, List.getElem?_eq_getElem hu, Option.bind_some] using hcell
  · have htlength : (t.rows[row]).length = t.columnCount := t.rectangular _ (List.getElem_mem ht)
    have hulength : (u.rows[row]).length = t.columnCount := by
      rw [u.rectangular _ (List.getElem_mem hu), columnCount, hnames]
    rw [List.getElem?_eq_none (by omega), List.getElem?_eq_none (by omega)]

theorem column_written (t : Table) (i : ℕ) : column t.written.rows i = (column t.rows i).map Cell.written := by
  simp only [written, column, List.filterMap_map, List.map_filterMap, Function.comp_def, List.getElem?_map]

/-! ## Shown texts, processed -/

namespace Tidy

variable (h : t.Tidy)
include h

theorem exists_settled {row : List Cell} (hrow : row ∈ t.rows) {c : Cell} (hc : c ∈ row) :
    ∃ type, c.Settled type := by
  obtain ⟨i, hi, rfl⟩ := List.getElem_of_mem hc
  have hcount : i < t.columnCount := by rwa [t.rectangular row hrow] at hi
  exact ⟨_, h.settled i hcount _ (mem_column.2 ⟨row, hrow, List.getElem?_eq_getElem hi⟩)⟩

theorem tidyRows_written : tidyRows t.written.rows = t.written.rows := by
  refine tidyRows_of_tidy (List.forall_mem_map.2 fun row hrow => List.forall_mem_map.2 fun c hc => ?_)
    (List.forall_mem_map.2 fun row hrow => ?_)
  · obtain ⟨type, hsettled⟩ := h.exists_settled hrow hc
    exact hsettled.trimmed_written
  · obtain ⟨c, hc, hblank⟩ := h.full row hrow
    obtain ⟨type, hsettled⟩ := h.exists_settled hrow hc
    exact ⟨_, List.mem_map_of_mem hc, hsettled.isBlank_written hblank⟩

theorem columnType_written (hi : i < t.columnCount) (hwhole : ¬ t.ShowsWhole i) :
    t.written.columnType i = t.columnType i := by
  rw [columnType, column_written]
  refine typeOf_written (h.settled i hi) fun hfloat => ?_
  by_contra hall
  refine hwhole ⟨hfloat, fun c hc hblank => ?_⟩
  rw [← Bool.not_eq_false]
  exact fun hnot => hall ⟨c, hc, hblank, hnot⟩

theorem columnType_written_of_showsWhole (hi : i < t.columnCount) (hwhole : t.ShowsWhole i) :
    t.written.columnType i = .integer := by
  rw [columnType, column_written]
  exact typeOf_written_of_showsWhole (h.settled i hi) hwhole.1 hwhole.2

theorem rowCount_process_written : t.written.process.rowCount = t.rowCount := by
  rw [rowCount, rows_process, h.tidyRows_written, List.length_map]
  exact List.length_map _

/-- Each shown text is read as a value of the type that its column has now. -/
theorem cell?_process_written (hi : i < t.columnCount) (row : ℕ) :
    t.written.process.cell? row i = (t.cell? row i).map fun c => c.written.coerce (t.written.columnType i) := by
  have htype : (typesOf t.written.columnCount t.written.rows)[i]? = some (t.written.columnType i) :=
    getElem?_typesOf hi
  rw [cell?, rows_process, h.tidyRows_written, cell?]
  simp only [List.getElem?_map]
  show ((t.rows.map (·.map Cell.written))[row]?.map _).bind _ = _
  rw [List.getElem?_map]
  cases t.rows[row]? with
  | none => rfl
  | some r =>
    simp only [Option.map_some, Option.bind_some]
    rw [getElem?_coerce htype, List.getElem?_map, Option.map_map]
    rfl

theorem cell?_reread (hi : i < t.columnCount) (hwhole : ¬ t.ShowsWhole i) (row : ℕ) :
    t.written.process.cell? row i = t.cell? row i := by
  rw [h.cell?_process_written hi, h.columnType_written hi hwhole]
  cases hcell : t.cell? row i with
  | none => rfl
  | some c =>
    rw [Option.map_some, (h.settled i hi c (mem_column_of_cell? hcell)).coerce_written]

/-- The table is the same again unless it has a column of floats that shows whole numbers only. -/
theorem process_written_eq_iff : t.written.process = t ↔ ∀ i < t.columnCount, ¬ t.ShowsWhole i := by
  constructor
  · intro heq i hi hwhole
    have htype : t.written.process.columnType i = .integer := by
      rw [columnType_process t.written hi, h.columnType_written_of_showsWhole hi hwhole]
    rw [heq, hwhole.1] at htype
    cases htype
  · intro hall
    exact ext_of_cells (t := t.written.process) rfl h.rowCount_process_written fun i hi row =>
      h.cell?_reread hi (hall i hi) row

end Tidy

end Table

namespace Delimited

open Text

variable {d : Char} {t : Table}

/-! ## Files -/

theorem textCells_writtenFields (row : List Cell) : textCells (writtenFields row) = row.map Cell.written := by
  rw [textCells, writtenFields, List.map_map]
  exact List.map_congr_left fun c _ => congrArg Cell.text String.ofList_toList

theorem writtenFields_written (row : List Cell) : writtenFields (row.map Cell.written) = writtenFields row := by
  rw [writtenFields, List.map_map]
  rfl

/-- What is loaded from the text that is written for a table: the shown texts of its cells. -/
theorem load_render (hne : t.names ≠ []) (htrim : ∀ name ∈ t.names, trim name.toList = name.toList)
    (hd : Separates d) (hmark : ∀ name ∈ t.names.head?, name.toList.head? ≠ some '\uFEFF') :
    load d (render d t) = (.ok t.written, []) := by
  have hloaded : Loaded t.written := by
    refine ⟨hne, htrim, List.forall_mem_map.2 fun row _ => ⟨writtenFields row, ?_⟩⟩
    exact (textCells_writtenFields row).symm
  have hrender : render d t.written = render d t := by
    rw [render_eq hne, render_eq hloaded.names_ne]
    refine congrArg (fun rows => writeRecords d (t.names.map String.toList :: rows)) ?_
    rw [Table.written, List.map_map]
    exact List.map_congr_left fun row _ => writtenFields_written row
  rw [← hrender]
  exact hloaded.load_render hd hmark

theorem Loaded.exists_text (h : Loaded t) : ∀ row ∈ t.rows, ∀ c ∈ row, ∃ s, c = .text s := by
  intro row hrow c hc
  obtain ⟨fields, rfl⟩ := h.text row hrow
  obtain ⟨field, -, rfl⟩ := List.mem_map.1 hc
  exact ⟨_, rfl⟩

/-- A processed table that is written to a file, loaded from it and processed has the same columns and rows, and
each column has its type and its cells. Only a column of floats that are all shown as whole numbers comes back as
these integers, so the table is the same again exactly when it has no such column. -/
theorem processed_reloaded {cs : List Char} {skipped : List Skipped} (hload : load comma cs = (.ok t, skipped))
    (hmark : ∀ name ∈ t.names.head?, name.toList.head? ≠ some '\uFEFF') :
    ∃ u, load comma (render comma t.process) = (.ok u, []) ∧
      (∀ disk path disk', saveFile disk path comma t.process = (.ok (), disk') →
        loadFile disk' path (some comma) = (.ok u, [])) ∧
      u.process.names = t.process.names ∧ u.process.rowCount = t.process.rowCount ∧
      (∀ i < t.process.columnCount, ¬ t.process.ShowsWhole i →
        u.process.columnType i = t.process.columnType i ∧
          ∀ row, u.process.cell? row i = t.process.cell? row i) ∧
      (∀ i < t.process.columnCount, t.process.ShowsWhole i →
        u.process.columnType i = .integer ∧
          ∀ row, u.process.cell? row i =
            (t.process.cell? row i).map fun c => c.written.coerce .integer) ∧
      (u.process = t.process ↔ ∀ i < t.process.columnCount, ¬ t.process.ShowsWhole i) := by
  have hloaded := loaded_of_load hload
  have htidy := Table.tidy_process hloaded.exists_text
  have hback : load comma (render comma t.process) = (.ok t.process.written, []) :=
    load_render hloaded.names_ne hloaded.trimmed ⟨by decide, by decide, by decide⟩ hmark
  refine ⟨t.process.written, hback, fun disk path disk' hsave => (loadFile_saveFile hsave (some comma)).trans hback,
    rfl, htidy.rowCount_process_written, fun i hi hwhole => ⟨?_, htidy.cell?_reread hi hwhole⟩,
    fun i hi hwhole => ⟨?_, fun row => ?_⟩, htidy.process_written_eq_iff⟩
  · exact (Table.columnType_process t.process.written hi).trans (htidy.columnType_written hi hwhole)
  · exact (Table.columnType_process t.process.written hi).trans
      (htidy.columnType_written_of_showsWhole hi hwhole)
  · rw [htidy.cell?_process_written hi, htidy.columnType_written_of_showsWhole hi hwhole]

/-- A missing integer, a negative zero, truth values in any case, a text that looks like a number and a text with
the delimiter all come back. -/
theorem processed_reloaded_mixed : ∃ t u,
    load comma "n,x,b,s\n1,2.5,TRUE, 7 \n,-0,false,\"a,b\"\n".toList = (.ok t, []) ∧
    t.process.columns = [⟨"n", .integer⟩, ⟨"x", .float⟩, ⟨"b", .boolean⟩, ⟨"s", .text⟩] ∧
    load comma (render comma t.process) = (.ok u, []) ∧ u.process = t.process := by
  have hfacts : (load comma "n,x,b,s\n1,2.5,TRUE, 7 \n,-0,false,\"a,b\"\n".toList).1.toOption.map
        (fun t => (t.names.head?, t.process.columns,
          decide (∀ i < t.process.columnCount, ¬ t.process.ShowsWhole i))) =
        some (some "n", [⟨"n", .integer⟩, ⟨"x", .float⟩, ⟨"b", .boolean⟩, ⟨"s", .text⟩], true) ∧
      (load comma "n,x,b,s\n1,2.5,TRUE, 7 \n,-0,false,\"a,b\"\n".toList).2 = [] := by
    decide +kernel
  rcases hload : load comma "n,x,b,s\n1,2.5,TRUE, 7 \n,-0,false,\"a,b\"\n".toList with ⟨e | t, skipped⟩
  · rw [hload] at hfacts
    cases hfacts.1
  rw [hload] at hfacts
  obtain ⟨hname, htable⟩ := Prod.mk.inj (Option.some.inj hfacts.1)
  obtain ⟨hcolumns, hwhole⟩ := Prod.mk.inj htable
  obtain rfl : skipped = [] := hfacts.2
  have hmark : ∀ name ∈ t.names.head?, name.toList.head? ≠ some '\uFEFF' := by
    rw [hname]
    decide
  obtain ⟨u, hback, -, -, -, -, -, hsame⟩ := processed_reloaded hload hmark
  exact ⟨t, u, rfl, hcolumns, hback, hsame.2 (of_decide_eq_true hwhole)⟩

/-- The number 1.0 is shown as 1, and an integer comes back. -/
theorem whole_floats_reloaded : ∃ t disk' u, load comma "a\n1.0\n".toList = (.ok t, []) ∧
    t.process.columns = [⟨"a", .float⟩] ∧
    saveFile {} "/out.csv" comma t.process = (.ok (), disk') ∧
    loadFile disk' "/out.csv" (some comma) = (.ok u, []) ∧
    u.process.columns = [⟨"a", .integer⟩] ∧ u.process ≠ t.process := by
  have hfacts : (load comma "a\n1.0\n".toList).1.toOption.map
        (fun t => (t.process.columns, render comma t.process)) = some ([⟨"a", .float⟩], "a\n1\n".toList) ∧
      (load comma "a\n1.0\n".toList).2 = [] := by
    decide +kernel
  have hfacts' : (load comma "a\n1\n".toList).1.toOption.map (fun u => u.process.columns) =
        some [⟨"a", .integer⟩] ∧ (load comma "a\n1\n".toList).2 = [] := by
    decide +kernel
  rcases hload : load comma "a\n1.0\n".toList with ⟨e | t, skipped⟩
  · rw [hload] at hfacts
    cases hfacts.1
  rcases hreload : load comma "a\n1\n".toList with ⟨e | u, skipped'⟩
  · rw [hreload] at hfacts'
    cases hfacts'.1
  rw [hload] at hfacts
  rw [hreload] at hfacts'
  obtain ⟨hcolumns, hrender⟩ := Prod.mk.inj (Option.some.inj hfacts.1)
  have hcolumns' : u.process.columns = [⟨"a", .integer⟩] := Option.some.inj hfacts'.1
  obtain rfl : skipped = [] := hfacts.2
  obtain rfl : skipped' = [] := hfacts'.2
  have hsave : saveFile {} "/out.csv" comma t.process =
      (.ok (), Disk.setEntry {} ["out.csv"] (.file (String.ofList "a\n1\n".toList).toUTF8)) := by
    unfold saveFile
    rw [hrender]
    rfl
  refine ⟨t, _, u, rfl, hcolumns, hsave, ?_, hcolumns', fun heq => ?_⟩
  · rw [loadFile_saveFile hsave, Option.getD_some, hrender, hreload]
  · rw [heq, hcolumns] at hcolumns'
    simp at hcolumns'

end Delimited

end Scriptorium
