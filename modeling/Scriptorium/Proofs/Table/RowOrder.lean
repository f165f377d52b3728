import Mathlib.Data.List.Perm.Basic
import Scriptorium.Proofs.Delimited.TableRoundTrip
import Scriptorium.Proofs.Table.Processing

/-!
# The order of rows

The type of a column is a join, so it depends on the cells of the column and not on their order (`typeOf_perm`), and
the types of two parts of a table merge into those of the whole (`typeOf_append`). Processing treats each row by itself
once the types are known (`rows_process_eq_filterMap`). So rows in another order have the same types, and each of them
is dropped or becomes what it would have become (`rows_reordered`).
-/

namespace Scriptorium

namespace Table

variable {cells others : List Cell} {rows rows' : List (List Cell)} {names : List String} {t t' : Table}

/-! ## Types -/

theorem typeOf_perm (h : cells.Perm others) : typeOf cells = typeOf others :=
  eq_of_forall_ge_iff fun type => by simp only [typeOf_le_iff, h.mem_iff]

theorem typeOf_append (cells others : List Cell) :
    typeOf (cells ++ others) = (typeOf cells).merge (typeOf others) :=
  eq_of_forall_ge_iff fun type => by
    rw [ColumnType.merge_le_iff, typeOf_le_iff, typeOf_le_iff, typeOf_le_iff, List.forall_mem_append]

/-- The types of the columns, in order. -/
def columnTypes (t : Table) : List ColumnType := t.columns.map Column.type

theorem columnTypes_eq (t : Table) : t.columnTypes = typesOf t.columnCount t.rows := by
  rw [columnTypes, columns, List.map_map, typesOf, columnCount, List.range_eq_range', ← List.zipIdx_map_snd 0 t.names,
    List.map_map]
  rfl

theorem columns_of_perm (hnames : t'.names = t.names) (hrows : t'.rows.Perm t.rows) : t'.columns = t.columns := by
  rw [columns, columns, hnames]
  refine List.map_congr_left fun entry _ => ?_
  exact congrArg (Column.mk entry.1) (typeOf_perm (hrows.filterMap (·[entry.2]?)))

/-! ## Processing -/

/-- What processing makes of a row if the columns have these types. A row of blanks goes. -/
def processedRow? (types : List ColumnType) (row : List Cell) : Option (List Cell) :=
  if row.all Cell.isBlank then none else some (List.zipWith Cell.coerce types (row.map Cell.trimmed))

theorem rows_process_eq_filterMap (t : Table) : t.process.rows = t.rows.filterMap (processedRow? t.columnTypes) := by
  have htypes : typesOf t.columnCount (tidyRows t.rows) = t.columnTypes := by
    rw [columnTypes_eq]
    exact List.map_congr_left fun i _ => typeOf_column_tidyRows t.rows i
  rw [rows_process, htypes, tidyRows, List.filter_map, List.map_map, ← List.filterMap_eq_map, List.filterMap_filter]
  refine List.filterMap_congr fun row _ => ?_
  have hblank : (row.map Cell.trimmed).all Cell.isBlank = row.all Cell.isBlank := by
    simp [List.all_map, Function.comp_def]
  rw [processedRow?, Function.comp_apply, hblank]
  cases row.all Cell.isBlank <;> rfl

/-! ## Reordered tables -/

/-- Any of the rows of a table, in any order, make a table as well. -/
theorem exists_ofRows? (h : ofRows? names rows = .ok t) (hrows : ∀ row ∈ rows', row ∈ rows) :
    ∃ t', ofRows? names rows' = .ok t' ∧ t'.names = t.names ∧ t'.rows = rows' := by
  obtain ⟨rfl, rfl⟩ := ofRows?_eq_ok_iff.1 h
  let t' : Table := ⟨t.names, rows', t.distinct, fun row hrow => t.rectangular row (hrows row hrow)⟩
  exact ⟨t', ofRows?_eq_ok_iff.2 ⟨rfl, rfl⟩, rfl, rfl⟩

/-- Columns of the same names, with the types that admit what the types of either admit. -/
def mergeColumns (columns₁ columns₂ : List Column) : List Column :=
  List.zipWith (fun a b => ⟨a.name, a.type.merge b.type⟩) columns₁ columns₂

theorem columns_of_append {t₁ t₂ : Table} (hnames₁ : t₁.names = t.names) (hnames₂ : t₂.names = t.names)
    (hrows : t.rows = t₁.rows ++ t₂.rows) : t.columns = mergeColumns t₁.columns t₂.columns := by
  rw [mergeColumns, columns, columns, columns, hnames₁, hnames₂, List.zipWith_map, List.zipWith_self]
  refine List.map_congr_left fun entry _ => congrArg (Column.mk entry.1) ?_
  rw [columnType, hrows, column, List.filterMap_append, typeOf_append]
  rfl

/-- Rows in another order are accepted as well, and they make a table with the same columns, before processing and
after. Each row, in its new place, is dropped or becomes what it becomes in the first order. If the rows are cut in two,
the types of the parts merge into those of the whole. -/
theorem rows_reordered (h : ofRows? names rows = .ok t) :
    (∀ rows', rows'.Perm rows → ∃ t', ofRows? names rows' = .ok t' ∧ t'.columns = t.columns ∧
      t'.process.columns = t.process.columns ∧
      t.process.rows = rows.filterMap (processedRow? t.columnTypes) ∧
      t'.process.rows = rows'.filterMap (processedRow? t.columnTypes)) ∧
    ∀ rows₁ rows₂, rows = rows₁ ++ rows₂ → ∃ t₁ t₂, ofRows? names rows₁ = .ok t₁ ∧
      ofRows? names rows₂ = .ok t₂ ∧ t.columns = mergeColumns t₁.columns t₂.columns := by
  obtain ⟨-, rfl⟩ := ofRows?_eq_ok_iff.1 h
  refine ⟨fun rows' hperm => ?_, fun rows₁ rows₂ hcut => ?_⟩
  · obtain ⟨t', ht', hnames, rfl⟩ := exists_ofRows? h fun row => hperm.mem_iff.1
    have hcolumns := columns_of_perm hnames hperm
    have htypes : t'.columnTypes = t.columnTypes := by rw [columnTypes, columnTypes, hcolumns]
    refine ⟨t', ht', hcolumns, ?_, rows_process_eq_filterMap t, ?_⟩
    · rw [columns_process, columns_process, hcolumns]
    · rw [rows_process_eq_filterMap, htypes]
  · have hleft : ∀ row ∈ rows₁, row ∈ t.rows := fun row hrow => hcut ▸ List.mem_append_left _ hrow
    have hright : ∀ row ∈ rows₂, row ∈ t.rows := fun row hrow => hcut ▸ List.mem_append_right _ hrow
    obtain ⟨t₁, ht₁, hnames₁, rfl⟩ := exists_ofRows? h hleft
    obtain ⟨t₂, ht₂, hnames₂, rfl⟩ := exists_ofRows? h hright
    exact ⟨t₁, t₂, ht₁, ht₂, columns_of_append hnames₁ hnames₂ hcut⟩

/-- A blank row, a row of text, whole numbers and truth values. -/
def survey : Table where
  names := ["n", "b"]
  rows := [[.text " 7 ", .boolean true], [.null, .text " "], [.integer 2, .text "no"]]
  distinct := by decide
  rectangular := by decide

theorem rows_reordered_survey : ∃ rows' t', rows'.Perm survey.rows ∧ ofRows? survey.names survey.rows = .ok survey ∧
    ofRows? survey.names rows' = .ok t' ∧ rows' = survey.rows.reverse ∧
    t'.columns = [⟨"n", .integer⟩, ⟨"b", .text⟩] ∧ t'.process.rows.length = 2 ∧
    ∃ t₁ t₂, ofRows? survey.names (survey.rows.take 1) = .ok t₁ ∧ ofRows? survey.names (survey.rows.drop 1) = .ok t₂ ∧
      mergeColumns t₁.columns t₂.columns = [⟨"n", .integer⟩, ⟨"b", .text⟩] := by
  have hsurvey : ofRows? survey.names survey.rows = .ok survey := ofRows?_eq_ok_iff.2 ⟨rfl, rfl⟩
  have hcolumns : survey.columns = [⟨"n", .integer⟩, ⟨"b", .text⟩] := by decide +kernel
  have hperm : survey.rows.reverse.Perm survey.rows := List.reverse_perm _
  obtain ⟨t', ht', hcolumns', -, -, hrows'⟩ := (rows_reordered hsurvey).1 _ hperm
  obtain ⟨t₁, t₂, ht₁, ht₂, hmerge⟩ := (rows_reordered hsurvey).2 (survey.rows.take 1) (survey.rows.drop 1) rfl
  refine ⟨_, t', hperm, hsurvey, ht', rfl, hcolumns'.trans hcolumns, ?_, t₁, t₂, ht₁, ht₂, hmerge.symm.trans hcolumns⟩
  rw [hrows']
  decide +kernel

end Table

end Scriptorium
