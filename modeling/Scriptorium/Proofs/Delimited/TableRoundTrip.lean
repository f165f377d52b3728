import Mathlib.Data.List.Nodup
import Scriptorium.Delimited.Load
import Scriptorium.Proofs.Delimited.RecordRoundTrip
import Scriptorium.Proofs.Disk.ReadBack
import Scriptorium.Proofs.Text.Trim

/-!
# Loading written tables

Loading takes the records of a written text apart into a header, rows and skipped records, and loses none of
them (`load_of_records`). A table that was loaded once is loaded again from the text that is
written for it (`Loaded.load_render`).
-/

namespace Scriptorium

namespace Table

theorem ofRows?_eq_ok_iff {names : List String} {rows : List (List Cell)} {t : Table} :
    ofRows? names rows = .ok t ↔ t.names = names ∧ t.rows = rows := by
  unfold ofRows?
  constructor
  · intro h
    split at h
    · cases h
    · split at h
      · cases h
      · cases h
        exact ⟨rfl, rfl⟩
  · rintro ⟨rfl, rfl⟩
    have hnames : firstRepeat? [] t.names = none := firstRepeat?_eq_none_iff.2 ⟨t.distinct, by simp⟩
    have hrows : raggedRow? t.names.length 1 t.rows = none := raggedRow?_eq_none_iff.2 t.rectangular
    split
    · rename_i h
      rw [hnames] at h
      cases h
    · split
      · rename_i h
        rw [hrows] at h
        cases h
      · rfl

end Table

namespace Delimited

open Text

variable {d : Char}

/-- Fields as cells of text. -/
def textCells (fields : List (List Char)) : List Cell := fields.map fun field => .text (String.ofList field)

/-- The names that a header gives to columns. -/
def columnNames (header : List (List Char)) : List String :=
  header.map fun field => String.ofList (trim field)

@[simp] theorem length_textCells (fields : List (List Char)) : (textCells fields).length = fields.length := by
  simp [textCells]

@[simp] theorem length_columnNames (header : List (List Char)) :
    (columnNames header).length = header.length := by
  simp [columnNames]

theorem rowsOf_eq (n : Nat) (records : List Record) :
    rowsOf n records = ((records.map Record.fields).filter (·.length == n)).map textCells := by
  rw [rowsOf, List.filter_map, List.map_map]
  rfl

theorem map_skippedOf (n : Nat) (records : List Record) :
    (skippedOf n records).map (fun s => (s.expected, s.found)) =
      ((records.map Record.fields).filter (·.length != n)).map fun fields => (n, fields.length) := by
  rw [skippedOf, List.filter_map, List.map_map, List.map_map]
  rfl

/-- A text is loaded if its first record names distinct columns; rows are the records of that length. -/
theorem load_of_records {cs : List Char} {header : List (List Char)} {records : List (List (List Char))}
    (hread : (readRecords d cs).map Record.fields = header :: records) (hnames : (header.map trim).Nodup) :
    ∃ t skipped, load d cs = (.ok t, skipped) ∧ t.names = columnNames header ∧
      t.rows = (records.filter (·.length == header.length)).map textCells ∧
      skipped.map (fun s => (s.expected, s.found)) =
        (records.filter (·.length != header.length)).map fun fields => (header.length, fields.length) := by
  obtain ⟨first, rest, hrecords, hfirst, hrest⟩ := List.map_eq_cons_iff.1 hread
  have hdistinct : (columnNames header).Nodup := by
    have := hnames.map fun _ _ => String.ofList_injective
    rwa [List.map_map] at this
  let rows := (records.filter (·.length == header.length)).map textCells
  have hrectangular : ∀ row ∈ rows, row.length = (columnNames header).length := by
    intro row hrow
    obtain ⟨fields, hfields, rfl⟩ := List.mem_map.1 hrow
    rw [length_textCells, length_columnNames]
    exact beq_iff_eq.1 (List.mem_filter.1 hfields).2
  have htable : Table.ofRows? (columnNames header) (rowsOf (columnNames header).length rest) =
      .ok ⟨columnNames header, rows, hdistinct, hrectangular⟩ := by
    rw [Table.ofRows?_eq_ok_iff, rowsOf_eq, hrest, length_columnNames]
    exact ⟨rfl, rfl⟩
  refine ⟨⟨columnNames header, rows, hdistinct, hrectangular⟩, skippedOf header.length rest, ?_, rfl, rfl, ?_⟩
  · rw [load, hrecords]
    simp only [hfirst]
    rw [← columnNames, htable, length_columnNames]
  · rw [map_skippedOf, hrest]

/-! ## Loaded tables -/

/-- What loading makes sure of: there are columns, their names are trimmed, and all cells are text. -/
structure Loaded (t : Table) : Prop where
  names_ne : t.names ≠ []
  trimmed : ∀ name ∈ t.names, trim name.toList = name.toList
  text : ∀ row ∈ t.rows, ∃ fields, row = textCells fields

theorem readFields_ne_nil (d : Char) (cs : List Char) : (readFields d cs).1 ≠ [] := by
  fun_cases readFields d cs <;> simp

theorem ne_nil_of_mem_recordsFrom {line : Nat} {cs : List Char} {r : Record} (h : r ∈ recordsFrom d line cs) :
    r.fields ≠ [] := by
  fun_induction recordsFrom d line cs with
  | case1 => cases h
  | case2 line cs c body _ read ih =>
    rcases List.mem_cons.1 h with rfl | h
    · exact readFields_ne_nil d _
    · exact ih h

theorem loaded_of_load {cs : List Char} {t : Table} {skipped : List Skipped}
    (h : load d cs = (.ok t, skipped)) : Loaded t := by
  unfold load at h
  cases hrecords : readRecords d cs with
  | nil => rw [hrecords] at h; cases h
  | cons header records =>
    rw [hrecords] at h
    obtain ⟨hnames, hrows⟩ := Table.ofRows?_eq_ok_iff.1 (Prod.mk.inj h).1
    have hheader : header.fields ≠ [] := by
      have hmem : header ∈ recordsFrom d 1 (withoutMark cs) := by
        rw [← readRecords, hrecords]
        exact List.mem_cons_self
      exact ne_nil_of_mem_recordsFrom hmem
    refine ⟨?_, ?_, ?_⟩
    · rw [hnames]
      simpa using hheader
    · intro name hname
      rw [hnames] at hname
      obtain ⟨field, -, rfl⟩ := List.mem_map.1 hname
      rw [String.toList_ofList, trim_trim]
    · intro row hrow
      rw [hrows, rowsOf_eq] at hrow
      obtain ⟨fields, -, rfl⟩ := List.mem_map.1 hrow
      exact ⟨fields, rfl⟩

/-- The fields that are written for a row. -/
def writtenFields (row : List Cell) : List (List Char) := row.map fun c => c.shown.toList

theorem writtenFields_textCells (fields : List (List Char)) : writtenFields (textCells fields) = fields := by
  rw [writtenFields, textCells, List.map_map]
  exact (List.map_congr_left fun field _ => String.toList_ofList).trans (List.map_id fields)

theorem render_eq {t : Table} (h : t.names ≠ []) :
    render d t = writeRecords d (t.names.map String.toList :: t.rows.map writtenFields) := by
  have hempty : t.isEmpty = false := by simpa [Table.isEmpty] using h
  rw [render, hempty]
  rfl

/-- A loaded table comes back from the text that is written for it, and nothing is skipped. -/
theorem Loaded.load_render {t : Table} (h : Loaded t) (hd : Separates d)
    (hmark : ∀ name ∈ t.names.head?, name.toList.head? ≠ some '\uFEFF') :
    load d (render d t) = (.ok t, []) := by
  obtain ⟨name, names, hnames⟩ := List.exists_cons_of_ne_nil h.names_ne
  have hlength : ∀ row ∈ t.rows.map writtenFields, row.length = (t.names.map String.toList).length := by
    intro fields hfields
    obtain ⟨row, hrow, rfl⟩ := List.mem_map.1 hfields
    simpa [writtenFields] using t.rectangular row hrow
  have hread : (readRecords d (render d t)).map Record.fields =
      t.names.map String.toList :: t.rows.map writtenFields := by
    rw [render_eq h.names_ne, hnames, List.map_cons]
    refine readRecords_writeRecords hd (hmark name (by rw [hnames]; rfl)) fun fields hfields => ?_
    rintro rfl
    have := hlength [] hfields
    simp [hnames] at this
  have htrim : (t.names.map String.toList).map trim = t.names.map String.toList := by
    rw [List.map_map]
    exact List.map_congr_left h.trimmed
  have hdistinct : ((t.names.map String.toList).map trim).Nodup := by
    rw [htrim]
    exact t.distinct.map fun _ _ => String.toList_injective
  obtain ⟨u, skipped, hload, hunames, hurows, hskipped⟩ := load_of_records hread hdistinct
  have hall : (t.rows.map writtenFields).filter (·.length == (t.names.map String.toList).length) =
      t.rows.map writtenFields :=
    List.filter_eq_self.2 fun row hrow => beq_iff_eq.2 (hlength row hrow)
  have hnone : (t.rows.map writtenFields).filter (·.length != (t.names.map String.toList).length) = [] :=
    List.filter_eq_nil_iff.2 fun row hrow => by simp [hlength row hrow]
  have hback : ∀ row ∈ t.rows, textCells (writtenFields row) = row := by
    intro row hrow
    obtain ⟨fields, rfl⟩ := h.text row hrow
    rw [writtenFields_textCells]
  rw [hall, List.map_map] at hurows
  rw [hnone, List.map_nil, List.map_eq_nil_iff] at hskipped
  obtain rfl : u = t := by
    refine Table.ext_of_rows (hunames.trans ?_) (hurows.trans ?_)
    · have := congrArg (List.map String.ofList) htrim
      simpa [columnNames, List.map_map, Function.comp_def] using this
    · exact (List.map_congr_left hback).trans (List.map_id _)
  rw [hload, hskipped]

/-! ## The round trip -/

/-- What was saved is loaded. -/
theorem loadFile_saveFile {disk disk' : Disk} {path : String} {t : Table}
    (hsave : saveFile disk path d t = (.ok (), disk')) (d? : Option Char) :
    loadFile disk' path d? = load (d?.getD (sniff (render d t))) (render d t) := by
  have hwritten : disk.write path (String.ofList (render d t)).toUTF8 = (.ok (), disk') := by
    unfold saveFile at hsave
    split at hsave
    · next hwrite =>
      cases hsave
      exact hwrite
    · cases hsave
  rw [loadFile, readFile, Disk.read_write hwritten]
  simp only [decodeAny_toUTF8, String.toList_ofList]

/-- The text of a header with distinct trimmed names and of any records is loaded: the columns have these
names, the rows are the records of the header's length, and each other record is skipped with a report. A
table that was loaded from any text is loaded again, as it is, from what is written for it. -/
theorem load_written (hd : Separates d) :
    (∀ first header (records : List (List (List Char))), first.head? ≠ some '\uFEFF' →
      ((first :: header).map trim).Nodup → (∀ fields ∈ records, fields ≠ []) →
      ∃ t skipped, load d (writeRecords d ((first :: header) :: records)) = (.ok t, skipped) ∧
        t.names = columnNames (first :: header) ∧
        t.rows = (records.filter (·.length == (first :: header).length)).map textCells ∧
        skipped.map (fun s => (s.expected, s.found)) =
          (records.filter (·.length != (first :: header).length)).map
            fun fields => ((first :: header).length, fields.length)) ∧
    ∀ d₀ cs t skipped, load d₀ cs = (.ok t, skipped) →
      (∀ name ∈ t.names.head?, name.toList.head? ≠ some '\uFEFF') →
      load d (render d t) = (.ok t, []) ∧
        ∀ disk path disk', saveFile disk path d t = (.ok (), disk') →
          loadFile disk' path (some d) = (.ok t, []) := by
  refine ⟨?_, ?_⟩
  · intro first header records hmark hnames hne
    exact load_of_records (readRecords_writeRecords hd hmark hne) hnames
  · intro d₀ cs t skipped hload hmark
    have hback := (loaded_of_load hload).load_render hd hmark
    exact ⟨hback, fun disk path disk' hsave => (loadFile_saveFile hsave (some d)).trans hback⟩

/-- Names with blanks around them, quotes, delimiters and line ends in fields, and an empty record that is
skipped. -/
theorem load_written_hostile : Separates ';' ∧
    ∃ t skipped, load ';' (writeRecords ';' [[" a ".toList, "b;".toList], ["x\ny".toList, "\"".toList], [[]],
        [[], " ".toList]]) = (.ok t, skipped) ∧
      t.names = ["a", "b;"] ∧ t.rows = [textCells ["x\ny".toList, "\"".toList], textCells [[], " ".toList]] ∧
      skipped.map (fun s => (s.expected, s.found)) = [(2, 1)] ∧ load ',' (render ',' t) = (.ok t, []) := by
  have hd : Separates ';' := ⟨by decide, by decide, by decide⟩
  obtain ⟨t, skipped, hload, hnames, hrows, hskipped⟩ := (load_written hd).1 " a ".toList ["b;".toList]
    [["x\ny".toList, "\"".toList], [[]], [[], " ".toList]] (by decide) (by decide) (by decide)
  have hnames' : t.names = ["a", "b;"] := hnames.trans (by decide)
  have hback := (load_written (d := ',') ⟨by decide, by decide, by decide⟩).2 ';' _ t skipped hload
    (by rw [hnames']; decide)
  exact ⟨hd, t, skipped, hload, hnames', hrows, hskipped.trans (by decide), hback.1⟩

end Delimited

end Scriptorium
