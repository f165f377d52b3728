import Scriptorium.Proofs.Disk.ReadBack
import Scriptorium.Proofs.Script.HandedValues

/-!
# Three ways to read a table

A script reads the cells of a table object with `t:get(row, column)`, where a column is given by its number or by its
name, or from the records that `t:rows()` gives. The numbers count from one and the rows of a table from zero; here
they are brought together, and all three ways come to the same (`reads_table`).
-/

namespace Scriptorium.Script

/-- Is the integer one of the numbers that count so many things from one on? -/
def IsNumber (n : Int64) (count : Nat) : Prop := 1 ≤ n.toInt ∧ n.toInt ≤ count

/-- The place, from zero on, of what has a number. -/
def placeOf (n : Int64) : Nat := n.toInt.toNat - 1

theorem IsNumber.placeOf_lt {n : Int64} {count : Nat} (h : IsNumber n count) : placeOf n < count := by
  unfold IsNumber at h
  unfold placeOf
  omega

/-! ## Cells by number and by name -/

namespace Library

variable {t : Table} {i j : Int64} {k : Nat} {b : Bytes} {name : String} {column : Value} {c : Cell}

theorem columnIndex?_integer (h : IsNumber j t.columnCount) : columnIndex? t (.integer j) = some (placeOf j) := by
  have hpositive : 1 ≤ j := Int64.le_iff_toInt_le.2 h.1
  have hend : j.toNatClampNeg ≤ t.columnCount := Int.toNat_le.2 h.2
  simp only [columnIndex?, hpositive, hend, decide_true, Bool.and_true, if_true]
  rfl

theorem columnIndex?_integer_eq_none (h : ¬ IsNumber j t.columnCount) : columnIndex? t (.integer j) = none := by
  rw [columnIndex?, if_neg]
  intro hbounds
  obtain ⟨hpositive, hend⟩ := (Bool.and_eq_true _ _).mp hbounds |>.imp of_decide_eq_true of_decide_eq_true
  exact h ⟨Int64.le_iff_toInt_le.1 hpositive, Int.toNat_le.1 hend⟩

theorem columnIndex?_ofString (h : t.names[k]? = some name) : columnIndex? t (.ofString name) = some k := by
  obtain ⟨hk, rfl⟩ := List.getElem?_eq_some_iff.1 h
  have hname : columnIndex? t (.ofString t.names[k]) = t.columnIndex? t.names[k] := by
    rw [Value.ofString, columnIndex?, fromUTF8?_toUTF8]
    rfl
  rw [hname, Table.columnIndex?, List.findIdx?_eq_some_iff_getElem]
  refine ⟨hk, beq_self_eq_true _, fun l hl heq => ?_⟩
  exact Nat.ne_of_lt hl ((List.Nodup.getElem_inj_iff t.distinct).1 (eq_of_beq heq))

/-- Bytes that spell none of the names, which need not be UTF-8, find no column. -/
theorem columnIndex?_text_eq_none (h : ∀ name ∈ t.names, bytes name ≠ b) : columnIndex? t (.text b) = none := by
  rw [columnIndex?]
  cases hname : String.fromUTF8? b with
  | none => rfl
  | some name =>
    refine List.findIdx?_eq_none_iff.2 fun name' hmem => beq_eq_false_iff_ne.2 ?_
    rintro rfl
    exact h _ hmem (toUTF8_of_fromUTF8? hname)

theorem exists_cell (hi : IsNumber i t.rowCount) (hj : IsNumber j t.columnCount) :
    ∃ row c, t.rows[placeOf i]? = some row ∧ row[placeOf j]? = some c := by
  have hrow : placeOf i < t.rows.length := hi.placeOf_lt
  have hlength := t.rectangular _ (List.getElem_mem hrow)
  have hcell : placeOf j < (t.rows[placeOf i]).length := hlength ▸ hj.placeOf_lt
  exact ⟨_, _, List.getElem?_eq_getElem hrow, List.getElem?_eq_getElem hcell⟩

theorem cellAt_of_columnIndex? (hi : IsNumber i t.rowCount) (hcolumn : columnIndex? t column = some k)
    (hc : t.cell? (placeOf i) k = some c) : cellAt t i column = .ofCell c := by
  have hpositive : ¬ i < 1 := fun hlt => Int.not_lt.2 hi.1 (Int64.lt_iff_toInt_lt.1 hlt)
  have hcell : t.cell? (i.toNatClampNeg - 1) k = some c := hc
  rw [cellAt, if_neg hpositive, hcolumn]
  dsimp only
  rw [hcell]
  rfl

theorem cellAt_of_no_column (h : columnIndex? t column = none) : cellAt t i column = .nil := by
  rw [cellAt, h]
  exact ite_self _

theorem cellAt_of_no_row (hi : ¬ IsNumber i t.rowCount) : cellAt t i column = .nil := by
  unfold cellAt
  split
  · rfl
  next hpositive =>
    have hlow : 1 ≤ i.toInt := Int.not_lt.1 fun hlt => hpositive (Int64.lt_iff_toInt_lt.2 hlt)
    have hend : t.rows.length ≤ i.toNatClampNeg - 1 := by
      have hlarge : ¬ i.toInt ≤ t.rows.length := fun hle => hi ⟨hlow, hle⟩
      have hnat : i.toNatClampNeg = i.toInt.toNat := rfl
      omega
    split
    · rfl
    · rw [Table.cell?, List.getElem?_eq_none hend]
      rfl

/-! ## Rows as records -/

/-- The table that a row becomes. -/
def recordTable (t : Table) (row : List Cell) : TableData :=
  .ofFields ((t.names.zip row).map fun (name, c) => (bytes name, .ofCell c))

theorem ofDatum_rowRecord (t : Table) (row : List Cell) (s : Store) :
    s.ofDatum (rowRecord t row) = s.newTable (recordTable t row) := by
  rw [rowRecord, Store.ofDatum, Store.ofFields_cells]
  rfl

theorem getText_recordTable {row : List Cell} (hrow : row ∈ t.rows) (hname : t.names[k]? = some name)
    (hc : row[k]? = some c) : (recordTable t row).getText (bytes name) = .ofCell c := by
  have hlength : t.names.length ≤ row.length := Nat.le_of_eq (t.rectangular row hrow).symm
  have hnames : ((t.names.zip row).map fun (name, c) => (bytes name, Value.ofCell c)).map (·.1) =
      t.names.map bytes := by
    conv_rhs => rw [← List.map_fst_zip hlength, List.map_map]
    rw [List.map_map]
    rfl
  apply TableData.getText_ofFields
  · rw [hnames]
    exact t.distinct.map bytes_injective
  · have hfield : (t.names.zip row)[k]? = some (name, c) := by
      rw [List.getElem?_zip_eq_some]
      exact ⟨hname, hc⟩
    exact List.mem_map.2 ⟨_, List.mem_of_getElem? hfield, rfl⟩

end Library

/-! ## Reading in a session -/

theorem Operation.gridMember_ofString (t : Table) (name : String) :
    gridMember t (.ofString name) =
      if name = "row_count" then .integer (Int64.ofNat t.rowCount)
      else if name = "column_count" then .integer (Int64.ofNat t.columnCount)
      else if name = "columns" then .builtin .gridColumns
      else if name = "column_type" then .builtin .gridColumnType
      else if name = "get" then .builtin .gridGet
      else if name = "rows" then .builtin .gridRows
      else .nil := by
  simp only [gridMember, Value.ofString, Library.bytes_injective.eq_iff]

namespace Session

open Act Library

variable {s : Session} {p k : Nat} {t : Table} {i j : Int64} {b : Builtin} {column : Value} {c : Cell}

/-- `t:get(row, column)`, for the table object `t` at a place. -/
def getAt (s : Session) (p : Nat) (row column : Value) : Option (Except HostFailure Value × Session) :=
  s.callMember (.object p) "get" [.object p, row, column]

theorem ends_index_grid (hp : s.store.objects[p]? = some (.grid t)) (key : Value) :
    Ends 1 (Operation.index .unknown (.object p) key) s.store s.world 1 (.ok (Operation.gridMember t key)) s.store
      s.world := by
  rw [Operation.index_object]
  refine .read ?_
  rw [hp]
  exact .done _ _ _

theorem ends_gridOf (hp : s.store.objects[p]? = some (.grid t)) (method : String) (args : List Value) :
    Ends 0 (gridOf method (.object p :: args)) s.store s.world 1 (.ok t) s.store s.world := by
  refine .read ?_
  have hself : Args.value (.object p :: args) 1 = .object p := rfl
  rw [hself]
  dsimp only
  rw [hp]
  exact .done _ _ _

theorem readMember_grid (hp : s.store.objects[p]? = some (.grid t)) (name : String) :
    s.readMember (.object p) name = some (.ok (Operation.gridMember t (.ofString name)), s) :=
  performOne_of_ends (ends_index_grid hp _) (by decide)

/-- A call of a method that gives a single datum of the table. -/
theorem callMember_grid {f : Table → Datum} (key : String) (args : List Value)
    (hp : s.store.objects[p]? = some (.grid t))
    (hb : Operation.gridMember t (.ofString key) = .builtin b)
    (hf : Library.perform ⟨b, .unknown⟩ (.object p :: args) =
      (gridOf key (.object p :: args)).bind fun t => Act.ofData [f t]) :
    s.callMember (.object p) key (.object p :: args) =
      some (.ok (s.store.ofDatum (f t)).1, s.withStore (s.store.ofDatum (f t)).2) := by
  have hperform : Ends 0 (Library.perform ⟨b, .unknown⟩ (.object p :: args)) s.store s.world 2
      (.ok [(s.store.ofDatum (f t)).1]) (s.store.ofDatum (f t)).2 s.world := by
    rw [hf]
    exact Ends.bind (g := fun t => Act.ofData [f t]) (ends_gridOf hp key args) (Ends.ofData [f t] s.store s.world)
  have hcall := (Ends.invoke_builtin hperform).map Operation.firstOf
  refine performOne_of_ends (n := 1 + (2 + 4)) (r := .ok (s.store.ofDatum (f t)).1)
    (Ends.bind (ends_index_grid hp (.ofString key)) ?_) (by decide)
  rw [hb]
  exact hcall

theorem getAt_eq (hp : s.store.objects[p]? = some (.grid t)) (i : Int64) (column : Value) :
    s.getAt p (.integer i) column = some (.ok (s.store.ofDatum (cellAt t i column)).1,
      s.withStore (s.store.ofDatum (cellAt t i column)).2) :=
  callMember_grid (f := fun t => cellAt t i column) (b := .gridGet) "get" [.integer i, column] hp
    (by simp [Operation.gridMember_ofString]) rfl

theorem getAt_of_column (hp : s.store.objects[p]? = some (.grid t)) (hi : IsNumber i t.rowCount)
    (hcolumn : columnIndex? t column = some k) (hc : t.cell? (placeOf i) k = some c) :
    s.getAt p (.integer i) column = some (.ok (.ofCell c), s) := by
  rw [getAt_eq hp, cellAt_of_columnIndex? hi hcolumn hc, Store.ofDatum_ofCell]
  rfl

theorem getAt_of_nil (hp : s.store.objects[p]? = some (.grid t)) (h : cellAt t i column = .nil) :
    s.getAt p (.integer i) column = some (.ok .nil, s) := by
  rw [getAt_eq hp, h]
  rfl

theorem lengthOf_grid (hp : s.store.objects[p]? = some (.grid t)) :
    s.lengthOf (.object p) = some (.ok (.integer (Int64.ofNat t.rowCount)), s) := by
  have hends : Ends 1 (Operation.length .unknown (.object p)) s.store s.world 1
      (.ok (.integer (Int64.ofNat t.rowCount))) s.store s.world := by
    refine .read ?_
    dsimp only
    rw [hp]
    exact .done _ _ _
  rw [lengthOf, performOne_of_ends hends (by decide)]
  rfl

/-- `t:rows()` gives a record for each row, with the cells of the row under the names of the columns. -/
theorem callMember_rows (hp : s.store.objects[p]? = some (.grid t)) : ∃ rows s',
    s.callMember (.object p) "rows" [.object p] = some (.ok rows, s') ∧ s'.store.objects = s.store.objects ∧
    s'.lengthOf rows = some (.ok (.integer (Int64.ofNat t.rowCount)), s') ∧
    ∀ (i : Int64) (row : List Cell), IsNumber i t.rowCount → t.rows[placeOf i]? = some row → ∃ record,
      s'.indexed rows (.integer i) = some (.ok record, s') ∧
      ∀ (k : Nat) (name : String) (c : Cell), t.names[k]? = some name → row[k]? = some c →
        s'.indexed record (.ofString name) = some (.ok (.ofCell c), s') := by
  have hcall := callMember_grid (f := fun t => .list (t.rows.map (rowRecord t))) (b := .gridRows) "rows" [] hp
    (by simp [Operation.gridMember_ofString]) rfl
  obtain ⟨store, hstore, hobjects, hlist, hrecord⟩ := Store.ofDatum_records (ofDatum_rowRecord t) t.rows s.store
  rw [hstore] at hcall
  let tables : List Value := (List.range' s.store.tables.size t.rows.length).map .table
  have htable : ∀ v ∈ tables, v.isNil = false := by
    intro v hv
    obtain ⟨q, -, rfl⟩ := List.mem_map.1 hv
    rfl
  refine ⟨_, _, hcall, hobjects, ?_, fun i row hi hrow => ?_⟩
  · rw [lengthOf_ofItems hlist fun v hv => htable v (List.mem_of_getLast? hv)]
    simp [tables, Table.rowCount]
  · have hplace : tables[placeOf i]? = some (.table (s.store.tables.size + placeOf i)) := by
      have hnumber : placeOf i < t.rows.length := hi.placeOf_lt
      simp only [tables, List.getElem?_map, List.getElem?_range' hnumber, Nat.one_mul, Option.map_some]
    refine ⟨_, indexed_ofItems hlist hi.1 hplace, fun k name c hname hc => ?_⟩
    exact indexed_ofFields (hrecord _ _ hrow) (getText_recordTable (List.mem_of_getElem? hrow) hname hc)

/-- `t:columns()` gives the names of the columns. -/
theorem callMember_columns (hp : s.store.objects[p]? = some (.grid t)) : ∃ columns s',
    s.callMember (.object p) "columns" [.object p] = some (.ok columns, s') ∧ s'.store.objects = s.store.objects ∧
    s'.lengthOf columns = some (.ok (.integer (Int64.ofNat t.columnCount)), s') ∧
    ∀ (j : Int64) (name : String), IsNumber j t.columnCount → t.names[placeOf j]? = some name →
      s'.indexed columns (.integer j) = some (.ok (.ofString name), s') := by
  have hcall := callMember_grid (f := fun t => .list (t.names.map .ofString)) (b := .gridColumns) "columns" [] hp
    (by simp [Operation.gridMember_ofString]) rfl
  rw [Store.ofDatum_strings] at hcall
  have hlist := Store.table_newTable_self s.store (.ofItems (t.names.map .ofString))
  have htext : ∀ v ∈ t.names.map Value.ofString, v.isNil = false := by
    intro v hv
    obtain ⟨name, -, rfl⟩ := List.mem_map.1 hv
    rfl
  refine ⟨_, _, hcall, rfl, ?_, fun j name hj hname => ?_⟩
  · have hlength := lengthOf_ofItems (s := s.withStore (s.store.newTable (.ofItems (t.names.map .ofString))).2) hlist
      fun v hv => htext v (List.mem_of_getLast? hv)
    rwa [List.length_map] at hlength
  · refine indexed_ofItems hlist hj.1 ?_
    have hplace : t.names[j.toInt.toNat - 1]? = some name := hname
    rw [List.getElem?_map, hplace, Option.map_some]

/-- The readings of a table object agree: of `t:get`, of the records in `t:rows()` and of the numbers of rows and
columns. -/
structure ReadsTable (s : Session) (p : Nat) (t : Table) (rows : Value) (withRows : Session) (columns : Value)
    (withColumns : Session) : Prop where
  callRows : s.callMember (.object p) "rows" [.object p] = some (.ok rows, withRows)
  callColumns : s.callMember (.object p) "columns" [.object p] = some (.ok columns, withColumns)
  /-- The table object is there as before, to be read again. -/
  rowsKeep : withRows.store.objects = s.store.objects
  columnsKeep : withColumns.store.objects = s.store.objects
  /-- A cell is the same by the number of its column, by the name of it and in the record of its row. It is `nil` if
  the cell is empty, and only then. -/
  cell : ∀ i j : Int64, IsNumber i t.rowCount → IsNumber j t.columnCount → ∃ name c record,
    t.names[placeOf j]? = some name ∧ t.cell? (placeOf i) (placeOf j) = some c ∧
    s.getAt p (.integer i) (.integer j) = some (.ok (.ofCell c), s) ∧
    s.getAt p (.integer i) (.ofString name) = some (.ok (.ofCell c), s) ∧
    withRows.indexed rows (.integer i) = some (.ok record, withRows) ∧
    withRows.indexed record (.ofString name) = some (.ok (.ofCell c), withRows) ∧
    (Value.ofCell c = .nil ↔ c = .null)
  noRow : ∀ (i : Int64) (column : Value), ¬ IsNumber i t.rowCount →
    s.getAt p (.integer i) column = some (.ok .nil, s)
  noColumn : ∀ i j : Int64, ¬ IsNumber j t.columnCount → s.getAt p (.integer i) (.integer j) = some (.ok .nil, s)
  noName : ∀ (i : Int64) (b : Bytes), (∀ name ∈ t.names, bytes name ≠ b) →
    s.getAt p (.integer i) (.text b) = some (.ok .nil, s)
  length : s.lengthOf (.object p) = some (.ok (.integer (Int64.ofNat t.rowCount)), s)
  rowCount : s.readMember (.object p) "row_count" = some (.ok (.integer (Int64.ofNat t.rowCount)), s)
  rowsLength : withRows.lengthOf rows = some (.ok (.integer (Int64.ofNat t.rowCount)), withRows)
  columnCount : s.readMember (.object p) "column_count" = some (.ok (.integer (Int64.ofNat t.columnCount)), s)
  columnsLength : withColumns.lengthOf columns = some (.ok (.integer (Int64.ofNat t.columnCount)), withColumns)
  columnName : ∀ j : Int64, IsNumber j t.columnCount → ∃ name, t.names[placeOf j]? = some name ∧
    withColumns.indexed columns (.integer j) = some (.ok (.ofString name), withColumns)

/-- Whatever the table, a script that reads it by numbers, by names and by records sees the same. -/
theorem reads_table (hp : s.store.objects[p]? = some (.grid t)) :
    ∃ rows withRows columns withColumns, s.ReadsTable p t rows withRows columns withColumns := by
  obtain ⟨rows, withRows, hcallRows, hrowsKeep, hrowsLength, hrow⟩ := callMember_rows hp
  obtain ⟨columns, withColumns, hcallColumns, hcolumnsKeep, hcolumnsLength, hcolumn⟩ := callMember_columns hp
  refine ⟨rows, withRows, columns, withColumns, ?_⟩
  exact {
    callRows := hcallRows
    callColumns := hcallColumns
    rowsKeep := hrowsKeep
    columnsKeep := hcolumnsKeep
    cell := by
      intro i j hi hj
      obtain ⟨row, c, hi', hc⟩ := exists_cell hi hj
      have hcell : t.cell? (placeOf i) (placeOf j) = some c := by rw [Table.cell?, hi', Option.bind_some, hc]
      have hname := List.getElem?_eq_getElem (show placeOf j < t.names.length from hj.placeOf_lt)
      obtain ⟨record, hrecord, hfield⟩ := hrow i row hi hi'
      exact ⟨_, c, record, hname, hcell, getAt_of_column hp hi (columnIndex?_integer hj) hcell,
        getAt_of_column hp hi (columnIndex?_ofString hname) hcell, hrecord, hfield _ _ c hname hc,
        Value.ofCell_eq_nil_iff⟩
    noRow := fun i column hi => getAt_of_nil hp (cellAt_of_no_row hi)
    noColumn := fun i j hj => getAt_of_nil hp (cellAt_of_no_column (columnIndex?_integer_eq_none hj))
    noName := fun i b hb => getAt_of_nil hp (cellAt_of_no_column (columnIndex?_text_eq_none hb))
    length := lengthOf_grid hp
    rowCount := by rw [readMember_grid hp, Operation.gridMember_ofString, if_pos rfl]
    rowsLength := hrowsLength
    columnCount := by rw [readMember_grid hp, Operation.gridMember_ofString, if_neg (by decide), if_pos rfl]
    columnsLength := hcolumnsLength
    columnName := by
      intro j hj
      have hname := List.getElem?_eq_getElem (show placeOf j < t.names.length from hj.placeOf_lt)
      exact ⟨_, hname, hcolumn j _ hj hname⟩ }

/-- A table with an empty cell. -/
def cities : Table where
  names := ["city", "people"]
  rows := [[.text "Oslo", .integer 709037], [.text "Bergen", .null]]

/-- A session with an object for that table. -/
def ofCities : Session := { store := { objects := #[.grid cities] }, world := { now := default }, limits := {} }

theorem reads_table_empty_cell :
    ofCities.store.objects[0]? = some (.grid cities) ∧ cities.cell? 1 1 = some .null ∧
      ofCities.getAt 0 (.integer 2) (.integer 2) = some (.ok .nil, ofCities) ∧
      ofCities.getAt 0 (.integer 2) (.ofString "people") = some (.ok .nil, ofCities) := by
  obtain ⟨rows, withRows, columns, withColumns, h⟩ := reads_table (s := ofCities) (p := 0) (t := cities) rfl
  have hnumber : IsNumber 2 2 := ⟨by decide, by decide⟩
  obtain ⟨name, c, record, hname, hc, hbyNumber, hbyName, -⟩ := h.cell 2 2 hnumber hnumber
  cases hname
  cases hc
  exact ⟨rfl, rfl, hbyNumber, hbyName⟩

end Session

end Scriptorium.Script
