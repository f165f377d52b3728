import Scriptorium.Proofs.Script.Endings
import Scriptorium.Proofs.Script.Tables

/-!
# Data handed to a script

What a script can read of the data that the host hands it. The contents of cells become plain values, which leave the
store as it is (`ofDatum_ofCell`); lists and records become tables without metatables, whose items and fields are those
of the data (`getInteger_ofItems`, `getText_ofFields`) and whose length is the number of items (`length_ofItems`).
-/

namespace Scriptorium.Script

/-- The value that the content of a cell becomes. -/
def Value.ofCell : Cell → Value
  | .null => .nil
  | .integer n => .integer n
  | .float x => .float x
  | .boolean b => .boolean b
  | .text s => .ofString s

theorem Value.ofCell_eq_nil_iff {c : Cell} : Value.ofCell c = .nil ↔ c = .null := by
  cases c <;> simp [Value.ofCell, Value.ofString]

/-! ## Values that data become -/

namespace Store

theorem ofDatum_ofCell (c : Cell) (s : Store) : ofDatum (.ofCell c) s = (.ofCell c, s) := by
  cases c <;> rfl

theorem ofFields_cells (fields : List (String × Cell)) (s : Store) :
    ofFields (fields.map fun (name, c) => (name, .ofCell c)) s =
      (fields.map fun (name, c) => (bytes name, .ofCell c), s) := by
  induction fields with
  | nil => rfl
  | cons field fields ih =>
    obtain ⟨name, c⟩ := field
    rw [List.map_cons, ofFields, ofDatum_ofCell]
    dsimp only
    rw [ih, List.map_cons]

theorem ofDatums_strings (names : List String) (s : Store) :
    ofDatums (names.map .ofString) s = (names.map .ofString, s) := by
  induction names with
  | nil => rfl
  | cons name names ih =>
    have hname : ofDatum (.ofString name) s = (.ofString name, s) := rfl
    rw [List.map_cons, ofDatums, hname]
    dsimp only
    rw [ih, List.map_cons]

theorem ofDatum_strings (names : List String) (s : Store) :
    ofDatum (.list (names.map .ofString)) s = s.newTable (.ofItems (names.map .ofString)) := by
  rw [ofDatum, ofDatums_strings]

/-- Records one after the other become tables at the next places. -/
theorem ofDatums_records {α : Type} {record : α → Datum} {data : α → TableData}
    (h : ∀ a s, ofDatum (record a) s = s.newTable (data a)) (as : List α) (s : Store) :
    ofDatums (as.map record) s = ((List.range' s.tables.size as.length).map .table,
      { s with tables := s.tables ++ (as.map data).toArray }) := by
  induction as generalizing s with
  | nil => simp [ofDatums]
  | cons a as ih =>
    rw [List.map_cons, ofDatums, h]
    dsimp only [newTable]
    rw [ih]
    simp [List.range'_succ]

theorem table_newTable_self (s : Store) (t : TableData) : (s.newTable t).2.table s.tables.size = t := by
  simp only [table, newTable, Array.getElem?_push_size, Option.getD_some]

/-- A list of records becomes a table of the tables that they become. -/
theorem ofDatum_records {α : Type} {record : α → Datum} {data : α → TableData}
    (h : ∀ a s, ofDatum (record a) s = s.newTable (data a)) (as : List α) (s : Store) : ∃ s' : Store,
      ofDatum (.list (as.map record)) s = (.table (s.tables.size + as.length), s') ∧
      s'.objects = s.objects ∧
      s'.table (s.tables.size + as.length) = .ofItems ((List.range' s.tables.size as.length).map .table) ∧
      ∀ (k : Nat) (a : α), as[k]? = some a → s'.table (s.tables.size + k) = data a := by
  let filled : Store := { s with tables := s.tables ++ (as.map data).toArray }
  let list : TableData := .ofItems ((List.range' s.tables.size as.length).map .table)
  have hsize : filled.tables.size = s.tables.size + as.length := by simp [filled]
  refine ⟨(filled.newTable list).2, ?_, rfl, ?_, fun k a ha => ?_⟩
  · rw [ofDatum, ofDatums_records h, ← hsize]
    rfl
  · rw [← hsize]
    exact table_newTable_self filled list
  · have hk : k < as.length := (List.getElem?_eq_some_iff.1 ha).1
    rw [table_newTable (by omega), table, Array.getElem?_append_right (Nat.le_add_right _ _)]
    simp [ha]

end Store

/-! ## Reading tables of items and fields -/

namespace TableData

variable {t : TableData} {vs : List Value} {n : Int64}

theorem getInteger_ofItems (hlow : 1 ≤ n.toInt) : (ofItems vs).getInteger n = vs.getD (n.toInt.toNat - 1) .nil := by
  have hpositive : 1 ≤ n := Int64.le_iff_toInt_le.2 hlow
  by_cases hhigh : n.toNatClampNeg ≤ vs.length
  · have hindex : (ofItems vs).itemIndex? n = some (n.toInt.toNat - 1) := by
      simp [itemIndex?, ofItems, hpositive, hhigh]
    rw [getInteger, hindex]
    simp [ofItems, List.getD_eq_getElem?_getD]
  · have hindex : (ofItems vs).itemIndex? n = none := by simp [itemIndex?, ofItems, hhigh]
    have hend : vs.length ≤ n.toInt.toNat - 1 := Nat.le_sub_one_of_lt (Nat.lt_of_not_le hhigh)
    rw [getInteger, hindex, List.getD_eq_getElem?_getD, List.getElem?_eq_none hend]
    simp [ofItems, getEntry]

/-- A list that does not end with `nil` is as long as it has items. -/
theorem length_ofItems (h : ∀ v ∈ vs.getLast?, v.isNil = false) : (ofItems vs).length = vs.length := by
  have hfull : (ofItems vs).isFull = true := by
    rw [isFull, ofItems, List.back?_toArray]
    cases hlast : vs.getLast? with
    | none => rfl
    | some v => simp [h v hlast]
  rw [length, hfull]
  simp [ofItems]

theorem metatable?_setEntry (t : TableData) (k : Key) (v : Value) : (t.setEntry k v).metatable? = t.metatable? := by
  unfold setEntry
  split
  · rfl
  · split <;> rfl

theorem metatable?_ofFields (fields : List (Bytes × Value)) : (ofFields fields).metatable? = none := by
  have hfields (t : TableData) : (t.setFields fields).metatable? = t.metatable? := by
    induction fields generalizing t with
    | nil => rfl
    | cons field fields ih => exact (ih _).trans (metatable?_setEntry t _ _)
  exact hfields {}

end TableData

/-! ## Expressions about them -/

namespace Session

variable {s : Session} {p : Nat} {k : Value}

/-- `v[k]` in a script. -/
def indexed (s : Session) (v k : Value) : Option (Except HostFailure Value × Session) :=
  s.performOne (Operation.index .unknown v k)

theorem indexed_table (h : (s.store.table p).metatable? = none) :
    s.indexed (.table p) k = some (.ok ((k.key?.map (s.store.table p).get).getD .nil), s) := by
  have hends : Act.Ends 1 (Operation.index .unknown (.table p) k) s.store s.world 1
      (.ok ((k.key?.map (s.store.table p).get).getD .nil)) s.store s.world := by
    refine .read ?_
    dsimp only
    cases hfound : (k.key?.map (s.store.table p).get).getD .nil with
    | nil =>
      have hmethod : s.store.metamethod (.table p) "index" = .nil := by
        simp only [Store.metamethod, Store.metatable?, h]
      dsimp only
      rw [hmethod]
      exact .done _ _ _
    | _ => exact .done _ _ _
  exact performOne_of_ends hends (by decide)

theorem lengthOf_table (h : (s.store.table p).metatable? = none) :
    s.lengthOf (.table p) = some (.ok (.integer (Int64.ofNat (s.store.table p).length)), s) := by
  have hmethod : s.store.metamethod (.table p) "len" = .nil := by
    simp only [Store.metamethod, Store.metatable?, h]
  have hends : Act.Ends 1 (Operation.length .unknown (.table p)) s.store s.world 1
      (.ok (.integer (Int64.ofNat (s.store.table p).length))) s.store s.world := by
    refine .read ?_
    dsimp only
    rw [hmethod]
    exact .done _ _ _
  rw [lengthOf, performOne_of_ends hends (by decide)]
  rfl

/-- A list is read by the numbers of its items. -/
theorem indexed_ofItems {vs : List Value} {n : Int64} {v : Value} (h : s.store.table p = .ofItems vs)
    (hlow : 1 ≤ n.toInt) (hv : vs[n.toInt.toNat - 1]? = some v) :
    s.indexed (.table p) (.integer n) = some (.ok v, s) := by
  have hget : (s.store.table p).getInteger n = v := by
    rw [h, TableData.getInteger_ofItems hlow, List.getD_eq_getElem?_getD, hv]
    rfl
  rw [indexed_table (by rw [h]; rfl), ← hget]
  rfl

/-- A record is read by the names of its fields. -/
theorem indexed_ofFields {fields : List (Bytes × Value)} {name : String} {v : Value}
    (h : s.store.table p = .ofFields fields) (hv : (TableData.ofFields fields).getText (bytes name) = v) :
    s.indexed (.table p) (.ofString name) = some (.ok v, s) := by
  rw [indexed_table (by rw [h, TableData.metatable?_ofFields]), ← hv, ← h]
  rfl

theorem lengthOf_ofItems {vs : List Value} (h : s.store.table p = .ofItems vs)
    (hvs : ∀ v ∈ vs.getLast?, v.isNil = false) :
    s.lengthOf (.table p) = some (.ok (.integer (Int64.ofNat vs.length)), s) := by
  rw [lengthOf_table (by rw [h]; rfl), h, TableData.length_ofItems hvs]

end Session

end Scriptorium.Script
