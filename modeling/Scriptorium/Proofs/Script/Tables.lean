import Mathlib.Data.List.Nodup
import Scriptorium.Script.Library.Standard

/-!
# Entries of tables

A table keeps its entries in the order in which their keys came, with the positions of the keys beside them. As long
as the two agree (`TableData.Indexed`), what is read under a key is what was last set under it
(`TableData.getEntry_setEntry`). So each library function is found under its name in the store that a script starts
with (`Library.getText_globals`).
-/

namespace Scriptorium.Script

namespace TableData

variable {t : TableData} {k k' : Key} {v : Value}

/-- Each position that is kept for a key is one of an entry under it. -/
def Indexed (t : TableData) : Prop :=
  ∀ (k : Key) (i : Nat), t.positions[k]? = some i → ∃ v : Value, t.entries[i]? = some (k, v)

theorem indexed_empty : ({} : TableData).Indexed := by
  intro k i h
  simp at h

theorem Indexed.setEntry (h : t.Indexed) (k : Key) (v : Value) : (t.setEntry k v).Indexed := by
  unfold TableData.setEntry
  cases hk : t.positions[k]? with
  | some i =>
    intro k' j (hj : t.positions[k']? = some j)
    show ∃ v' : Value, (t.entries.set! i (k, v))[j]? = some (k', v')
    grind [Indexed]
  | none =>
    dsimp only
    split
    · exact h
    · intro k' j (hj : (t.positions.insert k t.entries.size)[k']? = some j)
      show ∃ v' : Value, (t.entries.push (k, v))[j]? = some (k', v')
      rw [Std.HashMap.getElem?_insert] at hj
      split at hj
      · next heq =>
        obtain rfl := Option.some.inj hj
        exact ⟨v, by rw [eq_of_beq heq, Array.getElem?_push_size]⟩
      · obtain ⟨v', hv'⟩ := h k' j hj
        exact ⟨v', by grind⟩

theorem getEntry_setEntry (h : t.Indexed) (k k' : Key) (v : Value) :
    (t.setEntry k v).getEntry k' = if k = k' then v else t.getEntry k' := by
  unfold TableData.setEntry getEntry
  grind [Indexed, Value.isNil]

/-! ## Tables of named values -/

/-- The table with values set under names, one after the other. -/
def setFields (t : TableData) (fields : List (Bytes × Value)) : TableData :=
  fields.foldl (fun t field => t.setText field.1 field.2) t

theorem ofFields_eq (fields : List (Bytes × Value)) : ofFields fields = setFields {} fields := rfl

theorem setFields_append (t : TableData) (fields fields' : List (Bytes × Value)) :
    t.setFields (fields ++ fields') = (t.setFields fields).setFields fields' := List.foldl_append

theorem Indexed.setFields (h : t.Indexed) (fields : List (Bytes × Value)) : (t.setFields fields).Indexed := by
  induction fields generalizing t with
  | nil => exact h
  | cons field fields ih => exact ih (h.setEntry _ _)

theorem getText_setFields_of_notMem {name : Bytes} (h : t.Indexed) {fields : List (Bytes × Value)}
    (hname : name ∉ fields.map (·.1)) : (t.setFields fields).getText name = t.getText name := by
  induction fields generalizing t with
  | nil => rfl
  | cons field fields ih =>
    rw [List.map_cons, List.mem_cons, not_or] at hname
    have hkey : Key.text field.1 ≠ Key.text name := fun heq => hname.1 (Key.text.inj heq).symm
    exact (ih (h.setEntry _ _) hname.2).trans ((getEntry_setEntry h _ _ _).trans (if_neg hkey))

/-- Where names are distinct, each value is found under its name. -/
theorem getText_ofFields {name : Bytes} {fields : List (Bytes × Value)} (hnames : (fields.map (·.1)).Nodup)
    (hmem : (name, v) ∈ fields) : (ofFields fields).getText name = v := by
  obtain ⟨before, after, rfl⟩ := List.append_of_mem hmem
  have hafter : name ∉ after.map (·.1) := by
    rw [List.map_append, List.map_cons] at hnames
    exact (List.nodup_cons.1 (List.nodup_append.1 hnames).2.1).1
  have hbefore := indexed_empty.setFields before
  rw [ofFields_eq, setFields_append]
  exact (getText_setFields_of_notMem (hbefore.setEntry _ _) hafter).trans
    ((getEntry_setEntry hbefore _ _ _).trans (if_pos rfl))

end TableData

/-! ## The global functions -/

namespace Store

variable {s : Store} {p : Nat}

theorem table_newTable (h : p < s.tables.size) (t : TableData) : (s.newTable t).2.table p = s.table p := by
  simp only [table, newTable, Array.getElem?_push_lt h, Array.getElem?_eq_getElem h]

theorem table_modifyTable (h : p < s.tables.size) (f : TableData → TableData) :
    (s.modifyTable p f).table p = f (s.table p) := by
  simp only [table, modifyTable, Array.getElem?_modify, if_true, Array.getElem?_eq_getElem h, Option.map_some,
    Option.getD_some]

end Store

namespace Library

variable {s : Store} {name library : String} {b : Builtin}

theorem bytes_injective : Function.Injective bytes := fun _ _ h => String.toByteArray_inj.1 h

/-- A global function is found under its name. -/
structure Found (s : Store) (name : String) (b : Builtin) : Prop where
  tables : 0 < s.tables.size
  indexed : (s.table 0).Indexed
  found : (s.table 0).getText (bytes name) = .builtin b

/-- A library of another name does not hide a global function. -/
theorem Found.addLibrary (h : Found s name b) (hname : library ≠ name) (members : List (String × Builtin)) :
    Found (addLibrary s library members) name b := by
  let v : Value := .table s.tables.size
  let s' : Store := (s.newTable (libraryTable library members)).2
  have hsize : 0 < s'.tables.size := by simp [s', Store.newTable]
  have hkey : Key.text (bytes library) ≠ .text (bytes name) := fun heq => hname (bytes_injective (Key.text.inj heq))
  have htable : (s'.modifyTable 0 (·.setText (bytes library) v)).table 0 = (s.table 0).setText (bytes library) v := by
    rw [Store.table_modifyTable hsize, Store.table_newTable h.tables]
  have hfound : Found (s'.modifyTable 0 (·.setText (bytes library) v)) name b := by
    refine ⟨by simpa [Store.modifyTable] using hsize, ?_, ?_⟩
    · rw [htable]
      exact h.indexed.setEntry _ _
    · rw [htable]
      exact ((TableData.getEntry_setEntry h.indexed _ _ _).trans (if_neg hkey)).trans h.found
  unfold Library.addLibrary
  dsimp only
  split
  · have hmetatable := Store.table_newTable hfound.tables (.ofFields [(bytes "__index", v)])
    refine ⟨by simp [Store.newTable], ?_, ?_⟩
    · exact hmetatable ▸ hfound.indexed
    · exact (congrArg (TableData.getText · _) hmetatable).trans hfound.found
  · exact hfound

/-- Each library function that is global is found under its name. -/
theorem getText_globals (registry : Registry) (h : (name, b) ∈ Builtin.globals) :
    ((initialStore registry).table 0).getText (bytes name) = .builtin b := by
  have hlibraries : ∀ p ∈ Builtin.globals, p.1 ∉ Builtin.libraries.map (·.1) := by decide
  have hstart : Found { registry, tables := #[globalTable] } name b := by
    refine ⟨Nat.one_pos, TableData.indexed_empty.setFields _, ?_⟩
    have hnames : (Builtin.globals.map (·.1) ++ ["_VERSION", "_G"]).Nodup := by decide
    refine TableData.getText_ofFields ?_ (List.mem_append_left _ (List.mem_map.2 ⟨_, h, rfl⟩))
    have hbytes := List.Nodup.map bytes_injective hnames
    rwa [List.map_append, List.map_map] at hbytes ⊢
  have hfilled := List.foldlRecOn (motive := fun s => Found s name b) Builtin.libraries
    (fun s (p : String × List (String × Builtin)) => addLibrary s p.1 p.2) hstart
    fun s hs p hp => hs.addLibrary (fun heq => hlibraries _ h (List.mem_map.2 ⟨p, hp, heq⟩)) p.2
  exact hfilled.found

end Library

end Scriptorium.Script
