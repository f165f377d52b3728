import Scriptorium.Document.Handles
import Scriptorium.Proofs.Document.Gates

/-!
# Moves of the office

An operation on the active document is an operation on a document (`Desk.perform_eq`), and where none is active it is
refused (`Desk.perform_of_none`). What a move can do to the slots and the handles is said once (`Office.step_cases`), and
so is what it can do to the documents (`Office.step_sheets`).
-/

namespace Scriptorium

/-! ## Operations on a document -/

namespace Document

variable {d : Document}

/-- What an operation does to a document and to the disk. -/
def perform (d : Document) (disk : Disk) : Desk.Operation → Except DocumentError Desk.Answer × Document × Disk
  | .read => (.ok (.content d.content), d, disk)
  | .write content => (.ok .done, d.setContent content, disk)
  | .save path? faults =>
    let (result, d, disk) := d.persist disk path? faults
    (result.map fun _ => .done, d, disk)
  | .path => (.ok (.path d.path?), d, disk)
  | .pages => (.ok (.pages d.pageCount), d, disk)
  | .dirty => (.ok (.dirty d.dirty), d, disk)

theorem writeTo_ne_unavailable (d : Document) (disk : Disk) (path : String) (faults : Faults) :
    (d.writeTo disk path faults).1 ≠ .error .unavailable := by
  unfold writeTo
  dsimp only
  split
  · simp [diskError]
  · split <;> simp [diskError]

theorem persist_ne_unavailable (d : Document) (disk : Disk) (path? : Option String) (faults : Faults) :
    (d.persist disk path? faults).1 ≠ .error .unavailable := by
  cases htarget : d.target? path? with
  | none =>
    rw [persist_of_no_target htarget]
    simp
  | some path =>
    have hwrite := d.writeTo_ne_unavailable disk path faults
    rw [persist_eq_saveAs htarget]
    unfold saveAs
    split
    · simp
    · next heq => rwa [heq] at hwrite

/-- Whatever happens to an operation on a document, the document was there. -/
theorem perform_ne_unavailable (d : Document) (disk : Disk) (op : Desk.Operation) :
    (d.perform disk op).1 ≠ .error .unavailable := by
  cases op with
  | save path? faults =>
    have hpersist := d.persist_ne_unavailable disk path? faults
    simp only [perform]
    cases hresult : (d.persist disk path? faults).1 with
    | ok _ => simp [Except.map]
    | error e =>
      rw [hresult] at hpersist
      simpa [Except.map] using hpersist
  | _ => simp [perform]

end Document

namespace Desk

variable {d : Desk} {n : Nat} {s : Sheet} {document : Document}

theorem update_congr (h : d.document? n = some document) (f : Document → Document) :
    d.update n f = d.update n fun _ => f document := by
  unfold update
  congr 1
  obtain ⟨s, hs, rfl⟩ := Option.map_eq_some_iff.1 h
  refine List.ext_getElem? fun i => ?_
  rw [List.getElem?_modify, List.getElem?_modify]
  by_cases hi : n = i
  · subst hi
    rw [hs]
    simp
  · simp [hi]

theorem update_same (h : d.document? n = some document) : (d.update n fun _ => document) = d := by
  have hid : d.update n id = d.update n fun _ => document := update_congr h id
  rw [← hid]
  change { d with sheets := d.sheets.modify n id } = d
  rw [List.modify_id]

/-- An operation on the desk is an operation on the current document. -/
theorem perform_eq (h : d.current? = some (n, s)) (disk : Disk) (op : Operation) :
    d.perform disk op = ((s.document.perform disk op).1, d.update n fun _ => (s.document.perform disk op).2.1,
      (s.document.perform disk op).2.2) := by
  have hrequire : d.require = .ok (n, s.document) := by rw [require, h]
  have hdocument := (require_eq_ok hrequire).2
  have hsame := update_same hdocument
  cases op with
  | read => simp only [perform, readContent, hrequire, Document.perform, hsame, Except.map]
  | write content =>
    simp only [perform, writeContent, hrequire, Document.perform, Except.map, update_congr hdocument]
  | path => simp only [perform, path, hrequire, Document.perform, hsame, Except.map]
  | pages => simp only [perform, pageCount, hrequire, Document.perform, hsame, Except.map]
  | dirty => simp only [perform, isDirty, hrequire, Document.perform, hsame, Except.map]
  | save path? faults =>
    have hatomic := s.document.persist_atomic disk path? faults
    simp only [perform, save, hrequire, saveSheet, Document.perform]
    -- a save that fails leaves the document as it was
    split at hatomic
    · next hpersist => simp only [hpersist, Except.map]
    · next hpersist =>
      obtain ⟨rfl, -⟩ := hatomic
      simp only [hpersist, Except.map, hsame]

theorem perform_of_none (h : d.current? = none) (disk : Disk) (op : Operation) :
    d.perform disk op = (.error .unavailable, d, disk) := by
  have hrequire : d.require = .error .unavailable := by rw [require, h]
  cases op with
  | read => simp only [perform, readContent, hrequire, Except.map]
  | write content => simp only [perform, writeContent, hrequire, Except.map]
  | save path? faults => simp only [perform, save, hrequire]
  | path => simp only [perform, path, hrequire, Except.map]
  | pages => simp only [perform, pageCount, hrequire, Except.map]
  | dirty => simp only [perform, isDirty, hrequire, Except.map]

end Desk

namespace Office

variable {o o' o'' : Office} {m : Move} {ms : List Move} {h i n slot : Nat}

/-- The handle through which a move changes what is active, and what is active then. -/
def Move.switch? : Move → Option (Nat × Option Nat)
  | .activate h n => some (h, some n)
  | .deactivate h => some (h, none)
  | _ => none

/-- Does the move make a handle? -/
def Move.makesHandle : Move → Bool
  | .handle | .copy _ => true
  | _ => false

theorem use_eq (o : Office) (slot : Nat) (op : Desk.Operation) :
    o.use slot op =
      { o with
        sheets := ((o.deskAt slot).perform o.disk op).2.1.sheets
        disk := ((o.deskAt slot).perform o.disk op).2.2
        answers := o.answers ++ [((o.deskAt slot).perform o.disk op).1] } := rfl

/-! ## What a move can do -/

/-- What a move can do to the slots and the handles. -/
inductive Slots (o : Office) : Move → Office → Prop where
  | switch {m : Move} {k slot : Nat} {a? : Option Nat} (hm : m.switch? = some (k, a?))
      (hk : o.handles[k]? = some slot) (hkept : ∀ n, a? = some n → o.keeps n) :
      Slots o m { o with slots := o.slots.set slot a? }
  | handle : Slots o .handle { o with slots := o.slots ++ [none], handles := o.handles ++ [o.slots.length] }
  | copy {k slot : Nat} (hk : o.handles[k]? = some slot) : Slots o (.copy k) { o with handles := o.handles ++ [slot] }
  | other {m : Move} {o' : Office} (hm : m.switch? = none) (hmakes : m.makesHandle = false)
      (hslots : o'.slots = o.slots) (hhandles : o'.handles = o.handles) (hanswers : o.answers <+: o'.answers) :
      Slots o m o'

theorem step_cases (hstep : o.step? m = some o') : Slots o m o' := by
  cases m with
  | create document =>
    obtain rfl := Option.some.inj hstep
    exact .other rfl rfl rfl rfl (List.prefix_refl _)
  | openFile path =>
    simp only [step?] at hstep
    split at hstep
    · obtain rfl := Option.some.inj hstep
      exact .other rfl rfl rfl rfl (List.prefix_refl _)
    · obtain rfl := Option.some.inj hstep
      exact .other rfl rfl rfl rfl (List.prefix_refl _)
  | drop n =>
    obtain ⟨-, hstep⟩ := Option.ite_none_right_eq_some.1 hstep
    obtain rfl := Option.some.inj hstep
    exact .other rfl rfl rfl rfl (List.prefix_refl _)
  | handle =>
    obtain rfl := Option.some.inj hstep
    exact .handle
  | copy k =>
    obtain ⟨slot, hk, rfl⟩ := Option.map_eq_some_iff.1 hstep
    exact .copy hk
  | activate k n =>
    obtain ⟨hkept, hstep⟩ := Option.ite_none_right_eq_some.1 hstep
    obtain ⟨slot, hk, rfl⟩ := Option.map_eq_some_iff.1 hstep
    exact .switch rfl hk fun i hi => Option.some.inj hi ▸ hkept
  | deactivate k =>
    obtain ⟨slot, hk, rfl⟩ := Option.map_eq_some_iff.1 hstep
    exact .switch rfl hk fun _ hi => nomatch hi
  | use k op =>
    obtain ⟨slot, -, rfl⟩ := Option.map_eq_some_iff.1 hstep
    exact .other rfl rfl rfl rfl (List.prefix_append _ _)
  | meanwhile disk =>
    obtain rfl := Option.some.inj hstep
    exact .other rfl rfl rfl rfl (List.prefix_refl _)

/-- What a move can do to the documents. -/
inductive Sheets (o : Office) : Move → Office → Prop where
  | add {m : Move} {o' : Office} (document : Document) (hm : ∀ n, m ≠ .drop n)
      (hsheets : o'.sheets = o.sheets ++ [({ document := document } : Sheet)]) : Sheets o m o'
  | drop {n : Nat} {o' : Office} (hsheets : o'.sheets = o.sheets.modify n fun s : Sheet => { s with kept := false }) :
      Sheets o (.drop n) o'
  | update {m : Move} {o' : Office} (n : Nat) (document : Document) (hm : ∀ n, m ≠ .drop n)
      (hsheets : o'.sheets = o.sheets.modify n fun s : Sheet => { s with document }) : Sheets o m o'
  | same {m : Move} {o' : Office} (hm : ∀ n, m ≠ .drop n) (hsheets : o'.sheets = o.sheets) : Sheets o m o'

theorem step_sheets (hstep : o.step? m = some o') : Sheets o m o' := by
  cases m with
  | create document =>
    obtain rfl := Option.some.inj hstep
    exact .add document (fun _ => nofun) rfl
  | openFile path =>
    simp only [step?] at hstep
    split at hstep
    · next document _ =>
      obtain rfl := Option.some.inj hstep
      exact .add document (fun _ => nofun) rfl
    · obtain rfl := Option.some.inj hstep
      exact .same (fun _ => nofun) rfl
  | drop n =>
    obtain ⟨-, hstep⟩ := Option.ite_none_right_eq_some.1 hstep
    obtain rfl := Option.some.inj hstep
    exact .drop rfl
  | handle =>
    obtain rfl := Option.some.inj hstep
    exact .same (fun _ => nofun) rfl
  | copy k =>
    obtain ⟨slot, -, rfl⟩ := Option.map_eq_some_iff.1 hstep
    exact .same (fun _ => nofun) rfl
  | activate k n =>
    obtain ⟨-, hstep⟩ := Option.ite_none_right_eq_some.1 hstep
    obtain ⟨slot, -, rfl⟩ := Option.map_eq_some_iff.1 hstep
    exact .same (fun _ => nofun) rfl
  | deactivate k =>
    obtain ⟨slot, -, rfl⟩ := Option.map_eq_some_iff.1 hstep
    exact .same (fun _ => nofun) rfl
  | use k op =>
    obtain ⟨slot, -, rfl⟩ := Option.map_eq_some_iff.1 hstep
    cases hcurrent : (o.deskAt slot).current? with
    | none =>
      refine .same (fun _ => nofun) ?_
      rw [use_eq, Desk.perform_of_none hcurrent]
      rfl
    | some entry =>
      refine .update entry.1 (entry.2.document.perform o.disk op).2.1 (fun _ => nofun) ?_
      rw [use_eq, Desk.perform_eq hcurrent]
      rfl
  | meanwhile disk =>
    obtain rfl := Option.some.inj hstep
    exact .same (fun _ => nofun) rfl

/-! ## What the editor keeps -/

theorem keeps_iff : o.keeps n ↔ ∃ s, o.sheets[n]? = some s ∧ s.kept = true := by
  rw [keeps, Option.any_eq_true]

theorem keeps_lt (h : o.keeps n) : n < o.sheets.length := by
  obtain ⟨s, hs, -⟩ := keeps_iff.1 h
  exact (List.getElem?_eq_some_iff.1 hs).1

/-- No run holds the gate of a document or waits for it: it lives while the editor keeps it. -/
def Calm (o : Office) : Prop := ∀ s ∈ o.sheets, s.gate? = none ∧ s.waiting = []

theorem Calm.alive {s : Sheet} (hcalm : o.Calm) (hs : o.sheets[n]? = some s) : s.alive = s.kept := by
  obtain ⟨hgate, hwaiting⟩ := hcalm s (List.mem_of_getElem? hs)
  simp [Sheet.alive, hgate, hwaiting]

theorem Calm.modify {f : Sheet → Sheet} {s : Sheet} (hcalm : o.Calm) (hs : s ∈ o.sheets.modify n f)
    (hf : ∀ s, (f s).gate? = s.gate? ∧ (f s).waiting = s.waiting) : s.gate? = none ∧ s.waiting = [] := by
  obtain ⟨i, hi⟩ := List.mem_iff_getElem?.1 hs
  rw [List.getElem?_modify] at hi
  obtain ⟨t, ht, rfl⟩ := Option.map_eq_some_iff.1 hi
  have htcalm := hcalm t (List.mem_of_getElem? ht)
  split
  · rw [(hf t).1, (hf t).2]
    exact htcalm
  · exact htcalm

theorem Calm.step (hcalm : o.Calm) (hstep : o.step? m = some o') : o'.Calm := by
  intro s hs
  cases step_sheets hstep with
  | add document _ hsheets =>
    rw [hsheets, List.mem_append, List.mem_singleton] at hs
    rcases hs with hs | rfl
    · exact hcalm s hs
    · exact ⟨rfl, rfl⟩
  | drop hsheets =>
    rw [hsheets] at hs
    exact hcalm.modify hs fun _ => ⟨rfl, rfl⟩
  | update n document _ hsheets =>
    rw [hsheets] at hs
    exact hcalm.modify hs fun _ => ⟨rfl, rfl⟩
  | same _ hsheets => exact hcalm s (hsheets ▸ hs)

/-- A document that the editor keeps is kept until the editor drops it. -/
theorem keeps_step (hstep : o.step? m = some o') (hn : o.keeps n) : o'.keeps n ↔ m ≠ .drop n := by
  obtain ⟨s, hs, hkept⟩ := keeps_iff.1 hn
  cases step_sheets hstep with
  | add document hm hsheets =>
    have hlt := (List.getElem?_eq_some_iff.1 hs).1
    exact iff_of_true (keeps_iff.2 ⟨s, by rw [hsheets, List.getElem?_append_left hlt, hs], hkept⟩) (hm n)
  | @drop i _ hsheets =>
    rw [keeps_iff, hsheets, List.getElem?_modify, hs]
    by_cases hi : i = n <;> simp [hi, hkept]
  | update i document hm hsheets =>
    refine iff_of_true (keeps_iff.2 ?_) (hm n)
    rw [hsheets, List.getElem?_modify, hs]
    by_cases hi : i = n <;> simp [hi, hkept]
  | same hm hsheets => exact iff_of_true (keeps_iff.2 ⟨s, hsheets ▸ hs, hkept⟩) (hm n)

/-- A number stands for one document: once the editor has dropped it, nothing is kept under it again. -/
theorem keeps_of_step (hstep : o.step? m = some o') (hlt : n < o.sheets.length) (hn : o'.keeps n) : o.keeps n := by
  obtain ⟨s, hs, hkept⟩ := keeps_iff.1 hn
  cases step_sheets hstep with
  | add document _ hsheets =>
    rw [hsheets, List.getElem?_append_left hlt] at hs
    exact keeps_iff.2 ⟨s, hs, hkept⟩
  | @drop i _ hsheets =>
    rw [hsheets, List.getElem?_modify] at hs
    obtain ⟨t, ht, rfl⟩ := Option.map_eq_some_iff.1 hs
    exact keeps_iff.2 ⟨t, ht, by split at hkept <;> simp_all⟩
  | update i document _ hsheets =>
    rw [hsheets, List.getElem?_modify] at hs
    obtain ⟨t, ht, rfl⟩ := Option.map_eq_some_iff.1 hs
    exact keeps_iff.2 ⟨t, ht, by split at hkept <;> exact hkept⟩
  | same _ hsheets => exact keeps_iff.2 ⟨s, hsheets ▸ hs, hkept⟩

theorem length_step (hstep : o.step? m = some o') : o.sheets.length ≤ o'.sheets.length := by
  cases step_sheets hstep with
  | add document _ hsheets => simp [hsheets]
  | drop hsheets => simp [hsheets]
  | update n document _ hsheets => simp [hsheets]
  | same _ hsheets => simp [hsheets]

/-! ## Slots and handles -/

/-- Each handle leads to a slot. -/
def Wired (o : Office) : Prop := ∀ slot ∈ o.handles, slot < o.slots.length

theorem handles_step (hstep : o.step? m = some o') : o.handles <+: o'.handles := by
  cases step_cases hstep with
  | switch => exact List.prefix_refl _
  | handle => exact List.prefix_append _ _
  | copy => exact List.prefix_append _ _
  | other _ _ _ hhandles => exact hhandles ▸ List.prefix_refl _

theorem answers_step (hstep : o.step? m = some o') : o.answers <+: o'.answers := by
  cases step_cases hstep with
  | switch => exact List.prefix_refl _
  | handle => exact List.prefix_refl _
  | copy => exact List.prefix_refl _
  | other _ _ _ _ hanswers => exact hanswers

theorem Wired.step (hwired : o.Wired) (hstep : o.step? m = some o') : o'.Wired := by
  cases step_cases hstep with
  | switch => simpa [Wired] using hwired
  | handle =>
    intro slot hslot
    rw [List.mem_append, List.mem_singleton] at hslot
    rcases hslot with hslot | rfl
    · simpa using Nat.lt_succ_of_lt (hwired slot hslot)
    · simp
  | copy hk =>
    intro slot hslot
    rw [List.mem_append, List.mem_singleton] at hslot
    rcases hslot with hslot | rfl
    · exact hwired slot hslot
    · exact hwired _ (List.mem_of_getElem? hk)
  | other _ _ hslots hhandles =>
    intro slot hslot
    rw [hslots]
    exact hwired slot (hhandles ▸ hslot)

/-- What is active in a slot, if anything is. -/
def active? (o : Office) (slot : Nat) : Option Nat := (o.slots[slot]?).join

/-- A move that goes through a handle of the slot says what is active there. -/
theorem active?_switch {a? : Option Nat} (hwired : o.Wired) (hstep : o.step? m = some o')
    (hm : m.switch? = some (h, a?)) (hh : o.handles[h]? = some slot) : o'.active? slot = a? := by
  cases step_cases hstep with
  | switch hm' hk =>
    obtain ⟨rfl, rfl⟩ := Prod.mk.inj (Option.some.inj (hm.symm.trans hm'))
    obtain rfl := Option.some.inj (hh.symm.trans hk)
    have hlt := hwired slot (List.mem_of_getElem? hh)
    simp [active?, List.getElem?_set_self hlt]
  | handle => cases hm
  | copy => cases hm
  | other hnone => rw [hnone] at hm; cases hm

/-- Any other move leaves what is active in the slot. -/
theorem active?_step (hstep : o.step? m = some o')
    (hm : ∀ h a?, m.switch? = some (h, a?) → o.handles[h]? ≠ some slot) : o'.active? slot = o.active? slot := by
  cases step_cases hstep with
  | switch hm' hk =>
    have hne : _ ≠ slot := fun heq => hm _ _ hm' (heq ▸ hk)
    simp [active?, List.getElem?_set_ne hne]
  | handle =>
    -- a new slot is as empty as one that is not there
    simp only [active?, List.getElem?_append]
    split
    · rfl
    · next hge =>
      rw [List.getElem?_eq_none (Nat.not_lt.1 hge)]
      cases slot - o.slots.length <;> rfl
  | copy => rfl
  | other _ _ hslots => rw [active?, hslots, active?]

end Office

end Scriptorium
