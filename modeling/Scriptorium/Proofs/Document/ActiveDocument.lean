import Scriptorium.Document.Desk
import Scriptorium.Proofs.Document.Saving

/-!
# The active document

Writing and saving change one document of the desk, the active one: writing its content and its flag, a save that
succeeds its path and its flag.
-/

namespace Scriptorium.Desk

variable {d d' : Desk} {n i : Nat}

/-- The document of a number. -/
def document? (d : Desk) (n : Nat) : Option Document := (d.sheets[n]?).map (·.document)

theorem document?_update (d : Desk) (n : Nat) (f : Document → Document) (i : Nat) :
    (d.update n f).document? i = if n = i then (d.document? i).map f else d.document? i := by
  rw [document?, document?, update, List.getElem?_modify]
  cases d.sheets[i]? with
  | none => split <;> rfl
  | some s => split <;> rfl

/-- The number of the current document. -/
def number? (d : Desk) : Option Nat := d.current?.map (·.1)

theorem sheet?_eq_some {s : Sheet} : d.sheet? n = some s ↔ d.sheets[n]? = some s ∧ s.alive = true := by
  unfold sheet?
  cases d.sheets[n]? with
  | none => simp
  | some t =>
    by_cases ht : t.alive = true
    · simp only [ht, if_true, Option.some.injEq]
      exact ⟨fun h => ⟨h, h ▸ ht⟩, fun h => h.1⟩
    · simp only [ht, if_false, reduceCtorEq, Option.some.injEq, false_iff, not_and]
      rintro rfl
      exact ht

theorem current?_eq_some {s : Sheet} (h : d.current? = some (n, s)) :
    d.number? = some n ∧ d.sheets[n]? = some s ∧ s.alive = true := by
  refine ⟨by rw [number?, h]; rfl, ?_⟩
  obtain ⟨k, -, hsheet⟩ := Option.bind_eq_some_iff.1 h
  obtain ⟨t, ht, hpair⟩ := Option.map_eq_some_iff.1 hsheet
  obtain ⟨rfl, rfl⟩ := Prod.mk.inj hpair
  exact sheet?_eq_some.1 ht

theorem require_eq_ok {document : Document} (h : d.require = .ok (n, document)) :
    d.number? = some n ∧ d.document? n = some document := by
  unfold require at h
  split at h
  · next k s hcurrent =>
    obtain ⟨rfl, rfl⟩ := Prod.mk.inj (Except.ok.inj h)
    obtain ⟨hnumber, hsheet, -⟩ := current?_eq_some hcurrent
    exact ⟨hnumber, by rw [document?, hsheet]; rfl⟩
  · cases h

/-- Each document has the content that it had. -/
def KeepsContents (d d' : Desk) : Prop :=
  ∀ i, (d'.document? i).map (·.content) = (d.document? i).map (·.content)

/-- Each document has the path that it had, and none that had changes to save has been saved. -/
structure KeepsUnsaved (d d' : Desk) : Prop where
  path : ∀ i, (d'.document? i).map (·.path?) = (d.document? i).map (·.path?)
  dirty : ∀ i, (d.document? i).map (·.dirty) = some true → (d'.document? i).map (·.dirty) = some true

theorem KeepsUnsaved.trans {d'' : Desk} (h : KeepsUnsaved d d') (h' : KeepsUnsaved d' d'') : KeepsUnsaved d d'' where
  path i := (h'.path i).trans (h.path i)
  dirty i hi := h'.dirty i (h.dirty i hi)

theorem keepsContents_update {document : Document} {f : Document → Document} (h : d.document? n = some document)
    (hcontent : (f document).content = document.content) : KeepsContents d (d.update n f) := by
  intro i
  rw [document?_update]
  split
  · next heq =>
    rw [← heq, h]
    exact congrArg some hcontent
  · rfl

theorem keepsUnsaved_setContent (d : Desk) (n : Nat) (text : String) :
    KeepsUnsaved d (d.update n (·.setContent text)) := by
  constructor <;> intro i <;> rw [document?_update] <;> cases d.document? i <;> split <;> simp [Document.setContent]

/-- A document can be written exactly when one is active. -/
theorem writeContent_isOk_iff (d : Desk) (text : String) :
    (∃ d', d.writeContent text = .ok d') ↔ d.hasDocument = true := by
  rw [writeContent, hasDocument, require]
  cases d.current? with
  | none => exact ⟨nofun, nofun⟩
  | some found => exact ⟨fun _ => rfl, fun _ => ⟨_, rfl⟩⟩

/-- A write changes the content of the active document. -/
theorem writeContent_eq_ok {text : String} (h : d.writeContent text = .ok d') :
    ∃ n, d.number? = some n ∧ d' = d.update n (·.setContent text) := by
  unfold writeContent at h
  cases hrequire : d.require with
  | error e =>
    rw [hrequire] at h
    cases h
  | ok found =>
    rw [hrequire] at h
    exact ⟨found.1, (require_eq_ok hrequire).1, (Except.ok.inj h).symm⟩

/-- A save that succeeds gives the active document the path that it was saved to, and clears its flag. -/
theorem save_eq_ok {disk : Disk} {path? : Option String} {faults : Faults} (h : (d.save disk path? faults).1 = .ok d') :
    ∃ n document path, d.number? = some n ∧ d.document? n = some document ∧
      d' = d.update n fun _ => { document with path? := some path, dirty := false } := by
  unfold save at h
  cases hrequire : d.require with
  | error e =>
    rw [hrequire] at h
    cases h
  | ok found =>
    obtain ⟨n, document⟩ := found
    rw [hrequire] at h
    have hatomic := document.persist_atomic disk path? faults
    simp only [saveSheet] at h
    split at hatomic
    · next hpersist =>
      obtain ⟨path, -, -, rfl⟩ := hatomic
      rw [hpersist] at h
      obtain ⟨hnumber, hdocument⟩ := require_eq_ok hrequire
      exact ⟨n, document, path, hnumber, hdocument, (Except.ok.inj h).symm⟩
    · next hpersist =>
      rw [hpersist] at h
      cases h

end Scriptorium.Desk
