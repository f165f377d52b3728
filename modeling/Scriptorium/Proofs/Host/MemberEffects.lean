import Scriptorium.Proofs.Document.ActiveDocument
import Scriptorium.Proofs.Host.LeafServices

/-!
# What members do

All that assigning a member or calling one can do to the documents, whatever the member says of itself.
-/

namespace Scriptorium.HostObject

variable {w : World} {namespaceName : String} {m : Member} {d : Datum} {args : List Datum}

/-- An assignment that succeeds writes the content of the active document; any other changes nothing. -/
theorem set_cases (w : World) (namespaceName : String) (m : Member) (d : Datum) :
    (∃ text desk, namespaceName = "doc" ∧ m.name = "content" ∧ contentOf d = .ok text ∧
      w.desk.writeContent text = .ok desk ∧ set w namespaceName m d = (.ok (), { w with desk })) ∨
    ∃ f, set w namespaceName m d = (.error f, w) := by
  unfold set
  split
  · next hname =>
    cases hcontent : contentOf d with
    | error e => exact .inr ⟨e, rfl⟩
    | ok text =>
      dsimp only
      cases hwrite : w.desk.writeContent text with
      | ok desk => exact .inl ⟨text, desk, rfl, hname, rfl, hwrite, rfl⟩
      | error e => exact .inr ⟨.document e, rfl⟩
  · exact .inr ⟨readOnly m, rfl⟩

theorem set_content {text : String} {desk : Desk} (hname : m.name = "content") (htext : contentOf d = .ok text)
    (hdesk : w.desk.writeContent text = .ok desk) : set w "doc" m d = (.ok (), { w with desk }) := by
  unfold set
  simp only [hname, htext, hdesk]

/-- What is behind a leaf service is the service. -/
theorem call_service {s : Services.Service} (h : Services.find? namespaceName m.name = some s) :
    call w namespaceName m args =
      ((Leaf.suppressed (callName namespaceName m) s.fallback (s.run args) w).1.map fun d => [d],
        (Leaf.suppressed (callName namespaceName m) s.fallback (s.run args) w).2) := by
  unfold call
  dsimp only
  rw [h]

theorem desk_showMessage : (showMessage w args).2.desk = w.desk := by
  unfold showMessage
  split
  · rfl
  · rfl
  · rfl
  · split <;> rfl

/-- A save that fails leaves the documents as they are. -/
theorem desk_saved {path? : Option String} {result : Except HostFailure Unit × World}
    (hresult : result = match w.desk.save w.disk path? with
      | (.ok desk, disk) => (.ok (), { w with desk, disk })
      | (.error e, disk) => (.error (.document e), { w with disk })) :
    result.2.desk = w.desk ∨ result.1 = .ok () ∧ ∃ path?, (w.desk.save w.disk path?).1 = .ok result.2.desk := by
  subst hresult
  split
  · next desk disk hsaved => exact .inr ⟨rfl, path?, congrArg Prod.fst hsaved⟩
  · exact .inl rfl

/-- The method that saves changes the documents by a save that succeeds, or not at all. -/
theorem desk_saveDocument (w : World) (args : List Datum) :
    (saveDocument w args).2.desk = w.desk ∨ (saveDocument w args).1 = .ok () ∧
      ∃ path?, (w.desk.save w.disk path?).1 = .ok (saveDocument w args).2.desk := by
  unfold saveDocument
  dsimp only
  split
  · exact desk_saved rfl
  · exact desk_saved rfl
  · split
    · exact desk_saved rfl
    · exact .inl rfl
  · exact .inl rfl

/-- Documents change in no call but one that saves the active document. -/
theorem desk_call (w : World) (namespaceName : String) (m : Member) (args : List Datum) :
    (call w namespaceName m args).2.desk = w.desk ∨
    (namespaceName = "doc" ∧ m.name = "save" ∧ (call w namespaceName m args).1 = .ok [] ∧
      ∃ path?, (w.desk.save w.disk path?).1 = .ok (call w namespaceName m args).2.desk) := by
  cases hservice : Services.find? namespaceName m.name with
  | some s =>
    rw [call_service hservice]
    exact .inl (Services.desk_run hservice args _ _)
  | none =>
    unfold call
    dsimp only
    rw [hservice]
    dsimp only
    split
    · exact .inl rfl
    · exact .inl desk_showMessage
    · exact .inl rfl
    · next hname =>
      rcases desk_saveDocument w args with hsame | ⟨hok, hsaved⟩
      · exact .inl hsame
      · refine .inr ⟨rfl, hname, ?_, hsaved⟩
        rw [hok]
        rfl
    · exact .inl rfl

/-- A method of the host gives at most one result. -/
theorem length_call_le {ds : List Datum} (h : (call w namespaceName m args).1 = .ok ds) : ds.length ≤ 1 := by
  have hdone {r : Except HostFailure Unit} (h : (r.map fun _ => ([] : List Datum)) = .ok ds) : ds.length ≤ 1 := by
    cases r with
    | ok _ =>
      rw [← Except.ok.inj h]
      exact Nat.zero_le 1
    | error f => cases h
  unfold call at h
  dsimp only at h
  split at h
  · next s _ =>
    cases hresult : (Leaf.suppressed (callName namespaceName m) s.fallback (s.run args) w).1 with
    | error f => rw [hresult] at h; cases h
    | ok d =>
      rw [hresult] at h
      rw [← Except.ok.inj h]
      exact Nat.le_refl 1
  · split at h
    · rw [← Except.ok.inj h]
      exact Nat.zero_le 1
    · exact hdone h
    · rw [← Except.ok.inj h]
      exact Nat.zero_le 1
    · exact hdone h
    · cases h

end Scriptorium.HostObject
