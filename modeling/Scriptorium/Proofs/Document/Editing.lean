import Mathlib.Data.List.Induction
import Scriptorium.Proofs.Document.Saving

/-!
# Editing and saving

A document is edited and saved in any order, while other programs change the disk and saves fail in any way.
Its flag says whether there is an edit that no save has written since (`saving_atomic`).
-/

namespace Scriptorium.Document

variable {d : Document} {disk : Disk} {s : Document × Disk}

inductive Event where
  | edit (content : String)
  /-- A save, to another path if one is given. -/
  | save (path? : Option String) (faults : Faults)
  /-- Other programs have changed the disk. -/
  | meanwhile (disk : Disk)

/-- The answer to a save, and document and disk after an event. -/
def step (s : Document × Disk) : Event → Option (Except DocumentError Unit) × Document × Disk
  | .edit content => (none, s.1.setContent content, s.2)
  | .save path? faults =>
    let (result, after) := s.1.persist s.2 path? faults
    (some result, after)
  | .meanwhile disk => (none, s.1, disk)

/-- Document and disk after events. -/
def run (s : Document × Disk) (events : List Event) : Document × Disk :=
  events.foldl (fun s e => (step s e).2) s

/-- A save among the events succeeds. -/
def SomeSaved (s : Document × Disk) (events : List Event) : Prop :=
  ∃ before e after, events = before ++ e :: after ∧ (step (run s before) e).1 = some (.ok ())

/-- Among the events is an edit, and no save has succeeded since. -/
def Unsaved (s : Document × Disk) (events : List Event) : Prop :=
  ∃ before content after, events = before ++ .edit content :: after ∧
    ¬ SomeSaved (run s (before ++ [.edit content])) after

/-- The documents that a program starts with. -/
inductive Fresh : Document → Prop where
  | new : Fresh new
  | withContent (content : String) (path? : Option String) : Fresh (withContent content path?)
  | opened {disk : Disk} {path : String} {d : Document} (read : open? disk path = .ok d) : Fresh d

theorem Fresh.dirty (h : Fresh d) : d.dirty = false := by
  cases h with
  | new => rfl
  | withContent => rfl
  | @opened disk path d read =>
    unfold open? at read
    split at read
    · rw [← Except.ok.inj read]
      rfl
    · cases read

/-- An edit sets the flag, a save that succeeds clears it, and nothing else touches it. -/
theorem step_dirty (s : Document × Disk) (e : Event) :
    (∃ content, e = .edit content ∧ (step s e).2.1.dirty = true) ∨
      ((step s e).1 = some (.ok ()) ∧ (step s e).2.1.dirty = false) ∨
        ((∀ content, e ≠ .edit content) ∧ (step s e).1 ≠ some (.ok ()) ∧ (step s e).2.1.dirty = s.1.dirty) := by
  cases e with
  | edit content => exact .inl ⟨content, rfl, rfl⟩
  | meanwhile disk => exact .inr (.inr ⟨nofun, nofun, rfl⟩)
  | save path? faults =>
    have hatomic := persist_atomic s.1 s.2 path? faults
    simp only [step]
    split at hatomic
    · next d' disk' heq =>
      obtain ⟨path, -, -, rfl⟩ := hatomic
      exact .inr (.inl (by rw [heq]; exact ⟨rfl, rfl⟩))
    · next e d' disk' heq =>
      obtain ⟨rfl, -⟩ := hatomic
      exact .inr (.inr (by rw [heq]; exact ⟨nofun, nofun, rfl⟩))

/-! ## Runs -/

theorem run_append (s : Document × Disk) (first second : List Event) :
    run s (first ++ second) = run (run s first) second := List.foldl_append

theorem run_concat (s : Document × Disk) (events : List Event) (e : Event) :
    run s (events ++ [e]) = (step (run s events) e).2 := run_append s events [e]

/-- Where an element stands in a list with a last one: it is that last one, or stands before it. -/
theorem concat_eq_cut {α : Type} {events before after : List α} {e x : α} :
    events ++ [e] = before ++ x :: after ↔
      (after = [] ∧ events = before ∧ e = x) ∨ ∃ rest, after = rest ++ [e] ∧ events = before ++ x :: rest := by
  rcases List.eq_nil_or_concat' after with rfl | ⟨rest, last, rfl⟩
  · simp
  · rw [← List.cons_append, ← List.append_assoc]
    constructor
    · intro h
      obtain ⟨hevents, hlast⟩ := List.append_inj' h rfl
      exact .inr ⟨rest, by rw [hlast], hevents⟩
    · rintro (⟨hnil, -, -⟩ | ⟨rest', hrest, rfl⟩)
      · simp at hnil
      · obtain ⟨rfl, hlast⟩ := List.append_inj' hrest rfl
        rw [hlast]

theorem someSaved_concat (events : List Event) (e : Event) :
    SomeSaved s (events ++ [e]) ↔ SomeSaved s events ∨ (step (run s events) e).1 = some (.ok ()) := by
  constructor
  · rintro ⟨before, x, after, hcut, hsaved⟩
    rcases concat_eq_cut.1 hcut with ⟨rfl, rfl, rfl⟩ | ⟨rest, rfl, rfl⟩
    · exact .inr hsaved
    · exact .inl ⟨before, x, rest, rfl, hsaved⟩
  · rintro (⟨before, x, after, rfl, hsaved⟩ | hsaved)
    · exact ⟨before, x, after ++ [e], by simp, hsaved⟩
    · exact ⟨events, e, [], rfl, hsaved⟩

theorem unsaved_concat (events : List Event) (e : Event) :
    Unsaved s (events ++ [e]) ↔
      (∃ content, e = .edit content) ∨ (Unsaved s events ∧ (step (run s events) e).1 ≠ some (.ok ())) := by
  constructor
  · rintro ⟨before, content, after, hcut, hnone⟩
    rcases concat_eq_cut.1 hcut with ⟨-, -, rfl⟩ | ⟨rest, rfl, rfl⟩
    · exact .inl ⟨content, rfl⟩
    · rw [someSaved_concat, not_or, ← run_append, List.append_assoc, List.singleton_append] at hnone
      exact .inr ⟨⟨before, content, rest, rfl, hnone.1⟩, hnone.2⟩
  · rintro (⟨content, rfl⟩ | ⟨⟨before, content, after, rfl, hnone⟩, hlast⟩)
    · exact ⟨events, content, [], rfl, by rintro ⟨before, x, after, hcut, -⟩; simp at hcut⟩
    · refine ⟨before, content, after ++ [e], by simp, ?_⟩
      rw [someSaved_concat, not_or, ← run_append, List.append_assoc, List.singleton_append]
      exact ⟨hnone, hlast⟩

theorem dirty_iff_unsaved (hs : s.1.dirty = false) (events : List Event) :
    (run s events).1.dirty = true ↔ Unsaved s events := by
  induction events using List.reverseRecOn with
  | nil => simp [run, hs, Unsaved]
  | append_singleton events e ih =>
    rw [run_concat, unsaved_concat, ← ih]
    rcases step_dirty (run s events) e with ⟨content, rfl, hset⟩ | ⟨hsaved, hclear⟩ | ⟨hother, hnot, hkeep⟩
    · simp [hset]
    · have hedit : ¬ ∃ content, e = .edit content := by
        rintro ⟨content, rfl⟩
        cases hsaved
      simp [hclear, hsaved, hedit]
    · simp [hkeep, hnot, hother]

/-- A save, to the document's own path or to another, either puts the content at its target, with the document
clean at that path, or fails and changes neither the document nor what stands at the target, whichever step
fails. Hence, however a document was made and however saves fail, it is dirty exactly if it was edited and no
save has succeeded since. -/
theorem saving_atomic :
    (∀ (d : Document) (disk : Disk) (path? : Option String) (faults : Faults),
      match d.persist disk path? faults with
      | (.ok (), d', disk') => ∃ path, d.target? path? = some path ∧
          disk'.read path = .ok d.content.toUTF8 ∧ d' = { d with path? := some path, dirty := false }
      | (.error _, d', disk') =>
          d' = d ∧ ∀ path, d.target? path? = some path → disk'.stat path = disk.stat path) ∧
    ∀ (d : Document) (disk : Disk) (events : List Event), Fresh d →
      ((run (d, disk) events).1.dirty = true ↔ Unsaved (d, disk) events) :=
  ⟨persist_atomic, fun _ _ events hd => dirty_iff_unsaved hd.dirty events⟩

/-- An edit that a failing rename keeps from being saved, and that is saved when the same save is tried again. -/
theorem saving_atomic_after_failure :
    let d := withContent "old" (some "notes.txt")
    let disk : Disk := { entries := [(["notes.txt"], .file "old".toUTF8)] }
    let faults : Faults := { rename? := some .noSpace }
    let failed := run (d, disk) [.edit "new", .save none faults]
    Fresh d ∧ Unsaved (d, disk) [.edit "new", .save none faults] ∧
      failed.1.target? none = some "notes.txt" ∧ failed.2.read "notes.txt" = .ok "old".toUTF8 ∧
      (step failed (.save none {})).1 = some (.ok ()) ∧
      (step failed (.save none {})).2.2.read "notes.txt" = .ok "new".toUTF8 ∧
      (step failed (.save none {})).2.1.dirty = false ∧
      ¬ Unsaved (d, disk) [.edit "new", .save none faults, .save none {}] := by
  intro d disk faults failed
  have hd : Fresh d := .withContent _ _
  have hkept : failed.2.stat "notes.txt" = disk.stat "notes.txt" :=
    (saving_atomic.1 (d.setContent "new") disk none faults).2 "notes.txt" rfl
  have hold : failed.2.read "notes.txt" = .ok "old".toUTF8 := by
    rw [Disk.read, hkept]
    rfl
  have hsaved : (step failed (.save none {})).1 = some (.ok ()) := by decide
  have hsaves := saving_atomic.1 failed.1 failed.2 none {}
  obtain ⟨hnew, hclean⟩ : (step failed (.save none {})).2.2.read "notes.txt" = .ok "new".toUTF8 ∧
      (step failed (.save none {})).2.1.dirty = false := by
    simp only [step] at hsaved ⊢
    split at hsaves
    · next d' disk' heq =>
      obtain ⟨path, hpath, hread, rfl⟩ := hsaves
      obtain rfl : "notes.txt" = path := Option.some.inj hpath
      rw [heq]
      exact ⟨hread, rfl⟩
    · next heq =>
      rw [heq] at hsaved
      cases hsaved
  refine ⟨hd, (saving_atomic.2 d disk _ hd).1 (by decide), rfl, hold, hsaved, hnew, hclean, ?_⟩
  rw [← saving_atomic.2 d disk _ hd]
  exact ne_true_of_eq_false hclean

end Scriptorium.Document
