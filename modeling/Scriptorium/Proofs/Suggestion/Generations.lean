import Scriptorium.Proofs.Suggestion.BufferSafety

/-!
# Generations

A generation stands for one request and for one answer: it is triggered once (`Triggered.unique`) and answered
once (`Answered.unique`), as the next generation only grows and an answer settles the one that waited for it.
-/

namespace Scriptorium.Assist

open Editor Text

namespace Session

variable {s₀ s : Session} {events : List Event} {g : Nat}

/-- Two places in a list are the same, or one comes before the other. -/
theorem cut_cases {α : Type} {before before' after after' : List α} {a a' : α}
    (h : before ++ a :: after = before' ++ a' :: after') :
    (before = before' ∧ a = a') ∨ (∃ between, before' = before ++ a :: between) ∨
      ∃ between, before = before' ++ a' :: between := by
  rcases List.append_eq_append_iff.1 h with ⟨between, rfl, hrest⟩ | ⟨between, rfl, hrest⟩
  · cases between with
    | nil => exact .inl ⟨(List.append_nil _).symm, (List.cons.inj hrest).1⟩
    | cons b between => exact .inr (.inl ⟨between, by rw [(List.cons.inj hrest).1]⟩)
  · cases between with
    | nil => exact .inl ⟨List.append_nil _, (List.cons.inj hrest).1.symm⟩
    | cons b between => exact .inr (.inr ⟨between, by rw [(List.cons.inj hrest).1]⟩)

theorem step_nextGeneration_le (s : Session) (e : Event) :
    s.engine.nextGeneration ≤ (s.step e).2.engine.nextGeneration := by
  rcases s.step_engine e with he | ⟨o, -, he⟩ | ⟨action, now, -, he⟩ | ⟨g, action, target, text, -, -, he⟩
  · exact Nat.le_of_eq (congrArg Engine.nextGeneration he).symm
  · exact Nat.le_of_eq (congrArg Engine.nextGeneration he).symm
  · rw [he, Engine.trigger_nextGeneration]
    exact Nat.le_succ _
  · exact Nat.le_of_eq (congrArg Engine.nextGeneration he).symm

theorem run_nextGeneration_le (s : Session) (events : List Event) :
    s.engine.nextGeneration ≤ (s.run events).engine.nextGeneration := by
  induction events generalizing s with
  | nil => exact Nat.le_refl _
  | cons e events ih => exact Nat.le_trans (s.step_nextGeneration_le e) (ih _)

/-- A generation is triggered once. -/
theorem Triggered.unique {action action' : Action} {t t' : Session} (h : Triggered s₀ events g action t)
    (h' : Triggered s₀ events g action' t') : action = action' ∧ t = t' := by
  obtain ⟨before, now, after, q, hcut, rfl, hq, hg⟩ := h
  obtain ⟨before', now', after', q', hcut', rfl, hq', hg'⟩ := h'
  have generation {t : Session} {action : Action} {now : Nat} {q : Request}
      (hq : (t.step (.trigger action now)).1 = .request q) : q.generation = t.engine.nextGeneration :=
    (congrArg Request.generation (Answer.request.inj hq)).symm.trans
      (Engine.trigger_generation t.engine t.buffer action now)
  -- behind a trigger the next generation is a later one
  have later (action : Action) (now : Nat) (before between : List Event) :
      (s₀.run before).engine.nextGeneration <
        (s₀.run (before ++ .trigger action now :: between)).engine.nextGeneration := by
    have htrigger := Engine.trigger_nextGeneration (s₀.run before).engine (s₀.run before).buffer action now
    rw [run_append, run_cons]
    exact Nat.lt_of_lt_of_le (htrigger ▸ Nat.lt_succ_self _) (run_nextGeneration_le _ between)
  have hsame := (generation hq).symm.trans (hg.trans (hg'.symm.trans (generation hq')))
  rcases cut_cases (hcut.symm.trans hcut') with ⟨rfl, hevent⟩ | ⟨between, rfl⟩ | ⟨between, rfl⟩
  · exact ⟨(Event.trigger.inj hevent).1, rfl⟩
  · exact absurd hsame (Nat.ne_of_lt (later action now before between))
  · exact absurd hsame.symm (Nat.ne_of_lt (later action' now' before' between))

/-- The generation was issued and does not wait for an answer. -/
def Settled (s : Session) (g : Nat) : Prop :=
  g < s.engine.nextGeneration ∧ ∀ action target, s.engine.phase ≠ .requesting g action target

theorem Settled.step (h : s.Settled g) (e : Event) : (s.step e).2.Settled g := by
  obtain ⟨hlt, hne⟩ := h
  refine ⟨Nat.lt_of_lt_of_le hlt (s.step_nextGeneration_le e), fun action target => ?_⟩
  rcases s.step_engine e with he | ⟨o, -, he⟩ | ⟨action', now, -, he⟩ | ⟨g', action', target', text, -, -, he⟩ <;>
    rw [he]
  · exact hne action target
  · nofun
  · rw [Engine.trigger_phase]
    exact fun h => Nat.ne_of_gt hlt (Phase.requesting.inj h).1
  · nofun

theorem Settled.run (h : s.Settled g) (events : List Event) : (s.run events).Settled g := by
  induction events generalizing s with
  | nil => exact h
  | cons e events ih => exact ih (h.step e)

/-- The awaited answer is shown if there is something to show. -/
theorem step_respond {action : Action} {target : Span} {text : List Char}
    (hp : s.engine.phase = .requesting g action target)
    (hshown : isBlankText (presentation action text) = false) :
    (s.step (.respond ⟨s.engine.buffer, g, .ok text⟩)).2 =
      { s with engine := s.engine.showing g action target text } := by
  rw [Session.step, Engine.onResponse_shown _ _ hp hshown]

/-- The awaited answer settles its generation. -/
theorem settled_respond {action : Action} {target : Span} {text : List Char} (hs : s.Issued)
    (hp : s.engine.phase = .requesting g action target) :
    (s.step (.respond ⟨s.engine.buffer, g, .ok text⟩)).2.Settled g := by
  have hlt : g < s.engine.nextGeneration := hs g (by rw [hp]; rfl)
  refine ⟨Nat.lt_of_lt_of_le hlt (s.step_nextGeneration_le _), fun action' target' => ?_⟩
  simp only [Session.step, Engine.onResponse, hp, and_self, if_true]
  split <;> exact fun h => by cases h

/-- A generation is answered once. -/
theorem Answered.unique {action action' : Action} {target target' : Span} {text text' : List Char}
    (hbuffer : ∀ before, (s₀.run before).engine.buffer = s₀.buffer.id) (hissued : s₀.Issued)
    (h : Answered s₀ events g action target text) (h' : Answered s₀ events g action' target' text') :
    text = text' := by
  obtain ⟨before, after, hcut, hp⟩ := h
  obtain ⟨before', after', hcut', hp'⟩ := h'
  have settled {action : Action} {target : Span} {before : List Event} (text : List Char)
      (between : List Event) (hp : (s₀.run before).engine.phase = .requesting g action target) :
      (s₀.run (before ++ .respond ⟨s₀.buffer.id, g, .ok text⟩ :: between)).Settled g := by
    rw [run_append, run_cons, ← hbuffer before]
    exact (settled_respond (hissued.run before) hp).run between
  rcases cut_cases (hcut.symm.trans hcut') with ⟨rfl, hevent⟩ | ⟨between, rfl⟩ | ⟨between, rfl⟩
  · exact Except.ok.inj (Response.mk.inj (Event.respond.inj hevent)).2.2
  · exact absurd hp' ((settled text between hp).2 _ _)
  · exact absurd hp ((settled text' between hp').2 _ _)

end Session

end Scriptorium.Assist
