import Mathlib.Data.List.Induction
import Scriptorium.Proofs.Suggestion.Session

/-!
# Suggestions and the text of the buffer

A suggestion reaches the text only when the user accepts it, at most once, and only into the very text it
was asked for: the accepted text is an answer that arrived while its request waited for it, put in place
of the range that the request was about. An answer that comes after its request has ended changes nothing.

The invariant (`Invariant`) ties an outstanding request to the session in which it was triggered.
-/

namespace Scriptorium.Assist

open Editor Text

namespace Request

/-- The range that an answer will replace cuts the text of a well-formed buffer. -/
theorem target_cuts {b : Buffer} (h : b.WellFormed) (action : Action) :
    ∃ head middle tail, (target b action).Cuts b.text head middle tail := by
  have point {n : Nat} (hn : Boundary n b.text) :
      ∃ head middle tail, (Span.point n).Cuts b.text head middle tail :=
    Span.exists_cuts hn hn (Nat.le_refl _)
  have line := Buffer.lineAround_bounds h.cursor
  have anchored : Boundary (b.selection.getD b.cursorLine).start b.text ∧
      Boundary (b.selection.getD b.cursorLine).stop b.text ∧
        (b.selection.getD b.cursorLine).start ≤ (b.selection.getD b.cursorLine).stop := by
    cases hs : b.selection with
    | none => exact ⟨line.1, line.2.1, Nat.le_trans line.2.2.1 line.2.2.2⟩
    | some r =>
      obtain ⟨hstart, hlt, hstop⟩ := h.selection r hs
      exact ⟨hstart, hstop ▸ h.cursor, Nat.le_of_lt hlt⟩
  cases action with
  | suggest => exact point h.cursor
  | explain => exact point (Buffer.lineAround_bounds anchored.1).1
  | optimize => exact Span.exists_cuts anchored.1 anchored.2.1 anchored.2.2
  | fix error? => exact Span.exists_cuts anchored.1 anchored.2.1 anchored.2.2

end Request

namespace Session

variable {s₀ : Session} {events : List Event} {e : Event} {g : Nat} {action : Action}

theorem run_concat (s : Session) (events : List Event) (e : Event) :
    s.run (events ++ [e]) = ((s.run events).step e).2 := by
  rw [run_append, run_cons, run_nil]

/-! ## What the past holds -/

/-- Among the events is the trigger of a generation, at which the session was `t`. -/
def Triggered (s₀ : Session) (events : List Event) (g : Nat) (action : Action) (t : Session) : Prop :=
  ∃ before now after q, events = before ++ .trigger action now :: after ∧ t = s₀.run before ∧
    (t.step (.trigger action now)).1 = .request q ∧ q.generation = g

/-- Among the events is a response with a text, which came while the generation was waiting for it. -/
def Answered (s₀ : Session) (events : List Event) (g : Nat) (action : Action) (target : Span)
    (text : List Char) : Prop :=
  ∃ before after, events = before ++ .respond ⟨s₀.buffer.id, g, .ok text⟩ :: after ∧
    (s₀.run before).engine.phase = .requesting g action target

theorem Triggered.concat {t : Session} (h : Triggered s₀ events g action t) (e : Event) :
    Triggered s₀ (events ++ [e]) g action t := by
  obtain ⟨before, now, after, q, rfl, ht, hq, hg⟩ := h
  exact ⟨before, now, after ++ [e], q, by simp, ht, hq, hg⟩

theorem Answered.concat {target : Span} {text : List Char} (h : Answered s₀ events g action target text)
    (e : Event) : Answered s₀ (events ++ [e]) g action target text := by
  obtain ⟨before, after, rfl, hp⟩ := h
  exact ⟨before, after ++ [e], by simp, hp⟩

/-- A generation was triggered on the text that the buffer still has if it has the revision it was
triggered at. -/
def Anchored (s₀ : Session) (events : List Event) (g : Nat) (action : Action) (target : Span) : Prop :=
  ∃ t, Triggered s₀ events g action t ∧ t.buffer.WellFormed ∧ target = Request.target t.buffer action ∧
    (s₀.run events).engine.revision ≤ (s₀.run events).buffer.revision ∧
      ((s₀.run events).engine.revision = (s₀.run events).buffer.revision →
        (s₀.run events).buffer.text = t.buffer.text)

/-- An event that neither starts a request nor accepts one keeps a generation anchored. -/
theorem Anchored.concat {target : Span} (h : Anchored s₀ events g action target)
    (hrevision : ((s₀.run events).step e).2.engine.revision = (s₀.run events).engine.revision)
    (hbuffer : ((s₀.run events).step e).2.buffer = (s₀.run events).buffer ∨
      ∃ a, ((s₀.run events).step e).2.buffer = (s₀.run events).buffer.perform a) :
    Anchored s₀ (events ++ [e]) g action target := by
  obtain ⟨t, ht, hwf, htarget, hle, htext⟩ := h
  refine ⟨t, ht.concat e, hwf, htarget, ?_⟩
  rw [run_concat, hrevision]
  rcases hbuffer with hb | ⟨a, hb⟩ <;> rw [hb]
  · exact ⟨hle, htext⟩
  · rcases (s₀.run events).buffer.perform_revision a with ⟨hr, hsame⟩ | hr
    · rw [hr, hsame]
      exact ⟨hle, htext⟩
    · exact ⟨by omega, fun heq => by omega⟩

/-! ## The invariant -/

structure Invariant (s₀ : Session) (events : List Event) : Prop where
  wellFormed : (s₀.run events).buffer.WellFormed
  engine : (s₀.run events).engine.buffer = s₀.buffer.id
  requesting : ∀ g action target, (s₀.run events).engine.phase = .requesting g action target →
    Anchored s₀ events g action target
  presented : ∀ g ghost, (s₀.run events).engine.phase = .presented g ghost →
    ∃ action text, ghost.text = presentation action text ∧ Anchored s₀ events g action ghost.range ∧
      Answered s₀ events g action ghost.range text

theorem invariant_start (id : Nat) (actions : List Buffer.Action) (timeoutMillis : Nat)
    (journal : Journal) : Invariant (start id actions timeoutMillis journal) [] where
  wellFormed := (Buffer.wellFormed_new id).performAll actions
  engine := by simp [start]
  requesting := by simp [start]
  presented := by simp [start]

theorem Invariant.concat (h : Invariant s₀ events) (e : Event) : Invariant s₀ (events ++ [e]) := by
  -- while a request stays outstanding, only the user touches the buffer
  have kept : ((s₀.run events).step e).2.engine.phase ≠ .idle →
      ((s₀.run events).step e).2.buffer = (s₀.run events).buffer ∨
        ∃ a, ((s₀.run events).step e).2.buffer = (s₀.run events).buffer.perform a := by
    intro hactive
    rcases (s₀.run events).step_buffer e with hb | ⟨a, -, hb⟩ | ⟨g, ghost, -, -, ha, -⟩
    · exact .inl hb
    · exact .inr ⟨a, hb⟩
    · exact absurd (by rw [(step_outcome ha).2, Engine.settle_phase]) hactive
  have hstep := (s₀.run events).step_engine e
  refine ⟨?_, ?_, ?_, ?_⟩ <;> rw [run_concat]
  · rcases (s₀.run events).step_buffer e with hb | ⟨a, -, hb⟩ | ⟨g, ghost, -, -, -, hb⟩ <;> rw [hb]
    · exact h.wellFormed
    · exact h.wellFormed.perform a
    · exact h.wellFormed.replaceRange ghost.range ghost.text
  · rcases hstep with he | ⟨o, -, he⟩ | ⟨action, now, -, he⟩ | ⟨g, action, target, text, -, -, he⟩ <;> rw [he]
    · exact h.engine
    · exact h.engine
    · rw [Engine.trigger_buffer]
      exact h.engine
    · exact h.engine
  · intro g action target hp
    have hb := kept (by rw [hp]; simp)
    rcases hstep with he | ⟨o, -, he⟩ | ⟨action', now, rfl, he⟩ | ⟨g', action', target', text, -, -, he⟩ <;>
      rw [he] at hp
    · exact (h.requesting g action target hp).concat (by rw [he]) hb
    · cases hp
    · rw [Engine.trigger_phase] at hp
      obtain ⟨rfl, rfl, rfl⟩ := Phase.requesting.inj hp
      refine ⟨s₀.run events, ⟨events, now, [], _, rfl, rfl, rfl, Engine.trigger_generation _ _ _ now⟩,
        h.wellFormed, rfl, ?_⟩
      rw [run_concat, he, Engine.trigger_revision]
      exact ⟨Nat.le_refl _, fun _ => rfl⟩
    · cases hp
  · intro g ghost hp
    have hb := kept (by rw [hp]; simp)
    rcases hstep with he | ⟨o, -, he⟩ | ⟨action, now, rfl, he⟩ | ⟨g', action, target, text, hr, hev, he⟩ <;>
      rw [he] at hp
    · obtain ⟨action, text, htext, hanchored, hanswered⟩ := h.presented g ghost hp
      exact ⟨action, text, htext, hanchored.concat (by rw [he]) hb, hanswered.concat e⟩
    · cases hp
    · rw [Engine.trigger_phase] at hp
      cases hp
    · obtain ⟨rfl, rfl⟩ := Phase.presented.inj hp
      refine ⟨action, text, rfl, (h.requesting _ _ _ hr).concat (by rw [he]; rfl) hb, events, [], ?_, hr⟩
      rw [hev, h.engine]

theorem invariant_run (id : Nat) (actions : List Buffer.Action) (timeoutMillis : Nat) (journal : Journal)
    (events : List Event) : Invariant (start id actions timeoutMillis journal) events := by
  induction events using List.reverseRecOn with
  | nil => exact invariant_start id actions timeoutMillis journal
  | append_singleton events e ih => exact ih.concat e

/-! ## Generations that are over -/

/-- The generation was issued and is not outstanding any more. -/
def Over (s : Session) (g : Nat) : Prop :=
  g < s.engine.nextGeneration ∧ s.engine.phase.generation? ≠ some g

/-- The outstanding generation is one that was issued. -/
def Issued (s : Session) : Prop :=
  ∀ g, s.engine.phase.generation? = some g → g < s.engine.nextGeneration

theorem Issued.step {s : Session} (h : s.Issued) (e : Event) : (s.step e).2.Issued := by
  intro g hg
  rcases s.step_engine e with he | ⟨o, -, he⟩ | ⟨action, now, -, he⟩ |
      ⟨g', action, target, text, hp, -, he⟩ <;>
    rw [he] at hg ⊢
  · exact h g hg
  · cases hg
  · rw [Engine.trigger_phase] at hg
    rw [Engine.trigger_nextGeneration, ← Option.some.inj hg]
    exact Nat.lt_succ_self _
  · exact h g (by rw [hp]; exact hg)

theorem Issued.run {s : Session} (h : s.Issued) (events : List Event) : (s.run events).Issued := by
  induction events generalizing s with
  | nil => exact h
  | cons e events ih => exact ih (h.step e)

theorem issued_start (id : Nat) (actions : List Buffer.Action) (timeoutMillis : Nat) (journal : Journal) :
    (start id actions timeoutMillis journal).Issued := by
  intro g hg
  cases hg

theorem Over.step {s : Session} (h : s.Over g) (e : Event) : (s.step e).2.Over g := by
  obtain ⟨hlt, hne⟩ := h
  rcases s.step_engine e with he | ⟨o, -, he⟩ | ⟨action, now, -, he⟩ |
      ⟨g', action, target, text, hp, -, he⟩ <;>
    unfold Over <;> rw [he]
  · exact ⟨hlt, hne⟩
  · exact ⟨hlt, by simp [Phase.generation?]⟩
  · rw [Engine.trigger_nextGeneration, Engine.trigger_phase]
    exact ⟨Nat.lt_succ_of_lt hlt, fun hg => absurd (Option.some.inj hg) (Nat.ne_of_gt hlt)⟩
  · rw [hp] at hne
    exact ⟨hlt, hne⟩

theorem Over.run {s : Session} (h : s.Over g) (events : List Event) : (s.run events).Over g := by
  induction events generalizing s with
  | nil => exact h
  | cons e events ih => exact ih (h.step e)

/-- A response to a generation that is over changes nothing. -/
theorem Over.respond {s : Session} {r : Response} (h : s.Over r.generation) :
    s.step (.respond r) = (.disposition .discarded, s) := by
  simp only [Session.step]
  rcases s.engine.onResponse_cases s.journal r with hd | ⟨g, action, target, hp, -, hg, -⟩
  · rw [hd]
  · exact absurd (by rw [hp, hg]; rfl) h.2

/-- The event cancels, asks for something newer, or answers how the outstanding request ended. -/
def Ends (s : Session) (e : Event) : Prop :=
  e = .cancel ∨ (∃ action now, e = .trigger action now) ∨ ∃ o, (s.step e).1 = .outcome (some o)

/-- With such an event all generations issued before are over. -/
theorem Ends.over {s : Session} (h : s.Ends e) (hg : g < s.engine.nextGeneration) : (s.step e).2.Over g := by
  unfold Over
  rcases h with rfl | ⟨action, now, rfl⟩ | ⟨o, ho⟩
  · simp only [step]
    rw [Engine.cancel_nextGeneration, Engine.cancel_phase]
    exact ⟨hg, by simp [Phase.generation?]⟩
  · simp only [step]
    rw [Engine.trigger_nextGeneration, Engine.trigger_phase]
    exact ⟨Nat.lt_succ_of_lt hg, fun h => absurd (Option.some.inj h) (Nat.ne_of_gt hg)⟩
  · rw [(step_outcome ho).2]
    exact ⟨hg, by simp [Phase.generation?]⟩

/-- A generation that is over is not accepted any more. -/
theorem Over.count_answers {s : Session} (h : s.Over g) (events : List Event) :
    (s.answers events).count (.outcome (some (.accepted g))) = 0 := by
  induction events generalizing s with
  | nil => rfl
  | cons e events ih =>
    have hne : (s.step e).1 ≠ .outcome (some (.accepted g)) := by
      intro ha
      obtain ⟨-, ghost, hp, -⟩ := step_accepted ha
      exact h.2 (by rw [hp]; rfl)
    rw [answers, List.count_cons_of_ne hne, ih (h.step e)]

theorem Issued.count_answers_le {s : Session} (hi : s.Issued) (g : Nat) (events : List Event) :
    (s.answers events).count (.outcome (some (.accepted g))) ≤ 1 := by
  induction events generalizing s with
  | nil => exact Nat.zero_le 1
  | cons e events ih =>
    rw [answers]
    by_cases ha : (s.step e).1 = .outcome (some (.accepted g))
    · have hover : (s.step e).2.Over g := Ends.over (.inr (.inr ⟨_, ha⟩)) (hi g (step_outcome ha).1)
      exact Nat.le_of_eq (by rw [ha, List.count_cons_self, hover.count_answers])
    · rw [List.count_cons_of_ne ha]
      exact ih (hi.step e)

/-! ## Safety -/

/-- When accepting succeeds, an answer to the very text is put in place of the range it was asked for. -/
theorem Invariant.accepted (h : Invariant s₀ events)
    (ha : ((s₀.run events).step .accept).1 = .outcome (some (.accepted g))) :
    ∃ t action text head middle tail, Triggered s₀ events g action t ∧
      (s₀.run events).buffer.text = t.buffer.text ∧
      Answered s₀ events g action (Request.target t.buffer action) text ∧
      (Request.target t.buffer action).Cuts t.buffer.text head middle tail ∧
      ((s₀.run events).step .accept).2.buffer.text =
        head ++ normalize (presentation action text) ++ tail := by
  obtain ⟨-, ghost, hp, hrevision, hbuffer⟩ := step_accepted ha
  obtain ⟨action, text, htext, ⟨t, htriggered, hwf, htarget, -, hsame⟩, hanswered⟩ := h.presented g ghost hp
  obtain ⟨head, middle, tail, hcuts⟩ := Request.target_cuts hwf action
  have hunchanged := hsame hrevision.symm
  refine ⟨t, action, text, head, middle, tail, htriggered, hunchanged, htarget ▸ hanswered, hcuts, ?_⟩
  rw [hbuffer, htext]
  exact Buffer.replaceRange_of_cuts (by rw [hunchanged, htarget]; exact hcuts) _

/-- In every run of a new engine and its buffer, the text changes only when the user edits it or accepts a
suggestion; a generation is accepted at most once; an accepted one goes into the text it was triggered on,
in place of its target range, and is the text of a response that came while it was requested; and a response
that comes after its request was cancelled, timed out or replaced changes nothing. -/
theorem buffer_safety (id : Nat) (actions : List Buffer.Action) (timeoutMillis : Nat) (journal : Journal)
    (events : List Event) :
    let s₀ := start id actions timeoutMillis journal
    let s := s₀.run events
    (∀ e, (s.step e).2.buffer.text ≠ s.buffer.text →
      (∃ action, e = .user action) ∨ ∃ g, e = .accept ∧ (s.step e).1 = .outcome (some (.accepted g))) ∧
    (∀ g, (s₀.answers events).count (.outcome (some (.accepted g))) ≤ 1) ∧
    (∀ g, (s.step .accept).1 = .outcome (some (.accepted g)) →
      ∃ t action text head middle tail, Triggered s₀ events g action t ∧
        s.buffer.text = t.buffer.text ∧
        Answered s₀ events g action (Request.target t.buffer action) text ∧
        (Request.target t.buffer action).Cuts t.buffer.text head middle tail ∧
        (s.step .accept).2.buffer.text = head ++ normalize (presentation action text) ++ tail) ∧
    ∀ before e after r, events = before ++ e :: after → (s₀.run before).Ends e →
      r.generation < (s₀.run before).engine.nextGeneration →
      s.step (.respond r) = (.disposition .discarded, s) := by
  intro s₀ s
  refine ⟨?_, ?_, ?_, ?_⟩
  · intro e hchanged
    rcases s.step_buffer e with hb | ⟨action, he, -⟩ | ⟨g, ghost, he, -, ha, -⟩
    · exact absurd (by rw [hb]) hchanged
    · exact .inl ⟨action, he⟩
    · exact .inr ⟨g, he, ha⟩
  · intro g
    exact (issued_start id actions timeoutMillis journal).count_answers_le g events
  · intro g ha
    exact (invariant_run id actions timeoutMillis journal events).accepted ha
  · intro before e after r hevents hends hissued
    have hs : s = ((s₀.run before).step e).2.run after := by
      rw [← run_cons, ← run_append, ← hevents]
    rw [hs]
    exact ((hends.over hissued).run after).respond

example : (((start 1 [.setText ['x']] 30000 default).run
    [.trigger .suggest 0, .respond ⟨1, 1, .ok ['y']⟩]).step .accept).1 = .outcome (some (.accepted 1)) := by
  decide

end Session

end Scriptorium.Assist
