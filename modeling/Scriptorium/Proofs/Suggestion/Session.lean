import Scriptorium.Assist.Backend
import Scriptorium.Proofs.Editor.BufferInvariant

/-!
# Sessions

A session is a buffer with the engine that serves it. Events reach it one after the other and in any order:
the user works on the buffer, asks for suggestions, accepts and cancels them, responses arrive and time
passes. `Session.step` is one event with its answer, `Session.run` many.

What an event can do to the engine and to the buffer is said once, by `step_engine` and `step_buffer`.
-/

namespace Scriptorium.Assist

open Editor

/-! ## What the engine does -/

namespace Engine

variable (e : Engine) (b : Buffer) (j : Journal)

@[simp] theorem settle_phase (o : Outcome) : (e.settle o).phase = .idle := rfl

@[simp] theorem settle_buffer (o : Outcome) : (e.settle o).buffer = e.buffer := rfl

@[simp] theorem settle_nextGeneration (o : Outcome) :
    (e.settle o).nextGeneration = e.nextGeneration := rfl

theorem cancel_cases :
    (e.phase = .idle ∧ e.cancel = (none, e)) ∨
      ∃ g, e.phase.generation? = some g ∧ e.cancel = (some (.cancelled g), e.settle (.cancelled g)) := by
  unfold cancel
  cases hp : e.phase with
  | idle => exact .inl ⟨rfl, rfl⟩
  | requesting g action target => exact .inr ⟨g, rfl, rfl⟩
  | presented g ghost => exact .inr ⟨g, rfl, rfl⟩

@[simp] theorem cancel_phase : e.cancel.2.phase = .idle := by
  rcases e.cancel_cases with ⟨hidle, h⟩ | ⟨g, -, h⟩
  · rw [h, hidle]
  · rw [h, settle_phase]

@[simp] theorem cancel_buffer : e.cancel.2.buffer = e.buffer := by
  rcases e.cancel_cases with ⟨-, h⟩ | ⟨g, -, h⟩
  · rw [h]
  · rw [h, settle_buffer]

@[simp] theorem cancel_nextGeneration : e.cancel.2.nextGeneration = e.nextGeneration := by
  rcases e.cancel_cases with ⟨-, h⟩ | ⟨g, -, h⟩
  · rw [h]
  · rw [h, settle_nextGeneration]

section Trigger

variable (action : Action) (now : Nat)

@[simp] theorem trigger_generation : (e.trigger b action now).1.generation = e.nextGeneration := by
  simp [trigger, Request.ofBuffer]

@[simp] theorem trigger_phase : (e.trigger b action now).2.phase =
    .requesting e.nextGeneration action (Request.target b action) := by
  simp [trigger]

@[simp] theorem trigger_buffer : (e.trigger b action now).2.buffer = e.buffer := by
  simp [trigger]

@[simp] theorem trigger_nextGeneration :
    (e.trigger b action now).2.nextGeneration = e.nextGeneration + 1 := by
  simp [trigger]

@[simp] theorem trigger_revision : (e.trigger b action now).2.revision = b.revision := by
  simp [trigger]

end Trigger

/-- The engine that shows a text for the generation it waited for. -/
def showing (g : Nat) (action : Action) (target : Span) (text : List Char) : Engine :=
  { e with phase := .presented g ⟨target, presentation action text⟩, requestedAt? := none }

theorem onResponse_refused {g : Nat} {action : Action} {target : Span} (error : SuggestionError)
    (hp : e.phase = .requesting g action target) :
    e.onResponse j ⟨e.buffer, g, .error error⟩ = (.failed, (e.fail j g error).2) := by
  simp [onResponse, hp]

/-- The awaited answer is shown unless there is nothing but blanks to show. -/
theorem onResponse_shown {g : Nat} {action : Action} {target : Span} {text : List Char}
    (hp : e.phase = .requesting g action target) (hshown : Text.isBlankText (presentation action text) = false) :
    e.onResponse j ⟨e.buffer, g, .ok text⟩ = (.presented, e.showing g action target text, j) := by
  simp [onResponse, showing, hp, hshown]

/-- A response is discarded without a trace, or it is the awaited one and fails or is shown. -/
theorem onResponse_cases (r : Response) :
    e.onResponse j r = (.discarded, e, j) ∨
      ∃ g action target, e.phase = .requesting g action target ∧ r.buffer = e.buffer ∧
        r.generation = g ∧
          ((∃ error, e.onResponse j r = (.failed, (e.fail j g error).2)) ∨
            ∃ text, r.result = .ok text ∧
              e.onResponse j r = (.presented, e.showing g action target text, j)) := by
  unfold onResponse
  cases hp : e.phase with
  | idle => exact .inl rfl
  | presented g ghost => exact .inl rfl
  | requesting g action target =>
    by_cases hr : r.buffer = e.buffer ∧ r.generation = g
    · refine .inr ⟨g, action, target, rfl, hr.1, hr.2, ?_⟩
      simp only [hr, and_self, if_true]
      cases hres : r.result with
      | error error => exact .inl ⟨error, rfl⟩
      | ok text =>
        by_cases hblank : Text.isBlankText (presentation action text) = true
        · exact .inl ⟨_, if_pos hblank⟩
        · exact .inr ⟨text, rfl, if_neg hblank⟩
    · exact .inl (if_neg hr)

theorem accept_cases :
    e.accept b = (none, e, b) ∨
      ∃ g ghost, e.phase = .presented g ghost ∧
        ((b.id = e.buffer ∧ b.revision = e.revision ∧
            e.accept b =
              (some (.accepted g), e.settle (.accepted g), b.replaceRange ghost.range ghost.text)) ∨
          e.accept b = (some (.cancelled g), e.settle (.cancelled g), b)) := by
  unfold accept
  cases hp : e.phase with
  | idle => exact .inl rfl
  | requesting g action target => exact .inl rfl
  | presented g ghost =>
    refine .inr ⟨g, ghost, rfl, ?_⟩
    by_cases hb : b.id = e.buffer ∧ b.revision = e.revision
    · exact .inl ⟨hb.1, hb.2, if_pos hb⟩
    · exact .inr (if_neg hb)

theorem onBufferEdit_cases : e.onBufferEdit b = (none, e) ∨ e.onBufferEdit b = e.cancel := by
  unfold onBufferEdit
  split
  · exact .inr rfl
  · exact .inl rfl

theorem checkTimeout_cases (now : Nat) :
    e.checkTimeout j now = (none, e, j) ∨
      ∃ g error, e.phase.generation? = some g ∧
        e.checkTimeout j now = (some (.failed g error), (e.fail j g error).2) := by
  unfold checkTimeout
  cases hp : e.phase with
  | idle => exact .inl rfl
  | presented g ghost => exact .inl rfl
  | requesting g action target =>
    cases ht : e.requestedAt? with
    | none => exact .inl rfl
    | some started =>
      by_cases hlt : now - started < e.timeoutMillis
      · exact .inl (if_pos hlt)
      · exact .inr ⟨g, _, rfl, if_neg hlt⟩

end Engine

/-! ## Sessions and events -/

structure Session where
  buffer : Buffer
  engine : Engine
  journal : Journal

inductive Event where
  /-- The user edits the buffer, moves the cursor or selects. -/
  | user (action : Buffer.Action)
  | trigger (action : Action) (now : Nat)
  | respond (r : Response)
  | accept
  | cancel
  /-- The editor tells the engine that the buffer may have changed. -/
  | edited
  /-- The editor tells the engine the time. -/
  | clock (now : Nat)

inductive Answer where
  | none
  | request (q : Request)
  | disposition (d : Disposition)
  | outcome (o? : Option Outcome)
  deriving DecidableEq

namespace Session

/-- The answer to an event, and the session after it. -/
def step (s : Session) : Event → Answer × Session
  | .user action => (.none, { s with buffer := s.buffer.perform action })
  | .trigger action now =>
    let (q, engine) := s.engine.trigger s.buffer action now
    (.request q, { s with engine })
  | .respond r =>
    let (d, engine, journal) := s.engine.onResponse s.journal r
    (.disposition d, { s with engine, journal })
  | .accept =>
    let (o?, engine, buffer) := s.engine.accept s.buffer
    (.outcome o?, { s with engine, buffer })
  | .cancel =>
    let (o?, engine) := s.engine.cancel
    (.outcome o?, { s with engine })
  | .edited =>
    let (o?, engine) := s.engine.onBufferEdit s.buffer
    (.outcome o?, { s with engine })
  | .clock now =>
    let (o?, engine, journal) := s.engine.checkTimeout s.journal now
    (.outcome o?, { s with engine, journal })

/-- The session after events. -/
def run (s : Session) (events : List Event) : Session := events.foldl (fun s e => (s.step e).2) s

/-- The answers to events. -/
def answers (s : Session) : List Event → List Answer
  | [] => []
  | e :: events => (s.step e).1 :: answers (s.step e).2 events

/-- A new engine for a buffer that the user may have worked on already. -/
def start (id : Nat) (actions : List Buffer.Action) (timeoutMillis : Nat) (journal : Journal) : Session :=
  { buffer := actions.foldl Buffer.perform { id }
    engine := { buffer := id, timeoutMillis }
    journal }

@[simp] theorem run_nil (s : Session) : s.run [] = s := rfl

@[simp] theorem run_cons (s : Session) (e : Event) (events : List Event) :
    s.run (e :: events) = (s.step e).2.run events := rfl

theorem run_append (s : Session) (first second : List Event) :
    s.run (first ++ second) = (s.run first).run second := List.foldl_append

/-! ## What a step can do -/

/-- An event leaves the engine alone, ends the outstanding request, starts one, or shows an answer. -/
theorem step_engine (s : Session) (e : Event) :
    (s.step e).2.engine = s.engine ∨
      (∃ o, s.engine.phase.generation? = some o.generation ∧
        (s.step e).2.engine = s.engine.settle o) ∨
      (∃ action now, e = .trigger action now ∧
        (s.step e).2.engine = (s.engine.trigger s.buffer action now).2) ∨
      ∃ g action target text, s.engine.phase = .requesting g action target ∧
        e = .respond ⟨s.engine.buffer, g, .ok text⟩ ∧
          (s.step e).2.engine = s.engine.showing g action target text := by
  have cancelled : s.engine.cancel.2 = s.engine ∨
      ∃ o, s.engine.phase.generation? = some o.generation ∧ s.engine.cancel.2 = s.engine.settle o := by
    rcases s.engine.cancel_cases with ⟨-, h⟩ | ⟨g, hg, h⟩
    · exact .inl (congrArg Prod.snd h)
    · exact .inr ⟨.cancelled g, hg, congrArg Prod.snd h⟩
  cases e with
  | user action => exact .inl rfl
  | trigger action now => exact .inr (.inr (.inl ⟨action, now, rfl, rfl⟩))
  | cancel =>
    rcases cancelled with h | h
    · exact .inl h
    · exact .inr (.inl h)
  | edited =>
    simp only [step]
    rcases s.engine.onBufferEdit_cases s.buffer with h | h <;> rw [h]
    · exact .inl rfl
    · rcases cancelled with h | h
      · exact .inl h
      · exact .inr (.inl h)
  | clock now =>
    simp only [step]
    rcases s.engine.checkTimeout_cases s.journal now with h | ⟨g, error, hg, h⟩ <;> rw [h]
    · exact .inl rfl
    · exact .inr (.inl ⟨.failed g error, hg, rfl⟩)
  | accept =>
    simp only [step]
    rcases s.engine.accept_cases s.buffer with h | ⟨g, ghost, hp, ⟨-, -, h⟩ | h⟩ <;> rw [h]
    · exact .inl rfl
    · exact .inr (.inl ⟨.accepted g, by rw [hp]; rfl, rfl⟩)
    · exact .inr (.inl ⟨.cancelled g, by rw [hp]; rfl, rfl⟩)
  | respond r =>
    simp only [step]
    rcases s.engine.onResponse_cases s.journal r with
      h | ⟨g, action, target, hp, hb, hg, ⟨error, h⟩ | ⟨text, hr, h⟩⟩ <;> rw [h]
    · exact .inl rfl
    · exact .inr (.inl ⟨.failed g error, by rw [hp]; rfl, rfl⟩)
    · obtain ⟨buffer, generation, result⟩ := r
      obtain rfl : buffer = s.engine.buffer := hb
      obtain rfl : generation = g := hg
      obtain rfl : result = .ok text := hr
      exact .inr (.inr (.inr ⟨_, _, _, _, hp, rfl, rfl⟩))

/-- An event leaves the buffer alone unless the user acts on it or accepts a suggestion. -/
theorem step_buffer (s : Session) (e : Event) :
    (s.step e).2.buffer = s.buffer ∨
      (∃ action, e = .user action ∧ (s.step e).2.buffer = s.buffer.perform action) ∨
      ∃ g ghost, e = .accept ∧ s.engine.phase = .presented g ghost ∧
        (s.step e).1 = .outcome (some (.accepted g)) ∧
          (s.step e).2.buffer = s.buffer.replaceRange ghost.range ghost.text := by
  cases e with
  | user action => exact .inr (.inl ⟨action, rfl, rfl⟩)
  | accept =>
    simp only [step]
    rcases s.engine.accept_cases s.buffer with h | ⟨g, ghost, hp, ⟨-, -, h⟩ | h⟩ <;> rw [h]
    · exact .inl rfl
    · exact .inr (.inr ⟨g, ghost, trivial, hp, rfl, rfl⟩)
    · exact .inl rfl
  | _ => exact .inl rfl

/-- An event that answers how a request ended has ended the outstanding one so. -/
theorem step_outcome {s : Session} {e : Event} {o : Outcome} (h : (s.step e).1 = .outcome (some o)) :
    s.engine.phase.generation? = some o.generation ∧ (s.step e).2.engine = s.engine.settle o := by
  have cancelled : s.engine.cancel.1 = some o →
      s.engine.phase.generation? = some o.generation ∧ s.engine.cancel.2 = s.engine.settle o := by
    intro ho
    rcases s.engine.cancel_cases with ⟨-, hc⟩ | ⟨g, hg, hc⟩ <;> rw [hc] at ho ⊢
    · cases ho
    · obtain rfl := Option.some.inj ho
      exact ⟨hg, rfl⟩
  cases e with
  | user action => cases h
  | trigger action now => cases h
  | respond r => cases h
  | cancel => exact cancelled (Answer.outcome.inj h)
  | edited =>
    simp only [step] at h ⊢
    rcases s.engine.onBufferEdit_cases s.buffer with hc | hc <;> rw [hc] at h ⊢
    · cases h
    · exact cancelled (Answer.outcome.inj h)
  | clock now =>
    simp only [step] at h ⊢
    rcases s.engine.checkTimeout_cases s.journal now with hc | ⟨g, error, hg, hc⟩ <;>
      rw [hc] at h ⊢ <;> cases h
    exact ⟨hg, rfl⟩
  | accept =>
    simp only [step] at h ⊢
    rcases s.engine.accept_cases s.buffer with hc | ⟨g, ghost, hp, ⟨-, -, hc⟩ | hc⟩ <;>
      rw [hc] at h ⊢ <;> cases h <;> exact ⟨by rw [hp]; rfl, rfl⟩

/-- Only accepting answers that a suggestion was accepted, and then the buffer has the revision at which the
suggestion was asked for. -/
theorem step_accepted {s : Session} {e : Event} {g : Nat}
    (h : (s.step e).1 = .outcome (some (.accepted g))) :
    e = .accept ∧ ∃ ghost, s.engine.phase = .presented g ghost ∧ s.buffer.revision = s.engine.revision ∧
      (s.step e).2.buffer = s.buffer.replaceRange ghost.range ghost.text := by
  cases e with
  | user action => cases h
  | trigger action now => cases h
  | respond r => cases h
  | cancel =>
    rcases s.engine.cancel_cases with ⟨-, hc⟩ | ⟨g', -, hc⟩ <;> simp [step, hc] at h
  | edited =>
    rcases s.engine.onBufferEdit_cases s.buffer with hc | hc <;> simp only [step, hc] at h
    · cases h
    · rcases s.engine.cancel_cases with ⟨-, hc⟩ | ⟨g', -, hc⟩ <;> simp [hc] at h
  | clock now =>
    rcases s.engine.checkTimeout_cases s.journal now with hc | ⟨g', error, -, hc⟩ <;> simp [step, hc] at h
  | accept =>
    simp only [step] at h ⊢
    rcases s.engine.accept_cases s.buffer with hc | ⟨g', ghost, hp, ⟨-, hr, hc⟩ | hc⟩ <;>
      rw [hc] at h ⊢ <;> cases h
    exact ⟨trivial, ghost, hp, hr, rfl⟩

/-! ## The dispatcher -/

/-- Pumping a dispatcher hands the engine its responses one by one. -/
theorem pump_eq_run (d : Dispatcher) (s : Session) :
    (d.pump s.engine s.journal).2.2 =
      ((s.run (d.arrived.map .respond)).engine, (s.run (d.arrived.map .respond)).journal) := by
  unfold Dispatcher.pump
  generalize hstart : (([] : List Disposition), s.engine, s.journal) = start
  have hsame : start.2 = (s.engine, s.journal) := by rw [← hstart]
  clear hstart
  dsimp only
  generalize d.arrived = rs
  induction rs generalizing start s with
  | nil => exact hsame
  | cons r rs ih =>
    obtain ⟨out, e, j⟩ := start
    cases hsame
    exact ih (s.step (.respond r)).2 _ rfl

end Session

end Scriptorium.Assist
