import Mathlib.Data.List.Nodup
import Scriptorium.Proofs.HostLog.Memory
import Scriptorium.Proofs.Suggestion.Session

/-!
# The ledger of generations

Whatever calls an engine gets, with whatever buffers and responses, it numbers its requests without gaps and
ends each of them once. A `Ledger` writes down which generations a run of calls issued and how requests ended;
`Balanced` says that the ended generations, followed by the outstanding one, are the issued ones in order, and
`Balanced.call` that a call keeps it so.
-/

namespace Scriptorium.Assist

open Editor

/-- The message that is logged for the end of a request: only a failure has one. -/
def Outcome.failure? : Outcome → Option String
  | .failed g error => some ("suggestion " ++ toString g ++ " failed: " ++ error.message)
  | _ => none

/-- What is wrong with a response that fails: without an error of its own it is blank. -/
def Response.failure (r : Response) : SuggestionError :=
  match r.result with
  | .error error => error
  | .ok _ => .invalidResponse "empty suggestion"

/-- The journal after the failure of a request was logged. -/
def logFailure (j : Journal) (o : Outcome) : Journal :=
  match o.failure? with
  | some message => j.write .error message
  | none => j

/-! ## Calls -/

/-- A call to an engine. -/
inductive Call where
  | trigger (b : Buffer) (action : Action) (now : Nat)
  | respond (r : Response)
  | accept (b : Buffer)
  | cancel
  /-- The buffer may have changed. -/
  | edited (b : Buffer)
  | clock (now : Nat)

namespace Call

/-- The engine and the journal after a call. -/
def perform (e : Engine) (j : Journal) : Call → Engine × Journal
  | .trigger b action now => ((e.trigger b action now).2, j)
  | .respond r => (e.onResponse j r).2
  | .accept b => ((e.accept b).2.1, j)
  | .cancel => (e.cancel.2, j)
  | .edited b => ((e.onBufferEdit b).2, j)
  | .clock now => (e.checkTimeout j now).2

/-- The generation that a call issues. -/
def issued? (e : Engine) : Call → Option Nat
  | .trigger b action now => some (e.trigger b action now).1.generation
  | _ => none

/-- The end of a request that a call brings about: the answer to the call, for a trigger that of the
cancellation it begins with, and for a response that is answered to have failed the failure of its request. -/
def outcome? (e : Engine) (j : Journal) : Call → Option Outcome
  | .trigger _ _ _ => e.cancel.1
  | .respond r => if (e.onResponse j r).1 = .failed then some (.failed r.generation r.failure) else none
  | .accept b => (e.accept b).1
  | .cancel => e.cancel.1
  | .edited b => (e.onBufferEdit b).1
  | .clock now => (e.checkTimeout j now).1

end Call

namespace Engine

variable (e : Engine) (j : Journal)

/-- An idle engine that starts a request. -/
def asking (b : Buffer) (action : Action) (now : Nat) : Engine :=
  { e with
    phase := .requesting e.nextGeneration action (Request.target b action)
    nextGeneration := e.nextGeneration + 1
    requestedAt? := some now
    revision := b.revision }

theorem trigger_eq_asking (b : Buffer) (action : Action) (now : Nat) :
    (e.trigger b action now).2 = e.cancel.2.asking b action now := rfl

/-- A response that fails ends the request it answers, with what is wrong with it. -/
theorem onResponse_failed {r : Response} (h : (e.onResponse j r).1 = .failed) :
    (e.onResponse j r).2 = (e.fail j r.generation r.failure).2 := by
  rcases e.onResponse_cases j r with hr | ⟨g, action, target, hp, hbuffer, hg, ⟨error, -⟩ | ⟨text, -, hr⟩⟩
  · rw [hr] at h
    cases h
  · unfold onResponse at h ⊢
    simp only [hp, hbuffer, hg, and_self, if_true, Response.failure] at h ⊢
    cases hresult : r.result with
    | error error => rfl
    | ok text =>
      by_cases hblank : Text.isBlankText (presentation action text) = true
      · simp only [hblank, if_true]
      · simp [hresult, hblank] at h
  · rw [hr] at h
    cases h

/-- What a call other than a trigger does, what it answers and what it logs: it leaves all as it is, ends the
outstanding request, with an error in the log if that is a failure, or shows an answer to it. -/
inductive Effect (c : Call) : Prop where
  | nothing (perform : c.perform e j = (e, j)) (outcome : c.outcome? e j = none)
  | ends (o : Outcome) (outstanding : e.phase.generation? = some o.generation)
      (perform : c.perform e j = (e.settle o, logFailure j o))
      (outcome : c.outcome? e j = some o)
  | shows (g : Nat) (action : Action) (target : Span) (text : List Char)
      (waiting : e.phase = .requesting g action target)
      (perform : c.perform e j = (e.showing g action target text, j)) (outcome : c.outcome? e j = none)

theorem effect_of_cancel {c : Call} (hperform : c.perform e j = (e.cancel.2, j))
    (houtcome : c.outcome? e j = e.cancel.1) : e.Effect j c := by
  rcases e.cancel_cases with ⟨-, h⟩ | ⟨g, hg, h⟩ <;> rw [h] at hperform houtcome
  · exact .nothing hperform houtcome
  · exact .ends (.cancelled g) hg hperform houtcome

theorem call_effect (c : Call) (hc : c.issued? e = none) : e.Effect j c := by
  cases c with
  | trigger b action now => cases hc
  | cancel => exact e.effect_of_cancel j rfl rfl
  | edited b =>
    rcases e.onBufferEdit_cases b with h | h
    · exact .nothing (by rw [Call.perform, h]) (by rw [Call.outcome?, h])
    · exact e.effect_of_cancel j (by rw [Call.perform, h]) (by rw [Call.outcome?, h])
  | clock now =>
    rcases e.checkTimeout_cases j now with h | ⟨g, error, hg, h⟩
    · exact .nothing (by rw [Call.perform, h]) (by rw [Call.outcome?, h])
    · exact .ends (.failed g error) hg (by rw [Call.perform, h]; rfl) (by rw [Call.outcome?, h])
  | accept b =>
    rcases e.accept_cases b with h | ⟨g, ghost, hp, ⟨-, -, h⟩ | h⟩
    · exact .nothing (by rw [Call.perform, h]) (by rw [Call.outcome?, h])
    · exact .ends (.accepted g) (by rw [hp]; rfl) (by rw [Call.perform, h]; rfl) (by rw [Call.outcome?, h])
    · exact .ends (.cancelled g) (by rw [hp]; rfl) (by rw [Call.perform, h]; rfl) (by rw [Call.outcome?, h])
  | respond r =>
    rcases e.onResponse_cases j r with h | ⟨g, action, target, hp, -, hg, ⟨error, h⟩ | ⟨text, -, h⟩⟩
    · exact .nothing (by rw [Call.perform, h]) (by simp [Call.outcome?, h])
    · have hfailed : (e.onResponse j r).1 = .failed := by rw [h]
      exact .ends (.failed r.generation r.failure) (by rw [hp, ← hg]; rfl)
        (by rw [Call.perform, e.onResponse_failed j hfailed]; rfl) (if_pos hfailed)
    · exact .shows g action target text hp (by rw [Call.perform, h]) (by simp [Call.outcome?, h])

end Engine

/-! ## Ledgers -/

structure Ledger where
  engine : Engine
  journal : Journal
  /-- The generations of the requests, in the order they were made. -/
  issued : List Nat := []
  /-- How requests ended, in that order. -/
  outcomes : List Outcome := []

namespace Ledger

/-- The ledger of a new engine. -/
def start (id timeoutMillis : Nat) (journal : Journal) : Ledger :=
  { engine := { buffer := id, timeoutMillis }, journal }

/-- The ledger after a call at a moment of the clock that dates the journal. -/
def call (l : Ledger) (now : Calendar.Moment) (c : Call) : Ledger where
  engine := (c.perform l.engine { l.journal with now }).1
  journal := (c.perform l.engine { l.journal with now }).2
  issued := l.issued ++ (c.issued? l.engine).toList
  outcomes := l.outcomes ++ (c.outcome? l.engine { l.journal with now }).toList

def run (l : Ledger) (calls : List (Calendar.Moment × Call)) : Ledger :=
  calls.foldl (fun l (now, c) => l.call now c) l

/-- A log has gained an error for each failure among the outcomes and nothing else. -/
def Logged (before after : HostLog) (outcomes : List Outcome) : Prop :=
  ∃ gained : List LogEntry, after = gained.foldl .keep before ∧
    gained.map (fun e => (e.level, e.message)) = (outcomes.filterMap Outcome.failure?).map (LogLevel.error, ·)

/-- The books are right, for a log that was `log` at the start. -/
structure Balanced (log : HostLog) (l : Ledger) : Prop where
  consecutive : l.issued = List.range' 1 l.issued.length
  next : l.engine.nextGeneration = l.issued.length + 1
  accounted : l.outcomes.map Outcome.generation ++ l.engine.phase.generation?.toList = l.issued
  waiting : l.engine.requestedAt?.isSome = true ↔
    ∃ g action target, l.engine.phase = .requesting g action target
  latest : l.engine.lastOutcome? = l.outcomes.getLast?
  logged : Logged log l.journal.log l.outcomes

variable {log : HostLog} {l : Ledger}

theorem balanced_start (id timeoutMillis : Nat) (journal : Journal) :
    Balanced journal.log (start id timeoutMillis journal) where
  consecutive := rfl
  next := rfl
  accounted := rfl
  waiting := by simp [start]
  latest := rfl
  logged := ⟨[], rfl, rfl⟩

theorem Logged.logFailure {before : HostLog} {j : Journal} {outcomes : List Outcome}
    (h : Logged before j.log outcomes) (o : Outcome) :
    Logged before (logFailure j o).log (outcomes ++ [o]) := by
  obtain ⟨gained, hlog, hgained⟩ := h
  unfold Assist.logFailure
  cases ho : o.failure? with
  | none => exact ⟨gained, hlog, by simp [hgained, ho]⟩
  | some message =>
    refine ⟨gained ++ [⟨j.now, .error, message⟩], ?_, by simp [hgained, ho]⟩
    rw [List.foldl_append, ← hlog]
    rfl

/-- Time passes. -/
theorem Balanced.at (h : l.Balanced log) (now : Calendar.Moment) :
    Balanced log { l with journal := { l.journal with now } } :=
  ⟨h.consecutive, h.next, h.accounted, h.waiting, h.latest, h.logged⟩

/-- Ending the outstanding request moves its generation from the outstanding to the ended ones. -/
theorem Balanced.settle (h : l.Balanced log) {o : Outcome}
    (ho : l.engine.phase.generation? = some o.generation) :
    Balanced log { l with
      engine := l.engine.settle o
      journal := logFailure l.journal o
      outcomes := l.outcomes ++ [o] } where
  consecutive := h.consecutive
  next := h.next
  accounted := by
    have := h.accounted
    rw [ho] at this
    simpa [Phase.generation?] using this
  waiting := by simp [Engine.settle]
  latest := by simp [Engine.settle]
  logged := h.logged.logFailure o

theorem Balanced.show (h : l.Balanced log) {g : Nat} {action : Action} {target : Span}
    (hp : l.engine.phase = .requesting g action target) (text : List Char) :
    Balanced log { l with engine := l.engine.showing g action target text } where
  consecutive := h.consecutive
  next := h.next
  accounted := by
    have := h.accounted
    rwa [hp] at this
  waiting := by simp [Engine.showing]
  latest := h.latest
  logged := h.logged

theorem Balanced.ask (h : l.Balanced log) (hp : l.engine.phase = .idle) (b : Buffer) (action : Action)
    (now : Nat) :
    Balanced log { l with
      engine := l.engine.asking b action now
      issued := l.issued ++ [l.engine.nextGeneration] } where
  consecutive := by
    conv_lhs => rw [h.consecutive, h.next]
    rw [List.length_append, List.length_singleton, List.range'_concat, Nat.one_mul, Nat.add_comm 1]
  next := by simp [Engine.asking, h.next]
  accounted := by
    have := h.accounted
    rw [hp] at this
    simpa [Engine.asking, Phase.generation?] using this
  waiting := by simp [Engine.asking]
  latest := h.latest
  logged := h.logged

theorem Balanced.call (h : l.Balanced log) (now : Calendar.Moment) (c : Call) :
    (l.call now c).Balanced log := by
  replace h := h.at now
  unfold Ledger.call
  cases hc : c.issued? l.engine with
  | none =>
    rcases l.engine.call_effect { l.journal with now } c hc with
      ⟨hperform, houtcome⟩ | ⟨o, ho, hperform, houtcome⟩ | ⟨g, action, target, text, hp, hperform, houtcome⟩ <;>
      rw [hperform, houtcome] <;> simp only [Option.toList, List.append_nil]
    · exact h
    · exact h.settle ho
    · exact h.show hp text
  | some g =>
    cases c with
    | trigger b action now =>
      obtain rfl : l.engine.nextGeneration = g := by simpa [Call.issued?] using hc
      simp only [Call.perform, Call.outcome?, l.engine.trigger_eq_asking]
      rcases l.engine.cancel_cases with ⟨hp, hcancel⟩ | ⟨g, hg, hcancel⟩ <;> rw [hcancel]
      · simpa only [Option.toList, List.append_nil] using h.ask hp b action now
      · exact (h.settle (o := .cancelled g) hg).ask rfl b action now
    | _ => cases hc

theorem Balanced.run (h : l.Balanced log) (calls : List (Calendar.Moment × Call)) :
    (l.run calls).Balanced log := by
  induction calls generalizing l with
  | nil => exact h
  | cons c calls ih => exact ih (h.call c.1 c.2)

/-! ## Reading the books -/

/-- The generations are issued in ascending order. -/
theorem Balanced.ascending (h : l.Balanced log) : l.issued.Pairwise (· < ·) := by
  rw [h.consecutive]
  exact List.pairwise_lt_range' 1

theorem Balanced.outstanding (h : l.Balanced log) {g : Nat} (hg : l.engine.phase.generation? = some g) :
    l.issued.getLast? = some g := by
  rw [← h.accounted, hg]
  exact List.getLast?_concat

/-- A request has ended once it was made and is not the outstanding one. -/
theorem Balanced.mem_ended_iff (h : l.Balanced log) (g : Nat) :
    g ∈ l.outcomes.map Outcome.generation ↔ g ∈ l.issued ∧ l.engine.phase.generation? ≠ some g := by
  have hnodup : l.issued.Nodup := h.ascending.imp Nat.ne_of_lt
  rw [← h.accounted] at hnodup ⊢
  have hdisjoint := List.disjoint_of_nodup_append hnodup
  constructor
  · intro hg
    exact ⟨List.mem_append_left _ hg, fun hp => hdisjoint hg (Option.mem_toList.mpr hp)⟩
  · rintro ⟨hg, hp⟩
    exact (List.mem_append.mp hg).resolve_right fun hg => hp (Option.mem_toList.mp hg)

theorem Balanced.count_ended (h : l.Balanced log) (g : Nat) :
    (l.outcomes.map Outcome.generation).count g =
      if g ∈ l.issued ∧ l.engine.phase.generation? ≠ some g then 1 else 0 := by
  have hnodup : (l.outcomes.map Outcome.generation).Nodup :=
    (List.prefix_append _ _).sublist.nodup (h.accounted ▸ h.ascending.imp Nat.ne_of_lt)
  rw [hnodup.count]
  exact if_congr (h.mem_ended_iff g) rfl rfl

/-- What an engine keeps is how the last request that ended did. -/
theorem Balanced.lastOutcome_iff (h : l.Balanced log) (o : Outcome) :
    l.engine.lastOutcome? = some o ↔
      o ∈ l.outcomes ∧ ∀ o' ∈ l.outcomes, o'.generation ≤ o.generation := by
  have hascending : (l.outcomes.map Outcome.generation).Pairwise (· < ·) :=
    h.ascending.sublist (h.accounted ▸ (List.prefix_append _ _).sublist)
  rw [h.latest]
  rcases List.eq_nil_or_concat l.outcomes with hnil | ⟨before, last, hlast⟩
  · simp [hnil]
  · rw [List.concat_eq_append] at hlast
    rw [hlast, List.map_append, List.pairwise_append] at hascending
    have hlt (o' : Outcome) (ho' : o' ∈ before) : o'.generation < last.generation :=
      hascending.2.2 _ (List.mem_map_of_mem ho') _ (by simp)
    rw [hlast, List.getLast?_concat, Option.some.injEq]
    constructor
    · rintro rfl
      refine ⟨by simp, fun o' ho' => ?_⟩
      rcases List.mem_append.mp ho' with ho' | ho'
      · exact Nat.le_of_lt (hlt o' ho')
      · exact Nat.le_of_eq (congrArg _ (List.mem_singleton.mp ho'))
    · rintro ⟨ho, hmax⟩
      rcases List.mem_append.mp ho with ho | ho
      · exact absurd (hmax last (by simp)) (Nat.not_le.mpr (hlt o ho))
      · exact (List.mem_singleton.mp ho).symm

/-- A ledger of a new engine, after any calls: generations are issued from 1 on without gaps, and the outstanding
one is the last; the engine has the time of a request exactly while it waits; each other generation has ended
once, and the last of these ends is what the engine keeps; the log has gained one error for each failure, and
the oldest entries have made room for them. -/
theorem generation_ledger (id timeoutMillis : Nat) (journal : Journal)
    (calls : List (Calendar.Moment × Call)) :
    let l := (start id timeoutMillis journal).run calls
    l.issued = List.range' 1 l.issued.length ∧
    (∀ g, l.engine.phase.generation? = some g → l.issued.getLast? = some g) ∧
    (l.engine.requestedAt?.isSome = true ↔ ∃ g action target, l.engine.phase = .requesting g action target) ∧
    (∀ g, (l.outcomes.map Outcome.generation).count g =
      if g ∈ l.issued ∧ l.engine.phase.generation? ≠ some g then 1 else 0) ∧
    (∀ o, l.engine.lastOutcome? = some o ↔
      o ∈ l.outcomes ∧ ∀ o' ∈ l.outcomes, o'.generation ≤ o.generation) ∧
    ∃ gained : List LogEntry,
      gained.map (fun e => (e.level, e.message)) =
        (l.outcomes.filterMap Outcome.failure?).map (LogLevel.error, ·) ∧
      l.journal.log.entries.toList =
        (journal.log.entries.toList ++ gained).drop
          (min gained.length (journal.log.entries.size + gained.length - HostLog.capacity)) := by
  intro l
  have h : l.Balanced journal.log := (balanced_start id timeoutMillis journal).run calls
  obtain ⟨gained, hlog, hgained⟩ := h.logged
  refine ⟨h.consecutive, fun g => h.outstanding, h.waiting, h.count_ended, h.lastOutcome_iff, gained, hgained, ?_⟩
  rw [hlog, journal.log.entries_foldl_keep]

end Ledger

end Scriptorium.Assist
