import Scriptorium.Script.Session

/-!
# Looks at a run

The guard of a run looks at it after every interval and may raise an error in it: the run was cancelled, took too
long or used up its instructions. Here a run is taken with all its looks (`Run.Unfolds`): what the guard knows at
the end follows from them alone (`Run.Unfolds.guard`).
-/

namespace Scriptorium.Script

open Text

/-! ## Looks -/

namespace Guard

variable {g : Guard} {looks : List (Option StopReason)} {elapsed : Nat}

/-- The guard after a look that has raised an error, or none. -/
def noted (g : Guard) : Option StopReason → Guard
  | some .cancelled => { g with sawCancel := true }
  | some .timedOut => { g with sawTimeout := true }
  | some .outOfInstructions | none => { g with left := g.left - Int64.ofNat RunLimits.interval }

theorem look_eq_noted (g : Guard) (elapsed : Nat) : (g.look elapsed).2 = g.noted (g.look elapsed).1 := by
  unfold look
  split
  · rfl
  · split
    · rfl
    · dsimp only
      split <;> rfl

theorem limits_look (g : Guard) (elapsed : Nat) : (g.look elapsed).2.limits = g.limits := by
  rw [look_eq_noted]
  cases (g.look elapsed).1 with
  | none => rfl
  | some stop => cases stop <;> rfl

/-- The instructions run out in a look only if none were left before it. -/
theorem left_le_of_look (h : (g.look elapsed).1 = some .outOfInstructions) : g.left ≤ 0 := by
  unfold look at h
  split at h
  · cases h
  · split at h
    · cases h
    · dsimp only at h
      split at h
      · assumption
      · cases h

/-- Does a look count the instructions of its interval? One that finds the run cancelled or late does not. -/
def counts : Option StopReason → Bool
  | some .cancelled | some .timedOut => false
  | some .outOfInstructions | none => true

/-- The instructions that looks have counted. -/
def counted (looks : List (Option StopReason)) : Nat := RunLimits.interval * looks.countP counts

theorem foldl_noted (g : Guard) (looks : List (Option StopReason)) :
    looks.foldl noted g =
      { g with
        left := g.left - Int64.ofNat (counted looks)
        sawCancel := g.sawCancel || looks.contains (some .cancelled)
        sawTimeout := g.sawTimeout || looks.contains (some .timedOut) } := by
  induction looks generalizing g with
  | nil => simp [counted]
  | cons look looks ih =>
    rw [List.foldl_cons, ih]
    have hcounted : counted (look :: looks) = counted [look] + counted looks := by
      simp only [counted, List.countP_cons, List.countP_nil, Nat.mul_add]
      omega
    rw [hcounted, Int64.ofNat_add, ← Int64.sub_sub]
    rcases look with _ | _ | _ | _ <;> simp [noted, counted, counts]

theorem left_noted (g : Guard) (look : Option StopReason) (looks : List (Option StopReason)) :
    (g.noted look).left - Int64.ofNat (counted looks) = g.left - Int64.ofNat (counted (look :: looks)) := by
  have h := congrArg left (foldl_noted g (look :: looks))
  rwa [List.foldl_cons, foldl_noted] at h

end Guard

/-! ## Runs -/

namespace Run

variable {σ : Type} {e : Engine σ} {r r' : Run σ} {looks : List (Option StopReason)} {clock : Nat → Nat}
  {result : Except HostFailure (List Datum)}

/-- The run when the engine has stopped advancing. -/
def advanced (e : Engine σ) (r : Run σ) : Run σ :=
  { r with state := (e.advance r.ahead r.state).2, ahead := (e.advance r.ahead r.state).1 }

/-- The run when the guard looks at it after some time and finds the token of the run set, or not set. -/
def looked (e : Engine σ) (cancel : Bool) (elapsed : Nat) (r : Run σ) : Run σ :=
  watch e (fun _ => elapsed) { r with guard := { r.guard with cancel } }

/-- What the guard raises when it looks at the run. -/
def raised (cancel : Bool) (elapsed : Nat) (r : Run σ) : Option StopReason :=
  (({ r.guard with cancel } : Guard).look elapsed).1

/-- A run goes on to its end, with what each look of the guard has raised on the way. When the guard looks, any time
may have passed, and the token may have been set or not. -/
inductive Unfolds (e : Engine σ) :
    Run σ → List (Option StopReason) → Except HostFailure (List Datum) → Run σ → Prop where
  | finished {r : Run σ} {result : Except HostFailure (List Datum)}
      (standing : e.standing (r.advanced e).state = .finished result) : Unfolds e r [] result (r.advanced e)
  | asked {r r' : Run σ} {looks : List (Option StopReason)} {result : Except HostFailure (List Datum)} {q : Request}
      (standing : e.standing (r.advanced e).state = .asking q)
      (rest : Unfolds e (serve e (r.advanced e) q) looks result r') : Unfolds e r looks result r'
  | watched {r r' : Run σ} {looks : List (Option StopReason)} {result : Except HostFailure (List Datum)}
      (cancel : Bool) (elapsed : Nat) (standing : e.standing (r.advanced e).state = .running)
      (rest : Unfolds e (looked e cancel elapsed (r.advanced e)) looks result r') :
      Unfolds e r (raised cancel elapsed (r.advanced e) :: looks) result r'

theorem finish_succ (e : Engine σ) (clock : Nat → Nat) (fuel : Nat) (r : Run σ) :
    finish e clock (fuel + 1) r =
      match e.standing (r.advanced e).state with
      | .finished result => some (result, r.advanced e)
      | .asking q => finish e clock fuel (serve e (r.advanced e) q)
      | .running => finish e clock fuel (watch e clock (r.advanced e)) := rfl

/-- What a run with a clock does is one of the ways in which it can unfold. -/
theorem exists_unfolds_of_finish {fuel : Nat} (h : finish e clock fuel r = some (result, r')) :
    ∃ looks, Unfolds e r looks result r' := by
  induction fuel generalizing r with
  | zero => cases h
  | succ fuel ih =>
    rw [finish_succ] at h
    split at h
    · next result' hstanding =>
      obtain ⟨rfl, rfl⟩ := Prod.mk.inj (Option.some.inj h)
      exact ⟨[], .finished hstanding⟩
    · next q hstanding =>
      obtain ⟨looks, hrest⟩ := ih h
      exact ⟨looks, .asked hstanding hrest⟩
    · next hstanding =>
      obtain ⟨looks, hrest⟩ := ih h
      exact ⟨_, .watched r.guard.cancel (clock r.looks) hstanding hrest⟩

/-- A run that the guard has looked at once before it finishes. -/
theorem finish_after_look (hrunning : e.standing (r.advanced e).state = .running)
    (hend : e.standing ((watch e clock (r.advanced e)).advanced e).state = .finished result) (fuel : Nat) :
    let r' := (watch e clock (r.advanced e)).advanced e
    finish e clock (fuel + 2) r = some (result, r') ∧
      Unfolds e r [((r.advanced e).guard.look (clock r.looks)).1] result r' := by
  refine ⟨?_, .watched (r.advanced e).guard.cancel (clock r.looks) hrunning (.finished hend)⟩
  rw [finish_succ, hrunning]
  dsimp only
  rw [finish_succ, hend]

/-- The marks and the count of the guard at the end follow from the looks. -/
theorem Unfolds.guard (h : Unfolds e r looks result r') :
    ∃ cancel, r'.guard = { looks.foldl Guard.noted r.guard with cancel } := by
  induction h with
  | finished => exact ⟨_, rfl⟩
  | asked _ _ ih => exact ih
  | @watched r r' looks result cancel elapsed _ _ ih =>
    obtain ⟨cancel', hguard⟩ := ih
    refine ⟨cancel', hguard.trans ?_⟩
    have hlook : (looked e cancel elapsed (r.advanced e)).guard =
        ({ r.guard with cancel } : Guard).noted (raised cancel elapsed (r.advanced e)) :=
      Guard.look_eq_noted _ _
    rw [hlook, List.foldl_cons]
    simp only [Guard.foldl_noted]
    cases raised cancel elapsed (r.advanced e) with
    | none => rfl
    | some stop => cases stop <;> rfl

/-- The instructions run out only where none are left. -/
theorem Unfolds.left_le (h : Unfolds e r looks result r') {before after : List (Option StopReason)}
    (heq : looks = before ++ some .outOfInstructions :: after) :
    r.guard.left - Int64.ofNat (Guard.counted before) ≤ 0 := by
  induction h generalizing before with
  | finished => simp at heq
  | asked _ _ ih => exact ih heq
  | @watched r r' looks result cancel elapsed _ _ ih =>
    cases before with
    | nil =>
      have hleft : ({ r.guard with cancel } : Guard).left ≤ 0 := Guard.left_le_of_look (List.cons.inj heq).1
      rwa [show Guard.counted [] = 0 from rfl, show Int64.ofNat 0 = 0 from rfl, Int64.sub_zero]
    | cons look before =>
      obtain ⟨rfl, hrest⟩ := List.cons.inj heq
      have hleft := ih hrest
      have hnoted : (looked e cancel elapsed (r.advanced e)).guard =
          ({ r.guard with cancel } : Guard).noted (raised cancel elapsed (r.advanced e)) := Guard.look_eq_noted _ _
      rwa [hnoted, Guard.left_noted] at hleft

end Run

end Scriptorium.Script
