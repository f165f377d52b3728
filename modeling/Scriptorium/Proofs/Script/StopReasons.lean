import Mathlib.Data.List.ReduceOption
import Scriptorium.Proofs.Script.Endings
import Scriptorium.Proofs.Script.Looks
import Scriptorium.Proofs.Script.Tables

/-!
# Reasons why a run was stopped

Which reason an evaluation tells for the end of its run is not noted when the guard raises it; it is made out at the
end, from two marks and a count. What these are follows from the looks of the guard, and so it can be said when an
evaluation tells the truth (`Session.stop_reasons_told`), and that it does not when a script catches what stops it
(`Session.stop_reasons_mistold`).
-/

namespace Scriptorium.Script

open Text

/-! ## Verdicts -/

namespace StopReason

/-- The order in which the guard asks for reasons at the end. -/
def rank : StopReason → Nat
  | .cancelled => 0
  | .timedOut => 1
  | .outOfInstructions => 2

end StopReason

namespace Guard

/-- The instructions that looks leave of those that were allowed; the count wraps around. -/
def leftAfter (limits : RunLimits) (looks : List (Option StopReason)) : Int64 :=
  limits.instructions - Int64.ofNat (counted looks)

/-- What the guard makes out at the end: a run that was cancelled once was stopped by that, whatever else was raised
in it, and a run with no instructions left was stopped by that, even if nothing was raised. -/
def madeOut (limits : RunLimits) (looks : List (Option StopReason)) : Option StopReason :=
  if some .cancelled ∈ looks then some .cancelled
  else if some .timedOut ∈ looks then some .timedOut
  else if leftAfter limits looks ≤ 0 then some .outOfInstructions
  else none

theorem verdict_foldl_noted (limits : RunLimits) (cancel cancel' : Bool) (looks : List (Option StopReason)) :
    ({ looks.foldl noted (ofLimits limits cancel) with cancel := cancel' } : Guard).verdict =
      madeOut limits looks := by
  simp only [foldl_noted, verdict, madeOut, ofLimits, leftAfter, Bool.false_or, List.contains_iff_mem]
  congr

theorem madeOut_of_quiet {limits : RunLimits} {looks : List (Option StopReason)} (h : looks.reduceOption = []) :
    madeOut limits looks = none ↔ 0 < leftAfter limits looks := by
  have hnone (stop : StopReason) : some stop ∉ looks := by
    rw [← List.reduceOption_mem_iff, h]
    exact List.not_mem_nil
  rw [madeOut, if_neg (hnone _), if_neg (hnone _), ← Int64.not_le]
  split <;> simp [*]

/-- What was raised first is made out, unless something that is asked for before it was raised later. -/
theorem madeOut_of_raised {limits : RunLimits} {looks : List (Option StopReason)} {first : StopReason}
    {later : List StopReason} (h : looks.reduceOption = first :: later) :
    madeOut limits looks = some first ↔
      (∀ stop ∈ later, first.rank ≤ stop.rank) ∧ (first = .outOfInstructions → leftAfter limits looks ≤ 0) := by
  have hraised (stop : StopReason) : some stop ∈ looks ↔ stop = first ∨ stop ∈ later := by
    rw [← List.reduceOption_mem_iff, h, List.mem_cons]
  simp only [madeOut, hraised]
  cases first with
  | cancelled => simp [StopReason.rank]
  | timedOut =>
    have hlater : (∀ stop ∈ later, StopReason.timedOut.rank ≤ stop.rank) ↔ StopReason.cancelled ∉ later := by
      refine ⟨fun h hmem => absurd (h _ hmem) (by decide), fun hcancelled stop hstop => ?_⟩
      cases stop with
      | cancelled => exact absurd hstop hcancelled
      | timedOut | outOfInstructions => decide
    by_cases hcancelled : StopReason.cancelled ∈ later <;> simp [hlater, hcancelled]
  | outOfInstructions =>
    have hlater : (∀ stop ∈ later, StopReason.outOfInstructions.rank ≤ stop.rank) ↔
        StopReason.cancelled ∉ later ∧ StopReason.timedOut ∉ later := by
      refine ⟨fun h => ⟨fun hmem => absurd (h _ hmem) (by decide), fun hmem => absurd (h _ hmem) (by decide)⟩, ?_⟩
      rintro ⟨hcancelled, htimed⟩ stop hstop
      cases stop with
      | cancelled => exact absurd hstop hcancelled
      | timedOut => exact absurd hstop htimed
      | outOfInstructions => decide
    by_cases hcancelled : StopReason.cancelled ∈ later <;> by_cases htimed : StopReason.timedOut ∈ later <;>
      simp [hlater, hcancelled, htimed]

/-- Where the count does not wrap around, it is a difference. -/
theorem toInt_leftAfter {limits : RunLimits} {looks : List (Option StopReason)}
    (h : Int64.minValue.toInt + counted looks ≤ limits.instructions.toInt) :
    (leftAfter limits looks).toInt = limits.instructions.toInt - counted looks := by
  have hmin : Int64.minValue.toInt = -2 ^ 63 := by decide
  have hmax : limits.instructions.toInt < 2 ^ 63 := limits.instructions.toInt_lt
  have hsize : (Int64.size : Int) = 2 ^ 64 := rfl
  have hcounted : (Int64.ofNat (counted looks)).toInt = (counted looks : Int).bmod (2 ^ 64) := Int64.toInt_ofNat'
  rw [leftAfter, Int64.toInt_sub, hcounted, Int.sub_bmod_bmod]
  apply Int.bmod_eq_of_le <;> omega

end Guard

/-! ## Evaluations -/

namespace Evaluation

/-- The reasons that an evaluation tells. -/
def flags (ev : Evaluation) : List StopReason :=
  (if ev.cancelled then [.cancelled] else []) ++ (if ev.timedOut then [.timedOut] else []) ++
    if ev.outOfInstructions then [.outOfInstructions] else []

/-- The evaluation tells the truth about what the guard has raised: if anything, the run has failed, and the reason
that is told is the first. -/
structure Tells (ev : Evaluation) (stops : List StopReason) : Prop where
  flags : ev.flags = stops.head?.toList
  failed : stops ≠ [] → ev.succeeded = false

variable {guard : Guard} {output : Output} {error : String}

theorem flags_failed : (failed guard output error).flags = guard.verdict.toList := by
  unfold failed
  rcases guard.verdict with _ | _ | _ | _ <;> rfl

theorem succeeded_failed : (failed guard output error).succeeded = false := by
  unfold failed
  rcases guard.verdict with _ | _ | _ | _ <;> rfl

theorem flags_ofResult (guard : Guard) (output : Output) (result : Except HostFailure (List Datum)) :
    (ofResult guard output result).flags =
      if (ofResult guard output result).succeeded then [] else guard.verdict.toList := by
  cases result with
  | ok ds => rfl
  | error f => simp only [ofResult, flags_failed, succeeded_failed, Bool.false_eq_true, if_false]

end Evaluation

/-! ## Executions -/

namespace Session

/-- The ways in which a text can be executed, each with what the looks of the guard raise. -/
inductive Executes (s : Session) (name text : String) :
    List (Option StopReason) → Evaluation → Session → Prop where
  | blank (blank : isBlankText text.toList = true) : Executes s name text [] {} s
  | refused {e : Bytes} (cancel : Bool) (notBlank : isBlankText text.toList = false)
      (compiled : compileEither (bytes name) (bytes text) = .error e) :
      Executes s name text [] (.failed (.ofLimits s.limits cancel) {} (shownText e)) s
  | ran {chunk : Chunk} {looks : List (Option StopReason)} {result : Except HostFailure (List Datum)}
      {run : Run Machine} (cancel : Bool) (notBlank : isBlankText text.toList = false)
      (compiled : compileEither (bytes name) (bytes text) = .ok chunk)
      (unfolds : Run.Unfolds machineEngine
        { state := Machine.start s.store ((newMain chunk).bind fun f => callWhole f [])
          world := s.world
          guard := .ofLimits s.limits cancel } looks result run) :
      Executes s name text looks (.ofResult run.guard run.output result)
        { s with store := run.state.store, world := run.world }

variable {s s' : Session} {name text : String} {looks : List (Option StopReason)} {ev : Evaluation}
  {clock : Nat → Nat} {cancel : Bool}

/-- Every attempt is an execution. Where the host breaks off, nobody is told the evaluation. -/
theorem exists_executes_of_attempt {result : Except String Evaluation}
    (h : s.attempt clock cancel name text = some (result, s')) :
    ∃ looks ev, s.Executes name text looks ev s' ∧ ∀ told, result = .ok told → told = ev := by
  unfold attempt at h
  split at h
  · next hblank =>
    cases h
    exact ⟨[], _, .blank hblank, fun _ htold => (Except.ok.inj htold).symm⟩
  · next hblank =>
    rw [Bool.not_eq_true] at hblank
    dsimp only at h
    split at h
    · next e hcompile =>
      cases h
      exact ⟨[], _, .refused cancel hblank hcompile, fun _ htold => (Except.ok.inj htold).symm⟩
    · next chunk hcompile =>
      split at h
      · cases h
      · next ended run hfinish =>
        obtain ⟨looks, hunfolds⟩ := Run.exists_unfolds_of_finish hfinish
        have hran := Executes.ran cancel hblank hcompile hunfolds
        split at h
        · cases h
          exact ⟨looks, _, hran, fun _ htold => nomatch htold⟩
        · cases h
          exact ⟨looks, _, hran, fun _ htold => (Except.ok.inj htold).symm⟩

theorem exists_executes_of_execute (h : s.execute clock cancel name text = some (ev, s')) :
    ∃ looks, s.Executes name text looks ev s' := by
  obtain ⟨looks, _, hexecutes, htold⟩ := exists_executes_of_attempt (execute_eq_some_iff.1 h)
  obtain rfl := htold ev rfl
  exact ⟨looks, hexecutes⟩

/-- An execution that fails tells what the guard makes out, one that succeeds tells nothing. -/
theorem Executes.flags (h : s.Executes name text looks ev s') :
    ev.flags = if ev.succeeded then [] else (Guard.madeOut s.limits looks).toList := by
  cases h with
  | blank => rfl
  | refused cancel =>
    have hverdict := Guard.verdict_foldl_noted s.limits cancel cancel []
    simp only [Evaluation.flags_failed, Evaluation.succeeded_failed, ← hverdict]
    rfl
  | ran cancel _ _ hunfolds =>
    obtain ⟨cancel', hguard⟩ := hunfolds.guard
    rw [Evaluation.flags_ofResult, hguard, Guard.verdict_foldl_noted]

/-- An evaluation tells the truth in these cases only: nothing was raised, and the run has succeeded or has
instructions left; or the run has failed, what was raised first comes before all that was raised later in the order of
reasons too, and no instructions are left if it was that. -/
theorem Executes.tells_iff (h : s.Executes name text looks ev s') :
    ev.Tells looks.reduceOption ↔
      match looks.reduceOption with
      | [] => ev.succeeded = true ∨ 0 < Guard.leftAfter s.limits looks
      | first :: later => ev.succeeded = false ∧ (∀ stop ∈ later, first.rank ≤ stop.rank) ∧
          (first = .outOfInstructions → Guard.leftAfter s.limits looks ≤ 0) := by
  have hflags := h.flags
  cases hstops : looks.reduceOption with
  | nil =>
    dsimp only
    rw [← Guard.madeOut_of_quiet hstops, ← Option.toList_eq_nil_iff]
    constructor
    · rintro ⟨htold, -⟩
      cases hsucceeded : ev.succeeded with
      | true => exact .inl rfl
      | false => exact .inr (by simpa [hflags, hsucceeded] using htold)
    · intro h
      refine ⟨?_, fun hne => absurd rfl hne⟩
      rw [hflags]
      split
      · rfl
      · next hfailed => exact h.resolve_left hfailed
  | cons first later =>
    dsimp only
    rw [← Guard.madeOut_of_raised hstops]
    constructor
    · rintro ⟨htold, hfailed⟩
      have hfailed := hfailed (List.cons_ne_nil _ _)
      refine ⟨hfailed, ?_⟩
      simpa [hflags, hfailed] using htold
    · rintro ⟨hfailed, hfirst⟩
      exact ⟨by simp [hflags, hfailed, hfirst], fun _ => hfailed⟩

/-- Where the count does not wrap around, no instructions are left once they have run out. -/
theorem Executes.leftAfter_le (h : s.Executes name text looks ev s') (hout : some .outOfInstructions ∈ looks)
    (hroom : Int64.minValue.toInt + Guard.counted looks ≤ s.limits.instructions.toInt) :
    Guard.leftAfter s.limits looks ≤ 0 := by
  cases h with
  | blank => cases hout
  | refused => cases hout
  | ran cancel _ _ hunfolds =>
    obtain ⟨before, after, rfl⟩ := List.append_of_mem hout
    have hbefore : Guard.leftAfter s.limits before ≤ 0 := hunfolds.left_le rfl
    have hcounted : Guard.counted before ≤ Guard.counted (before ++ some .outOfInstructions :: after) := by
      rw [Guard.counted, Guard.counted, List.countP_append, Nat.mul_add]
      exact Nat.le_add_right _ _
    rw [Int64.le_iff_toInt_le, Guard.toInt_leftAfter hroom]
    rw [Int64.le_iff_toInt_le, Guard.toInt_leftAfter (by omega)] at hbefore
    omega

/-- Where the count does not wrap around, it is enough that a run which nothing stopped has not counted as many
instructions as were allowed. -/
theorem Executes.tells_iff_of_room (h : s.Executes name text looks ev s')
    (hroom : Int64.minValue.toInt + Guard.counted looks ≤ s.limits.instructions.toInt) :
    ev.Tells looks.reduceOption ↔
      match looks.reduceOption with
      | [] => ev.succeeded = true ∨ Guard.counted looks < s.limits.instructions.toInt
      | first :: later => ev.succeeded = false ∧ ∀ stop ∈ later, first.rank ≤ stop.rank := by
  rw [h.tells_iff]
  cases hstops : looks.reduceOption with
  | nil =>
    refine or_congr_right ?_
    rw [Int64.lt_iff_toInt_lt, Guard.toInt_leftAfter hroom, Int64.toInt_zero]
    omega
  | cons first later =>
    refine and_congr_right fun _ => and_iff_left ?_
    rintro rfl
    refine h.leftAfter_le ?_ hroom
    rw [← List.reduceOption_mem_iff, hstops]
    exact List.mem_cons_self

end Session

/-! ## A loop that catches what stops it -/

namespace Machine

/-- What a machine that never waits keeps in each step, it keeps however far it advances. -/
theorem advance_of_kept {P : Machine → Prop} (hrunning : ∀ m, P m → m.paused = false) (hstep : ∀ m, P m → P m.step)
    (n : Nat) {m : Machine} (h : P m) : ∃ m', advance n m = (0, m') ∧ P m' := by
  induction n generalizing m with
  | zero => exact ⟨m, rfl, h⟩
  | succ n ih =>
    rw [advance_succ (hrunning m h)]
    exact ih (hstep m h)

end Machine

/-- Of a result that holds no decidable error, it is decidable what it is without the error. -/
theorem eq_ok_of_toOption {ε α : Type} {x : Except ε α} {a : α} (h : x.toOption = some a) : x = .ok a := by
  cases x with
  | error e => cases h
  | ok b => exact congrArg _ (Option.some.inj h)

namespace CaughtLoop

/-- A script with an endless loop, which catches what ends it. -/
def text : String := "pcall(function() while true do end end)"

/-- The function with the loop. -/
def inner : Proto :=
  { code := #[.push (.boolean true), .jumpUnless 1, .jumpBack 2, .label 0, .result 0 false]
    lines := #[0, 1, 1, 0, 1]
    slots := 0
    parameters := 0
    isVariadic := false
    hasCells := false
    captures := [] }

/-- The function that calls it. -/
def outer : Proto :=
  { code := #[.getCaptured 0, .push (.ofString "pcall"), .index (.named .upvalue (bytes "_ENV")), .closure 0,
      .tailCall 1 false (.named .global (bytes "pcall")), .result 0 true, .result 0 false]
    lines := #[0, 0, 1, 0, 1, 1, 1]
    slots := 0
    parameters := 0
    isVariadic := true
    hasCells := false
    captures := [.slot 0] }

def chunk : Chunk := ⟨bytes "chunk", #[inner, outer]⟩

theorem compileEither_text : compileEither (bytes "chunk") (bytes text) = .ok chunk :=
  eq_ok_of_toOption (by decide +kernel)

/-- What the run of the script is. -/
def main : Act (List Value) := (newMain chunk).bind fun f => callWhole f []

/-- The outer function while it runs. -/
def calling (next : Nat) (stack : List Value) : Activation :=
  { chunk, proto := outer, next, slots := #[], cells := #[], captured := #[0], stack, varargs := [] }

/-- The inner function while it runs. -/
def looping (next : Nat) (stack : List Value) : Activation :=
  { chunk, proto := inner, next, slots := #[], cells := #[], captured := #[], stack, varargs := [] }

/-- The store with both functions. -/
def withBoth (s : Store) : Store := { s with closures := #[.script chunk outer #[0], .script chunk inner #[]] }

/-- The machine in the loop. -/
def inLoop (s : Store) (next : Nat) (stack : List Value) : Machine :=
  { store := withBoth s
    control := .run (looping next stack)
    frames := [.guard Library.caught, .library, .script (calling 5 []) .all, .guard wholeResult]
    depth := 1
    inner := 2 }

/-- The script gets into the loop. -/
theorem advance_main {s : Store} (hclosures : s.closures = #[]) (hcells : s.cells = #[.table 0])
    (hpcall : (s.table 0).getText (bytes "pcall") = .builtin .pcall) (n : Nat) :
    Machine.advance (n + 8) (Machine.start s main) = Machine.advance n (inLoop s 0 []) := by
  obtain ⟨tables, closures, cells, objects, registry, globals, textMetatable?, seed⟩ := s
  dsimp only at hclosures hcells
  subst hclosures hcells
  let s : Store :=
    { tables, closures := #[.script chunk outer #[0]], cells := #[.table 0], objects, registry, globals,
      textMetatable?, seed }
  let m (a : Activation) : Machine := { store := s, control := .run a, frames := [.guard wholeResult], inner := 1 }
  have hstart : Machine.advance (n + 8)
      (Machine.start { tables, cells := #[.table 0], objects, registry, globals, textMetatable?, seed } main) =
      Machine.advance (n + 4) (m (calling 2 [.ofString "pcall", .table 0])) := rfl
  -- Only the lookup of `pcall` does not compute.
  have hindex : (m (calling 2 [.ofString "pcall", .table 0])).step = m (calling 3 [.builtin .pcall]) := by
    have hplain : Machine.plainIndex? s (.table 0) (.ofString "pcall") = some (.builtin .pcall) := by
      have hfound : (s.table 0).getText (bytes "pcall") = .builtin .pcall := hpcall
      simp only [Value.ofString, Machine.plainIndex?, hfound]
    have hstep : (m (calling 2 [.ofString "pcall", .table 0])).step =
        (m (calling 3 [])).execute (calling 3 [.ofString "pcall", .table 0])
          (.index (.named .upvalue (bytes "_ENV"))) := rfl
    rw [hstep]
    simp only [Machine.execute, Machine.operands, calling, m, hplain]
    rfl
  rw [hstart, Machine.advance_succ rfl, hindex]
  rfl

/-- The script does not leave the loop by itself. -/
theorem advance_inLoop (s : Store) (n : Nat) :
    ∃ next stack, Machine.advance n (inLoop s 0 []) = (0, inLoop s next stack) := by
  let Turns (m : Machine) : Prop := m = inLoop s 0 [] ∨ m = inLoop s 1 [.boolean true] ∨ m = inLoop s 2 []
  have hrunning : ∀ m, Turns m → m.paused = false := by
    rintro m (rfl | rfl | rfl) <;> rfl
  have hstep : ∀ m, Turns m → Turns m.step := by
    rintro m (rfl | rfl | rfl)
    · exact .inr (.inl rfl)
    · exact .inr (.inr rfl)
    · exact .inl rfl
  obtain ⟨m, hadvance, rfl | rfl | rfl⟩ := Machine.advance_of_kept hrunning hstep n (.inl rfl)
  · exact ⟨_, _, hadvance⟩
  · exact ⟨_, _, hadvance⟩
  · exact ⟨_, _, hadvance⟩

/-- The script when it has caught an error. -/
def ended (s : Store) (e : Value) : Machine :=
  { store := withBoth s, control := .finished (.ok [.boolean false, e]) }

/-- Whatever is raised in the loop is caught. -/
theorem advance_interrupt (s : Store) (next : Nat) (stack : List Value) (e : Value) (n : Nat) :
    Machine.advance (n + 9) ((inLoop s next stack).interrupt e) = (n, ended s e) := by
  rw [← Machine.advance_of_paused (m := ended s e) rfl n]
  rfl

/-- Whatever reason the guard has to stop the script when it looks first, the script ends well. -/
theorem exists_executes (world : World) (limits : RunLimits) (clock : Nat → Nat) {cancel : Bool} {stop : StopReason}
    (hlook : ((Guard.ofLimits limits cancel).look (clock 0)).1 = some stop) :
    let s := Session.plain world limits
    ∃ ev s', s.execute clock cancel "chunk" text = some (ev, s') ∧ s.Executes "chunk" text [some stop] ev s' ∧
      ev.succeeded = true := by
  intro s
  have hblank : isBlankText text.toList = false := by decide
  have hpcall : (s.store.table 0).getText (bytes "pcall") = .builtin .pcall :=
    Library.getText_globals default (by decide)
  let start : Run Machine :=
    { state := Machine.start s.store main, world, guard := Guard.ofLimits limits cancel }
  obtain ⟨next, stack, hloop⟩ := advance_inLoop s.store 9992
  have hadvanced : start.advanced machineEngine = { start with state := inLoop s.store next stack, ahead := 0 } := by
    have hadvance : Machine.advance RunLimits.interval start.state = (0, inLoop s.store next stack) :=
      (advance_main rfl rfl hpcall 9992).trans hloop
    simp only [Run.advanced, machineEngine, start, hadvance]
  let failure : Value := .failure (.runtime (stop.message limits))
  have hwatched : Run.watch machineEngine clock (start.advanced machineEngine) =
      { start with
        state := (inLoop s.store next stack).interrupt failure
        guard := ((Guard.ofLimits limits cancel).look (clock 0)).2
        looks := 1 } := by
    rw [hadvanced]
    simp only [Run.watch, start, hlook, Guard.limits_look]
    rfl
  have hrunning : machineEngine.standing (start.advanced machineEngine).state = .running := by
    rw [hadvanced]
    rfl
  have hended : machineEngine.standing
      ((Run.watch machineEngine clock (start.advanced machineEngine)).advanced machineEngine).state =
      .finished (.ok ([.boolean false, failure].map (withBoth s.store).datum)) := by
    rw [hwatched]
    exact congrArg machineEngine.standing
      (congrArg Prod.snd (advance_interrupt s.store next stack failure 9991))
  obtain ⟨hfinish, hunfolds⟩ := Run.finish_after_look hrunning hended (Session.pauseLimit - 2)
  have hraised : ((start.advanced machineEngine).guard.look (clock start.looks)).1 = some stop := by
    rw [hadvanced]
    exact hlook
  rw [hraised] at hunfolds
  refine ⟨_, _, ?_, .ran cancel hblank compileEither_text hunfolds, rfl⟩
  have hrun : Run.finish machineEngine clock Session.pauseLimit
      { state := Machine.start s.store ((newMain chunk).bind fun f => callWhole f [])
        world := s.world
        guard := Guard.ofLimits s.limits cancel } = _ := hfinish
  rw [Session.execute_eq_some_iff]
  simp only [Session.attempt, hblank, compileEither_text, Bool.false_eq_true, if_false, hrun]

end CaughtLoop

namespace Session

/-- What an evaluation tells about why its run was stopped, for every way in which a text can be executed, of which
those with a clock are some. Only an execution that fails tells a reason, and the reason is made out from the looks of
the guard. It is the truth in exactly these cases: nothing was raised, and the run has succeeded or has instructions
left; or the run has failed, what was raised first comes first in the order of reasons too, and no instructions are
left if it was that. -/
theorem stop_reasons_told (s : Session) (name text : String) :
    (∀ clock cancel ev s', s.execute clock cancel name text = some (ev, s') →
      ∃ looks, s.Executes name text looks ev s') ∧
    ∀ looks ev s', s.Executes name text looks ev s' →
      (ev.flags = if ev.succeeded then [] else (Guard.madeOut s.limits looks).toList) ∧
      (ev.Tells looks.reduceOption ↔
        match looks.reduceOption with
        | [] => ev.succeeded = true ∨ 0 < Guard.leftAfter s.limits looks
        | first :: later => ev.succeeded = false ∧ (∀ stop ∈ later, first.rank ≤ stop.rank) ∧
            (first = .outOfInstructions → Guard.leftAfter s.limits looks ≤ 0)) ∧
      (Int64.minValue.toInt + Guard.counted looks ≤ s.limits.instructions.toInt →
        (ev.Tells looks.reduceOption ↔
          match looks.reduceOption with
          | [] => ev.succeeded = true ∨ Guard.counted looks < s.limits.instructions.toInt
          | first :: later => ev.succeeded = false ∧ ∀ stop ∈ later, first.rank ≤ stop.rank)) :=
  ⟨fun _ _ _ _ => exists_executes_of_execute, fun _ _ _ h => ⟨h.flags, h.tells_iff, h.tells_iff_of_room⟩⟩

/-- A closing bracket is no script. -/
theorem exists_executes_bracket (world : World) (limits : RunLimits) :
    let s := plain world limits
    ∃ e, s.execute (fun _ => 0) false "chunk" ")" = some (.failed (.ofLimits limits false) {} (shownText e), s) ∧
      s.Executes "chunk" ")" [] (.failed (.ofLimits limits false) {} (shownText e)) s := by
  intro s
  have hblank : isBlankText ")".toList = false := by decide
  have hrefused : (compileEither (bytes "chunk") (bytes ")")).isOk = false := by decide +kernel
  cases hcompile : compileEither (bytes "chunk") (bytes ")") with
  | ok chunk =>
    rw [hcompile] at hrefused
    cases hrefused
  | error e =>
    refine ⟨e, ?_, .refused false hblank hcompile⟩
    rw [execute_eq_some_iff]
    simp only [s, attempt, hblank, hcompile, Bool.false_eq_true, if_false]
    rfl

/-- Under the usual limits, the evaluation of a text that does not compile tells the truth: nothing was raised. -/
theorem stop_reasons_told_bracket :
    let s := plain { now := default } {}
    ∃ ev s', s.Executes "chunk" ")" [] ev s' ∧ ev.succeeded = false ∧ ev.Tells [] := by
  intro s
  obtain ⟨e, hexecute, hexecutes⟩ := exists_executes_bracket { now := default } {}
  obtain ⟨-, -, htells⟩ := (stop_reasons_told s "chunk" ")").2 [] _ _ hexecutes
  have hroom : Int64.minValue.toInt + Guard.counted [] ≤ s.limits.instructions.toInt := by decide
  exact ⟨_, _, hexecutes, Evaluation.succeeded_failed, (htells hroom).2 (.inr (by decide))⟩

/-- A run is cancelled, and its script catches that: it is told to have gone well. And under a limit of no
instructions, a text that does not compile is told to have been stopped, although the guard has never looked. -/
theorem stop_reasons_mistold :
    (let s := plain { now := default } {}
      ∃ ev s', s.execute (fun _ => 0) true "chunk" CaughtLoop.text = some (ev, s') ∧
        s.Executes "chunk" CaughtLoop.text [some .cancelled] ev s' ∧ ev.succeeded = true ∧ ¬ ev.Tells [.cancelled]) ∧
    (let s := plain { now := default } { instructions := 0 }
      ∃ ev s', s.execute (fun _ => 0) false "chunk" ")" = some (ev, s') ∧ s.Executes "chunk" ")" [] ev s' ∧
        ev.flags = [.outOfInstructions] ∧ ¬ ev.Tells []) := by
  constructor
  · intro s
    have hlook : ((Guard.ofLimits {} true).look 0).1 = some .cancelled := rfl
    obtain ⟨ev, s', hexecute, hexecutes, hsucceeded⟩ :=
      CaughtLoop.exists_executes { now := default } {} (fun _ => 0) hlook
    refine ⟨ev, s', hexecute, hexecutes, hsucceeded, fun htells => ?_⟩
    cases hsucceeded.symm.trans (htells.failed (List.cons_ne_nil _ _))
  · intro s
    obtain ⟨e, hexecute, hexecutes⟩ := exists_executes_bracket { now := default } { instructions := 0 }
    have hflags : (Evaluation.failed (.ofLimits s.limits false) {} (shownText e)).flags = [.outOfInstructions] := by
      rw [Evaluation.flags_failed]
      rfl
    refine ⟨_, _, hexecute, hexecutes, hflags, fun htells => ?_⟩
    cases hflags.symm.trans htells.flags

end Session

end Scriptorium.Script
