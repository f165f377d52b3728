import Mathlib.Data.List.Induction
import Scriptorium.Proofs.Script.StopReasons

/-!
# Printed lines

Of what a run prints, the lines up to the limit are kept, and that there were more is told by a notice behind them
(`Evaluation.Captures`). All executions of a session print into one buffer, which is cleared before each of them; a
session with its buffer is a `Console`. What an execution prints is told along its run (`Run.Prints`), so that it can be
said, for any chunks one after the other, that each evaluation has captured what its own chunk has printed, whether it
has gone well or failed (`Console.evaluations_capture`).
-/

namespace Scriptorium.Script

open Text

/-! ## The buffer -/

namespace Output

/-- The buffer for which the lines were printed after it was cleared. -/
def keeping (limit : Nat) (lines : List String) : Output :=
  { lines := (lines.take limit).toArray, truncated := decide (limit < lines.length) }

theorem push_keeping (limit : Nat) (lines : List String) (line : String) :
    push limit (keeping limit lines) line = keeping limit (lines ++ [line]) := by
  have hsize : (keeping limit lines).lines.size = min limit lines.length := by simp [keeping]
  have hlength : (lines ++ [line]).length = lines.length + 1 := List.length_append
  unfold push
  by_cases hroom : lines.length < limit
  · have htake : lines.take limit = lines := List.take_of_length_le (by omega)
    have htake' : (lines ++ [line]).take limit = lines ++ [line] := List.take_of_length_le (by omega)
    have hless : ¬ limit < lines.length ∧ ¬ limit < lines.length + 1 := by omega
    rw [if_pos (by omega)]
    simp only [keeping, htake, htake', hlength, hless, List.push_toArray]
  · have htake : (lines ++ [line]).take limit = lines.take limit := List.take_append_of_le_length (by omega)
    have hmore : limit < lines.length + 1 := by omega
    rw [if_neg (by omega)]
    simp only [keeping, htake, hlength, hmore, decide_true]

theorem foldl_push (limit : Nat) (lines : List String) : lines.foldl (push limit) {} = keeping limit lines := by
  induction lines using List.reverseRecOn with
  | nil => simp [keeping]
  | append_singleton lines line ih => rw [List.foldl_concat, ih, push_keeping]

theorem shown_keeping (limit : Nat) (lines : List String) :
    (keeping limit lines).shown limit = lines.take limit ++ if limit < lines.length then [notice limit] else [] := by
  simp [shown, keeping]

/-- The buffer without lines. -/
def clear (o : Output) : Output := { o with lines := #[], truncated := false }

@[simp] theorem clear_eq (o : Output) : o.clear = {} := rfl

end Output

/-- The evaluation has the first of the lines, up to the limit, and a notice exactly if there are more. -/
structure Evaluation.Captures (ev : Evaluation) (limit : Nat) (lines : List String) : Prop where
  output : ev.output = lines.take limit ++ if limit < lines.length then [Output.notice limit] else []
  truncated : ev.truncated = true ↔ limit < lines.length

namespace Evaluation

variable {guard : Guard} {limit : Nat} {lines : List String}

theorem failed_captures (hlimit : guard.limits.outputLines = limit) (error : String) :
    (failed guard (.keeping limit lines) error).Captures limit lines := by
  subst hlimit
  have houtput := Output.shown_keeping guard.limits.outputLines lines
  unfold failed
  rcases guard.verdict with _ | _ | _ | _ <;> exact ⟨houtput, decide_eq_true_iff⟩

theorem ofResult_captures (hlimit : guard.limits.outputLines = limit) (result : Except HostFailure (List Datum)) :
    (ofResult guard (.keeping limit lines) result).Captures limit lines := by
  cases result with
  | ok ds => exact ⟨hlimit ▸ Output.shown_keeping _ lines, decide_eq_true_iff⟩
  | error f => exact failed_captures hlimit f.message

end Evaluation

/-! ## Runs -/

namespace Run

variable {σ : Type} {e : Engine σ} {r r' : Run σ} {looks : List (Option StopReason)} {lines : List String}
  {result : Except HostFailure (List Datum)}

/-- A run goes on to its end and prints the lines on the way. When the guard looks, any time may have passed, and the
token may have been set or not. -/
inductive Prints (e : Engine σ) : Run σ → List String → Except HostFailure (List Datum) → Run σ → Prop where
  | finished {r : Run σ} {result : Except HostFailure (List Datum)}
      (standing : e.standing (r.advanced e).state = .finished result) : Prints e r [] result (r.advanced e)
  | printed {r r' : Run σ} {line : String} {lines : List String} {result : Except HostFailure (List Datum)}
      (standing : e.standing (r.advanced e).state = .asking (.print line))
      (rest : Prints e (serve e (r.advanced e) (.print line)) lines result r') : Prints e r (line :: lines) result r'
  | asked {r r' : Run σ} {lines : List String} {result : Except HostFailure (List Datum)} {q : Request}
      (standing : e.standing (r.advanced e).state = .asking q) (other : ∀ line, q ≠ .print line)
      (rest : Prints e (serve e (r.advanced e) q) lines result r') : Prints e r lines result r'
  | watched {r r' : Run σ} {lines : List String} {result : Except HostFailure (List Datum)} (cancel : Bool)
      (elapsed : Nat) (standing : e.standing (r.advanced e).state = .running)
      (rest : Prints e (looked e cancel elapsed (r.advanced e)) lines result r') : Prints e r lines result r'

/-- In every way in which a run can go on, it prints some lines. -/
theorem Unfolds.exists_prints (h : Unfolds e r looks result r') : ∃ lines, Prints e r lines result r' := by
  induction h with
  | finished standing => exact ⟨[], .finished standing⟩
  | @asked _ _ _ _ q standing _ ih =>
    obtain ⟨lines, hrest⟩ := ih
    cases q with
    | print line => exact ⟨line :: lines, .printed standing hrest⟩
    | get name m => exact ⟨lines, .asked standing nofun hrest⟩
    | set name m d => exact ⟨lines, .asked standing nofun hrest⟩
    | call name m args => exact ⟨lines, .asked standing nofun hrest⟩
  | watched cancel elapsed standing _ ih =>
    obtain ⟨lines, hrest⟩ := ih
    exact ⟨lines, .watched cancel elapsed standing hrest⟩

theorem output_serve_of_ne {q : Request} (h : ∀ line, q ≠ .print line) : (serve e r q).output = r.output := by
  cases q with
  | print line => exact absurd rfl (h line)
  | _ => rfl

theorem limits_looked (cancel : Bool) (elapsed : Nat) : (looked e cancel elapsed r).guard.limits = r.guard.limits :=
  Guard.limits_look _ _

/-- Every line that is printed goes into the buffer, under the limit of the run. -/
theorem Prints.output (h : Prints e r lines result r') :
    r'.output = lines.foldl (Output.push r.guard.limits.outputLines) r.output ∧ r'.guard.limits = r.guard.limits := by
  induction h with
  | finished => exact ⟨rfl, rfl⟩
  | printed _ _ ih => exact ih
  | asked _ other _ ih => rwa [output_serve_of_ne other] at ih
  | watched cancel elapsed _ _ ih => rwa [limits_looked] at ih

end Run

/-! ## Consoles -/

/-- A session with the buffer that its executions print into. -/
structure Console where
  session : Session
  output : Output := {}

namespace Console

/-- The most lines that are kept of an execution. -/
def limit (c : Console) : Nat := c.session.limits.outputLines

def clear (c : Console) : Console := { c with output := c.output.clear }

/-- Runs a text under a name, as the session does, with what it prints in the buffer. -/
def execute (c : Console) (clock : Nat → Nat) (cancel : Bool) (name text : String) : Option (Evaluation × Console) :=
  let c := c.clear
  if isBlankText text.toList then some ({}, c)
  else
    let guard := Guard.ofLimits c.session.limits cancel
    match compileEither (bytes name) (bytes text) with
    | .error e => some (Evaluation.failed guard c.output (shownText e), c)
    | .ok chunk =>
      let ⟨⟨store, world, limits⟩, output⟩ := c
      let main := (newMain chunk).bind fun f => callWhole f []
      let run : Run Machine := { state := Machine.start store main, world, guard, output }
      match run.finish machineEngine clock Session.pauseLimit with
      | none | some (.error (.crashed _), _) => none
      | some (result, run) =>
        some (Evaluation.ofResult run.guard run.output result,
          ⟨⟨run.state.store, run.world, limits⟩, run.output⟩)

/-- Whatever the buffer holds from before, an execution is that of the session. -/
theorem execute_session (c : Console) (clock : Nat → Nat) (cancel : Bool) (name text : String) :
    (c.execute clock cancel name text).map (fun r => (r.1, r.2.session)) =
      c.session.execute clock cancel name text := by
  obtain ⟨⟨store, world, limits⟩, output⟩ := c
  simp only [execute, clear, Session.execute, Session.attempt, Output.clear_eq]
  split
  · rfl
  · cases compileEither (bytes name) (bytes text) with
    | error e => rfl
    | ok chunk =>
      dsimp only
      generalize Run.finish machineEngine clock Session.pauseLimit _ = ended
      rcases ended with _ | ⟨(_ | _ | _ | _) | _, run⟩ <;> rfl

/-- The ways in which a text can be executed, each with the lines that it prints. -/
inductive Executes (c : Console) (name text : String) : List String → Evaluation → Console → Prop where
  | blank (blank : isBlankText text.toList = true) : Executes c name text [] {} c.clear
  | refused {e : Bytes} (cancel : Bool) (notBlank : isBlankText text.toList = false)
      (compiled : compileEither (bytes name) (bytes text) = .error e) :
      Executes c name text [] (.failed (.ofLimits c.session.limits cancel) c.clear.output (shownText e)) c.clear
  | ran {chunk : Chunk} {lines : List String} {result : Except HostFailure (List Datum)} {run : Run Machine}
      (cancel : Bool) (notBlank : isBlankText text.toList = false)
      (compiled : compileEither (bytes name) (bytes text) = .ok chunk)
      (prints : Run.Prints machineEngine
        { state := Machine.start c.session.store ((newMain chunk).bind fun f => callWhole f [])
          world := c.session.world
          guard := .ofLimits c.session.limits cancel
          output := c.clear.output } lines result run) :
      Executes c name text lines (.ofResult run.guard run.output result)
        { session := { c.session with store := run.state.store, world := run.world }, output := run.output }

/-- Texts are executed one after the other, each under a name. Every one prints some lines and comes to an
evaluation. -/
inductive ExecutesAll : Console → List (String × String) → List (List String) → List Evaluation → Console → Prop where
  | nil (c : Console) : ExecutesAll c [] [] [] c
  | cons {c next c' : Console} {name text : String} {lines : List String} {ev : Evaluation}
      {chunks : List (String × String)} {printed : List (List String)} {evs : List Evaluation}
      (first : c.Executes name text lines ev next) (rest : ExecutesAll next chunks printed evs c') :
      ExecutesAll c ((name, text) :: chunks) (lines :: printed) (ev :: evs) c'

variable {c c' : Console} {name text : String} {lines : List String} {ev : Evaluation} {clock : Nat → Nat}
  {cancel : Bool} {chunks : List (String × String)} {printed : List (List String)} {evs : List Evaluation}

theorem exists_executes_of_execute (h : c.execute clock cancel name text = some (ev, c')) :
    ∃ lines, c.Executes name text lines ev c' := by
  obtain ⟨⟨store, world, limits⟩, output⟩ := c
  simp only [execute] at h
  split at h
  · next hblank =>
    obtain ⟨rfl, rfl⟩ := Prod.mk.inj (Option.some.inj h)
    exact ⟨[], .blank hblank⟩
  · next hblank =>
    rw [Bool.not_eq_true] at hblank
    split at h
    · next e hcompile =>
      obtain ⟨rfl, rfl⟩ := Prod.mk.inj (Option.some.inj h)
      exact ⟨[], .refused cancel hblank hcompile⟩
    · next chunk hcompile =>
      dsimp only [clear] at h
      split at h
      · cases h
      · cases h
      · next result run _ hfinish =>
        obtain ⟨rfl, rfl⟩ := Prod.mk.inj (Option.some.inj h)
        obtain ⟨looks, hunfolds⟩ := Run.exists_unfolds_of_finish hfinish
        obtain ⟨lines, hprints⟩ := hunfolds.exists_prints
        exact ⟨lines, .ran cancel hblank hcompile hprints⟩

/-- An evaluation has captured the lines of its own text, whatever was in the buffer before. -/
theorem Executes.captures (h : c.Executes name text lines ev c') : ev.Captures c.limit lines ∧ c'.limit = c.limit := by
  cases h with
  | blank => exact ⟨⟨by simp, by simp⟩, rfl⟩
  | refused cancel =>
    have hnothing : c.clear.output = .keeping c.limit [] := Output.foldl_push c.limit []
    rw [hnothing]
    exact ⟨Evaluation.failed_captures rfl _, rfl⟩
  | ran cancel _ _ hprints =>
    obtain ⟨houtput, hlimits⟩ := hprints.output
    rw [houtput]
    exact ⟨Output.foldl_push c.limit lines ▸ Evaluation.ofResult_captures (congrArg _ hlimits) _, rfl⟩

theorem ExecutesAll.captures (h : c.ExecutesAll chunks printed evs c') :
    List.Forall₂ (fun lines ev => ev.Captures c.limit lines) printed evs := by
  induction h with
  | nil => exact .nil
  | cons first _ ih =>
    obtain ⟨hcaptures, hlimit⟩ := first.captures
    rw [hlimit] at ih
    exact .cons hcaptures ih

end Console

/-! ## A script that prints twice and fails -/

namespace PrintedTwice

def text : String := "print('one') print('two') error()"

/-- How the function of a name is looked up. -/
def lookUp (name : String) : List Instr :=
  [.getCaptured 0, .push (.ofString name), .index (.named .upvalue (bytes "_ENV"))]

/-- How it is called. -/
def callIt (name : String) (arguments : Nat) : Instr :=
  .call arguments false (.exactly 0) (.named .global (bytes name))

/-- How a line is printed. -/
def printIt (line : String) : List Instr := lookUp "print" ++ [.push (.ofString line), callIt "print" 1]

def proto : Proto :=
  { code := (printIt "one" ++ printIt "two" ++ lookUp "error" ++ [callIt "error" 0, .result 0 false]).toArray
    lines := #[0, 0, 1, 0, 1, 0, 0, 1, 0, 1, 0, 0, 1, 1, 1]
    slots := 0
    parameters := 0
    isVariadic := true
    hasCells := false
    captures := [.slot 0] }

def chunk : Chunk := ⟨bytes "chunk", #[proto]⟩

theorem compileEither_text : compileEither (bytes "chunk") (bytes text) = .ok chunk :=
  eq_ok_of_toOption (by decide +kernel)

/-- What the run of the script is. -/
def main : Act (List Value) := (newMain chunk).bind fun f => callWhole f []

/-- The script while it runs. -/
def activation (next : Nat) (stack : List Value) : Activation :=
  { chunk, proto, next, slots := #[], cells := #[], captured := #[0], stack, varargs := [] }

/-- The machine in the script. -/
def inScript (s : Store) (next : Nat) (stack : List Value) : Machine :=
  { store := s, control := .run (activation next stack), frames := [.guard wholeResult], inner := 1 }

/-- The machine when it is asked to print. -/
def printing (s : Store) (next : Nat) (line : String) : Machine :=
  { store := s
    control := .act (.ask (.print line) fun _ => .done [])
    frames := [.library, .script (activation next []) (.exactly 0), .guard wholeResult]
    depth := 1
    inner := 1 }

/-- The store with the script. -/
def withScript (s : Store) : Store := { s with closures := s.closures.push (.script chunk proto #[0]) }

/-- The machine when the script has failed. -/
def failed (s : Store) : Machine :=
  { store := s, control := .finished (.error (.text (Operation.plainText s .nil ++ bytes HostFailure.trail))) }

theorem advance_main (s : Store) (n : Nat) :
    Machine.advance (n + 2) (Machine.start s main) = Machine.advance n (inScript (withScript s) 0 []) := by
  let m : Machine := { store := withScript s, control := .act (callWhole (.closure s.closures.size) []) }
  have hfound : (withScript s).closures[s.closures.size]? = some (.script chunk proto #[0]) := Array.getElem?_push_size
  have hcalled : m.step = inScript (withScript s) 0 [] := by
    show (m.pushFrame (.guard wholeResult)).enter (.closure s.closures.size) .unknown [] = _
    simp only [Machine.enter, Machine.pushFrame, m, hfound]
    rfl
  show Machine.advance (n + 1) m = _
  rw [Machine.advance_succ rfl, hcalled]

variable {s : Store}

/-- The script finds the functions it calls. -/
structure Finds (s : Store) : Prop where
  environment : s.cell 0 = .table 0
  print : (s.table 0).getText (bytes "print") = .builtin .print
  error : (s.table 0).getText (bytes "error") = .builtin .error

theorem Finds.withScript (h : Finds s) : Finds (withScript s) := ⟨h.environment, h.print, h.error⟩

/-- Only the lookup of a name does not compute. -/
theorem advance_lookUp {name : String} {b : Builtin} (hcell : s.cell 0 = .table 0)
    (hfound : (s.table 0).getText (bytes name) = .builtin b) {next : Nat}
    (hcode : ∀ i (h : i < 3), proto.code[next + i]? = some ((lookUp name)[i])) (n : Nat) :
    Machine.advance (n + 3) (inScript s next []) = Machine.advance n (inScript s (next + 3) [.builtin b]) := by
  have hget : (inScript s next []).step = inScript s (next + 1) [.table 0] := by
    have hinstr : proto.code[next]? = some (.getCaptured 0) := hcode 0 (by decide)
    simp only [Machine.step, inScript, activation, hinstr]
    show inScript s (next + 1) [s.cell 0] = _
    rw [hcell]
    rfl
  have hpush : (inScript s (next + 1) [.table 0]).step = inScript s (next + 2) [.ofString name, .table 0] := by
    have hinstr : proto.code[next + 1]? = some (.push (.ofString name)) := hcode 1 (by decide)
    simp only [Machine.step, inScript, activation, hinstr]
    rfl
  have hindex : (inScript s (next + 2) [.ofString name, .table 0]).step = inScript s (next + 3) [.builtin b] := by
    have hinstr : proto.code[next + 2]? = some (.index (.named .upvalue (bytes "_ENV"))) := hcode 2 (by decide)
    have hplain : Machine.plainIndex? s (.table 0) (.ofString name) = some (.builtin b) := by
      simp only [Value.ofString, Machine.plainIndex?, hfound]
    simp only [Machine.step, inScript, activation, hinstr, Machine.execute, Machine.operands, hplain]
    rfl
  rw [Machine.advance_succ rfl, hget, Machine.advance_succ rfl, hpush, Machine.advance_succ rfl, hindex]

/-- The script calls `print` with a line. -/
theorem advance_print (h : Finds s) {next : Nat} {line : String} (hnext : (next, line) ∈ [(0, "one"), (5, "two")])
    (n : Nat) : Machine.advance (n + 6) (inScript s next []) = Machine.advance n (printing s (next + 5) line) := by
  have hcode : ∀ i (h : i < 3), proto.code[next + i]? = some ((lookUp "print")[i]) := by
    rcases List.mem_pair.1 hnext with heq | heq <;> cases heq <;> decide
  rw [advance_lookUp h.environment h.print hcode (n + 3)]
  rcases List.mem_pair.1 hnext with heq | heq <;> cases heq <;> rfl

theorem advance_answer (s : Store) (next : Nat) (line : String) (n : Nat) :
    Machine.advance (n + 3) ((printing s next line).answer (.ok [])) = Machine.advance n (inScript s next []) := rfl

theorem advance_error (h : Finds s) (n : Nat) : Machine.advance (n + 11) (inScript s 10 []) = (n, failed s) := by
  have hcode : ∀ i (h : i < 3), proto.code[10 + i]? = some ((lookUp "error")[i]) := by decide
  rw [advance_lookUp h.environment h.error hcode (n + 8), ← Machine.advance_of_paused (m := failed s) rfl n]
  rfl

/-- A run that goes on to a call of `print` prints the line. -/
theorem prints_printing {r r' : Run Machine} {ahead next : Nat} {line : String} {lines : List String}
    {result : Except HostFailure (List Datum)}
    (hadvance : Machine.advance r.ahead r.state = (ahead, printing s next line))
    (rest : Run.Prints machineEngine
      { r with
        state := (printing s next line).answer (.ok [])
        ahead
        output := r.output.push r.guard.limits.outputLines line } lines result r') :
    Run.Prints machineEngine r (line :: lines) result r' := by
  have hadvanced : r.advanced machineEngine = { r with state := printing s next line, ahead } := by
    simp only [Run.advanced, machineEngine, hadvance]
  exact .printed (by rw [hadvanced]; rfl) (by rw [hadvanced]; exact rest)

/-- The script prints two lines and fails, and from then on its functions are found as before. -/
theorem exists_prints (h : Finds s) (world : World) (guard : Guard) (output : Output) :
    ∃ failure run, Run.Prints machineEngine { state := Machine.start s main, world, guard, output } ["one", "two"]
      (.error failure) run ∧ Finds run.state.store := by
  have h := h.withScript
  have hfirst : Machine.advance RunLimits.interval (Machine.start s main) =
      (9992, printing (withScript s) 5 "one") := by
    show Machine.advance (9992 + 6 + 2) _ = _
    rw [advance_main, advance_print h (List.mem_pair.2 (.inl rfl)), Machine.advance_of_paused rfl]
  have hsecond : Machine.advance 9992 ((printing (withScript s) 5 "one").answer (.ok [])) =
      (9983, printing (withScript s) 10 "two") := by
    show Machine.advance (9983 + 6 + 3) _ = _
    rw [advance_answer, advance_print h (List.mem_pair.2 (.inr rfl)), Machine.advance_of_paused rfl]
  have hlast : Machine.advance 9983 ((printing (withScript s) 10 "two").answer (.ok [])) =
      (9969, failed (withScript s)) := by
    show Machine.advance (9969 + 11 + 3) _ = _
    rw [advance_answer, advance_error h]
  let failure := failureOf (.text (Operation.plainText (withScript s) .nil ++ bytes HostFailure.trail))
  refine ⟨failure, _, prints_printing hfirst (prints_printing hsecond (.finished ?_)), ?_⟩
  · simp only [Run.advanced, machineEngine, hlast]
    rfl
  · simp only [Run.advanced, machineEngine, hlast]
    exact h

/-- On every console on which it finds the functions that it calls, the script prints two lines and fails. -/
theorem exists_executes {c : Console} (h : Finds c.session.store) :
    ∃ ev c', c.Executes "chunk" text ["one", "two"] ev c' ∧ ev.succeeded = false ∧ Finds c'.session.store := by
  obtain ⟨failure, run, hprints, hfinds⟩ :=
    exists_prints h c.session.world (.ofLimits c.session.limits false) c.clear.output
  exact ⟨_, _, .ran false (by decide) compileEither_text hprints, Evaluation.succeeded_failed, hfinds⟩

theorem finds_plain (world : World) (limits : RunLimits) : Finds (Session.plain world limits).store :=
  ⟨rfl, Library.getText_globals default (by decide), Library.getText_globals default (by decide)⟩

end PrintedTwice

namespace Console

/-! ## What evaluations have captured -/

/-- An execution on a console is one of the session, whatever its buffer holds, and it prints some lines. Of texts that
are executed one after the other, whatever they print and whether they go well or fail, each evaluation has the first of
the lines that its own text has printed, up to the limit, and behind them one notice exactly if there were more; that is
when it is marked as truncated. -/
theorem evaluations_capture (c : Console) :
    (∀ clock cancel name text,
      (c.execute clock cancel name text).map (fun r => (r.1, r.2.session)) =
          c.session.execute clock cancel name text ∧
        ∀ ev c', c.execute clock cancel name text = some (ev, c') → ∃ lines, c.Executes name text lines ev c') ∧
      ∀ chunks printed evs c', c.ExecutesAll chunks printed evs c' →
        List.Forall₂ (fun lines ev => ev.Captures c.session.limits.outputLines lines) printed evs :=
  ⟨fun clock cancel name text => ⟨c.execute_session clock cancel name text, fun _ _ => exists_executes_of_execute⟩,
    fun _ _ _ _ => ExecutesAll.captures⟩

/-- A script that prints two lines and fails is executed twice under a limit of one line: both evaluations have one
line of their own and the notice. -/
theorem evaluations_capture_failing_twice :
    let c : Console := { session := .plain { now := default } { outputLines := 1 } }
    let chunk := ("chunk", PrintedTwice.text)
    let printed := ["one", "two"]
    ∃ first second c', c.ExecutesAll [chunk, chunk] [printed, printed] [first, second] c' ∧
      ∀ ev ∈ [first, second], ev.succeeded = false ∧ ev.truncated = true ∧ ev.output = ["one", Output.notice 1] := by
  intro c chunk printed
  obtain ⟨first, next, hfirst, hfailed, hfinds⟩ := PrintedTwice.exists_executes (c := c) (PrintedTwice.finds_plain _ _)
  obtain ⟨second, c', hsecond, hfailed', -⟩ := PrintedTwice.exists_executes hfinds
  have hall : c.ExecutesAll [chunk, chunk] [printed, printed] [first, second] c' :=
    .cons hfirst (.cons hsecond (.nil c'))
  have hcaptures := (evaluations_capture c).2 _ _ _ _ hall
  obtain _ | ⟨hcaptured, _ | ⟨hcaptured', -⟩⟩ := hcaptures
  have hone {ev : Evaluation} (hcaptured : ev.Captures 1 printed) :
      ev.truncated = true ∧ ev.output = ["one", Output.notice 1] :=
    ⟨hcaptured.truncated.2 (by decide), hcaptured.output⟩
  refine ⟨first, second, c', hall, fun ev hev => ?_⟩
  rcases List.mem_pair.1 hev with rfl | rfl
  · exact ⟨hfailed, hone hcaptured⟩
  · exact ⟨hfailed', hone hcaptured'⟩

end Console

end Scriptorium.Script
