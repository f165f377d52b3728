import Scriptorium.Script.Limits
import Scriptorium.Script.Act
import Scriptorium.Host.Object

/-!
# Supervised runs

A run goes on in intervals of instructions. After each interval the guard looks whether the run was cancelled, has
taken too long or has used up its instructions; if so it raises an error in the run, which a script can catch.
What a run prints is kept up to a number of lines. What it asks of the host is answered in between.

All this needs to know little about what runs: `Engine` is what it needs.
-/

namespace Scriptorium.Script

/-! ## What a run prints -/

structure Output where
  lines : Array String := #[]
  truncated : Bool := false
  deriving DecidableEq, Repr, Inhabited

namespace Output

/-- Keeps a line if there is room for it. -/
def push (limit : Nat) (o : Output) (line : String) : Output :=
  if o.lines.size < limit then { o with lines := o.lines.push line } else { o with truncated := true }

/-- The line that ends output that is not complete. -/
def notice (limit : Nat) : String :=
  "... output truncated (" ++ toString limit ++ " line limit)"

/-- The lines, with a notice at the end if some are missing. -/
def shown (limit : Nat) (o : Output) : List String :=
  o.lines.toList ++ if o.truncated then [notice limit] else []

end Output

/-! ## The guard -/

inductive StopReason where
  | cancelled
  | timedOut
  | outOfInstructions
  deriving DecidableEq, Repr, Inhabited

/-- The text of a run that was cancelled. -/
def cancelledText : String := "execution cancelled"

def StopReason.message (limits : RunLimits) : StopReason → String
  | .cancelled => cancelledText
  | .timedOut => "execution timeout (" ++ toString limits.timeoutSecs ++ "s limit)"
  | .outOfInstructions =>
    "instruction limit exceeded (" ++ toString limits.instructions.toInt ++ " instructions)"

structure Guard where
  limits : RunLimits
  /-- Was the run cancelled from outside? -/
  cancel : Bool := false
  /-- The instructions that are left; the count wraps around. -/
  left : Int64
  sawCancel : Bool := false
  sawTimeout : Bool := false
  deriving DecidableEq, Repr, Inhabited

namespace Guard

def ofLimits (limits : RunLimits) (cancel : Bool) : Guard :=
  { limits, cancel, left := limits.instructions }

/-- Looks at the run after an interval, so many milliseconds after its start. -/
def look (g : Guard) (elapsed : Nat) : Option StopReason × Guard :=
  if g.cancel then (some .cancelled, { g with sawCancel := true })
  else if g.limits.timeoutMillis < elapsed then (some .timedOut, { g with sawTimeout := true })
  else
    let after := { g with left := g.left - Int64.ofNat RunLimits.interval }
    (if g.left ≤ 0 then some .outOfInstructions else none, after)

/-- What a run that failed is said to have been stopped by. -/
def verdict (g : Guard) : Option StopReason :=
  if g.sawCancel then some .cancelled
  else if g.sawTimeout then some .timedOut
  else if g.left ≤ 0 then some .outOfInstructions
  else none

end Guard

/-! ## Engines -/

/-- How an engine stands. -/
inductive Standing where
  | running
  | asking (r : Request)
  | finished (r : Except HostFailure (List Datum))

/-- Something that runs scripts: it advances by a number of instructions, stopping early when it asks the host
something or has finished; it takes answers, and errors from outside. -/
structure Engine (σ : Type) where
  advance : Nat → σ → Nat × σ
  standing : σ → Standing
  answer : σ → Reply → σ
  interrupt : σ → HostFailure → σ

/-- A run and all that it changes. -/
structure Run (σ : Type) where
  state : σ
  world : World
  guard : Guard
  output : Output := {}
  /-- The instructions up to the next look of the guard. -/
  ahead : Nat := RunLimits.interval
  /-- How often the guard has looked. -/
  looks : Nat := 0

/-- Answers a request of a script. -/
def hostReply (w : World) : Request → Reply × World
  | .print _ => (.ok [], w)
  | .get name m => ((HostObject.get w name m).map fun d => [d], w)
  | .set name m d =>
    let (r, w) := HostObject.set w name m d
    (r.map fun _ => [], w)
  | .call name m args => HostObject.call w name m args

namespace Run

variable {σ : Type}

/-- Answers what the engine asks; what it prints is kept. -/
def serve (e : Engine σ) (r : Run σ) (request : Request) : Run σ :=
  let output := match request with
    | .print line => r.output.push r.guard.limits.outputLines line
    | _ => r.output
  let (reply, world) := hostReply r.world request
  { r with state := e.answer r.state reply, world, output }

/-- The guard looks at the run, at the time that the clock gives for this look, and may raise an error in it. -/
def watch (e : Engine σ) (clock : Nat → Nat) (r : Run σ) : Run σ :=
  let (stop?, guard) := r.guard.look (clock r.looks)
  let state := match stop? with
    | some reason => e.interrupt r.state (.runtime (reason.message guard.limits))
    | none => r.state
  { r with state, guard, ahead := RunLimits.interval, looks := r.looks + 1 }

/-- Goes on until the run has finished; nothing if it has not after so many pauses. -/
def finish (e : Engine σ) (clock : Nat → Nat) :
    Nat → Run σ → Option (Except HostFailure (List Datum) × Run σ)
  | 0, _ => none
  | fuel + 1, ⟨state, world, guard, output, ahead, looks⟩ =>
    let (ahead, state) := e.advance ahead state
    match e.standing state with
    | .finished result => some (result, ⟨state, world, guard, output, ahead, looks⟩)
    | .asking request => finish e clock fuel (serve e ⟨state, world, guard, output, ahead, looks⟩ request)
    | .running => finish e clock fuel (watch e clock ⟨state, world, guard, output, ahead, looks⟩)

end Run

/-! ## Results -/

/-- What a run of a script has come to. -/
structure Evaluation where
  output : List String := []
  returned? : Option String := none
  error? : Option String := none
  truncated : Bool := false
  cancelled : Bool := false
  timedOut : Bool := false
  outOfInstructions : Bool := false
  deriving DecidableEq, Repr, Inhabited

namespace Evaluation

def succeeded (e : Evaluation) : Bool := e.error?.isNone

/-- The values that a script gives back, as text; nothing if none of them says anything. -/
def returnedText? (ds : List Datum) : Option String :=
  if ds.all fun d => d matches .nil then none else some (", ".intercalate (ds.map Datum.shown))

/-- The evaluation of a run that ended with an error. -/
def failed (guard : Guard) (output : Output) (error : String) : Evaluation :=
  let limit := guard.limits.outputLines
  let base : Evaluation :=
    { output := output.shown limit, error? := some error, truncated := output.truncated }
  match guard.verdict with
  | some .cancelled => { base with cancelled := true, error? := some cancelledText }
  | some .timedOut => { base with timedOut := true }
  | some .outOfInstructions => { base with outOfInstructions := true }
  | none => base

/-- The evaluation of a run that has finished. -/
def ofResult (guard : Guard) (output : Output) : Except HostFailure (List Datum) → Evaluation
  | .ok ds =>
    { output := output.shown guard.limits.outputLines, returned? := returnedText? ds,
      truncated := output.truncated }
  | .error f => failed guard output f.message

end Evaluation

end Scriptorium.Script
