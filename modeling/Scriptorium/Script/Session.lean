import Scriptorium.Script.Supervision
import Scriptorium.Script.Machine
import Scriptorium.Text.Blank

/-!
# Sessions

A session keeps the store between scripts, so that a script finds the global variables that the scripts before
it have left. A text is run as an expression if it is one, and else as a script.
-/

namespace Scriptorium.Script

open Text

/-- A text of bytes, as it is shown. -/
def shownText (b : Bytes) : String :=
  match String.fromUTF8? b with
  | some s => s
  | none => String.ofList (decodeUtf8Lossy b.toList)

/-- The failure that an error which nothing caught is. Its text is known by then. -/
def failureOf : Value → HostFailure
  | .failure f => f
  | .text b => .runtime (shownText b)
  | _ => .runtime ""

/-- The machine as an engine. -/
def machineEngine : Engine Machine where
  advance := Machine.advance
  standing m :=
    match m.outcome? with
    | some (.ok vs) => .finished (.ok (vs.map m.store.datum))
    | some (.error e) => .finished (.error (failureOf e))
    | none =>
      match m.request? with
      | some r => .asking r
      | none => .running
  answer := Machine.answer
  interrupt m f := m.interrupt (.failure f)

/-- What comes of a whole script: an error that nothing in it has caught becomes a text. -/
def wholeResult : Except Value (List Value) → Act (List Value)
  | .ok vs => .done vs
  | .error (.failure failure) => .raise (.failure failure)
  | .error e => (Operation.text e).bind fun b => .raise (.text (b ++ bytes HostFailure.trail))

/-- Calls a value as a whole script. -/
def callWhole (f : Value) (args : List Value) : Act (List Value) := .protect f args wholeResult

/-- The main function of a script. -/
def newMain (chunk : Chunk) : Act Value :=
  .newClosure (.script chunk (chunk.functions.back?.getD default) #[0])

/-- A text compiled as an expression if it is one, and else as a script. -/
def compileEither (name text : Bytes) : Except Bytes Chunk :=
  match compile name (bytes "return " ++ text) with
  | .ok chunk => .ok chunk
  | .error _ => compile name text

structure Session where
  store : Store
  world : World
  limits : RunLimits := {}
  deriving Inhabited

namespace Session

/-- How often a run can pause. -/
def pauseLimit : Nat := 0x10000000000

/-- A host object for a namespace. It hides the table that the namespace's name stood for. -/
def installObject (s : Store) (ns : Namespace) : Store :=
  let hidden? := match (s.table s.globals).getText (bytes ns.name) with
    | .table p => some p
    | _ => none
  let (v, s) := s.newObject (.space ns.name hidden?)
  s.modifyTable s.globals (·.setText (bytes ns.name) v)

/-- The namespaces that scripts can reach, and the warnings about those that nothing is behind. -/
def reachable (r : Registry) : List Namespace × List String :=
  let (bound, unbound) :=
    r.enabledNamespaces.partition fun ns => HostObject.bound.contains ns.name
  (bound, unbound.map fun ns => HostObject.unboundWarning ns.name)

/-- A session without host objects. -/
def plain (world : World) (limits : RunLimits) : Session :=
  { store := Library.initialStore default, world, limits }

/-- A session with a host object for each namespace of the registry. -/
def withHost (r : Registry) (world : World) (limits : RunLimits) : Session :=
  { store := (reachable r).1.foldl installObject (Library.initialStore r), world, limits }

/-- Runs a text under a name. There is no evaluation where the host has broken off and the text did not catch that;
there is what the host has ended with. Nothing comes back if the run does not end. -/
def attempt (s : Session) (clock : Nat → Nat) (cancel : Bool) (name text : String) :
    Option (Except String Evaluation × Session) :=
  if isBlankText text.toList then some (.ok {}, s)
  else
    let guard := Guard.ofLimits s.limits cancel
    match compileEither (bytes name) (bytes text) with
    | .error e => some (.ok (Evaluation.failed guard {} (shownText e)), s)
    | .ok chunk =>
      let ⟨store, world, limits⟩ := s
      let main := (newMain chunk).bind fun f => callWhole f []
      let run : Run Machine := { state := Machine.start store main, world, guard }
      match run.finish machineEngine clock pauseLimit with
      | none => none
      | some (result, run) =>
        let s : Session := ⟨run.state.store, run.world, limits⟩
        match result with
        | .error (.crashed text) => some (.error text, s)
        | result => some (.ok (Evaluation.ofResult run.guard run.output result), s)

/-- Runs a text under a name. Nothing comes back if the run does not end, or if the host has broken off in it. -/
def execute (s : Session) (clock : Nat → Nat) (cancel : Bool) (name text : String) :
    Option (Evaluation × Session) :=
  (s.attempt clock cancel name text).bind fun (r, s) => r.toOption.map fun evaluation => (evaluation, s)

theorem execute_eq_some_iff {s s' : Session} {clock : Nat → Nat} {cancel : Bool} {name text : String}
    {ev : Evaluation} : s.execute clock cancel name text = some (ev, s') ↔
      s.attempt clock cancel name text = some (.ok ev, s') := by
  rw [execute, Option.bind_eq_some_iff]
  constructor
  · rintro ⟨⟨e | ev, s⟩, hattempt, h⟩
    · cases h
    · cases h
      exact hattempt
  · exact fun hattempt => ⟨_, hattempt, rfl⟩

/-- Carries out an act for the host itself. Nothing comes back if it does not end. -/
def perform (s : Session) (x : Act (List Value)) :
    Option (Except HostFailure (List Value) × Session) :=
  let ⟨store, world, limits⟩ := s
  let run : Run Machine :=
    { state := Machine.start store x, world, guard := Guard.ofLimits limits false }
  match run.finish machineEngine (fun _ => 0) pauseLimit with
  | none => none
  | some (_, run) =>
    run.state.outcome?.map fun r => (r.mapError failureOf, ⟨run.state.store, run.world, limits⟩)

end Session

end Scriptorium.Script
