import Scriptorium.HostLog.Policy
import Scriptorium.Script.Session
import Scriptorium.Script.Source

/-!
# Running scripts

A runner runs each script in a session of its own. A run first takes the gate of the document that is active
when it starts, and holds it to its end; if another run holds it, the script waits or is turned away. A run
of the runner's own is reported to the user, and a failure is logged.
-/

namespace Scriptorium.Script

/-! ## Gates -/

/-- What a script finds at the gate of the active document. -/
inductive Admission where
  /-- The run may start; it holds the gate of a document, if one is active. -/
  | admitted (gate? : Option Nat) (desk : Desk)
  /-- The run waits for the gate of a document. -/
  | waiting (n : Nat) (desk : Desk)
  | rejected
  deriving DecidableEq, Repr

/-- A run comes to the gate. -/
def enter (policy : BusyPolicy) (run : Nat) (d : Desk) : Admission :=
  match d.current? with
  | none => .admitted none d
  | some (n, _) =>
    match d.tryLock n run with
    | some d => .admitted (some n) d
    | none =>
      match policy with
      | .queue => .waiting n (d.await n run)
      | .reject => .rejected

/-- A run gives back the gate that it holds. -/
def leave (gate? : Option Nat) (d : Desk) : Desk :=
  match gate? with
  | some n => d.unlock n
  | none => d

/-! ## The runner -/

structure Runner where
  registry : Registry
  limits : RunLimits := {}
  busyPolicy : BusyPolicy := .queue

namespace Runner

def ofSettings (r : Registry) (s : Settings) : Runner :=
  { registry := r, limits := .ofSettings s, busyPolicy := s.busyPolicy }

/-- The script of a name, from the directories of the registry. -/
def find (r : Runner) (disk : Disk) (name : String) : Except ScriptError Source :=
  Source.find disk name r.registry.facts.scriptDirs

/-- A run that has been admitted, by its number. It is lost with its worker where the host breaks off in it. Nothing
comes back if it does not end. -/
def perform (r : Runner) (clock : Nat → Nat) (cancel : Bool) (run : Nat) (source : Source)
    (w : World) : Option (RunOutcome × World) :=
  let startedAt := w.now
  ((Session.withHost r.registry w r.limits).attempt clock cancel source.name source.body).map
    fun (result, s) =>
      match result with
      | .error _ => (.error (.workerLost source.name), s.world)
      | .ok evaluation =>
        (.ok { run, script := source.name, digest := source.digest, startedAt, finishedAt := s.world.now
               evaluation }, s.world)

/-- A run from the gate to its end. Nothing comes back if it has to wait or does not end. -/
def start (r : Runner) (clock : Nat → Nat) (cancel : Bool) (run : Nat) (source : Source)
    (w : World) : Option (RunOutcome × World) :=
  match enter r.busyPolicy run w.desk with
  | .rejected => some (.error (.busy source.name), w)
  | .waiting .. => none
  | .admitted gate? desk =>
    (r.perform clock cancel run source { w with desk }).map fun (outcome, w) =>
      (outcome, { w with desk := leave gate? w.desk })

end Runner

/-! ## What the user hears of it -/

/-- A run that failed counts as an error. -/
def settled : RunOutcome → RunOutcome
  | .ok report =>
    if report.succeeded then .ok report
    else .error (.failed (report.evaluation.error?.getD "unknown error") report)
  | .error e => .error e

/-- The status line about an outcome. -/
def statusLine : RunOutcome → String
  | .ok report => "Script '" ++ report.script ++ "' completed"
  | .error e => "Script failed: " ++ e.message

/-- The context that failures of scripts are logged in. -/
def failureContext : String := "script execution"

/-- Reports an outcome: a failure is logged, and the user gets a status line. -/
def announce (outcome : RunOutcome) (w : World) : RunOutcome × World :=
  let outcome := settled outcome
  let (outcome, log, disk) :=
    w.log.logged w.disk w.now failureContext ScriptError.message outcome
  (outcome, { w with log, disk, notices := w.notices.status (statusLine outcome) })

/-- Runs a script and reports its outcome. -/
def Runner.run (r : Runner) (clock : Nat → Nat) (cancel : Bool) (run : Nat) (source : Source)
    (w : World) : Option (RunOutcome × World) :=
  (r.start clock cancel run source w).map fun (outcome, w) => announce outcome w

end Scriptorium.Script
