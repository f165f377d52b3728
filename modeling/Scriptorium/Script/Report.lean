import Scriptorium.Calendar.Date
import Scriptorium.Json.Value
import Scriptorium.Script.Supervision

/-!
# Reports of runs

What a run of a script has come to, and why a script was not run or failed.
-/

namespace Scriptorium.Script

structure RunReport where
  run : Nat
  script : String
  digest : String
  startedAt : Calendar.Moment
  finishedAt : Calendar.Moment
  evaluation : Evaluation
  deriving DecidableEq, Repr, Inhabited

namespace RunReport

def succeeded (r : RunReport) : Bool := r.evaluation.succeeded

def statusLabel (r : RunReport) : String := if r.succeeded then "succeeded" else "failed"

/-- Was the run stopped from outside? -/
def stopped (r : RunReport) : Bool :=
  r.evaluation.cancelled || r.evaluation.timedOut || r.evaluation.outOfInstructions

def toJson (r : RunReport) : Json :=
  let e := r.evaluation
  .obj
    [("run_id", .int r.run), ("script_name", .str r.script), ("script_hash", .str r.digest),
     ("status", .str r.statusLabel), ("output", .arr (e.output.map .str)),
     ("returned", Json.ofOption .str e.returned?), ("error", Json.ofOption .str e.error?),
     ("started_at", .str r.startedAt.isoText), ("finished_at", .str r.finishedAt.isoText),
     ("output_truncated", .bool e.truncated), ("cancelled", .bool e.cancelled),
     ("timed_out", .bool e.timedOut), ("instruction_limit_exceeded", .bool e.outOfInstructions)]

end RunReport

inductive ScriptError where
  /-- The script ended with an error that nothing in it caught. -/
  | failed (message : String) (report : RunReport)
  /-- Another run holds the document, and waiting is not wanted. -/
  | busy (script : String)
  | notFound (script : String) (searched : List String)
  | setup (text : String)
  | workerLost (script : String)
  deriving DecidableEq, Repr, Inhabited

namespace ScriptError

def message : ScriptError → String
  | .failed text report => "script '" ++ report.script ++ "' failed: runtime error: " ++ text
  | .busy script =>
    "script '" ++ script ++ "' rejected: another script is running on this document"
  | .notFound script searched =>
    "script '" ++ script ++ "' not found (searched: " ++ ", ".intercalate searched ++ ")"
  | .setup text => "script setup failed: " ++ text
  | .workerLost script => "script '" ++ script ++ "' worker exited without a result"

/-- The report of a run that failed. -/
def report? : ScriptError → Option RunReport
  | .failed _ report => some report
  | _ => none

end ScriptError

/-- What comes of starting a script. -/
abbrev RunOutcome := Except ScriptError RunReport

end Scriptorium.Script
