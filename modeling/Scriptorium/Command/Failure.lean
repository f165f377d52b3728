import Scriptorium.Assist.Request
import Scriptorium.Script.Report

/-!
# Failures of commands

Every way for a command to end has an exit code: small numbers for what can happen to any command, the
tens for the assistant, the twenties for scripts, and one that a crash has. A failure has a message and
sometimes a hint what to do.
-/

namespace Scriptorium.Command

inductive ExitCode where
  | success
  | general
  | usage
  | disk
  | assistDisabled
  | keyMissing
  | requestFailed
  | requestTimedOut
  | scriptFailed
  | scriptNotFound
  | scriptBusy
  | scriptStopped
  | scriptSetup
  /-- The program ended in an operation without a result. -/
  | crashed
  deriving DecidableEq, Repr, Inhabited

def ExitCode.value : ExitCode → Nat
  | .success => 0
  | .general => 1
  | .usage => 2
  | .disk => 3
  | .assistDisabled => 10
  | .keyMissing => 11
  | .requestFailed => 12
  | .requestTimedOut => 13
  | .scriptFailed => 20
  | .scriptNotFound => 21
  | .scriptBusy => 22
  | .scriptStopped => 23
  | .scriptSetup => 24
  | .crashed => 101

structure Failure where
  code : ExitCode
  message : String
  hint? : Option String := none
  deriving DecidableEq, Repr, Inhabited

namespace Failure

def ofScriptError (e : Script.ScriptError) : Failure :=
  let code : ExitCode := match e with
    | .failed _ report => if report.stopped then .scriptStopped else .scriptFailed
    | .notFound _ _ => .scriptNotFound
    | .busy _ => .scriptBusy
    | .setup _ => .scriptSetup
    | .workerLost _ => .general
  let hint? := match e with
    | .notFound _ _ => some "pass a file path, or add --script-dir"
    | .failed _ report =>
      if report.evaluation.timedOut || report.evaluation.outOfInstructions then
        some "raise scripting.timeoutSecs / scripting.instructionLimit in settings.json"
      else none
    | _ => none
  ⟨code, e.message, hint?⟩

def ofSuggestionError (e : Assist.SuggestionError) : Failure :=
  let code : ExitCode := match e with
    | .notConfigured _ => .assistDisabled
    | .missingKey _ => .keyMissing
    | .timedOut _ => .requestTimedOut
    | .network _ | .api _ _ | .invalidResponse _ => .requestFailed
    | .dispatch _ => .general
  let hint? := match e with
    | .notConfigured _ => some "set ai.provider in settings.json, or pass --offline"
    | .missingKey variableName => some ("export " ++ variableName ++ "=<key>")
    | _ => none
  ⟨code, e.message, hint?⟩

/-- The lines that tell a failure. -/
def report (f : Failure) : String :=
  (if f.message.isEmpty then "" else "error: " ++ f.message ++ "\n") ++
    match f.hint? with
    | some hint => "hint:  " ++ hint ++ "\n"
    | none => ""

end Failure

end Scriptorium.Command
