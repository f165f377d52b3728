import Scriptorium.HostLog.Basic

/-!
# What happens to a failure

A failure is always logged as an error. Where a script enters the host it is then handed on; inside a
service it is replaced by a fallback, so that the script goes on.
-/

namespace Scriptorium.HostLog

/-- The message of a failure in a context. -/
def failureMessage (context error : String) : String := context ++ ": " ++ error

/-- Logs a failure and hands it on. -/
def logged (log : HostLog) (disk : Disk) (now : Calendar.Moment) (context : String)
    (text : ε → String) (result : Except ε α) : Except ε α × HostLog × Disk :=
  match result with
  | .ok a => (.ok a, log, disk)
  | .error e => (.error e, log.append disk now .error (failureMessage context (text e)))

/-- Logs a failure and replaces it by a fallback. -/
def suppressed (log : HostLog) (disk : Disk) (now : Calendar.Moment) (context : String)
    (text : ε → String) (fallback : α) (result : Except ε α) : α × HostLog × Disk :=
  match result with
  | .ok a => (a, log, disk)
  | .error e => (fallback, log.append disk now .error (failureMessage context (text e)))

end Scriptorium.HostLog
