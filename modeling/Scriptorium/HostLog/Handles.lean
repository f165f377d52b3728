import Scriptorium.HostLog.Basic

/-!
# Handles to logs

A log is reached through handles. A copy of a handle leads to the same log, so that what is appended through one of
them is seen through all. The logs of a program share its disk. Calls reach them one at a time, each through a handle;
a call through a handle that there is not gives nothing.
-/

namespace Scriptorium

namespace HostLog

/-- What can be done to a log. -/
inductive Deed where
  | append (now : Calendar.Moment) (level : LogLevel) (message : String)
  | clear
  deriving DecidableEq, Repr

/-- The log and the disk after a deed. -/
def perform (log : HostLog) (disk : Disk) : Deed → HostLog × Disk
  | .append now level message => log.append disk now level message
  | .clear => (log.clear, disk)

end HostLog

structure Logbooks where
  logs : List HostLog
  /-- The log that each handle leads to. -/
  handles : List Nat
  disk : Disk

namespace Logbooks

inductive Call where
  | copy (h : Nat)
  | perform (h : Nat) (deed : HostLog.Deed)
  deriving DecidableEq, Repr

/-- The logs after a deed to one of them. -/
def perform (b : Logbooks) (i : Nat) (log : HostLog) (deed : HostLog.Deed) : Logbooks :=
  let (log, disk) := log.perform b.disk deed
  { b with logs := b.logs.set i log, disk }

/-- The logs after a call. -/
def step? (b : Logbooks) : Call → Option Logbooks
  | .copy h => (b.handles[h]?).map fun i => { b with handles := b.handles ++ [i] }
  | .perform h deed => (b.handles[h]?).bind fun i => (b.logs[i]?).map fun log => b.perform i log deed

/-- The logs after calls, one after the other. -/
def run? (b : Logbooks) : List Call → Option Logbooks
  | [] => some b
  | c :: cs => (b.step? c).bind (run? · cs)

/-- New logs, some of them with a directory, and a handle to each. -/
def opening (directories : List (Option String)) (disk : Disk) : Logbooks where
  logs := directories.map fun directory? => { directory? }
  handles := List.range directories.length
  disk := disk

end Logbooks

end Scriptorium
