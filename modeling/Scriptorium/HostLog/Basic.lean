import Scriptorium.Disk.Basic
import Scriptorium.Calendar.Date

/-!
# The host log

The log keeps the last entries in memory and, when it has a directory, appends each entry to the file of
its day. Failing to write there never fails the caller. Opening a log with a directory removes the daily
files that are older than the retention.
-/

namespace Scriptorium

open Calendar

inductive LogLevel where
  | debug
  | info
  | warn
  | error
  deriving DecidableEq, Repr, Inhabited

def LogLevel.label : LogLevel → String
  | .debug => "DEBUG"
  | .info => "INFO"
  | .warn => "WARN"
  | .error => "ERROR"

structure LogEntry where
  moment : Moment
  level : LogLevel
  message : String
  deriving DecidableEq, Repr, Inhabited

/-- The line of an entry. -/
def LogEntry.line (e : LogEntry) : String :=
  "[" ++ e.moment.textMillis ++ "] [" ++ e.level.label ++ "] " ++ e.message

structure HostLog where
  entries : Array LogEntry := #[]
  /-- The directory of the daily files. -/
  directory? : Option String := none
  deriving DecidableEq, Repr, Inhabited

namespace HostLog

/-- The number of entries kept in memory. -/
def capacity : Nat := 10000

/-- The name of the daily file of a date. -/
def fileName (d : Date) : String := "host_" ++ stamp d ++ ".log"

/-- The path of the daily file of a date. -/
def dailyPath (dir : String) (d : Date) : String := Path.join dir (fileName d)

/-- The disk after an entry was written to the file of its day, if that can be done. -/
def writeThrough (log : HostLog) (e : LogEntry) (disk : Disk) : Disk :=
  match log.directory? with
  | none => disk
  | some dir =>
    match disk.append (dailyPath dir e.moment.date) (e.line ++ "\n").toUTF8 with
    | .ok disk => disk
    | .error _ => disk

/-- Keeps an entry in memory; the oldest one makes room. -/
def keep (log : HostLog) (e : LogEntry) : HostLog :=
  let kept := if capacity ≤ log.entries.size then log.entries.extract 1 log.entries.size else log.entries
  { log with entries := kept.push e }

/-- Appends an entry. -/
def append (log : HostLog) (disk : Disk) (now : Moment) (level : LogLevel) (message : String) :
    HostLog × Disk :=
  let e : LogEntry := ⟨now, level, message⟩
  (log.keep e, log.writeThrough e disk)

/-- Is there an entry of the level with the needle in its message? -/
def contains (log : HostLog) (level : LogLevel) (needle : String) : Bool :=
  log.entries.any fun e => e.level == level && Text.contains e.message.toList needle.toList

/-- Forgets the entries in memory; the daily files stay. -/
def clear (log : HostLog) : HostLog := { log with entries := #[] }

/-! ## Daily files -/

/-- The text between `host_` and `.log` in a file name. -/
def stampOf? (name : String) : Option (List Char) :=
  let front := "host_".toList
  let back := ".log".toList
  let cs := name.toList
  if front.isPrefixOf cs && back.isSuffixOf (cs.drop front.length) then
    some ((cs.drop front.length).take (cs.length - front.length - back.length))
  else none

/-- Is it the name of a daily file dated before the day? -/
def isExpired (limit : Int) (name : String) : Bool :=
  match (stampOf? name).bind readStamp? with
  | some date => date.serial < limit
  | none => false

inductive OpenError where
  | disk (e : DiskError)
  /-- The retention reaches back before the first day of the calendar. There is no such day, and the program
  ends. -/
  | beyondCalendar
  deriving DecidableEq, Repr

/-- Removes the files of a directory that expired before the day. -/
def removeExpired (dir : String) (limit : Int) (disk : Disk) : Disk :=
  match disk.list dir with
  | .error _ => disk
  | .ok names =>
    (names.filter fun (name, _) => isExpired limit name).foldl (fun disk (name, _) =>
      match disk.remove (Path.join dir name) with
      | .ok disk => disk
      | .error _ => disk) disk

/-- Opens a log with daily files: makes the directory and removes the files older than the retention. -/
def openIn (dir : String) (retentionDays : Nat) (today : Date) (disk : Disk) :
    Except OpenError HostLog × Disk :=
  match disk.makeDirectories dir with
  | (.error e, disk) => (.error (.disk e), disk)
  | (.ok (), disk) =>
    match today.daysBefore? retentionDays with
    | none => (.error .beyondCalendar, disk)
    | some limit => (.ok { directory? := some dir }, removeExpired dir limit disk)

end HostLog

/-! ## The journal -/

/-- The host log together with the disk it is written to and the present time: all that logging an entry changes or
needs. -/
structure Journal where
  log : HostLog := {}
  disk : Disk := {}
  now : Calendar.Moment
  deriving Inhabited

/-- Logs a message. -/
def Journal.write (j : Journal) (level : LogLevel) (message : String) : Journal :=
  let (log, disk) := j.log.append j.disk j.now level message
  { j with log, disk }

end Scriptorium
