import Scriptorium.HostLog.Basic
import Scriptorium.Notice
import Scriptorium.Document.Desk
import Scriptorium.Text.Decoding

/-!
# The world of a script

All that a script can see of the host and change in it: the disk, the host log, the notices and the documents.
-/

namespace Scriptorium

structure World extends Journal where
  notices : NoticeBoard := {}
  desk : Desk := {}
  /-- The directory of the user's documents, if the desktop names one. -/
  documents? : Option String := none
  /-- How the host writes a time, given in seconds after the beginning of 1970, in its own time zone. Where its
  calendar does not reach there is no such text, and the host breaks off. -/
  timeText? : Int → Option String := fun t => (Calendar.Moment.ofUnixSeconds? t).map (·.text)
  deriving Inhabited

/-- Logs a message. -/
def World.note (w : World) (level : LogLevel) (message : String) : World :=
  { w with toJournal := w.toJournal.write level message }

/-- Why a host member fails in a script. -/
inductive HostFailure where
  | runtime (text : String)
  | document (e : DocumentError)
  /-- A value that cannot be taken as what is asked for. -/
  | conversion (text : String)
  /-- The host has broken off in the midst of a call. A script can catch this like any failure; if it does not, the
  run is lost. -/
  | crashed (text : String)
  deriving DecidableEq, Repr, Inhabited

namespace HostFailure

/-- The text of a failure that ends a run. -/
def message : HostFailure → String
  | .runtime text => text
  | .document e => e.message
  | .conversion text | .crashed text => text

/-- The calls that an error has left, as they follow its text. Only the outermost is told. -/
def trail : String := "\nstack traceback:\n\t[C]: in ?"

/-- The text of a failure that a script has caught: its kind, what happened and the calls it left, a line each. Where
the host has broken off there is no more than what happened. -/
def caughtText (f : HostFailure) : String :=
  match f with
  | .crashed text => text
  | .runtime text => "runtime error: " ++ text ++ trail ++ "\n"
  | f => f.message ++ trail ++ "\n"

/-- A value of a kind cannot be taken as text. -/
def notText (kind : String) : HostFailure :=
  .conversion ("error converting Lua " ++ kind ++ " to String (expected string or number)")

/-- Bytes cannot be taken as text. -/
def notUtf8 (f : Text.Utf8Fault) : HostFailure :=
  .conversion ("error converting Lua string to &str (" ++ f.message ++ ")")

end HostFailure

end Scriptorium
