import Scriptorium.Settings.Basic
import Scriptorium.Json.Reader
import Scriptorium.Json.Writer
import Scriptorium.Json.Record
import Scriptorium.Text.Newline
import Scriptorium.Text.Blank

/-!
# Settings as text

Settings are written as a JSON object. Reading allows lines of comments, which begin with two slashes, and
takes the default for every setting that the text does not name.
-/

namespace Scriptorium

open Json

/-- The fields of the assistant's settings. -/
def AssistSettings.fields : List (RecordField AssistSettings) :=
  [.of "provider" (·.provider) (fun a s => { s with provider := a })
      (asChoice? Provider.named) (.str ·.label),
   .of "model" (·.model) (fun a s => { s with model := a }) asString? .str,
   .of "privacy_mode" (·.privacyMode) (fun a s => { s with privacyMode := a }) asBool? .bool,
   .of "endpoint" (·.endpoint?) (fun a s => { s with endpoint? := a })
      (asOption? asString?) (ofOption .str),
   .of "request_timeout_secs" (·.requestTimeoutSecs) (fun a s => { s with requestTimeoutSecs := a })
      asUInt64? (.int ·.toNat)]

namespace Settings

/-- The fields of the settings. -/
def fields : List (RecordField Settings) :=
  [.of "scripting.timeoutSecs" (·.timeoutSecs) (fun a s => { s with timeoutSecs := a })
      asUInt64? (.int ·.toNat),
   .of "scripting.instructionLimit" (·.instructionLimit)
      (fun a s => { s with instructionLimit := a }) asInt64? (.int ·.toInt),
   .of "scripting.maxOutputLines" (·.maxOutputLines) (fun a s => { s with maxOutputLines := a })
      asUInt64? (.int ·.toNat),
   .of "scripting.busyPolicy" (·.busyPolicy) (fun a s => { s with busyPolicy := a })
      (asChoice? BusyPolicy.named) (.str ·.label),
   .of "scripting.searchPaths" (·.searchPaths) (fun a s => { s with searchPaths := a })
      (asList? asString?) (fun a => .arr (a.map .str)),
   .of "scripting.disabledNamespaces" (·.disabledNamespaces)
      (fun a s => { s with disabledNamespaces := a }) (asList? asString?) (fun a => .arr (a.map .str)),
   .of "log.toFile" (·.logToFile) (fun a s => { s with logToFile := a }) asBool? .bool,
   .of "log.dir" (·.logDirectory?) (fun a s => { s with logDirectory? := a })
      (asOption? asString?) (ofOption .str),
   .of "log.retentionDays" (·.logRetentionDays) (fun a s => { s with logRetentionDays := a })
      asUInt32? (.int ·.toNat),
   .of "ai" (·.assist) (fun a s => { s with assist := a })
      (decode? AssistSettings.fields {}) (encode AssistSettings.fields)]

/-- Is the line a comment? -/
def isComment (line : List Char) : Bool := Text.startsWith (Text.trim line) ['/', '/']

/-- The text without its lines of comments. -/
def dropComments (cs : List Char) : List Char :=
  Text.join ['\n'] ((Text.lines cs).filter (!isComment ·))

/-- The settings that a value writes. -/
def ofJson? (v : Json) : Option Settings := decode? fields {} v

/-- The settings that a text without comments writes. -/
def readStrict? (cs : List Char) : Option Settings := (Json.read? cs).bind ofJson?

/-- The settings that a text writes. -/
def parse? (text : String) : Option Settings := readStrict? (dropComments text.toList)

/-- The settings as a JSON value. -/
def toJson (s : Settings) : Json := encode fields s

/-- The text that settings are saved as. -/
def render (s : Settings) : String := s.toJson.render

end Settings

end Scriptorium
