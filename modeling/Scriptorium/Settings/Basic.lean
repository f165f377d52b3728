import Scriptorium.Environment

/-!
# Settings

What a user can set: limits of script runs, what happens to a second run on a document, where scripts and
log files lie, and the assistant. Numbers have the width that the settings file allows.
-/

namespace Scriptorium

/-- Who answers requests for suggestions. -/
inductive Provider where
  | none
  /-- Canned answers without a network. -/
  | template
  /-- A server of the user's own. -/
  | localServer
  | openAI
  deriving DecidableEq, Repr, Inhabited

namespace Provider

def label : Provider → String
  | .none => "none"
  | .template => "template"
  | .localServer => "local"
  | .openAI => "openai"

/-- Every provider under its name. -/
def named : List (String × Provider) :=
  [none, template, localServer, openAI].map fun p => (p.label, p)

def isEnabled (p : Provider) : Bool := p != .none

def needsKey (p : Provider) : Bool := p == .openAI

/-- The model used when the settings name none. -/
def defaultModel : Provider → String
  | .none => ""
  | .template => "template"
  | .localServer => "llama3:8b"
  | .openAI => "gpt-4o"

end Provider

/-- What a second run on a document does while the first is under way. -/
inductive BusyPolicy where
  | queue
  | reject
  deriving DecidableEq, Repr, Inhabited

namespace BusyPolicy

def label : BusyPolicy → String
  | .queue => "queue"
  | .reject => "reject"

/-- Every policy under its name. -/
def named : List (String × BusyPolicy) := [queue, reject].map fun p => (p.label, p)

end BusyPolicy

structure AssistSettings where
  provider : Provider := .none
  /-- Empty for the provider's own default. -/
  model : String := ""
  /-- Send the selection only, never the code around it. -/
  privacyMode : Bool := true
  endpoint? : Option String := none
  requestTimeoutSecs : UInt64 := 30
  deriving DecidableEq, Repr, Inhabited

namespace AssistSettings

/-- The endpoint of a local server when none is set. -/
def localEndpoint : String := "http://localhost:11434/v1"

def effectiveModel (s : AssistSettings) : String :=
  if s.model.isEmpty then s.provider.defaultModel else s.model

def effectiveEndpoint (s : AssistSettings) : String := s.endpoint?.getD localEndpoint

end AssistSettings

structure Settings where
  timeoutSecs : UInt64 := 30
  instructionLimit : Int64 := 100000000
  maxOutputLines : UInt64 := 5000
  busyPolicy : BusyPolicy := .queue
  searchPaths : List String := []
  disabledNamespaces : List String := []
  logToFile : Bool := false
  logDirectory? : Option String := none
  logRetentionDays : UInt32 := 30
  assist : AssistSettings := {}
  deriving DecidableEq, Repr, Inhabited

namespace Settings

/-- Where scripts are searched when the settings name no place. -/
def defaultScriptDirectory : String := "scripts"

/-- The directory of scripts among the user's documents. -/
def macroDirectory (documents : String) : String := Path.join (Path.join documents "macrohost") "macros"

/-- The directories searched for a script run by name. When the settings name none, the user's documents are searched
too, if there is a directory for them. -/
def effectiveScriptDirs (s : Settings) (documents? : Option String := none) : List String :=
  if s.searchPaths.isEmpty then defaultScriptDirectory :: (documents?.map macroDirectory).toList else s.searchPaths

/-- The directory of the daily log files. -/
def effectiveLogDirectory (s : Settings) (env : Environment) : String :=
  s.logDirectory?.getD (Path.join (Path.join env.dataDirectory "macrohost") "logs")

/-- The path of the settings file. -/
def path (env : Environment) : String :=
  Path.join (Path.join env.configDirectory "macrohost") "settings.json"

end Settings

end Scriptorium
