import Scriptorium.Assist.Request
import Scriptorium.Command.Arguments
import Scriptorium.Environment
import Scriptorium.Registry.Catalogue

/-!
# Invocations

What the user asks for: one of six commands with its options, the settings file and further directories for
scripts. Options that all commands share may stand before the command or after it; what stands after it
counts.
-/

namespace Scriptorium.Command

structure RunOptions where
  script : String
  document? : Option String := none
  save : Bool := false
  rejectBusy : Bool := false
  showLog : Bool := false
  json : Bool := false
  deriving DecidableEq, Repr, Inhabited

structure CompleteOptions where
  text : String
  /-- The offset of the cursor in the text. -/
  at? : Option Nat := none
  detail : Bool := false
  json : Bool := false
  deriving DecidableEq, Repr, Inhabited

structure TableOptions where
  file : String
  delimiter? : Option String := none
  process : Bool := false
  output? : Option String := none
  preview : Nat := 5
  json : Bool := false
  deriving DecidableEq, Repr, Inhabited

structure SuggestOptions where
  /-- The name of the action. -/
  action : String
  selection? : Option String := none
  error? : Option String := none
  offline : Bool := false
  apply : Bool := false
  deriving DecidableEq, Repr, Inhabited

inductive Task where
  | run (o : RunOptions)
  | complete (o : CompleteOptions)
  | catalogue (format : Registry.CatalogueFormat)
  | table (o : TableOptions)
  | suggest (o : SuggestOptions)
  | doctor (json : Bool)
  deriving DecidableEq, Repr

structure Invocation where
  settings? : Option String
  scriptDirs : List String
  task : Task
  deriving DecidableEq, Repr

namespace Invocation

/-! ## Values -/

/-- A path is not empty. -/
def isPath (text : String) : Bool := !text.isEmpty

/-- A number of 64 bits, perhaps with a plus sign. -/
def readCount? (text : String) : Option Nat :=
  let digits := match text.toList with
    | '+' :: cs => cs
    | cs => cs
  if digits.isEmpty || !digits.all Char.isDigit then none
  else
    let n := digits.foldl (fun n c => 10 * n + (c.toNat - 48)) 0
    if n < UInt64.size then some n else none

def isCount (text : String) : Bool := (readCount? text).isSome

/-- The formats of the catalogue under their names. -/
def formats : List (String × Registry.CatalogueFormat) :=
  [("markdown", .markdown), ("json", .json)]

/-- The actions of the assistant under their names. -/
def actionNames : List String :=
  [Assist.Action.suggest, .optimize, .explain, .fix none].map Assist.Action.label

/-! ## Lines -/

/-- The options that all lines share. -/
def shared : List OptionSpec :=
  [{ name := "settings", takesValue := true, accepts := isPath },
   { name := "script-dir", takesValue := true, repeatable := true, accepts := isPath }]

def mainLine : LineSpec := { options := shared, wordLimit := 0, hasCommands := true }

/-- The line of each command. -/
def lineOf? (command : String) : Option LineSpec :=
  let line (wordLimit : Nat) (options : List OptionSpec) : Option LineSpec :=
    some { options := shared ++ options, wordLimit }
  match command with
  | "run" => line 1
      [{ name := "doc", takesValue := true, accepts := isPath }, { name := "save" },
       { name := "reject-busy" }, { name := "show-log" }, { name := "json" }]
  | "complete" => line 1
      [{ name := "at", takesValue := true, accepts := isCount }, { name := "detail" },
       { name := "json" }]
  | "api" => line 0
      [{ name := "format", takesValue := true, accepts := fun t => (formats.lookup t).isSome }]
  | "table" => line 1
      [{ name := "delimiter", letter? := some 'd', takesValue := true }, { name := "process" },
       { name := "output", letter? := some 'o', takesValue := true, accepts := isPath },
       { name := "preview", takesValue := true, accepts := isCount }, { name := "json" }]
  | "suggest" => line 1
      [{ name := "selection", takesValue := true, accepts := isPath },
       { name := "error", takesValue := true }, { name := "offline" }, { name := "apply" }]
  | "doctor" => line 0 [{ name := "json" }]
  | _ => none

/-! ## Commands -/

/-- The only word of a line. -/
def onlyWord (a : Arguments) (name : String) (accepts : String → Bool := fun _ => true) :
    Except Detour String :=
  match a.words with
  | [] => .error (.fault (.missingWord name))
  | word :: _ => if accepts word then .ok word else .error (.fault (.invalidValue name word))

def taskOf (command : String) (a : Arguments) : Except Detour Task := do
  let count? (name : String) : Option Nat := (a.value? name).bind readCount?
  match command with
  | "run" =>
    let script ← onlyWord a "SCRIPT"
    if a.has "save" && !a.has "doc" then throw (.fault (.missingOption "doc" "save"))
    return .run
      { script, document? := a.value? "doc", save := a.has "save", rejectBusy := a.has "reject-busy"
        showLog := a.has "show-log", json := a.has "json" }
  | "complete" =>
    return .complete
      { text := ← onlyWord a "PREFIX", at? := count? "at", detail := a.has "detail"
        json := a.has "json" }
  | "api" => return .catalogue (((a.value? "format").bind fun name => formats.lookup name).getD .markdown)
  | "table" =>
    return .table
      { file := ← onlyWord a "FILE" isPath, delimiter? := a.value? "delimiter"
        process := a.has "process", output? := a.value? "output"
        preview := (count? "preview").getD 5, json := a.has "json" }
  | "suggest" =>
    return .suggest
      { action := ← onlyWord a "ACTION" (actionNames.contains ·), selection? := a.value? "selection"
        error? := a.value? "error", offline := a.has "offline", apply := a.has "apply" }
  | "doctor" => return .doctor (a.has "json")
  | name => throw (.fault (.unknownCommand name))

/-- The variable that names the settings file when no option does. -/
def settingsVariable : String := "MACROHOST_SETTINGS"

/-- The settings file that one of the lines asks for. The variable stands in where a line names none, so it
has to be a path unless both lines name one. -/
def settingsOf (env : Environment) (outer inner : Arguments) : Except Detour (Option String) :=
  match inner.value? "settings", outer.value? "settings", env.value? settingsVariable with
  | some path, some _, _ => .ok (some path)
  | inner?, outer?, some path =>
    if isPath path then .ok (some ((inner? <|> outer?).getD path))
    else .error (.fault (.invalidValue "settings" path))
  | inner?, outer?, none => .ok (inner? <|> outer?)

/-- Help on a command, or on all of them. -/
def helpOn : List String → Detour
  | [] | ["help"] => .help
  | "help" :: name :: _ => .fault (.unknownCommand name)
  | command :: rest =>
    match lineOf? command, rest with
    | some _, [] => .help
    | some _, name :: _ => .fault (.unknownCommand name)
    | none, _ => .fault (.unknownCommand command)

/-- The invocation that the arguments are. -/
def ofArguments (env : Environment) (args : List String) : Except Detour Invocation := do
  let (outer, rest) ← Reading.readLine mainLine {} args
  match rest with
  | [] => throw (.fault .missingCommand)
  | "help" :: rest => throw (helpOn rest)
  | command :: rest =>
    match lineOf? command with
    | none => throw (.fault (.unknownCommand command))
    | some line =>
      let (inner, _) ← Reading.readLine line {} rest
      let task ← taskOf command inner
      let dirs := inner.values "script-dir"
      return {
        settings? := ← settingsOf env outer inner
        scriptDirs := if dirs.isEmpty then outer.values "script-dir" else dirs
        task }

end Invocation

end Scriptorium.Command
