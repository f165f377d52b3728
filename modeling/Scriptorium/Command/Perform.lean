import Scriptorium.Assist.Backend
import Scriptorium.Command.Host
import Scriptorium.Delimited.Load
import Scriptorium.Editor.Completion
import Scriptorium.Script.Runner

/-!
# Performing commands

Each command turns a host and a world into texts for the two outputs and a new world; it may fail after it has
written something.
-/

namespace Scriptorium.Command

open Text Editor

/-- The version of the program. -/
def version : String := "0.3.0"

/-- What a command has written, and the world as it leaves it. -/
structure Console where
  world : World
  out : String := ""
  err : String := ""

namespace Console

def print (c : Console) (text : String) : Console := { c with out := c.out ++ text }

def printLine (c : Console) (line : String) : Console := c.print (line ++ "\n")

def noteLine (c : Console) (line : String) : Console := { c with err := c.err ++ line ++ "\n" }

/-- Several lines. -/
def printLines (c : Console) (lines : List String) : Console := lines.foldl printLine c

end Console

/-- What comes of a command: it may fail, and what it has written stays written. -/
abbrev Ending := Option Failure × Console

/-! ## Running scripts -/

/-- The document that a script is run on. A file that is not there is made when the document is saved. -/
def openDocument (path : String) (w : World) : Except Failure World :=
  if w.disk.isThere path then
    match Document.open? w.disk path with
    | .ok doc => .ok { w with desk := (w.desk.place doc).activateOpen }
    | .error e => .error ⟨.disk, e.message, none⟩
  else .ok { w with desk := (w.desk.place { path? := some path }).activateOpen }

/-- The script of a file, or the one of a name. -/
def findScript (host : Host) (w : World) (script : String) : Except Script.ScriptError Script.Source :=
  if w.disk.isFile script then Script.Source.ofFile w.disk script
  else Script.Source.find w.disk script host.registry.facts.scriptDirs

def noticeLine : Notice → String
  | .message text title => "[" ++ title ++ "] " ++ text
  | .status text => "status: " ++ text

/-- Writes what the user was told during a run. -/
def drainNotices (c : Console) : Console :=
  let world := { c.world with notices := { c.world.notices with posted := [] } }
  { c.world.notices.posted.foldl (fun c n => c.noteLine (noticeLine n)) c with world }

def showLog (c : Console) : Console :=
  c.world.log.entries.toList.foldl (fun c e => c.noteLine e.line) c

def printReport (json : Bool) (report : Script.RunReport) (c : Console) : Console :=
  if json then c.printLine report.toJson.render
  else
    let e := report.evaluation
    let c := c.printLines e.output
    let c := match e.returned? with
      | some value => c.printLine ("=> " ++ value)
      | none => c
    if e.truncated then c.noteLine "(output truncated)" else c

/-- Saves the open document. -/
def saveDocument (c : Console) : Ending :=
  match c.world.desk.saveOpen c.world.disk none with
  | (.ok desk, disk) =>
    let name := (desk.opened?.map fun (_, doc) => doc.displayName).getD ""
    (none, { c with world := { c.world with disk, desk } }.noteLine ("saved " ++ name))
  | (.error e, disk) =>
    (some ⟨.disk, e.message, none⟩, { c with world := { c.world with disk } })

/-- What is left to do after a run. -/
def finishRun (o : RunOptions) (outcome : Script.RunOutcome) (c : Console) : Ending :=
  let c := drainNotices c
  let c := if o.showLog then showLog c else c
  match outcome with
  | .error e =>
    let c := match e.report? with
      | some report => printReport o.json report c
      | none => c
    (some (.ofScriptError e), c)
  | .ok report =>
    let c := printReport o.json report c
    if o.save then saveDocument c else (none, c)

/-- The outcome of a run that gave none. -/
def lostRun (source : Script.Source) (w : World) : Script.RunOutcome × World :=
  Script.announce (.error (.workerLost source.name)) w

def performRun (host : Host) (clock : Nat → Nat) (o : RunOptions) (c : Console) : Ending :=
  let opened := match o.document? with
    | some path => openDocument path c.world
    | none => .ok c.world
  match opened with
  | .error f => (some f, c)
  | .ok w =>
    match findScript host w o.script with
    | .error e => (some (.ofScriptError e), { c with world := w })
    | .ok source =>
      let runner := Script.Runner.ofSettings host.registry host.settings
      let runner := if o.rejectBusy then { runner with busyPolicy := .reject } else runner
      let (outcome, world) := (runner.run clock false 1 source w).getD (lostRun source w)
      finishRun o outcome { c with world }

/-! ## Completion and the catalogue -/

def completionJson (c : Completion) : Json :=
  .obj <|
    [("label", .str c.label), ("kind", .str c.kind.label), ("group", .str c.group.label),
     ("rank", .int c.rank)] ++ (c.detail?.map fun detail => ("detail", Json.str detail)).toList

def completionLine (detail : Bool) (c : Completion) : String :=
  if detail then c.label ++ "\t" ++ c.kind.label ++ "\t" ++ c.detail?.getD "" else c.label

def performComplete (host : Host) (o : CompleteOptions) (c : Console) : Ending :=
  let text := o.text.toList
  let typed : Except Failure (Option (List Char)) := match o.at? with
    | none => .ok (some text)
    | some n =>
      if Text.size text < n then
        .error ⟨.usage, "--at " ++ toString n ++ " is past the end of the text (" ++
          toString (Text.size text) ++ " bytes)", none⟩
      else .ok (typedAt? text n)
  match typed with
  | .error f => (some f, c)
  | .ok none => (none, c)
  | .ok (some typed) =>
    let items := Completion.items host.registry typed
    (none, if o.json then c.printLine (Json.arr (items.map completionJson)).render
      else c.printLines (items.map (completionLine o.detail)))

/-- A text without the blanks at its end. -/
def withoutTail (text : String) : String := String.ofList (trimEnd text.toList)

def performCatalogue (host : Host) (format : Registry.CatalogueFormat) (c : Console) : Ending :=
  (none, c.printLine (withoutTail (host.registry.catalogue format)))

/-! ## Tables -/

/-- The delimiter that a text names: one ASCII character, or the tab in words. -/
def readDelimiter (text : String) : Except Failure Char :=
  match text.toList with
  | ['\\', 't'] | ['t', 'a', 'b'] => .ok '\t'
  | [c] => if c.toNat < 128 then .ok c else .error (invalid text)
  | _ => .error (invalid text)
where
  invalid (text : String) : Failure :=
    ⟨.usage, "invalid delimiter: " ++ Text.quoted text,
      some "use a single ASCII character or \\t"⟩

/-- The table in a file, with the delimiter given or the likely one. -/
def readTable (w : World) (o : TableOptions) : Except Failure Table :=
  let general (e : TableError) : Failure := ⟨.general, e.message, none⟩
  if !w.disk.isThere o.file then .error ⟨.disk, "file not found: " ++ o.file, none⟩
  else
    match o.delimiter? with
    | none => (Delimited.loadFile w.disk o.file none).1.mapError general
    | some text => do
      let d ← readDelimiter text
      let cs ← (Delimited.readFile w.disk o.file).mapError fun e => ⟨.disk, e.message, none⟩
      (Delimited.load d cs).1.mapError general

def cellJson : Cell → Json
  | .null => .null
  | .integer n => .int n.toInt
  | .float x => .float x
  | .boolean b => .bool b
  | .text s => .str s

def tableJson (t : Table) : Json :=
  Json.sorted
    [("row_count", .int t.rowCount), ("column_count", .int t.columnCount),
     ("columns", .arr (t.columns.map fun c =>
       Json.sorted [("name", .str c.name), ("type", .str c.type.label)])),
     ("rows", .arr (t.rows.map fun row => .arr (row.map cellJson)))]

/-- A text with blanks after it up to a width. -/
def filled (width : Nat) (text : String) : String :=
  text ++ String.ofList (List.replicate (width - text.length) ' ')

/-- The lines that summarize a table with its first rows. -/
def tableLines (preview : Nat) (t : Table) : List String :=
  [toString t.rowCount ++ " rows x " ++ toString t.columnCount ++ " columns"] ++
  (t.columns.map fun c => "  " ++ filled 20 c.name ++ " " ++ c.type.label) ++
  ((t.rows.take preview).map fun row => "  | " ++ " | ".intercalate (row.map Cell.shown)) ++
  if preview < t.rowCount then ["  ... " ++ toString (t.rowCount - preview) ++ " more"] else []

def performTable (o : TableOptions) (c : Console) : Ending :=
  match readTable c.world o with
  | .error f => (some f, c)
  | .ok t =>
    let t := if o.process then t.process else t
    let (written, disk) := match o.output? with
      | some path => Delimited.saveFile c.world.disk path Delimited.comma t
      | none => (.ok (), c.world.disk)
    let c := { c with world := { c.world with disk } }
    match written with
    | .error e => (some ⟨.disk, e.message, none⟩, c)
    | .ok () =>
      (none, if o.json then c.printLine (tableJson t).render
        else c.printLines (tableLines o.preview t))

/-! ## Suggestions -/

/-- The action that the options ask for. -/
def actionOf (o : SuggestOptions) : Except Failure Assist.Action :=
  match Assist.Action.ofName? o.action o.error? with
  | some (.fix error?) => .ok (.fix error?)
  | some action =>
    if o.error?.isSome then .error ⟨.usage, "--error only applies to \x60fix\x60", none⟩
    else .ok action
  | none => .error ⟨.usage, "unknown action", none⟩

/-- The text that is selected. -/
def selectionOf (w : World) (o : SuggestOptions) : Except Failure String :=
  match o.selection? with
  | none => .ok ""
  | some path => (w.disk.readText path).mapError fun e => ⟨.disk, path ++ ": " ++ e.message, none⟩

/-- The editor with the selected text: the cursor at its end, or all of it selected. -/
def bufferFor (action : Assist.Action) (text : String) : Buffer :=
  let b := Buffer.ofText 1 text.toList
  match action with
  | .suggest => b
  | _ => b.perform (.select ⟨0, b.length⟩)

/-- Why there is nothing to show. -/
def noSuggestion (e : Assist.Engine) : Failure :=
  match e.lastOutcome? with
  | some (.failed _ error) => .ofSuggestionError error
  | some (.accepted _) => ⟨.general, "suggestion ended without a result (accepted)", none⟩
  | some (.cancelled _) => ⟨.general, "suggestion ended without a result (cancelled)", none⟩
  | none => ⟨.general, "suggestion ended without a result (idle)", none⟩

def performSuggest (host : Host) (client : Assist.HttpClient) (env : Environment)
    (o : SuggestOptions) (c : Console) : Ending :=
  let config := AssistConfig.resolve host.settings.assist env
  let prepared : Except Failure (Assist.Action × Buffer × Assist.Backend) := do
    let action ← actionOf o
    let text ← selectionOf c.world o
    let backend ← if o.offline then .ok (Assist.templateBackend host.registry)
      else (Assist.backendOf client config host.registry).mapError Failure.ofSuggestionError
    return (action, bufferFor action text, backend)
  match prepared with
  | .error f => (some f, c)
  | .ok (action, buffer, backend) =>
    let engine : Assist.Engine := { buffer := buffer.id, timeoutMillis := 1000 * config.timeoutSecs }
    let (request, engine) := engine.trigger buffer action 0
    let dispatcher : Assist.Dispatcher := { backend }
    let (_, _, engine, journal) := (dispatcher.dispatch request).pump engine c.world.toJournal
    let c := { c with world := { c.world with toJournal := journal } }
    match engine.ghost? with
    | none => (some (noSuggestion engine), c)
    | some ghost =>
      (none,
        if o.apply then
          let (_, _, buffer) := engine.accept buffer
          let text := String.ofList buffer.text
          if buffer.text.getLast? = some '\n' then c.print text else c.printLine text
        else c.printLine (withoutTail (String.ofList ghost.text)))

/-! ## The doctor -/

/-- The name of a policy at the beginning of a line. -/
def policyTitle : BusyPolicy → String
  | .queue => "Queue"
  | .reject => "Reject"

def disabledNames (r : Registry) : List String :=
  (r.namespaces.filter fun ns => !ns.enabled).map (·.name)

def doctorJson (host : Host) (config : AssistConfig) : Json :=
  Json.sorted
    [("schema_version", .int 1), ("version", .str version),
     ("settings_path", .str host.settingsPath),
     ("script_dirs", .arr (host.registry.facts.scriptDirs.map .str)),
     ("disabled_namespaces", .arr ((disabledNames host.registry).map .str)),
     ("busy_policy", .str host.settings.busyPolicy.label),
     ("timeout_secs", .int host.settings.timeoutSecs.toNat),
     ("ai", Json.sorted
       [("provider", .str config.provider.label), ("status", .str config.status.label),
        ("model", .str config.model), ("endpoint", Json.ofOption .str config.endpoint?),
        ("privacy_mode", .bool config.privacyMode), ("key_source", .str config.keySource.label),
        ("blocking_reason", Json.ofOption .str config.blockingReason?)])]

def doctorText (host : Host) (config : AssistConfig) : String :=
  let disabled := disabledNames host.registry
  String.join ((["mhost " ++ version, "settings:     " ++ host.settingsPath,
     "script dirs:  " ++ ", ".intercalate host.registry.facts.scriptDirs] ++
    (if disabled.isEmpty then [] else ["disabled:     " ++ ", ".intercalate disabled]) ++
    ["busy policy:  " ++ policyTitle host.settings.busyPolicy,
     "timeout:      " ++ toString host.settings.timeoutSecs.toNat ++ "s", ""]).map (· ++ "\n")) ++
  config.summary

def performDoctor (host : Host) (env : Environment) (json : Bool) (c : Console) : Ending :=
  let config := AssistConfig.resolve host.settings.assist env
  (none, if json then c.printLine (doctorJson host config).render
    else c.print (doctorText host config))

/-! ## All commands -/

/-- What a command needs from outside. -/
structure Surroundings where
  environment : Environment
  client : Assist.HttpClient
  /-- The time of each look at a running script, in milliseconds after its start. -/
  clock : Nat → Nat := RunLimits.nominalClock

def perform (i : Invocation) (s : Surroundings) (w : World) : Ending :=
  match Host.load i s.environment w with
  | (.error f, world) => (some f, { world })
  | (.ok host, world) =>
    let c : Console := { world }
    match i.task with
    | .run o => performRun host s.clock o c
    | .complete o => performComplete host o c
    | .catalogue format => performCatalogue host format c
    | .table o => performTable o c
    | .suggest o => performSuggest host s.client s.environment o c
    | .doctor json => performDoctor host s.environment json c

/-! ## The program -/

/-- The short help. -/
def helpText : String :=
  String.join (["Lua macro host (headless): run scripts, inspect the API, completions and AI suggestions",
    "", "Usage: mhost [OPTIONS] <COMMAND>", "",
    "Commands: run, complete, api, table, suggest, doctor"].map (· ++ "\n"))

/-- What the program writes and the code that it exits with. -/
structure Result where
  code : ExitCode
  out : String := ""
  err : String := ""
  world : World
  /-- What is wrong with the command line, if that is why nothing was done. -/
  fault? : Option ArgumentFault := none

/-- Runs the program on its arguments. -/
def runProgram (args : List String) (s : Surroundings) (w : World) : Result :=
  match Invocation.ofArguments s.environment args with
  | .error .version => { code := .success, out := "mhost " ++ version ++ "\n", world := w }
  | .error .help => { code := .success, out := helpText, world := w }
  | .error (.fault f) =>
    { code := .usage, err := "error: " ++ f.message ++ "\n", world := w, fault? := some f }
  | .ok i =>
    match perform i s w with
    | (none, c) => { code := .success, out := c.out, err := c.err, world := c.world }
    | (some f, c) => { code := f.code, out := c.out, err := c.err ++ f.report, world := c.world }

end Scriptorium.Command
