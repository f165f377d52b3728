import Std.Time.DateTime
import Scriptorium.Command.Perform

/-!
# The program

The outer layer: it takes a picture of the files that a command can name, performs the command on the picture
and writes back what has changed. A command sees the working directory, the files that its arguments name and
the user's settings and log files. There is no network, so a chat server cannot be reached.
-/

namespace Scriptorium.Outer

/-- How deep directories are looked into. -/
def depthLimit : Nat := 32

/-- The location of an absolute path. -/
def locationOf (path : String) : Location :=
  (Disk.names path).filter fun name => name != "" && name != "."

/-- The entries at a place and below it. What cannot be read is left out. -/
partial def entriesAt (depth : Nat) (at_ : Location) : IO (List (Location × Entry)) := do
  let path := (← IO.currentDir) / Disk.pathOf at_
  try
    if ← path.isDir then
      let inside ← if depth = 0 then pure #[] else path.readDir
      let below ← inside.toList.mapM fun e => entriesAt (depth - 1) (at_ ++ [e.fileName])
      return (at_, .directory) :: below.flatten
    else if ← path.pathExists then
      return [(at_, .file (← IO.FS.readBinFile path))]
    else return []
  catch _ => return []

/-- The directories that a place lies in. -/
def above (at_ : Location) : List (Location × Entry) :=
  (List.range at_.length).map fun n => (at_.take n, .directory)

/-- When the file at a place was last written. -/
def statusAt (at_ : Location) : IO FileStatus := do
  try
    let found ← ((← IO.currentDir) / Disk.pathOf at_).metadata
    return { modified? := some found.modified.sec }
  catch _ => return {}

/-- A picture of several places, on which files are written at the given second. Read-only marks are not seen. -/
def picture (home : Location) (places : List Location) (clock : Int) : IO Disk := do
  let found ← places.mapM fun at_ => return above at_ ++ (← entriesAt depthLimit at_)
  let entries := found.flatten.filter fun (at_, _) => at_ != []
  let statuses ← (entries.filter fun (_, e) => e != .directory).mapM fun (at_, _) => return (at_, ← statusAt at_)
  return { home, entries, statuses, clock }

/-- The places that a command can name: the working directory, existing paths among its arguments, and the
user's directories. -/
def places (home : Location) (args : List String) (env : Environment) : IO (List Location) := do
  let named := args ++ (env.value? Command.Invocation.settingsVariable).toList
  let own := [env.configDirectory, env.dataDirectory].map fun dir => Path.join dir "macrohost"
  let cwd ← IO.currentDir
  let found ← (own ++ named).filterMapM fun (path : String) => do
    try
      if ← (cwd / path).pathExists then
        return some (locationOf (← IO.FS.realPath (cwd / path)).toString)
      else return none
    catch _ => return none
  return home :: found.filter fun at_ => !home.isPrefixOf at_ && at_.length > 1

/-- Writes back what differs from the picture. -/
def writeBack (before after : Disk) : IO Unit := do
  let cwd ← IO.currentDir
  for (at_, entry) in after.entries.reverse do
    if before.find? at_ != some entry then
      let path := cwd / Disk.pathOf at_
      match entry with
      | .directory => IO.FS.createDirAll path
      | .file bytes =>
        if let some parent := path.parent then IO.FS.createDirAll parent
        IO.FS.writeBinFile path bytes
  for (at_, entry) in before.entries do
    if (after.find? at_).isNone && entry != .directory then
      IO.FS.removeFile (cwd / Disk.pathOf at_)

/-- The variables that the program knows. -/
def variableNames : List String :=
  ["HOME", "XDG_CONFIG_HOME", "XDG_DATA_HOME", Command.Invocation.settingsVariable] ++
    [Provider.openAI, .localServer].map AssistConfig.keyVariable

def environment : IO Environment := do
  let found ← variableNames.filterMapM fun name => return (← IO.getEnv name).map (name, ·)
  return { assigned := found }

/-- The microseconds since the beginning of 1970 in universal time. -/
def microsNow : IO Int := do
  let t ← Std.Time.Timestamp.now
  return t.toNanosecondsSinceUnixEpoch.val / 1000

/-- A client without a network. -/
def client : Assist.HttpClient := ⟨fun _ => .failed "no network", "no network"⟩

def run (args : List String) : IO UInt32 := do
  let env ← environment
  let home := locationOf (← IO.currentDir).toString
  let micros ← microsNow
  let disk ← picture home (← places home args env) (micros / 1000000)
  let result := Command.runProgram args { environment := env, client } { now := .ofUnixMicros micros, disk }
  writeBack disk result.world.disk
  IO.print result.out
  IO.eprint result.err
  return result.code.value.toUInt32

end Scriptorium.Outer

/-- The program on its arguments. -/
def main (args : List String) : IO UInt32 := Scriptorium.Outer.run args
