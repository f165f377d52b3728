import Scriptorium.Settings.Text
import Scriptorium.Disk.Basic

/-!
# The settings file

Reading the settings never fails: a file that is missing or malformed gives the defaults and a warning. A
missing settings file is made, with comments that explain it.
-/

namespace Scriptorium.Settings

/-- The settings file that is made when there is none. -/
def starterFile : String :=
  String.intercalate "\n"
    ["\x7b",
     "    // Script execution limits",
     "    \"scripting.timeoutSecs\": 30,",
     "    \"scripting.instructionLimit\": 100000000,",
     "    \"scripting.maxOutputLines\": 5000,",
     "",
     "    // \"queue\" waits for a running script on the same document, \"reject\" fails fast",
     "    \"scripting.busyPolicy\": \"queue\",",
     "    \"scripting.searchPaths\": [],",
     "",
     "    // Optional API namespaces to hide, e.g. [\"fs\"]",
     "    \"scripting.disabledNamespaces\": [],",
     "",
     "    // Host log mirroring (daily files, oldest removed after retentionDays)",
     "    \"log.toFile\": false,",
     "    \"log.retentionDays\": 30,",
     "",
     "    // AI suggestions (disabled by default)",
     "    // Provider options: \"none\", \"template\", \"local\", \"openai\"",
     "    // API keys are read from MACROHOST_<PROVIDER>_KEY, not from this file",
     "    \"ai\": \x7b",
     "        \"provider\": \"none\",",
     "        \"model\": \"\",",
     "        \"privacy_mode\": true,",
     "        \"request_timeout_secs\": 30",
     "    \x7d",
     "\x7d",
     ""]

/-- Why the defaults stand in for a file, or why the file was not made. -/
inductive Warning where
  | unreadable (path : String) (e : DiskError)
  | malformed (path : String)
  | notCreated (e : DiskError)
  deriving DecidableEq, Repr

/-- The settings in a file, or the defaults with a warning. -/
def loadFrom (disk : Disk) (path : String) : Settings × List Warning :=
  match disk.readText path with
  | .error e => ({}, [.unreadable path e])
  | .ok text =>
    match parse? text with
    | some s => (s, [])
    | none => ({}, [.malformed path])

/-- Makes the directory of a path. -/
def makeParent (disk : Disk) (path : String) : Except DiskError Unit × Disk :=
  match Path.parent? path with
  | some dir => disk.makeDirectories dir
  | none => (.ok (), disk)

/-- Writes a text to a file, in a directory that is made if it is missing. -/
def writeBelow (disk : Disk) (path text : String) : Except DiskError Unit × Disk :=
  match makeParent disk path with
  | (.error e, disk) => (.error e, disk)
  | (.ok (), disk) => disk.write path text.toUTF8

/-- The settings in the user's settings file, which is made if there is none. -/
def load (disk : Disk) (path : String) : Settings × List Warning × Disk :=
  if disk.isThere path then
    let (s, warnings) := loadFrom disk path
    (s, warnings, disk)
  else
    match writeBelow disk path starterFile with
    | (.ok (), disk) => ({}, [], disk)
    | (.error e, disk) => ({}, [.notCreated e], disk)

/-- Saves the settings to a file. -/
def saveTo (s : Settings) (disk : Disk) (path : String) : Except DiskError Unit × Disk :=
  writeBelow disk path s.render

end Scriptorium.Settings
