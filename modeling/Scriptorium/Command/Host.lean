import Scriptorium.Command.Failure
import Scriptorium.Command.Invocation
import Scriptorium.Registry.Standard
import Scriptorium.Settings.File

/-!
# The host of a command

What every command starts from: the settings, the registry that follows from them, and a world whose host log
goes to daily files if the settings say so.
-/

namespace Scriptorium.Command

structure Host where
  settings : Settings
  /-- The file that the settings were read from. -/
  settingsPath : String
  registry : Registry
  deriving Inhabited

namespace Host

/-- The settings of an invocation with the path of their file. -/
def readSettings (i : Invocation) (env : Environment) (w : World) :
    Except Failure (Settings × String) × World :=
  match i.settings? with
  | some path =>
    if w.disk.isThere path then (.ok ((Settings.loadFrom w.disk path).1, path), w)
    else (.error ⟨.disk, "settings file not found: " ++ path, none⟩, w)
  | none =>
    let path := Settings.path env
    let (s, _, disk) := Settings.load w.disk path
    (.ok (s, path), { w with disk })

/-- Disables the namespaces that the settings name. -/
def disableNamespaces (s : Settings) (settingsPath : String) (b : RegistryBuilder) :
    Except Failure RegistryBuilder :=
  s.disabledNamespaces.foldlM (fun b name =>
    (b.setEnabled name false).mapError fun e =>
      ⟨.usage, "scripting.disabledNamespaces: " ++ e.message, some ("check " ++ settingsPath)⟩) b

/-- The log that the settings ask for; if its directory cannot be made it stays in memory. A retention beyond
the calendar ends the program. What a crash tells is left out. -/
def openLog (s : Settings) (env : Environment) (w : World) : Except Failure Unit × World :=
  if s.logToFile then
    match HostLog.openIn (s.effectiveLogDirectory env) s.logRetentionDays.toNat w.now.date w.disk with
    | (.ok log, disk) => (.ok (), { w with log, disk })
    | (.error (.disk _), disk) => (.ok (), { w with disk })
    | (.error .beyondCalendar, disk) => (.error ⟨.crashed, "", none⟩, { w with disk })
  else (.ok (), w)

/-- The host of an invocation. -/
def load (i : Invocation) (env : Environment) (w : World) : Except Failure Host × World :=
  match readSettings i env w with
  | (.error f, w) => (.error f, w)
  | (.ok (settings, settingsPath), w) =>
    let facts : HostFacts := { scriptDirs := i.scriptDirs ++ settings.effectiveScriptDirs w.documents? }
    match disableNamespaces settings settingsPath (.standard facts) with
    | .error f => (.error f, w)
    | .ok b =>
      let (opened, w) := openLog settings env w
      (opened.map fun _ => ⟨settings, settingsPath, b.build⟩, w)

end Host

end Scriptorium.Command
