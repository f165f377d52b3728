import Scriptorium.Digest.Sha256
import Scriptorium.Disk.Basic
import Scriptorium.Script.Report
import Scriptorium.Text.Newline

/-!
# Where scripts come from

A script is a name and a body. It is given as it is, read from a file, or found by its name in the first of
several directories that holds it. Its digest does not depend on how its lines end.
-/

namespace Scriptorium.Script

structure Source where
  /-- The name in messages and in the log. -/
  name : String
  body : String
  path? : Option String := none
  deriving DecidableEq, Repr, Inhabited

namespace Source

/-- The script in a file, named as the file. -/
def ofFile (disk : Disk) (path : String) : Except ScriptError Source :=
  match disk.readText path with
  | .ok body => .ok ⟨(Path.fileName? path).getD path, body, some path⟩
  | .error e => .error (.setup (path ++ ": " ++ e.message))

/-- The file name that a script name stands for: a name without an extension gets one. -/
def fileNameOf (name : String) : String :=
  if (Path.extension? name).isSome then name else name ++ ".lua"

/-- The script of a name, from the first directory that has a file for it. -/
def find (disk : Disk) (name : String) (dirs : List String) : Except ScriptError Source :=
  match (dirs.map fun dir => Path.join dir (fileNameOf name)).find? disk.isFile with
  | some path => ofFile disk path
  | none => .error (.notFound name dirs)

/-- The digest of the body with all line ends alike. -/
def digest (s : Source) : String :=
  "sha256:" ++
    Sha256.hexDigest (String.ofList (Text.normalize s.body.toList)).toUTF8.toList

end Source

end Scriptorium.Script
