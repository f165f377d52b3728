import Scriptorium.Disk.Path

/-!
# The environment

The variables that a process is started with, and the directories that follow from them.
-/

namespace Scriptorium

structure Environment where
  assigned : List (String × String) := []
  deriving Repr, Inhabited

namespace Environment

def value? (e : Environment) (name : String) : Option String := e.assigned.lookup name

/-- The value of a variable that is an absolute path. -/
def absolute? (e : Environment) (name : String) : Option String :=
  (e.value? name).filter Path.isAbsolute

/-- The home directory. -/
def home? (e : Environment) : Option String := (e.value? "HOME").filter (!·.isEmpty)

/-- A directory of the user: the one that a variable names, or else one below the home directory, or else
the working directory. -/
def userDirectory (e : Environment) (name belowHome : String) : String :=
  match e.absolute? name, e.home? with
  | some dir, _ => dir
  | none, some home => Path.join home belowHome
  | none, none => "."

/-- Where settings of programs lie. -/
def configDirectory (e : Environment) : String := e.userDirectory "XDG_CONFIG_HOME" ".config"

/-- Where data of programs lie. -/
def dataDirectory (e : Environment) : String := e.userDirectory "XDG_DATA_HOME" ".local/share"

end Environment

end Scriptorium
