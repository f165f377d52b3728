import Scriptorium.Text.Bytes

/-!
# Paths as text

The parts of a path that can be told from its text alone: the directory and the name of its last component,
the extension of the name, and the joining of two paths. Separators and `.` at the end of a path do not
count.
-/

namespace Scriptorium.Path

/-- A reversed path without the separators and the `.` at its end. -/
def trimBack : List Char → List Char
  | ['/'] => ['/']
  | '/' :: cs => trimBack cs
  | '.' :: '/' :: cs => trimBack ('/' :: cs)
  | cs => cs

/-- The name of the last component; none for the root and for a path that ends in `..`. -/
def fileName? (path : String) : Option String :=
  let name := ((trimBack path.toList.reverse).takeWhile (· != '/')).reverse
  if name = [] ∨ name = ['.'] ∨ name = ['.', '.'] then none else some (String.ofList name)

/-- The path without its last component; none for the root and for the empty path. -/
def parent? (path : String) : Option String :=
  let back := trimBack path.toList.reverse
  if back = [] ∨ back = ['/'] then none
  else some (String.ofList (trimBack (back.dropWhile (· != '/'))).reverse)

/-- The directory a path lies in, when the path names one. -/
def directory? (path : String) : Option String :=
  match parent? path with
  | some "" | none => none
  | some dir => some dir

/-- The part of a name after its last point; none when there is no point after the first character. -/
def extension? (path : String) : Option String :=
  (fileName? path).bind fun name =>
    let back := name.toList.reverse
    let ext := back.takeWhile (· != '.')
    match back.dropWhile (· != '.') with
    | _ :: _ :: _ => some (String.ofList ext.reverse)
    | _ => none

def isAbsolute (path : String) : Bool := path.toList.head? == some '/'

/-- A path below a directory; an absolute path stands for itself. -/
def join (dir path : String) : String :=
  if isAbsolute path || dir.isEmpty then path
  else if dir.toList.getLast? = some '/' then dir ++ path
  else dir ++ "/" ++ path

/-- The path with another name in the place of its last component. -/
def withFileName (path name : String) : String :=
  match fileName? path with
  | some _ => join ((parent? path).getD "") name
  | none => if path.isEmpty then name else join path name

end Scriptorium.Path
