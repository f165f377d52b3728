import Scriptorium.Disk.Basic

/-!
# Documents

A document has a content, perhaps a path, and a flag for changes that are not saved. Saving writes a file
beside the target first and then renames it, so a failure leaves the target as it was.
-/

namespace Scriptorium

inductive DocumentError where
  /-- No document is active, or it is closed. -/
  | unavailable
  /-- The document was never given a path. -/
  | noSavePath
  | disk (message : String)
  deriving DecidableEq, Repr, Inhabited

def DocumentError.message : DocumentError → String
  | .unavailable => "no active document"
  | .noSavePath => "document has no file path; use save-as first"
  | .disk message => "document IO error: " ++ message

structure Document where
  path? : Option String := none
  content : String := ""
  dirty : Bool := false
  deriving DecidableEq, Repr, Inhabited

namespace Document

/-- The characters of a page. -/
def charsPerPage : Nat := 500

/-- The pages of the content, at least one. -/
def pageCount (d : Document) : Nat :=
  max 1 ((d.content.length + (charsPerPage - 1)) / charsPerPage)

/-- The error of a failed operation on a path. -/
def diskError (path : String) (e : DiskError) : DocumentError := .disk (path ++ ": " ++ e.message)

/-- An empty document without a path. -/
def new : Document := {}

/-- A document with a content that is not changed yet. -/
def withContent (content : String) (path? : Option String) : Document := { path?, content }

/-- Reads a document from a file. -/
def open? (disk : Disk) (path : String) : Except DocumentError Document :=
  match disk.readText path with
  | .ok content => .ok (withContent content (some path))
  | .error e => .error (diskError path e)

def setContent (d : Document) (content : String) : Document := { d with content, dirty := true }

/-- The file name, with a star after it when there are changes to save. -/
def displayName (d : Document) : String :=
  let name := (d.path?.bind Path.fileName?).getD "untitled"
  if d.dirty then name ++ "*" else name

/-- The file beside the target that a save writes first. -/
def tempPath (path : String) : String :=
  Path.withFileName path ((Path.fileName? path).getD "" ++ ".tmp")

/-- Writes the content to a path: first beside it, then by renaming. A temporary file that cannot be
renamed is removed. -/
def writeTo (d : Document) (disk : Disk) (path : String) (faults : Faults := {}) :
    Except DocumentError Unit × Document × Disk :=
  let temp := tempPath path
  match disk.write temp d.content.toUTF8 faults.write? with
  | (.error e, disk) => (.error (diskError path e), d, disk)
  | (.ok (), disk) =>
    match disk.rename temp path faults.rename? with
    | .ok disk => (.ok (), { d with dirty := false }, disk)
    | .error e =>
      (.error (diskError path e), d, (disk.remove temp faults.remove?).toOption.getD disk)

/-- Saves the document to its own path. -/
def save (d : Document) (disk : Disk) (faults : Faults := {}) :
    Except DocumentError Unit × Document × Disk :=
  match d.path? with
  | none => (.error .noSavePath, d, disk)
  | some path => d.writeTo disk path faults

/-- Saves the document to another path, which becomes its own. -/
def saveAs (d : Document) (disk : Disk) (path : String) (faults : Faults := {}) :
    Except DocumentError Unit × Document × Disk :=
  match d.writeTo disk path faults with
  | (.ok (), d, disk) => (.ok (), { d with path? := some path }, disk)
  | (.error e, d, disk) => (.error e, d, disk)

/-- Saves the document, to another path if one is given. -/
def persist (d : Document) (disk : Disk) (path? : Option String) (faults : Faults := {}) :
    Except DocumentError Unit × Document × Disk :=
  match path? with
  | none => d.save disk faults
  | some path => d.saveAs disk path faults

end Document

end Scriptorium
