import Scriptorium.Document.Basic

/-!
# The desk

The editor's documents lie on the desk, each under a number that is never used again. At most one is open in
the editor, and at most one is active. Scripts reach documents only through the desk: what they read, write
and save is the active document, as long as it is alive. A document lives while the editor keeps it or a run
holds its gate or waits for it.
-/

namespace Scriptorium

/-- A document on the desk. -/
structure Sheet where
  document : Document
  /-- Does the editor still keep it? -/
  kept : Bool := true
  /-- The run that holds its gate. -/
  gate? : Option Nat := none
  /-- The runs that wait for its gate. -/
  waiting : List Nat := []
  deriving DecidableEq, Repr, Inhabited

/-- Is the document still there? -/
def Sheet.alive (s : Sheet) : Bool := s.kept || s.gate?.isSome || !s.waiting.isEmpty

structure Desk where
  sheets : List Sheet := []
  active? : Option Nat := none
  /-- The document that is open in the editor. -/
  open? : Option Nat := none
  deriving DecidableEq, Repr, Inhabited

namespace Desk

/-- The document of a number, while it lives. -/
def sheet? (d : Desk) (n : Nat) : Option Sheet :=
  match d.sheets[n]? with
  | some s => if s.alive then some s else none
  | none => none

/-- Puts a document on the desk and gives its number. -/
def add (d : Desk) (doc : Document) : Nat × Desk :=
  (d.sheets.length, { d with sheets := d.sheets ++ [{ document := doc }] })

def activate (d : Desk) (n : Nat) : Desk := { d with active? := some n }

def deactivate (d : Desk) : Desk := { d with active? := none }

/-- The editor lets go of a document. -/
def close (d : Desk) (n : Nat) : Desk :=
  { d with sheets := d.sheets.modify n fun s => { s with kept := false } }

/-- Changes a document. -/
def update (d : Desk) (n : Nat) (f : Document → Document) : Desk :=
  { d with sheets := d.sheets.modify n fun s => { s with document := f s.document } }

/-- Saves a document of the desk, to a path if one is given. -/
def saveSheet (d : Desk) (disk : Disk) (n : Nat) (doc : Document) (path? : Option String)
    (faults : Faults := {}) : Except DocumentError Desk × Disk :=
  let (result, doc, disk) := doc.persist disk path? faults
  (result.map fun _ => d.update n fun _ => doc, disk)

/-! ## The editor -/

/-- The number and the content of the document that is open in the editor. -/
def opened? (d : Desk) : Option (Nat × Document) :=
  d.open?.bind fun n => (d.sheet? n).map fun s => (n, s.document)

/-- Closes the document that is open in the editor. -/
def closeOpen (d : Desk) : Desk :=
  match d.open? with
  | some n => { d.close n with open? := none }
  | none => d

/-- Opens a document in the editor, in the place of the one before. -/
def place (d : Desk) (doc : Document) : Desk :=
  let (n, d) := d.closeOpen.add doc
  { d with open? := some n }

/-- Changes the content of the document that is open in the editor. -/
def editOpen (d : Desk) (content : String) : Desk :=
  match d.open? with
  | some n => d.update n (·.setContent content)
  | none => d

/-- Saves the document that is open in the editor, to a path if one is given. -/
def saveOpen (d : Desk) (disk : Disk) (path? : Option String) (faults : Faults := {}) :
    Except DocumentError Desk × Disk :=
  match d.opened? with
  | none => (.error .unavailable, disk)
  | some (n, doc) => d.saveSheet disk n doc path? faults

/-- Makes the document active that is open in the editor. -/
def activateOpen (d : Desk) : Desk :=
  match d.open? with
  | some n => d.activate n
  | none => d

/-! ## The active document -/

/-- The number and the sheet of the active document, while it lives. -/
def current? (d : Desk) : Option (Nat × Sheet) :=
  d.active?.bind fun n => (d.sheet? n).map (n, ·)

def hasDocument (d : Desk) : Bool := d.current?.isSome

/-- The active document, which has to be there. -/
def require (d : Desk) : Except DocumentError (Nat × Document) :=
  match d.current? with
  | some (n, s) => .ok (n, s.document)
  | none => .error .unavailable

def readContent (d : Desk) : Except DocumentError String := d.require.map (·.2.content)

def path (d : Desk) : Except DocumentError (Option String) := d.require.map (·.2.path?)

def pageCount (d : Desk) : Except DocumentError Nat := d.require.map (·.2.pageCount)

def isDirty (d : Desk) : Except DocumentError Bool := d.require.map (·.2.dirty)

/-- Replaces the content of the active document. -/
def writeContent (d : Desk) (content : String) : Except DocumentError Desk :=
  d.require.map fun (n, _) => d.update n (·.setContent content)

/-- Saves the active document, to a path if one is given. -/
def save (d : Desk) (disk : Disk) (path? : Option String) (faults : Faults := {}) :
    Except DocumentError Desk × Disk :=
  match d.require with
  | .error e => (.error e, disk)
  | .ok (n, doc) => d.saveSheet disk n doc path? faults

/-! ## Gates -/

/-- A run waits for the gate of a document. -/
def await (d : Desk) (n run : Nat) : Desk :=
  { d with sheets := d.sheets.modify n fun s => { s with waiting := s.waiting ++ [run] } }

/-- Takes the gate of a document for a run, if it is free. A run that has waited for it waits no more. -/
def tryLock (d : Desk) (n run : Nat) : Option Desk :=
  match d.sheet? n with
  | some s =>
    if s.gate?.isNone then
      some { d with sheets := d.sheets.modify n fun s =>
        { s with gate? := some run, waiting := s.waiting.erase run } }
    else none
  | none => none

/-- Frees the gate of a document. -/
def unlock (d : Desk) (n : Nat) : Desk :=
  { d with sheets := d.sheets.modify n fun s => { s with gate? := none } }

end Desk

end Scriptorium
