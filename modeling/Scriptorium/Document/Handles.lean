import Scriptorium.Document.Desk

/-!
# Handles

The active document is reached through handles. A handle leads to a slot, in which the number of a document lies while
it is active there; a copy of a handle leads to the same slot, so that an activation through one of them is seen
through all. The office is the desk and the disk with the slots and the handles. It changes by one move at a time: the
editor does something with a document or a handle, or an operation is performed through a handle. A move that cannot be
made gives nothing.
-/

namespace Scriptorium

namespace Desk

/-- What can be done with the active document. -/
inductive Operation where
  | read
  | write (content : String)
  /-- A save, to another path if one is given. -/
  | save (path? : Option String) (faults : Faults)
  | path
  | pages
  | dirty

/-- What an operation gives. -/
inductive Answer where
  | done
  | content (text : String)
  | path (path? : Option String)
  | pages (count : Nat)
  | dirty (flag : Bool)
  deriving DecidableEq, Repr

/-- Performs an operation on the active document. -/
def perform (d : Desk) (disk : Disk) : Operation → Except DocumentError Answer × Desk × Disk
  | .read => (d.readContent.map .content, d, disk)
  | .write content =>
    match d.writeContent content with
    | .ok d' => (.ok .done, d', disk)
    | .error e => (.error e, d, disk)
  | .save path? faults =>
    match d.save disk path? faults with
    | (.ok d', disk) => (.ok .done, d', disk)
    | (.error e, disk) => (.error e, d, disk)
  | .path => (d.path.map .path, d, disk)
  | .pages => (d.pageCount.map .pages, d, disk)
  | .dirty => (d.isDirty.map .dirty, d, disk)

end Desk

structure Office where
  sheets : List Sheet := []
  disk : Disk := {}
  /-- The document that is active in each slot. -/
  slots : List (Option Nat) := []
  /-- The slot that each handle leads to. -/
  handles : List Nat := []
  /-- What the operations have given so far, in order. -/
  answers : List (Except DocumentError Desk.Answer) := []

namespace Office

inductive Move where
  /-- The editor puts a document on the desk. -/
  | create (document : Document)
  /-- The editor opens a file, which can fail. -/
  | openFile (path : String)
  /-- The editor lets go of a document. -/
  | drop (n : Nat)
  /-- A handle with a slot of its own. -/
  | handle
  | copy (h : Nat)
  | activate (h n : Nat)
  | deactivate (h : Nat)
  /-- Somebody performs an operation through a handle. -/
  | use (h : Nat) (op : Desk.Operation)
  /-- Other programs have changed the disk. -/
  | meanwhile (disk : Disk)

/-- The desk as it is seen through a slot. -/
def deskAt (o : Office) (slot : Nat) : Desk := { sheets := o.sheets, active? := (o.slots[slot]?).join }

/-- The documents that lie on the desk. -/
def desk (o : Office) : Desk := { sheets := o.sheets }

/-- Does the editor keep the document? -/
def keeps (o : Office) (n : Nat) : Bool := (o.sheets[n]?).any (·.kept)

/-- The office with the documents of a desk. -/
def onDesk (o : Office) (d : Desk) : Office := { o with sheets := d.sheets }

/-- The office with what is active on a desk in the slot. -/
def inSlot (o : Office) (slot : Nat) (d : Desk) : Office := { o with slots := o.slots.set slot d.active? }

/-- The office after an operation through a slot. -/
def use (o : Office) (slot : Nat) (op : Desk.Operation) : Office :=
  let (answer, d, disk) := (o.deskAt slot).perform o.disk op
  { o.onDesk d with disk, answers := o.answers ++ [answer] }

/-- The office after a move. Only a document that the editor keeps can be dropped or activated. -/
def step? (o : Office) : Move → Option Office
  | .create document => some (o.onDesk (o.desk.add document).2)
  | .openFile path =>
    match Document.open? o.disk path with
    | .ok document => some (o.onDesk (o.desk.add document).2)
    | .error _ => some o
  | .drop n => if o.keeps n then some (o.onDesk (o.desk.close n)) else none
  | .handle => some { o with slots := o.slots ++ [none], handles := o.handles ++ [o.slots.length] }
  | .copy h => (o.handles[h]?).map fun slot => { o with handles := o.handles ++ [slot] }
  | .activate h n =>
    if o.keeps n then (o.handles[h]?).map fun slot => o.inSlot slot ((o.deskAt slot).activate n) else none
  | .deactivate h => (o.handles[h]?).map fun slot => o.inSlot slot (o.deskAt slot).deactivate
  | .use h op => (o.handles[h]?).map fun slot => o.use slot op
  | .meanwhile disk => some { o with disk }

/-- The office after moves, one after the other. -/
def run? (o : Office) : List Move → Option Office
  | [] => some o
  | m :: ms => (o.step? m).bind (run? · ms)

/-- The office before anything has been done: there are no documents and no handles. -/
def opening (disk : Disk) : Office := { disk }

end Office

end Scriptorium
