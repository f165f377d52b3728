import Scriptorium.Script.Syntax.Tree

/-!
# Scopes

What a reader of scripts knows about the function that it is in and the functions around it: the variables in
sight, the ones captured, the labels, and the gotos whose labels are still to come.
-/

namespace Scriptorium.Script

/-- What a name in sight stands for. -/
inductive Binding where
  | slot (n : Nat)
  /-- A constant that is known without running the script. -/
  | constant (v : Value)
  deriving Inhabited

/-- A variable in sight. -/
structure Local where
  name : Bytes
  binding : Binding
  readOnly : Bool
  deriving Inhabited

/-- A variable captured from outside. -/
structure Captured where
  name : Bytes
  source : Capture
  readOnly : Bool
  deriving Inhabited

structure Label where
  name : Bytes
  number : Nat
  line : Nat
  /-- How many variables are in sight there, and how many values are to be closed. -/
  inSight : Nat
  closing : Nat
  deriving Inhabited

/-- A goto whose label is still to come; without a name it is a break. -/
structure PendingGoto where
  name? : Option Bytes
  number : Nat
  line : Nat
  inSight : Nat
  deriving Inhabited

structure Scope where
  /-- The line that the function starts in; zero for a whole script. -/
  line : Nat := 0
  isVariadic : Bool := false
  /-- The variables in sight, newest first. -/
  locals : List Local := []
  slots : Nat := 0
  shared : List Nat := []
  captures : List Captured := []
  labels : List Label := []
  /-- The number of the innermost loop's end, and how many values are to be closed there. -/
  loop? : Option (Nat × Nat) := none
  /-- The gotos of the present block, newest first. -/
  pending : List PendingGoto := []
  leaps : List Leap := []
  /-- How many values are to be closed. -/
  closing : Nat := 0
  /-- How many variables were in sight, and how many values to be closed, where the present block began. -/
  blockInSight : Nat := 0
  blockClosing : Nat := 0
  nextLabel : Nat := 0
  nextGoto : Nat := 0
  deriving Inhabited

/-- What a name means. -/
inductive Meaning where
  | reference (v : VariableRef) (readOnly : Bool)
  | constant (v : Value)
  | global
  deriving Inhabited

namespace Scope

/-- Notes that an inner function captures a slot. -/
def share (s : Scope) (slot : Nat) : Scope :=
  if s.shared.contains slot then s else { s with shared := slot :: s.shared }

/-- Captures a variable of the function around. -/
def capture (s : Scope) (c : Captured) : Nat × Scope :=
  (s.captures.length, { s with captures := s.captures ++ [c] })

/-- Looks a name up from the innermost function on; functions in between capture what they pass on. -/
def resolve (name : Bytes) : List Scope → Meaning × List Scope
  | [] => (.global, [])
  | s :: outer =>
    match s.locals.find? (·.name == name) with
    | some ⟨_, .slot n, readOnly⟩ => (.reference (.slot n name) readOnly, s :: outer)
    | some ⟨_, .constant v, _⟩ => (.constant v, s :: outer)
    | none =>
      match s.captures.findIdx? (·.name == name) with
      | some i =>
        let readOnly := (s.captures[i]?).any (·.readOnly)
        (.reference (.captured i name) readOnly, s :: outer)
      | none =>
        match resolve name outer with
        | (.reference (.slot n _) readOnly, outer) =>
          let (i, s) := s.capture ⟨name, .slot n, readOnly⟩
          let outer := match outer with
            | o :: rest => o.share n :: rest
            | [] => []
          (.reference (.captured i name) readOnly, s :: outer)
        | (.reference (.captured j _) readOnly, outer) =>
          let (i, s) := s.capture ⟨name, .captured j, readOnly⟩
          (.reference (.captured i name) readOnly, s :: outer)
        | (.constant v, outer) => (.constant v, s :: outer)
        | (.global, outer) => (.global, s :: outer)

/-- A new slot. -/
def newSlot (s : Scope) : Nat × Scope := (s.slots, { s with slots := s.slots + 1 })

/-- Brings a variable in a slot into sight. -/
def bring (s : Scope) (name : Bytes) (slot : Nat) (readOnly : Bool) : Scope :=
  { s with locals := ⟨name, .slot slot, readOnly⟩ :: s.locals }

/-- Resolves the gotos of the block that wait for a label. It fails with a goto that would jump over the
declaration of a variable. -/
def settle (s : Scope) (l : Label) : Except (PendingGoto × Bytes) Scope :=
  let (hits, rest) := s.pending.partition fun g => g.name? == some l.name
  match hits.reverse.find? fun g => g.inSight < l.inSight with
  | some g =>
    let crossed := (s.locals.reverse[g.inSight]?).map (·.name)
    .error (g, crossed.getD .empty)
  | none =>
    .ok { s with
      pending := rest
      leaps := hits.map (fun g => ⟨g.number, l.number, l.closing⟩) ++ s.leaps }

/-- Enters a block. -/
def enter (s : Scope) : Scope :=
  { s with blockInSight := s.locals.length, blockClosing := s.closing, pending := [] }

/-- Leaves a block that began with `before`: its variables and labels go out of sight, and its gotos that still
wait do so in the block around. -/
def leave (s before : Scope) : Scope :=
  let inSight := before.locals.length
  { s with
    locals := before.locals
    labels := before.labels
    loop? := before.loop?
    closing := before.closing
    blockInSight := before.blockInSight
    blockClosing := before.blockClosing
    pending := s.pending.map (fun g => { g with inSight := min g.inSight inSight }) ++
      before.pending }

end Scope

end Scriptorium.Script
