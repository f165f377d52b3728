import Std.Data.HashMap
import Scriptorium.Script.Code
import Scriptorium.Registry.Basic
import Scriptorium.Table.Basic

/-!
# The store

All that values refer to by their place: tables, functions with their captured variables, cells and host
objects. Places are never used again.
-/

namespace Scriptorium.Script

/-! ## Tables -/

/-- A table: the items under `1 … n`, and the other entries in the order in which their keys came. An entry
whose value is `nil` stands for none. -/
structure TableData where
  items : Array Value := #[]
  positions : Std.HashMap Key Nat := ∅
  entries : Array (Key × Value) := #[]
  metatable? : Option Nat := none
  deriving Inhabited

namespace TableData

/-- The position among the items that a number stands for. -/
def itemIndex? (t : TableData) (n : Int64) : Option Nat :=
  if 1 ≤ n && n.toNatClampNeg ≤ t.items.size then some (n.toNatClampNeg - 1) else none

/-- The value of an entry that is no item. -/
def getEntry (t : TableData) (k : Key) : Value :=
  match t.positions[k]? with
  | some i => ((t.entries[i]?).map (·.2)).getD .nil
  | none => .nil

def getInteger (t : TableData) (n : Int64) : Value :=
  match t.itemIndex? n with
  | some i => (t.items[i]?).getD .nil
  | none => t.getEntry (.integer n)

/-- The value under a key. -/
def get (t : TableData) (k : Key) : Value :=
  match k with
  | .integer n => t.getInteger n
  | k => t.getEntry k

/-- The value under a text. -/
def getText (t : TableData) (name : Bytes) : Value := t.getEntry (.text name)

/-- Sets an entry that is no item. -/
def setEntry (t : TableData) (k : Key) (v : Value) : TableData :=
  match t.positions[k]? with
  | some i => { t with entries := t.entries.set! i (k, v) }
  | none =>
    if v.isNil then t
    else
      let i := t.entries.size
      { t with positions := t.positions.insert k i, entries := t.entries.push (k, v) }

/-- Does the next item follow a value, so that no hole comes to lie before it? -/
def isFull (t : TableData) : Bool :=
  match t.items.back? with
  | some v => !v.isNil
  | none => true

/-- Moves the entries that continue the items to them. -/
def absorb : Nat → TableData → TableData
  | 0, t => t
  | fuel + 1, t =>
    let k := Key.integer (Int64.ofNat (t.items.size + 1))
    match t.getEntry k with
    | .nil => t
    | v =>
      let t := t.setEntry k .nil
      absorb fuel { t with items := t.items.push v }

def setInteger (t : TableData) (n : Int64) (v : Value) : TableData :=
  match t.itemIndex? n with
  | some i => { t with items := t.items.set! i v }
  | none =>
    if n.toNatClampNeg = t.items.size + 1 && t.isFull && !v.isNil then
      let t := if t.entries.isEmpty then t else t.setEntry (.integer n) .nil
      absorb t.entries.size { t with items := t.items.push v }
    else t.setEntry (.integer n) v

/-- Puts a value, which may be `nil`, to an item or after the last one. -/
def putItem (t : TableData) (i : Nat) (v : Value) : TableData :=
  let t := if t.entries.isEmpty then t else t.setEntry (.integer (Int64.ofNat i)) .nil
  if i ≤ t.items.size then { t with items := t.items.set! (i - 1) v }
  else { t with items := t.items.push v }

/-- Sets the value under a key. -/
def set (t : TableData) (k : Key) (v : Value) : TableData :=
  match k with
  | .integer n => t.setInteger n v
  | k => t.setEntry k v

def setText (t : TableData) (name : Bytes) (v : Value) : TableData := t.setEntry (.text name) v

/-- A border between `low` and `high`, where the item at `high` is `nil` and the one at `low` is not. -/
def borderBetween (items : Array Value) : Nat → Nat → Nat → Nat
  | 0, low, _ => low
  | fuel + 1, low, high =>
    if high ≤ low + 1 then low
    else
      let middle := (low + high) / 2
      match items[middle - 1]? with
      | some .nil | none => borderBetween items fuel low middle
      | some _ => borderBetween items fuel middle high

/-- The end of the whole numbers after `n` that have a value. -/
def borderAfter (t : TableData) : Nat → Nat → Nat
  | 0, n => n
  | fuel + 1, n =>
    match t.getEntry (.integer (Int64.ofNat (n + 1))) with
    | .nil => n
    | _ => borderAfter t fuel (n + 1)

/-- The length: a border, the end of the items unless the last of them is `nil`. -/
def length (t : TableData) : Nat :=
  let n := t.items.size
  if t.isFull then (if t.entries.isEmpty then n else t.borderAfter t.entries.size n)
  else
    match t.items[n - 2]? with
    | some .nil | none => borderBetween t.items 64 0 n
    | some _ => n - 1

/-- The first entry from a position on that has a value. -/
def entryFrom (t : TableData) : Nat → Nat → Option (Value × Value)
  | 0, _ => none
  | fuel + 1, i =>
    match t.entries[i]? with
    | none => none
    | some (_, .nil) => entryFrom t fuel (i + 1)
    | some (k, v) => some (k.value, v)

/-- The first item from a position on that has a value, or else the first entry. -/
def itemFrom (t : TableData) : Nat → Nat → Option (Value × Value)
  | 0, _ => t.entryFrom (t.entries.size + 1) 0
  | fuel + 1, i =>
    match t.items[i]? with
    | none => t.entryFrom (t.entries.size + 1) 0
    | some .nil => itemFrom t fuel (i + 1)
    | some v => some (.integer (Int64.ofNat (i + 1)), v)

/-- The key and value after a key, or the first ones. It fails for a key that is not in the table. -/
def next (t : TableData) (k : Value) : Option (Option (Value × Value)) :=
  match k.key? with
  | none => if k.isNil then some (t.itemFrom (t.items.size + 1) 0) else none
  | some key =>
    let item? := match key with
      | .integer n => t.itemIndex? n
      | _ => none
    match item? with
    | some i => some (t.itemFrom (t.items.size + 1) (i + 1))
    | none => (t.positions[key]?).map fun i => t.entryFrom (t.entries.size + 1) (i + 1)

/-- A table of items. -/
def ofItems (vs : List Value) : TableData := { items := vs.toArray }

/-- A table of named values. -/
def ofFields (fields : List (Bytes × Value)) : TableData :=
  fields.foldl (fun t (name, v) => t.setText name v) {}

end TableData

/-! ## The store -/

/-- A function that was made while a script ran. -/
inductive Closure where
  /-- A function of the script, with the cells that it captured. -/
  | script (chunk : Chunk) (proto : Proto) (cells : Array Nat)
  /-- A method that the object of a namespace has. -/
  | member (namespaceName : String) (m : Member)
  /-- The matches of a pattern in a text: where the next search starts, and the end of the last match. -/
  | matches (text pattern : Bytes) (next : Nat) (last? : Option Nat)
  deriving Inhabited

/-- What is behind a host object. -/
inductive HostThing where
  /-- A namespace, with the table that it hides. -/
  | space (namespaceName : String) (hidden? : Option Nat)
  | grid (t : Table)
  deriving Inhabited

structure Store where
  tables : Array TableData := #[]
  closures : Array Closure := #[]
  cells : Array Value := #[]
  objects : Array HostThing := #[]
  registry : Registry := default
  /-- The table of the global variables. -/
  globals : Nat := 0
  /-- The metatable of all texts. -/
  textMetatable? : Option Nat := none
  /-- The state of the random numbers. -/
  seed : UInt64 := 1
  deriving Inhabited

namespace Store

def table (s : Store) (p : Nat) : TableData := (s.tables[p]?).getD {}

def cell (s : Store) (p : Nat) : Value := (s.cells[p]?).getD .nil

def setCell (s : Store) (p : Nat) (v : Value) : Store := { s with cells := s.cells.set! p v }

def modifyTable (s : Store) (p : Nat) (f : TableData → TableData) : Store :=
  { s with tables := s.tables.modify p f }

/-- A new table. -/
def newTable (s : Store) (t : TableData) : Value × Store :=
  (.table s.tables.size, { s with tables := s.tables.push t })

def newClosure (s : Store) (c : Closure) : Value × Store :=
  (.closure s.closures.size, { s with closures := s.closures.push c })

def newObject (s : Store) (o : HostThing) : Value × Store :=
  (.object s.objects.size, { s with objects := s.objects.push o })

/-- A new cell, by its place. -/
def newCell (s : Store) (v : Value) : Nat × Store :=
  (s.cells.size, { s with cells := s.cells.push v })

/-- The metatable of a value. -/
def metatable? (s : Store) : Value → Option Nat
  | .table p => (s.table p).metatable?
  | .text _ => s.textMetatable?
  | _ => none

/-- The metamethod of a value for an event; `nil` if there is none. -/
def metamethod (s : Store) (v : Value) (event : String) : Value :=
  match s.metatable? v with
  | some p => (s.table p).getText (bytes ("__" ++ event))
  | none => .nil

/-- The name of the type of a value in messages. -/
def typeNameOf (s : Store) (v : Value) : Bytes :=
  match v with
  | .object p =>
    match s.objects[p]? with
    | some (.grid _) => bytes "TableObject"
    | _ => bytes "HostObject"
  | .table p =>
    match (s.table p).metatable?.map fun m => (s.table m).getText (bytes "__name") with
    | some (.text name) => name
    | _ => bytes "table"
  | v => bytes v.typeName

end Store

end Scriptorium.Script
