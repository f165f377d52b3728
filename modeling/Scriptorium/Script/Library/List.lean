import Scriptorium.Script.Library.Argument

/-!
# Functions on lists

A list is a table with items from one on. Sorting exchanges items in place and compares no more than it needs;
equal items may change places.
-/

namespace Scriptorium.Script.Library

open Operation Args

/-- The length of a list, with its metamethod. -/
def listLength (v : Value) : Act Int64 := do
  match ← length .unknown v with
  | .integer n => return n
  | _ => Act.fail (bytes "object length is not an integer")

/-- A table, or another value with items of its own. -/
def listArgument (c : Callee) (args : List Value) (i : Nat) : Act Value :=
  match value args i with
  | .table p => .done (.table p)
  | _ => typeFault c args i "table"

/-- The value of a list at a position. -/
def item (v : Value) (i : Int64) : Act Value := index .unknown v (.integer i)

def setItem (v : Value) (i : Int64) (x : Value) : Act Unit := setIndex .unknown v (.integer i) x

/-- Moves items one place on, the last of them first. -/
def shiftUp (v : Value) : Nat → Int64 → Act Unit
  | 0, _ => .done ()
  | n + 1, i => do
    setItem v i (← item v (i - 1))
    shiftUp v n (i - 1)

/-- Moves items one place back, the first of them first. -/
def shiftDown (v : Value) : Nat → Int64 → Act Unit
  | 0, _ => .done ()
  | n + 1, i => do
    setItem v i (← item v (i + 1))
    shiftDown v n (i + 1)

def listInsert (c : Callee) (args : List Value) : Act (List Value) := do
  let v ← listArgument c args 1
  let next := (← listLength v) + 1
  match args.length with
  | 2 =>
    setItem v next (value args 2)
    return []
  | 3 =>
    let i ← integer c args 2
    if 1 ≤ i && i ≤ next then
      shiftUp v (next - i).toNatClampNeg next
      setItem v i (value args 3)
      return []
    else c.argumentFault 2 (bytes "position out of bounds")
  | _ => Act.fail (bytes "wrong number of arguments to 'insert'")

def listRemove (c : Callee) (args : List Value) : Act (List Value) := do
  let v ← listArgument c args 1
  let size ← listLength v
  let i ← integerOr c args 2 size
  if i != size && !(1 ≤ i && i ≤ size + 1) then
    c.argumentFault 2 (bytes "position out of bounds")
  let removed ← item v i
  shiftDown v (size - i).toNatClampNeg i
  setItem v (max i size) .nil
  return [removed]

/-- Joins the texts of items with a separator between. -/
def joinItems (v : Value) (separator : Bytes) : Nat → Int64 → Bytes → Act Bytes
  | 0, _, done => .done done
  | n + 1, i, done => do
    let x ← item v i
    match x.text? with
    | some b =>
      let done := done ++ b
      joinItems v separator n (i + 1) (if n = 0 then done else done ++ separator)
    | none =>
      .read fun s => .fail
        (Operation.joined [bytes "invalid value (", s.typeNameOf x,
          bytes (") at index " ++ toString i.toInt ++ " in table for 'concat'")])

def listConcat (c : Callee) (args : List Value) : Act (List Value) := do
  let v ← listArgument c args 1
  let size ← listLength v
  let separator ← textOr c args 2 .empty
  let first ← integerOr c args 3 1
  let last ← integerOr c args 4 size
  return [.text (← joinItems v separator (last.toInt - first.toInt + 1).toNat first .empty)]

def listPack (args : List Value) : Act (List Value) := do
  let t : TableData := .ofItems args
  return [← Act.newTable (t.setText (bytes "n") (.integer (Int64.ofNat args.length)))]

/-- The items from a position on. -/
def itemsFrom (v : Value) : Nat → Int64 → Act (List Value)
  | 0, _ => .done []
  | n + 1, i => do
    let x ← item v i
    return x :: (← itemsFrom v n (i + 1))

/-- How many values can be unpacked at once. -/
def unpackLimit : Nat := 1000000

def listUnpack (c : Callee) (args : List Value) : Act (List Value) := do
  let v := value args 1
  let first ← integerOr c args 2 1
  let last ← if isAbsentAt args 3 then listLength v else integer c args 3
  let count := (last.toInt - first.toInt + 1).toNat
  if unpackLimit ≤ count then Act.fail (bytes "too many results to unpack")
  else itemsFrom v count first

/-- Copies items between positions, the first or the last of them first. -/
def copyItems (source target : Value) (f t step : Int64) : Nat → Act Unit
  | 0 => .done ()
  | n + 1 => do
    setItem target t (← item source f)
    copyItems source target (f + step) (t + step) step n

def listMove (c : Callee) (args : List Value) : Act (List Value) := do
  let source ← listArgument c args 1
  let f ← integer c args 2
  let e ← integer c args 3
  let t ← integer c args 4
  let target ← if isAbsentAt args 5 then pure source else listArgument c args 5
  let count := (e.toInt - f.toInt + 1).toNat
  if e < t || t ≤ f || !(target.same source) then copyItems source target f t 1 count
  else copyItems source target e (t + (e - f)) (-1) count
  return [target]

/-! ## Sorting -/

/-- Is one value before another, by a function or else by their order? -/
def isBefore (before : Value) (a b : Value) : Act Bool :=
  match before with
  | .nil => compare .less a b
  | f => (Act.invoke f [a, b]).bind fun vs => .done (firstOf vs).isTrue

def swapItems (items : Array Value) (i j : Nat) : Array Value := items.swapIfInBounds i j

/-- Exchanges two items if the second comes before the first. -/
def order (before : Value) (items : Array Value) (i j : Nat) : Act (Array Value × Bool) := do
  if ← isBefore before (items.getD j .nil) (items.getD i .nil) then
    return (swapItems items i j, true)
  else return (items, false)

def orderFaultText : Bytes := bytes "invalid order function for sorting"

/-- The first position after `i` whose item does not come before the pivot. -/
def scanUp (before pivot : Value) (items : Array Value) (last : Nat) : Nat → Nat → Act Nat
  | 0, _ => .fail orderFaultText
  | fuel + 1, i => do
    if ← isBefore before (items.getD (i + 1) .nil) pivot then
      if i + 1 = last then Act.fail orderFaultText else scanUp before pivot items last fuel (i + 1)
    else return i + 1

/-- The first position before `j` whose item does not come after the pivot. -/
def scanDown (before pivot : Value) (items : Array Value) (low : Nat) : Nat → Nat → Act Nat
  | 0, _ => .fail orderFaultText
  | fuel + 1, j => do
    if ← isBefore before pivot (items.getD (j - 1) .nil) then
      if j - 1 < low then Act.fail orderFaultText else scanDown before pivot items low fuel (j - 1)
    else return j - 1

/-- Brings the items before the pivot, which lies at `high - 1`, in front of the others. -/
def partition (before pivot : Value) (high : Nat) :
    Nat → Array Value → Nat → Nat → Act (Array Value × Nat)
  | 0, items, i, _ => .done (items, i)
  | fuel + 1, items, i, j => do
    let i ← scanUp before pivot items (high - 1) (items.size + 1) i
    let j ← scanDown before pivot items i (items.size + 1) j
    if j < i then return (swapItems items (high - 1) i, i)
    else partition before pivot high fuel (swapItems items i j) i j

/-- Sorts the items from `low` to `high`. -/
def sortRange (before : Value) : Nat → Array Value → Nat → Nat → Act (Array Value)
  | 0, items, _, _ => .done items
  | fuel + 1, items, low, high => do
    if high ≤ low then return items
    let (items, _) ← order before items low high
    if high - low = 1 then return items
    let middle := (low + high) / 2
    let (items, moved) ← order before items low middle
    let (items, _) ← if moved then pure (items, true) else order before items middle high
    if high - low = 2 then return items
    let pivot := items.getD middle .nil
    let items := swapItems items middle (high - 1)
    let (items, p) ← partition before pivot high (items.size + 1) items low (high - 1)
    if p - low < high - p then
      let items ← sortRange before fuel items low (p - 1)
      sortRange before fuel items (p + 1) high
    else
      let items ← sortRange before fuel items (p + 1) high
      sortRange before fuel items low (p - 1)

/-- Puts items into a list from a position on. -/
def putItems (v : Value) : List Value → Int64 → Act Unit
  | [], _ => .done ()
  | x :: xs, i => do
    setItem v i x
    putItems v xs (i + 1)

def listSort (c : Callee) (args : List Value) : Act (List Value) := do
  let v ← listArgument c args 1
  let size ← listLength v
  if size ≤ 1 then return []
  let before := value args 2
  match before with
  | .nil | .closure _ | .builtin _ => pure ()
  | _ => typeFault c args 2 "function"
  let items := (← itemsFrom v size.toNatClampNeg 1).toArray
  let items ← sortRange before (items.size + 1) items 0 (items.size - 1)
  putItems v items.toList 1
  return []

end Scriptorium.Script.Library
