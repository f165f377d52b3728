import Scriptorium.Script.Library.Text
import Scriptorium.Script.Syntax.Scan

/-!
# Functions on UTF-8

A code point is at most `10FFFF` and no surrogate, unless a script asks to be lax.
-/

namespace Scriptorium.Script.Library

open Operation Args

/-- The pattern of one encoded code point. -/
def utf8Pattern : Bytes :=
  ⟨#[91, 0, 45, 0x7F, 0xC2, 45, 0xFD, 93, 91, 0x80, 45, 0xBF, 93, 42]⟩

def isContinuation (x : UInt8) : Bool := x &&& 0xC0 == 0x80

/-- The least code point that needs so many continuation bytes. -/
def leastPoint : Nat → Nat
  | 1 => 0x80
  | 2 => 0x800
  | 3 => 0x10000
  | 4 => 0x200000
  | _ => 0x4000000

/-- The number of continuation bytes that a first byte asks for, and the bits that it holds. -/
def leadBits? (x : UInt8) : Option (Nat × Nat) :=
  let n := x.toNat
  if n < 0x80 then some (0, n)
  else if n < 0xC0 then none
  else if n < 0xE0 then some (1, n - 0xC0)
  else if n < 0xF0 then some (2, n - 0xE0)
  else if n < 0xF8 then some (3, n - 0xF0)
  else if n < 0xFC then some (4, n - 0xF8)
  else if n < 0xFE then some (5, n - 0xFC)
  else none

/-- The code point at a position, and the position after it. -/
def pointAt? (strict : Bool) (b : Bytes) (i : Nat) : Option (Nat × Nat) :=
  match b[i]?.bind leadBits? with
  | none => none
  | some (0, n) => some (n, i + 1)
  | some (count, lead) =>
    let tail := (b.extract (i + 1) (i + 1 + count)).toList
    let n := tail.foldl (fun n x => 64 * n + (x &&& 0x3F).toNat) lead
    if tail.length < count || !tail.all isContinuation || n < leastPoint count then none
    else if strict && (0x10FFFF < n || (0xD800 ≤ n && n ≤ 0xDFFF)) then none
    else some (n, i + 1 + count)

/-- The position, counted from zero, that a start or end names; it may lie outside. -/
def bytePosition (n : Int64) (size : Nat) : Int :=
  if 0 ≤ n then n.toInt - 1
  else if size < (-n.toInt).toNat then -1
  else size + n.toInt

/-- The encoded code points of numbers, checked in order. -/
def pointBytes (c : Callee) (args : List Value) : Nat → List Value → Act (List Char)
  | _, [] => .done []
  | i, _ :: rest => do
    let n ← integer c args i
    if 0 ≤ n && n ≤ 0x7FFFFFFF then
      return Scan.longUtf8 n.toNatClampNeg ++ (← pointBytes c args (i + 1) rest)
    else c.argumentFault i (bytes "value out of range")

def utf8Char (c : Callee) (args : List Value) : Act (List Value) := do
  return [.text (bytesOf (← pointBytes c args 1 args))]

/-- The code points that begin from a position to another, or the position of a fault. -/
def pointsIn (strict : Bool) (b : Bytes) : Nat → Nat → Nat → Except Nat (List Nat)
  | 0, _, _ => .ok []
  | fuel + 1, i, stop =>
    if stop ≤ i then .ok []
    else
      match pointAt? strict b i with
      | none => .error i
      | some (n, j) => (pointsIn strict b fuel j stop).map (n :: ·)

def utf8Length (c : Callee) (args : List Value) : Act (List Value) := do
  let b ← Args.text c args 1
  let first := bytePosition (← integerOr c args 2 1) b.size
  let last := bytePosition (← integerOr c args 3 (-1)) b.size
  if first < 0 || b.size < first then
    c.argumentFault 2 (bytes "initial position out of bounds")
  if (b.size : Int) ≤ last then c.argumentFault 3 (bytes "final position out of bounds")
  match pointsIn (!(value args 4).isTrue) b (b.size + 1) first.toNat (last + 1).toNat with
  | .ok ns => return [.integer (Int64.ofNat ns.length)]
  | .error i => return [.nil, .integer (Int64.ofNat (i + 1))]

def invalidPoint : Bytes := bytes "invalid UTF-8 code"

def utf8CodePoint (c : Callee) (args : List Value) : Act (List Value) := do
  let b ← Args.text c args 1
  let i ← integerOr c args 2 1
  let first := bytePosition i b.size
  let last := bytePosition (← integerOr c args 3 (Int64.ofInt (first + 1))) b.size
  if first < 0 then c.argumentFault 2 (bytes "out of bounds")
  if (b.size : Int) ≤ last then c.argumentFault 3 (bytes "out of bounds")
  match pointsIn (!(value args 4).isTrue) b (b.size + 1) first.toNat (last + 1).toNat with
  | .ok ns => return ns.map fun n => .integer (Int64.ofNat n)
  | .error _ => Act.fail invalidPoint

/-- Is there a continuation byte at a position? -/
def continuesAt (b : Bytes) (i : Nat) : Bool := (b[i]?).any isContinuation

/-- The start of the code point that a position is in. -/
def startOfPoint (b : Bytes) : Nat → Nat
  | 0 => 0
  | i + 1 => if continuesAt b (i + 1) then startOfPoint b i else i + 1

/-- The first position from `i` on that starts a code point. -/
def nextStart (b : Bytes) : Nat → Nat → Nat
  | 0, i => i
  | fuel + 1, i => if continuesAt b i then nextStart b fuel (i + 1) else i

/-- Goes so many code points on, or back. -/
def goOn (b : Bytes) : Nat → Nat → Option Nat
  | 0, i => some i
  | n + 1, i => if i < b.size then goOn b n (nextStart b b.size (i + 1)) else none

def goBack (b : Bytes) : Nat → Nat → Option Nat
  | 0, i => some i
  | n + 1, i => if 0 < i then goBack b n (startOfPoint b (i - 1)) else none

def utf8Offset (c : Callee) (args : List Value) : Act (List Value) := do
  let b ← Args.text c args 1
  let n ← integer c args 2
  let start := if 0 < n then 1 else Int64.ofNat (b.size + 1)
  let i := bytePosition (← integerOr c args 3 start) b.size
  if i < 0 || b.size < i then c.argumentFault 3 (bytes "position out of bounds")
  let i := i.toNat
  let place (r : Option Nat) : Value :=
    (r.map fun k => Value.integer (Int64.ofNat (k + 1))).getD .nil
  if n = 0 then return [place (some (startOfPoint b i))]
  if continuesAt b i then Act.fail (bytes "initial position is a continuation byte")
  else if 0 < n then return [place (goOn b (n.toNatClampNeg - 1) i)]
  else return [place (goBack b (-n).toNatClampNeg i)]

def utf8Codes (c : Callee) (args : List Value) : Act (List Value) := do
  let b ← Args.text c args 1
  return [.builtin .utf8Step, .text b, .integer 0]

def utf8Step (c : Callee) (args : List Value) : Act (List Value) := do
  let b ← Args.text c args 1
  let i := (← integer c args 2).toNatClampNeg
  let i := if i = 0 then 0 else nextStart b b.size i
  if b.size ≤ i then return []
  match pointAt? true b i with
  | some (n, j) =>
    if continuesAt b j then Act.fail invalidPoint
    else return [.integer (Int64.ofNat (i + 1)), .integer (Int64.ofNat n)]
  | none => Act.fail invalidPoint

end Scriptorium.Script.Library
