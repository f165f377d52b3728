import Scriptorium.Script.Library.Argument

/-!
# Mathematical functions
-/

namespace Scriptorium.Script.Library

open Operation Args

def circleRatio : Float := 3.141592653589793

/-- A function of a float. -/
def ofFloat (f : Float → Float) (c : Callee) (args : List Value) : Act (List Value) := do
  return [.float (f (← float c args 1))]

/-- A float as a whole number if it fits. -/
def wholeOrFloat (x : Float) : Value :=
  match wholeOf? x with
  | some n => .integer n
  | none => .float x

/-- A rounding of a number to a whole one. -/
def rounded (f : Float → Float) (c : Callee) (args : List Value) : Act (List Value) := do
  match ← number c args 1 with
  | .float x => return [wholeOrFloat (f x)]
  | v => return [v]

def mathAbs (c : Callee) (args : List Value) : Act (List Value) := do
  match ← number c args 1 with
  | .integer n => return [.integer (if n < 0 then -n else n)]
  | .float x => return [.float x.abs]
  | v => return [v]

def mathFmod (c : Callee) (args : List Value) : Act (List Value) := do
  match ← number c args 1, ← number c args 2 with
  | .integer a, .integer b =>
    if b = 0 then c.argumentFault 2 (bytes "zero")
    else return [.integer (Int64.ofInt (a.toInt.tmod b.toInt))]
  | _, _ => return [.float (Arithmetic.truncatedRemainder (← float c args 1) (← float c args 2))]

/-- The whole part of a float, toward zero. -/
def truncated (x : Float) : Float := if x < 0.0 then x.ceil else x.floor

def mathModf (c : Callee) (args : List Value) : Act (List Value) := do
  let x ← float c args 1
  let whole := if x.isInf then x else truncated x
  let fraction := if x.isInf then 0.0 else x - whole
  return [.float whole, .float fraction]

def mathLog (c : Callee) (args : List Value) : Act (List Value) := do
  let x ← float c args 1
  if isAbsentAt args 2 then return [.float x.log]
  let base ← float c args 2
  return [.float (if base == 2.0 then x.log2 else if base == 10.0 then x.log10
    else x.log / base.log)]

def mathAtan (c : Callee) (args : List Value) : Act (List Value) := do
  let y ← float c args 1
  let x ← if isAbsentAt args 2 then pure 1.0 else float c args 2
  return [.float (y.atan2 x)]

/-- The number among the arguments from `i` on that wins against the best so far. -/
def extreme (c : Callee) (args : List Value) (wins : Value → Value → Bool) :
    List Value → Nat → Value → Act Value
  | [], _, best => .done best
  | _ :: rest, i, best => do
    let v ← number c args i
    extreme c args wins rest (i + 1) (if wins v best then v else best)

def isLess (a b : Value) : Bool := (Arithmetic.compare? .less a b).getD false

def mathExtreme (wins : Value → Value → Bool) (c : Callee) (args : List Value) : Act (List Value) := do
  let first ← number c args 1
  return [← extreme c args wins args.tail 2 first]

def mathType (c : Callee) (args : List Value) : Act (List Value) := do
  match ← any c args 1 with
  | .integer _ => return [.ofString "integer"]
  | .float _ => return [.ofString "float"]
  | _ => return [.nil]

def mathToInteger (c : Callee) (args : List Value) : Act (List Value) := do
  match (← any c args 1).integer? with
  | some n => return [.integer n]
  | none => return [.nil]

def mathUnsignedLess (c : Callee) (args : List Value) : Act (List Value) := do
  let a ← integer c args 1
  let b ← integer c args 2
  return [.boolean (a.toUInt64 < b.toUInt64)]

/-- The next random bits, with the state after them. -/
def nextRandom (seed : UInt64) : UInt64 × UInt64 :=
  let seed := seed + 0x9E3779B97F4A7C15
  let z := (seed ^^^ (seed >>> 30)) * 0xBF58476D1CE4E5B9
  let z := (z ^^^ (z >>> 27)) * 0x94D049BB133111EB
  (z ^^^ (z >>> 31), seed)

/-- Draws random bits. -/
def draw : Act UInt64 :=
  .change (fun s =>
    let (r, seed) := nextRandom s.seed
    (.integer r.toInt64, { s with seed })) fun
    | .integer n => .done n.toUInt64
    | _ => .done 0

def mathRandom (c : Callee) (args : List Value) : Act (List Value) := do
  let r ← draw
  match args.length with
  | 0 => return [.float ((r >>> 11).toNat.toFloat.scaleB (-53))]
  | 1 | 2 =>
    let low ← if args.length = 1 then pure 1 else integer c args 1
    let high ← integer c args args.length
    if args.length = 1 && high = 0 then return [.integer r.toInt64]
    if high < low then c.argumentFault args.length (bytes "interval is empty")
    let span := (high.toInt - low.toInt + 1).toNat
    return [.integer (Int64.ofInt (low.toInt + r.toNat % span))]
  | _ => Act.fail (bytes "wrong number of arguments")

def mathRandomSeed (c : Callee) (args : List Value) : Act (List Value) := do
  let n ← if args.isEmpty then pure 0.0 else float c args 1
  Act.modify fun s => { s with seed := n.toBits }
  return []

end Scriptorium.Script.Library
