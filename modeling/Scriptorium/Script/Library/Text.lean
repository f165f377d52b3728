import Scriptorium.Script.Library.Argument
import Scriptorium.Script.Library.Pattern

/-!
# Functions on texts

Positions count bytes from one, and from the end when they are negative.
-/

namespace Scriptorium.Script.Library

open Operation Args

/-- Raises the error of a faulty pattern. -/
def ofPattern : Except String α → Act α
  | .ok a => .done a
  | .error e => .fail (bytes e)

/-- The first position that a start names, within the text. -/
def startPosition (n : Int64) (size : Nat) : Nat :=
  if 0 < n then n.toNatClampNeg
  else if n = 0 then 1
  else
    let i := (size : Int) + n.toInt + 1
    if i < 1 then 1 else i.toNat

/-- The last position that an end names, within the text. -/
def endPosition (n : Int64) (size : Nat) : Nat :=
  if 0 ≤ n then min n.toNatClampNeg size
  else ((size : Int) + n.toInt + 1).toNat

def textLength (c : Callee) (args : List Value) : Act (List Value) := do
  return [.integer (Int64.ofNat (← Args.text c args 1).size)]

def textSub (c : Callee) (args : List Value) : Act (List Value) := do
  let b ← Args.text c args 1
  let first := startPosition (← integer c args 2) b.size
  let last := endPosition (← integerOr c args 3 (-1)) b.size
  return [.text (b.extract (first - 1) last)]

/-- A text with each byte changed. -/
def mapBytes (f : Char → Char) (c : Callee) (args : List Value) : Act (List Value) := do
  let b ← Args.text c args 1
  return [.text (bytesOf ((charsOf b).map f))]

def textReverse (c : Callee) (args : List Value) : Act (List Value) := do
  let b ← Args.text c args 1
  return [.text ⟨b.data.reverse⟩]

/-- A text several times, with a separator between. -/
def repeatedBytes (b separator : Bytes) : Nat → Bytes → Bytes
  | 0, done => done
  | 1, done => done ++ b
  | n + 2, done => repeatedBytes b separator (n + 1) (done ++ b ++ separator)

/-- How long a text can be. -/
def textLimit : Nat := 0x80000000

def textRepeat (c : Callee) (args : List Value) : Act (List Value) := do
  let b ← Args.text c args 1
  let n ← integer c args 2
  let separator ← textOr c args 3 .empty
  if textLimit ≤ (b.size + separator.size) * n.toNatClampNeg then
    Act.fail (bytes "resulting string too large")
  else return [.text (repeatedBytes b separator n.toNatClampNeg .empty)]

def textByte (c : Callee) (args : List Value) : Act (List Value) := do
  let b ← Args.text c args 1
  let i ← integerOr c args 2 1
  let first := startPosition i b.size
  let last := endPosition (← integerOr c args 3 (Int64.ofNat first)) b.size
  return (b.extract (first - 1) last).toList.map fun x => .integer (Int64.ofNat x.toNat)

/-- The bytes of codes, checked in order. -/
def codeBytes (c : Callee) (args : List Value) : Nat → List Value → Act (List UInt8)
  | _, [] => .done []
  | i, _ :: rest => do
    let n ← integer c args i
    if 0 ≤ n && n ≤ 255 then return n.toNatClampNeg.toUInt8 :: (← codeBytes c args (i + 1) rest)
    else c.argumentFault i (bytes "value out of range")

def textChar (c : Callee) (args : List Value) : Act (List Value) := do
  return [.text ⟨(← codeBytes c args 1 args).toArray⟩]

/-! ## Searching -/

/-- Has a pattern no character with a meaning of its own? -/
def isPlain (pattern : Bytes) : Bool :=
  (charsOf pattern).all fun c => !"^$*+?.([%-".toList.contains c

/-- The first position from `i` on where a text is found. -/
def findPlain (b needle : Bytes) : Nat → Nat → Option Nat
  | 0, _ => none
  | fuel + 1, i =>
    if b.extract i (i + needle.size) == needle && i + needle.size ≤ b.size then some i
    else findPlain b needle fuel (i + 1)

/-- Searches a text, for the place of a match or for its captures. -/
def searchText (wantPlace : Bool) (c : Callee) (args : List Value) : Act (List Value) := do
  let b ← Args.text c args 1
  let pattern ← Args.text c args 2
  let first := startPosition (← integerOr c args 3 1) b.size
  if b.size + 1 < first then return [.nil]
  let place (i j : Nat) : List Value :=
    [.integer (Int64.ofNat (i + 1)), .integer (Int64.ofNat j)]
  if wantPlace && ((value args 4).isTrue || isPlain pattern) then
    match findPlain b pattern (b.size + 2 - first) (first - 1) with
    | some i => return place i (i + pattern.size)
    | none => return [.nil]
  let (bound, ps) := Pattern.read pattern
  let tries := if bound then 1 else b.size + 2 - first
  match ← ofPattern (Pattern.search b ps tries (first - 1)) with
  | none => return [.nil]
  | some (i, j, captures) =>
    if wantPlace then return place i j ++ (← ofPattern (Pattern.captureValues b captures))
    else ofPattern (Pattern.found b i j captures)

def globalMatch (c : Callee) (args : List Value) : Act (List Value) := do
  let b ← Args.text c args 1
  let pattern ← Args.text c args 2
  let first := startPosition (← integerOr c args 3 1) b.size
  return [← Act.newClosure (.matches b pattern (min (first - 1) (b.size + 1)) none)]

/-- The first match from a position on that does not end where the last one did. -/
def nextMatch (b : Bytes) (ps : List Pattern.Piece) (last? : Option Nat) :
    Nat → Nat → Except String (Option (Nat × Nat × List Pattern.Capture))
  | 0, _ => .ok none
  | fuel + 1, i =>
    match Pattern.matchPieces b ps i [] with
    | .error e => .error e
    | .ok (some (j, captures)) =>
      if last? = some j then nextMatch b ps last? fuel (i + 1) else .ok (some (i, j, captures))
    | .ok none => nextMatch b ps last? fuel (i + 1)

/-- The next match of an iterator over matches. -/
def matchesStep (place : Nat) (b pattern : Bytes) (next : Nat) (last? : Option Nat) :
    Act (List Value) := do
  let ps := Pattern.readUnbound pattern
  match ← ofPattern (nextMatch b ps last? (b.size + 1 - next) next) with
  | none => return [.nil]
  | some (i, j, captures) =>
    Act.modify fun s =>
      { s with closures := s.closures.set! place (.matches b pattern j (some j)) }
    ofPattern (Pattern.found b i j captures)

/-! ## Replacing -/

/-- A text in which `%` and a digit stand for a capture. -/
def expand (whole : Bytes) (vs : List Value) : List Char → Except String (List Char)
  | [] => .ok []
  | '%' :: d :: cs => do
    let rest ← expand whole vs cs
    if d = '%' then return '%' :: rest
    else if d = '0' then return charsOf whole ++ rest
    else if d.isDigit then
      match vs[d.toNat - 49]? with
      | some v => return charsOf ((v.text?).getD .empty) ++ rest
      | none =>
        .error ("invalid capture index %" ++ String.singleton d ++ " in replacement string")
    else .error "invalid use of '%' in replacement string"
  | ['%'] => .error "invalid use of '%' in replacement string"
  | c :: cs => return c :: (← expand whole vs cs)

/-- What a match is replaced by. -/
def replacement (replacer : Value) (whole : Bytes) (vs : List Value) : Act Bytes := do
  let v ← match replacer with
    | .table _ => index .unknown replacer (firstOf vs)
    | .closure _ | .builtin _ => (Act.invoke replacer vs).bind fun rs => .done (firstOf rs)
    | r =>
      (ofPattern (expand whole vs (charsOf ((r.text?).getD .empty)))).bind fun cs =>
        .done (.text (bytesOf cs))
  match v with
  | .nil | .boolean false => return whole
  | v =>
    match v.text? with
    | some b => return b
    | none => Act.fail (bytes ("invalid replacement value (a " ++ v.typeName ++ ")"))

/-- Replaces matches from a position on: what is done so far, the number of matches, and the end of the last
match are given. -/
def replaceFrom (b : Bytes) (bound : Bool) (ps : List Pattern.Piece) (replacer : Value)
    (limit : Nat) : Nat → Nat → Option Nat → Bytes → Nat → Act (Bytes × Nat)
  | 0, i, _, done, count => .done (done ++ b.extract i b.size, count)
  | fuel + 1, i, last?, done, count => do
    if limit ≤ count then return (done ++ b.extract i b.size, count)
    let skip : Act (Bytes × Nat) :=
      if i < b.size && !bound then
        replaceFrom b bound ps replacer limit fuel (i + 1) last? (done ++ b.extract i (i + 1)) count
      else .done (done ++ b.extract i b.size, count)
    match ← ofPattern (Pattern.matchPieces b ps i []) with
    | none => skip
    | some (j, captures) =>
      if last? = some j then skip
      else
        let vs ← ofPattern (Pattern.found b i j captures)
        let r ← replacement replacer (b.extract i j) vs
        if bound then return (done ++ r ++ b.extract j b.size, count + 1)
        else replaceFrom b bound ps replacer limit fuel j (some j) (done ++ r) (count + 1)

def textReplace (c : Callee) (args : List Value) : Act (List Value) := do
  let b ← Args.text c args 1
  let pattern ← Args.text c args 2
  let replacer := value args 3
  match replacer with
  | .table _ | .closure _ | .builtin _ | .text _ | .integer _ | .float _ => pure ()
  | _ => typeFault c args 3 "string/function/table"
  let limit ← integerOr c args 4 (Int64.ofNat (b.size + 1))
  let (bound, ps) := Pattern.read pattern
  let (done, count) ←
    replaceFrom b bound ps replacer limit.toNatClampNeg (2 * b.size + 2) 0 none .empty 0
  return [.text done, .integer (Int64.ofNat count)]

end Scriptorium.Script.Library
