import Scriptorium.Script.Value
import Scriptorium.Decimal.Notation
import Scriptorium.Decimal.Read

/-!
# Numbers as texts

A numeral is decimal or hexadecimal, with an optional fraction and exponent; without these it is a whole
number when it fits. Texts are lists of characters that stand for bytes, one character each.
-/

namespace Scriptorium.Script

/-- Bytes as characters, one for each byte. -/
def charsOf (b : Bytes) : List Char := b.toList.map fun x => Char.ofNat x.toNat

/-- The bytes that characters below 256 stand for. -/
def bytesOf (cs : List Char) : Bytes := ⟨(cs.map fun c => UInt8.ofNat c.toNat).toArray⟩

/-- The blanks of a script. -/
def isBlank (c : Char) : Bool := c = ' ' || ('\t' ≤ c && c ≤ '\r')

/-- The value of a digit in bases up to 36. -/
def digitValue? (c : Char) : Option Nat :=
  if c.isDigit then some (c.toNat - 48)
  else if c.isLower then some (c.toNat - 87)
  else if c.isUpper then some (c.toNat - 55)
  else none

def isHexDigit (c : Char) : Bool := (digitValue? c).any (· < 16)

/-- The value of digits in a base. -/
def valueInBase (base : Nat) (ds : List Char) : Nat :=
  ds.foldl (fun n c => base * n + (digitValue? c).getD 0) 0

namespace Numeral

/-- `n · 2 ^ e` as a float. -/
def binaryFloat (n : Nat) (e : Int) : Float := (Float.ofNat n).scaleB e

/-- A binary exponent: nothing at all, or a mark and a whole number. -/
def readBinaryExponent? : List Char → Option Int
  | [] => some 0
  | c :: cs => if c = 'p' ∨ c = 'P' then Decimal.readWhole? cs else none

/-- A hexadecimal numeral after its mark. Without fraction and exponent it is a whole number, which wraps
around at 64 bits. -/
def readHexadecimal? (cs : List Char) : Option Value :=
  let whole := cs.takeWhile isHexDigit
  match cs.drop whole.length with
  | [] => if whole.isEmpty then none else some (.integer (Int64.ofNat (valueInBase 16 whole)))
  | rest =>
    let (fraction, rest) := match rest with
      | '.' :: more => (more.takeWhile isHexDigit, more.dropWhile isHexDigit)
      | more => ([], more)
    if whole.isEmpty && fraction.isEmpty then none
    else
      (readBinaryExponent? rest).map fun e =>
        .float (binaryFloat (valueInBase 16 (whole ++ fraction)) (e - 4 * fraction.length))

/-- A decimal numeral: digits alone are a whole number when it fits. -/
def readDecimal? (negative : Bool) (cs : List Char) : Option Value :=
  let asFloat := (Decimal.readMagnitude? cs).map Value.float
  if !cs.isEmpty && cs.all Char.isDigit then
    let n := Decimal.digitsValue cs
    if n < 0x8000000000000000 + (if negative then 1 else 0) then some (.integer (Int64.ofNat n)) else asFloat
  else asFloat

/-- A numeral without a sign. -/
def readUnsigned? (negative : Bool) : List Char → Option Value
  | '0' :: 'x' :: cs | '0' :: 'X' :: cs => readHexadecimal? cs
  | cs => readDecimal? negative cs

def negated : Value → Value
  | .integer n => .integer (-n)
  | .float x => .float (-x)
  | v => v

/-- A text without the blanks around it. -/
def trimmed (cs : List Char) : List Char :=
  ((cs.dropWhile isBlank).reverse.dropWhile isBlank).reverse

/-- The number that a text writes, with blanks around it and a sign. -/
def read? (cs : List Char) : Option Value :=
  match trimmed cs with
  | '-' :: cs => (readUnsigned? true cs).map negated
  | '+' :: cs => readUnsigned? false cs
  | cs => readUnsigned? false cs

/-- The whole number that a text writes in a base, with blanks around it and a minus. It wraps around. -/
def readInBase? (base : Nat) (cs : List Char) : Option Int64 :=
  let (negative, ds) := match trimmed cs with
    | '-' :: ds => (true, ds)
    | ds => (false, ds)
  if !ds.isEmpty && ds.all fun c => (digitValue? c).any (· < base) then
    let n := Int64.ofNat (valueInBase base ds)
    some (if negative then -n else n)
  else none

end Numeral

/-- The text of a number. -/
def Value.numeral? : Value → Option Bytes
  | .integer n => some (bytes (toString n.toInt))
  | .float x => some (bytes (Decimal.numeralText x))
  | _ => none

/-- The number that a number or a text stands for. -/
def Value.number? : Value → Option Value
  | .integer n => some (.integer n)
  | .float x => some (.float x)
  | .text b => Numeral.read? (charsOf b)
  | _ => none

/-- The float that a number or a text stands for. -/
def Value.float? (v : Value) : Option Float :=
  match v.number? with
  | some (.integer n) => some n.toFloat
  | some (.float x) => some x
  | _ => none

/-- The whole number that a number or a text stands for. -/
def Value.integer? (v : Value) : Option Int64 :=
  match v.number? with
  | some (.integer n) => some n
  | some (.float x) => wholeOf? x
  | _ => none

/-- The bytes of a text or of a number's text. -/
def Value.text? : Value → Option Bytes
  | .text b => some b
  | v => v.numeral?

end Scriptorium.Script
