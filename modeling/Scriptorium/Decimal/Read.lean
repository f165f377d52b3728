import Scriptorium.Decimal.Float64

/-!
# Reading decimal numbers

`readInt?` takes an optional sign and digits, within the signed 64-bit range. `readFloat?` takes an optional
sign and either digits with an optional point and exponent, or one of the words `inf`, `infinity` and `nan`
in any case. Neither allows blanks or separators.
-/

namespace Scriptorium.Decimal

/-- The value of a list of digits. -/
def digitsValue (ds : List Char) : Nat := ds.foldl (fun n c => 10 * n + (c.toNat - 48)) 0

/-- The digits at the start of a text, and the rest. -/
def spanDigits (cs : List Char) : List Char × List Char :=
  (cs.takeWhile Char.isDigit, cs.dropWhile Char.isDigit)

/-- A sign at the start of a text: is it a minus, and what follows. -/
def spanSign : List Char → Bool × List Char
  | '-' :: cs => (true, cs)
  | '+' :: cs => (false, cs)
  | cs => (false, cs)

/-- The number written by an optional sign and at least one digit. -/
def readWhole? (cs : List Char) : Option Int :=
  let (negative, ds) := spanSign cs
  if ds.isEmpty || !ds.all Char.isDigit then none
  else
    let n : Int := digitsValue ds
    some (if negative then -n else n)

/-- The least and the greatest signed 64-bit number. -/
def minInt64 : Int := -0x8000000000000000

def maxInt64 : Int := 0x7FFFFFFFFFFFFFFF

/-- The whole number that the text writes, when it fits in 64 bits with sign. -/
def readInt? (cs : List Char) : Option Int :=
  (readWhole? cs).bind fun n => if minInt64 ≤ n ∧ n ≤ maxInt64 then some n else none

/-- The float nearest to `n · 10 ^ e`. Beyond the exponents of any float the answer needs no arithmetic. -/
def scaled (n : Nat) (e : Int) : Float :=
  if n = 0 then 0.0
  else
    let place : Int := (digits n).length + e
    if 320 < place then 1.0 / 0.0
    else if place < -340 then 0.0
    else if 0 ≤ e then Float.ofScientific n false e.toNat
    else Float.ofScientific n true (-e).toNat

/-- An exponent: a mark, an optional sign and at least one digit. Nothing at all is the exponent zero. -/
def readExponent? : List Char → Option Int
  | [] => some 0
  | c :: cs => if c = 'e' ∨ c = 'E' then readWhole? cs else none

/-- A float written without sign by digits, at most one point and an optional exponent. -/
def readMagnitude? (cs : List Char) : Option Float :=
  let (whole, rest) := spanDigits cs
  let (fraction, rest) := match rest with
    | '.' :: more => spanDigits more
    | more => ([], more)
  if whole.isEmpty && fraction.isEmpty then none
  else
    (readExponent? rest).map fun e =>
      scaled (digitsValue (whole ++ fraction)) (e - fraction.length)

/-- The float that the text writes. -/
def readFloat? (cs : List Char) : Option Float :=
  let (negative, body) := spanSign cs
  let lower := String.ofList (body.map Char.toLower)
  let magnitude? :=
    if lower = "inf" ∨ lower = "infinity" then some (1.0 / 0.0)
    else if lower = "nan" then some (0.0 / 0.0)
    else readMagnitude? body
  magnitude?.map fun x => if negative then -x else x

end Scriptorium.Decimal
