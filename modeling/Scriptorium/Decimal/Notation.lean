import Scriptorium.Decimal.Float64

/-!
# Decimals of a given precision

A number is written with a fixed count of places, with an exponent, or in whichever of the two suits its
size. The digits are those of the exact value, rounded to nearest with ties to even.
-/

namespace Scriptorium.Decimal

/-- Digits with at least `width` places, zeros in front. -/
def paddedDigits (width n : Nat) : List Char :=
  let ds := digits n
  List.replicate (width - ds.length) '0' ++ ds

/-- A point before the last `places` digits; with none of them the point is left out unless it is kept. -/
def pointed (keepPoint : Bool) (places : Nat) (ds : List Char) : List Char :=
  let front := ds.take (ds.length - places)
  let back := ds.drop (ds.length - places)
  if places = 0 && !keepPoint then front else front ++ '.' :: back

/-- The number with a fixed count of places. -/
def Binary.fixed (keepPoint : Bool) (places : Nat) (b : Binary) : List Char :=
  let (num, den) := b.quotient
  pointed keepPoint places (paddedDigits (places + 1) (roundAt num den places))

/-- The `places + 1` leading digits of the number, and the exponent of the first of them. -/
def Binary.leading (places : Nat) (b : Binary) : Nat × Int :=
  if b.mantissa = 0 then (0, 0)
  else
    let (num, den) := b.quotient
    let exponent := b.place - 1
    let ds := roundAt num den (places - exponent)
    if ds = Nat.pow 10 (places + 1) then (ds / 10, exponent + 1) else (ds, exponent)

/-- An exponent with its sign and at least two digits. -/
def exponentText (e : Int) : List Char :=
  'e' :: (if e < 0 then '-' else '+') :: paddedDigits 2 e.natAbs

/-- The number with one digit before the point and an exponent. -/
def Binary.scientific (keepPoint : Bool) (places : Nat) (b : Binary) : List Char :=
  let (ds, e) := b.leading places
  pointed keepPoint places (paddedDigits (places + 1) ds) ++ exponentText e

/-- Takes the zeros off the end of a fraction, and its point if nothing is left of it. -/
def withoutFinalZeros (cs : List Char) : List Char :=
  if cs.contains '.' then
    match cs.reverse.dropWhile (· == '0') with
    | '.' :: rest => rest.reverse
    | rest => rest.reverse
  else cs

/-- The number with `precision` digits that count: with an exponent when it is below `1e-4` or has more
digits before the point than count, and without zeros at the end unless they are kept. -/
def Binary.general (keepZeros : Bool) (precision : Nat) (b : Binary) : List Char :=
  let places := max precision 1 - 1
  let (ds, e) := b.leading places
  if -4 ≤ e ∧ e ≤ places then
    let text := b.fixed keepZeros (places - e).toNat
    if keepZeros then text else withoutFinalZeros text
  else
    let text := pointed keepZeros places (paddedDigits (places + 1) ds)
    (if keepZeros then text else withoutFinalZeros text) ++ exponentText e

/-- The number in hexadecimal with a binary exponent. -/
def Binary.hexadecimal (b : Binary) : List Char :=
  let whole := b.mantissa / 0x10000000000000
  let fraction := (List.range 13).map fun i => Nat.digitChar (b.mantissa / Nat.pow 16 (12 - i) % 16)
  let fraction := (fraction.reverse.dropWhile (· == '0')).reverse
  let e := if b.mantissa = 0 then 0 else b.exponent + 52
  '0' :: 'x' :: digits whole ++ (if fraction.isEmpty then [] else '.' :: fraction) ++
    'p' :: (if e < 0 then '-' else '+') :: digits e.natAbs

/-- A number as scripts show it: 14 digits that count, and always with a point or an exponent. -/
def numeralText (x : Float) : String :=
  let sign := if isNegative x then "-" else ""
  if x.isNaN then "-nan"
  else if x.isInf then sign ++ "inf"
  else
    let text := (decode x).general false 14
    sign ++ String.ofList text ++ (if text.all Char.isDigit then ".0" else "")

end Scriptorium.Decimal
