import Scriptorium.Numbers.Integers

/-!
# Statistics

Sums and means of lists of floats. A sum starts at negative zero, the neutral element of addition, so the sum
of no numbers is `-0.0`. Numbers are ordered with NaN above infinity and `-0.0` below `0.0`.
-/

namespace Scriptorium.Numbers

/-- The sum from left to right. -/
def sum (xs : List Float) : Float := xs.foldl (· + ·) (-0.0)

def mean (xs : List Float) : Float := sum xs / Float.ofNat xs.length

/-- A number's place in the order of all floats. -/
def orderKey (x : Float) : Int :=
  let bits := x.toBits.toNat
  if bits < 0x8000000000000000 then bits else 0x7FFFFFFFFFFFFFFF - (bits : Int)

/-- The numbers in order. -/
def sorted (xs : List Float) : List Float := xs.mergeSort fun a b => orderKey a ≤ orderKey b

/-- The middle number, or the mean of the two middle ones. -/
def median (xs : List Float) : Float :=
  let ys := sorted xs
  let middle := ys.length / 2
  if ys.length % 2 = 0 then (ys.getD (middle - 1) 0 + ys.getD middle 0) / 2
  else ys.getD middle 0

/-- The standard deviation of a whole population. -/
def standardDeviation (xs : List Float) : Float :=
  let m := mean xs
  (sum (xs.map fun x => (x - m) * (x - m)) / Float.ofNat xs.length).sqrt

/-- The greater of two numbers; NaN does not count. -/
def greater (a b : Float) : Float :=
  if a.isNaN then b else if b.isNaN then a else if a < b then b else a

/-- The smaller of two numbers; NaN does not count. -/
def smaller (a b : Float) : Float :=
  if a.isNaN then b else if b.isNaN then a else if b < a then b else a

def maximum (xs : List Float) : Float := xs.foldl greater (-1.0 / 0.0)

def minimum (xs : List Float) : Float := xs.foldl smaller (1.0 / 0.0)

/-- The number to some decimal digits, a half going away from zero. -/
def roundTo (x : Float) (digits : Int64) : Except NumberError Float :=
  if 0 ≤ digits.toInt ∧ digits.toInt ≤ maxDigits then
    let factor := Float.ofNat (Nat.pow 10 digits.toInt.toNat)
    .ok ((x * factor).round / factor)
  else .error (.digitsRange digits)

end Scriptorium.Numbers
