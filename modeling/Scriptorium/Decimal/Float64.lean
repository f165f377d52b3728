/-!
# Floats as exact numbers

A finite 64-bit float is `m · 2 ^ q` for integers `m` and `q`. `decode` gives them, and with them the
decimal place of a float and its correctly rounded decimal digits are integer arithmetic.
-/

namespace Scriptorium.Decimal

/-- The absolute value `mantissa · 2 ^ exponent` of a finite float. -/
structure Binary where
  mantissa : Nat
  exponent : Int
  deriving DecidableEq, Repr, Inhabited

/-- Is the sign bit set? -/
def isNegative (x : Float) : Bool := x.toBits >>> 63 == 1

/-- The absolute value of a finite float; an infinity or NaN reads as the next power of two. -/
def decode (x : Float) : Binary :=
  let bits := x.toBits
  let field := ((bits >>> 52) &&& 0x7FF).toNat
  let fraction := (bits &&& 0xFFFFFFFFFFFFF).toNat
  if field = 0 then ⟨fraction, -1074⟩ else ⟨fraction + 0x10000000000000, (field : Int) - 1075⟩

/-- The number as a quotient of two naturals. -/
def Binary.quotient (b : Binary) : Nat × Nat :=
  (b.mantissa * Nat.pow 2 b.exponent.toNat, Nat.pow 2 (-b.exponent).toNat)

/-- `num / den` to the nearest natural, a tie going to the even one. -/
def roundQuotient (num den : Nat) : Nat :=
  let whole := num / den
  let twice := 2 * (num % den)
  if twice < den then whole
  else if den < twice then whole + 1
  else whole + whole % 2

/-- `num / den · 10 ^ places` to the nearest natural, a tie going to the even one. -/
def roundAt (num den : Nat) (places : Int) : Nat :=
  roundQuotient (num * Nat.pow 10 places.toNat) (den * Nat.pow 10 (-places).toNat)

/-- The least `k` from `start` on, among `fuel` ones, with `num / den < 10 ^ k`. -/
def placeFrom (num den : Nat) : Nat → Int → Int
  | 0, k => k
  | fuel + 1, k =>
    if num * Nat.pow 10 (-k).toNat < den * Nat.pow 10 k.toNat then k else placeFrom num den fuel (k + 1)

/-- The decimal place of a positive number: the least `k` with `b < 10 ^ k`. -/
def Binary.place (b : Binary) : Int :=
  let (num, den) := b.quotient
  let log2 : Int := (b.mantissa.log2 : Int) + b.exponent
  placeFrom num den 4 (log2 * 30103 / 100000 - 1)

/-- The decimal digits of a natural. -/
def digits (n : Nat) : List Char := Nat.toDigits 10 n

/-- The number `digits · 10 ^ exponent`. -/
structure Scaled where
  digits : Nat
  exponent : Int
  deriving DecidableEq, Repr, Inhabited

/-- Takes the zeros off the end of the digits. -/
def stripZeros : Nat → Nat → Int → Scaled
  | 0, d, e => ⟨d, e⟩
  | fuel + 1, d, e => if d % 10 = 0 ∧ d ≠ 0 then stripZeros fuel (d / 10) (e + 1) else ⟨d, e⟩

end Scriptorium.Decimal
