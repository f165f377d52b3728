import Scriptorium.Decimal.Float64

/-!
# The shortest decimal that reads back

`shortest` gives the fewest decimal digits that round to a float, and of those the nearest to it. The reals
that round to `m · 2 ^ q` are an interval around it, which includes its ends exactly when `m` is even. On
each grid of 1, 2, …, 17 digits only the two neighbours of the float have to be tried. Where both are equally
near, each of the two ways to write floats has its own rule.

`positional` writes the digits without an exponent; `scientific` uses one for very large and very small
numbers.
-/

namespace Scriptorium.Decimal

/-- The ends of the interval of reals that round to the float, in quarters of its unit. -/
def Binary.interval (b : Binary) : Nat × Nat :=
  let low := if b.mantissa = 0x10000000000000 ∧ -1074 < b.exponent then 1 else 2
  (4 * b.mantissa - low, 4 * b.mantissa + 2)

/-- Does the decimal round to the float? -/
def Binary.admits (b : Binary) (d : Scaled) : Bool :=
  let (low, high) := b.interval
  let unit := b.exponent - 2
  let scaled := d.digits * Nat.pow 10 d.exponent.toNat * Nat.pow 2 (-unit).toNat
  let factor := Nat.pow 10 (-d.exponent).toNat * Nat.pow 2 unit.toNat
  if b.mantissa % 2 = 0 then low * factor ≤ scaled && scaled ≤ high * factor
  else low * factor < scaled && scaled < high * factor

/-- Which of two candidates is taken when both are equally near. -/
inductive TieRule where
  | upper
  | even
  deriving DecidableEq, Repr

/-- Is the lower of the candidates `below` and `below + 1` to be tried first, when the float lies `rest / den`
above it? -/
def TieRule.takesLower (tie : TieRule) (below rest den : Nat) : Bool :=
  2 * rest < den || (2 * rest == den && tie == .even && below % 2 == 0)

/-- The candidate on the grid of `10 ^ e` that rounds to the float, the nearer one if both do. -/
def Binary.onGrid? (tie : TieRule) (b : Binary) (e : Int) : Option Scaled :=
  let (num, den) := b.quotient
  let num := num * Nat.pow 10 (-e).toNat
  let den := den * Nat.pow 10 e.toNat
  let below := num / den
  let nearFirst :=
    if tie.takesLower below (num % den) den then [below, below + 1] else [below + 1, below]
  (nearFirst.map fun d => (⟨d, e⟩ : Scaled)).find? b.admits

/-- The first grid of at most `count` digits with a candidate, from the coarsest on. -/
def Binary.searchGrids (tie : TieRule) (b : Binary) (place : Int) : Nat → Nat → Scaled
  | 0, n => ⟨0, n⟩
  | count + 1, n =>
    match b.onGrid? tie (place - n) with
    | some d => d
    | none => searchGrids tie b place count (n + 1)

/-- The fewest digits that round to the positive number, and of those the nearest to it. -/
def Binary.shortest (tie : TieRule) (b : Binary) : Scaled :=
  if b.mantissa = 0 then ⟨0, 0⟩
  else
    let d := b.searchGrids tie b.place 17 1
    stripZeros 20 d.digits d.exponent

/-- The digits of a decimal with a point where it belongs and no exponent. -/
def Scaled.positional (d : Scaled) : List Char :=
  let text := Decimal.digits d.digits
  if 0 ≤ d.exponent then
    if d.digits = 0 then ['0'] else text ++ List.replicate d.exponent.toNat '0'
  else
    let places := (-d.exponent).toNat
    if places < text.length then
      text.take (text.length - places) ++ '.' :: text.drop (text.length - places)
    else '0' :: '.' :: (List.replicate (places - text.length) '0' ++ text)

/-- A float with the fewest digits that read back, never with an exponent and without a needless point; a tie
goes to the upper digits. -/
def shortestText (x : Float) : String :=
  if x.isNaN then "NaN"
  else if x.isInf then (if isNegative x then "-inf" else "inf")
  else
    let text := String.ofList ((decode x).shortest .upper).positional
    if isNegative x then "-" ++ text else text

/-- A finite float with the fewest digits that read back, always with a point or an exponent; an exponent is
used from `1e16` on and below `1e-5`, and a tie goes to the even digits. -/
def pointedText (x : Float) : String :=
  let d := (decode x).shortest .even
  let text := digits d.digits
  let place : Int := text.length + d.exponent
  let body : List Char :=
    if d.digits = 0 then ['0', '.', '0']
    else if 0 ≤ d.exponent ∧ place ≤ 16 then d.positional ++ ['.', '0']
    else if -5 < place ∧ place ≤ 16 then d.positional
    else
      let front := match text with
        | [c] => [c]
        | c :: cs => c :: '.' :: cs
        | [] => []
      front ++ 'e' :: (toString (place - 1)).toList
  (if isNegative x then "-" else "") ++ String.ofList body

end Scriptorium.Decimal
