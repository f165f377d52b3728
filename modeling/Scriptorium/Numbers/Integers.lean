import Scriptorium.Numbers.Checked

/-!
# Whole numbers

Number-theoretic helpers on 64-bit numbers with sign. Each fails when its result does not fit.
-/

namespace Scriptorium.Numbers

inductive NumberError where
  | factorialRange (n : Int64)
  | gcdOverflow
  | lcmOverflow
  | fibonacciRange (count : Int64)
  | digitsRange (digits : Int64)
  /-- The program ended in the midst of it. -/
  | fault (f : Fault)
  deriving DecidableEq, Repr

/-- The greatest argument of `factorial`. -/
def maxFactorial : Int := 20

/-- The greatest number of Fibonacci numbers that fit. -/
def maxFibonacci : Int := 93

/-- The most digits to round to. -/
def maxDigits : Int := 15

def NumberError.message : NumberError → String
  | .factorialRange n =>
    "factorial is defined here for 0..=" ++ toString maxFactorial ++ " (got " ++ toString n.toInt ++ ")"
  | .gcdOverflow => "gcd overflows an integer"
  | .lcmOverflow => "lcm overflows an integer"
  | .fibonacciRange n =>
    "count must be between 1 and " ++ toString maxFibonacci ++ " (got " ++ toString n.toInt ++ ")"
  | .digitsRange n =>
    "digits must be between 0 and " ++ toString maxDigits ++ " (got " ++ toString n.toInt ++ ")"
  | .fault f => f.message

/-- The product of the numbers from one to `n`. -/
def product : Nat → Nat
  | 0 => 1
  | n + 1 => (n + 1) * product n

def factorial (n : Int64) : Except NumberError Int64 :=
  if 0 ≤ n.toInt ∧ n.toInt ≤ maxFactorial then .ok (Int64.ofNat (product n.toInt.toNat))
  else .error (.factorialRange n)

/-- The last number but zero that is reached when the greater of two numbers gives way to the remainder of their
division, again and again. -/
def euclid (a b : UInt64) : Except Fault UInt64 :=
  if b = 0 then .ok a
  else
    match _h : remainderUnsigned a b with
    | .ok r => euclid b r
    | .error f => .error f
termination_by b.toNat
decreasing_by
  rename_i hb
  rw [remainderUnsigned, if_neg hb] at _h
  cases _h
  rw [UInt64.toNat_mod]
  exact Nat.mod_lt _ (Nat.pos_of_ne_zero fun h0 => hb (UInt64.toNat_inj.1 h0))

def gcd (a b : Int64) : Except NumberError Int64 := do
  let g ← (euclid (magnitude a) (magnitude b)).mapError .fault
  fitOr .gcdOverflow g.toNat

/-- The least common multiple, which is zero when one of the numbers is. -/
def lcm (a b : Int64) : Except NumberError Int64 :=
  if a = 0 ∨ b = 0 then .ok 0
  else do
    let g ← gcd a b
    let q ← (divide a g).mapError .fault
    match (multiply? q b).bind absolute? with
    | some m => .ok m
    | none => .error .lcmOverflow

/-- Does none of the numbers `d`, `d + 2` and so on divide `n`, as far as their squares do not exceed it? A square
beyond 64 bits is taken for the greatest number. -/
def noDivisorFrom (n d : Int64) : Except Fault Bool :=
  if multiplySaturating d d ≤ n then
    match remainder n d with
    | .error f => .error f
    | .ok r =>
      if r = 0 then .ok false
      else
        match _h : add d 2 with
        | .ok next => noDivisorFrom n next
        | .error f => .error f
  else .ok true
termination_by (Int64.maxValue.toInt - d.toInt).toNat
decreasing_by
  have hsum : next.toInt = d.toInt + 2 := fitOr_eq_ok_iff.1 _h
  have := next.toInt_le
  omega

/-- Is it a prime number, as far as dividing by two and by odd numbers tells? -/
def trialDivision (n : Int64) : Except Fault Bool :=
  if n < 2 then .ok false
  else do
    let r ← remainder n 2
    if r = 0 then return n == 2
    noDivisorFrom n 3

def isPrime (n : Int64) : Bool := trialDivision n matches .ok true

/-- The next `count` Fibonacci numbers after two neighbours. -/
def fibonacciFrom : Nat → Nat → Nat → List Nat
  | 0, _, _ => []
  | count + 1, a, b => a :: fibonacciFrom count b (a + b)

/-- The first Fibonacci numbers, from zero on. -/
def fibonacci (count : Int64) : Except NumberError (List Int64) :=
  if 1 ≤ count.toInt ∧ count.toInt ≤ maxFibonacci then
    .ok ((fibonacciFrom count.toInt.toNat 0 1).map Int64.ofNat)
  else .error (.fibonacciRange count)

end Scriptorium.Numbers
