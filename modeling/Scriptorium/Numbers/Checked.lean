/-!
# Arithmetic in 64 bits

Operations on 64-bit numbers where a result may not fit. `fit?` is a whole number in 64 bits, if there is
one. An operation that has to have a result and has none ends the program with a `Fault`.
-/

namespace Scriptorium.Numbers

/-- An operation without a result, at which the program ends. -/
inductive Fault where
  | addOverflow
  | divideByZero
  | divideOverflow
  | remainderByZero
  | remainderOverflow
  deriving DecidableEq, Repr

def Fault.message : Fault → String
  | .addOverflow => "attempt to add with overflow"
  | .divideByZero => "attempt to divide by zero"
  | .divideOverflow => "attempt to divide with overflow"
  | .remainderByZero => "attempt to calculate the remainder with a divisor of zero"
  | .remainderOverflow => "attempt to calculate the remainder with overflow"

/-- A whole number as a 64-bit number with sign, if it fits. -/
def fit? (n : Int) : Option Int64 :=
  if h : Int64.minValue.toInt ≤ n ∧ n ≤ Int64.maxValue.toInt then some (Int64.ofIntLE n h.1 h.2) else none

/-- A whole number as a 64-bit number with sign, or the error if it does not fit. -/
def fitOr (e : ε) (n : Int) : Except ε Int64 :=
  match fit? n with
  | some m => .ok m
  | none => .error e

theorem fit?_eq_some_iff {n : Int} {m : Int64} : fit? n = some m ↔ m.toInt = n := by
  unfold fit?
  split
  next h =>
    rw [Option.some.injEq, ← Int64.toInt_inj, Int64.toInt_ofIntLE]
    exact eq_comm
  next h =>
    refine iff_of_false nofun ?_
    rintro rfl
    exact h ⟨m.minValue_le_toInt, m.toInt_le⟩

theorem fit?_eq_none_iff {n : Int} :
    fit? n = none ↔ n < Int64.minValue.toInt ∨ Int64.maxValue.toInt < n := by
  unfold fit?
  split
  next h => exact iff_of_false nofun (by omega)
  next h => exact iff_of_true rfl (by omega)

theorem exists_fit? {n : Int} (hlow : Int64.minValue.toInt ≤ n) (hhigh : n ≤ Int64.maxValue.toInt) :
    ∃ m, fit? n = some m ∧ m.toInt = n :=
  ⟨Int64.ofIntLE n hlow hhigh, fit?_eq_some_iff.2 Int64.toInt_ofIntLE, Int64.toInt_ofIntLE⟩

theorem fitOr_eq_ok_iff {e : ε} {n : Int} {m : Int64} : fitOr e n = .ok m ↔ m.toInt = n := by
  rw [← fit?_eq_some_iff, fitOr]
  cases fit? n <;> simp

theorem fitOr_eq_error_iff {e e' : ε} {n : Int} :
    fitOr e n = .error e' ↔ e' = e ∧ (n < Int64.minValue.toInt ∨ Int64.maxValue.toInt < n) := by
  rw [← fit?_eq_none_iff, fitOr]
  cases fit? n <;> simp [eq_comm]

def add (a b : Int64) : Except Fault Int64 := fitOr .addOverflow (a.toInt + b.toInt)

/-- The quotient, rounded towards zero. -/
def divide (a b : Int64) : Except Fault Int64 :=
  if b = 0 then .error .divideByZero else fitOr .divideOverflow (a.toInt.tdiv b.toInt)

/-- The remainder, with the sign of the dividend. -/
def remainder (a b : Int64) : Except Fault Int64 :=
  if b = 0 then .error .remainderByZero
  else if a = Int64.minValue ∧ b = -1 then .error .remainderOverflow
  else .ok (a % b)

/-- The remainder of numbers without sign. -/
def remainderUnsigned (a b : UInt64) : Except Fault UInt64 :=
  if b = 0 then .error .remainderByZero else .ok (a % b)

/-- The product, if it fits. -/
def multiply? (a b : Int64) : Option Int64 := fit? (a.toInt * b.toInt)

/-- The product, or the greatest or least number if it lies beyond. -/
def multiplySaturating (a b : Int64) : Int64 := Int64.ofIntClamp (a.toInt * b.toInt)

/-- The absolute value without sign. It always fits. -/
def magnitude (a : Int64) : UInt64 := UInt64.ofNat a.toInt.natAbs

/-- The absolute value, if it fits. -/
def absolute? (a : Int64) : Option Int64 := fit? a.toInt.natAbs

end Scriptorium.Numbers
