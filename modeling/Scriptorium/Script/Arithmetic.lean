import Scriptorium.Script.Numeral
import Scriptorium.Script.Code

/-!
# Arithmetic

Whole numbers have 64 bits and wrap around; division and remainder go to the floor. A whole number and a float
are compared by their exact values.
-/

namespace Scriptorium.Script

inductive ArithmeticFault where
  | divisionByZero
  | remainderByZero
  deriving DecidableEq, Repr

def ArithmeticFault.message : ArithmeticFault → String
  | .divisionByZero => "attempt to divide by zero"
  | .remainderByZero => "attempt to perform 'n%%0'"

namespace Arithmetic

/-! ## Floats -/

/-- The exact remainder of finite floats, of which the second is not zero, with the sign of the first. -/
def finiteRemainder (a b : Float) : Float :=
  let x := Decimal.decode a
  let y := Decimal.decode b
  let e := min x.exponent y.exponent
  let n := (x.mantissa * Nat.pow 2 (x.exponent - e).toNat) % (y.mantissa * Nat.pow 2 (y.exponent - e).toNat)
  let r := (Float.ofNat n).scaleB e
  if Decimal.isNegative a then -r else r

/-- The remainder with the sign of the first number. -/
def truncatedRemainder (a b : Float) : Float :=
  if a.isNaN || b.isNaN || a.isInf || b == 0.0 then 0.0 / 0.0
  else if b.isInf then a
  else finiteRemainder a b

/-- The remainder with the sign of the second number. -/
def flooredRemainder (a b : Float) : Float :=
  let r := truncatedRemainder a b
  if (if 0.0 < r then b < 0.0 else r < 0.0 && b != r && 0.0 < b) then r + b else r

def floats (op : ArithOp) (a b : Float) : Float :=
  match op with
  | .add => a + b
  | .sub => a - b
  | .mul => a * b
  | .div => a / b
  | .mod => flooredRemainder a b
  | .pow => a.pow b
  | .intDiv => (a / b).floor

/-! ## Whole numbers -/

/-- The quotient, to the floor. -/
def divide (a b : Int64) : Except ArithmeticFault Int64 :=
  if b = 0 then .error .divisionByZero else .ok (Int64.ofInt (a.toInt.fdiv b.toInt))

/-- The remainder of the division to the floor. -/
def remainder (a b : Int64) : Except ArithmeticFault Int64 :=
  if b = 0 then .error .remainderByZero else .ok (Int64.ofInt (a.toInt.fmod b.toInt))

def integers (op : ArithOp) (a b : Int64) : Except ArithmeticFault Value :=
  match op with
  | .add => .ok (.integer (a + b))
  | .sub => .ok (.integer (a - b))
  | .mul => .ok (.integer (a * b))
  | .div => .ok (.float (a.toFloat / b.toFloat))
  | .mod => (remainder a b).map .integer
  | .pow => .ok (.float (a.toFloat.pow b.toFloat))
  | .intDiv => (divide a b).map .integer

/-- An operation on numbers; nothing for other values. -/
def numbers? (op : ArithOp) : Value → Value → Option (Except ArithmeticFault Value)
  | .integer a, .integer b => some (integers op a b)
  | .integer a, .float b => some (.ok (.float (floats op a.toFloat b)))
  | .float a, .integer b => some (.ok (.float (floats op a b.toFloat)))
  | .float a, .float b => some (.ok (.float (floats op a b)))
  | _, _ => none

/-- Shifts to the left, or to the right by a negative amount; zeros come in. -/
def shiftLeft (a b : Int64) : Int64 :=
  if 64 ≤ b || b ≤ -64 then 0
  else if 0 ≤ b then (a.toUInt64 <<< b.toUInt64).toInt64
  else (a.toUInt64 >>> (-b).toUInt64).toInt64

def bits (op : BitOp) (a b : Int64) : Int64 :=
  match op with
  | .and => a &&& b
  | .or => a ||| b
  | .xor => a ^^^ b
  | .shiftLeft => shiftLeft a b
  | .shiftRight => if b = Int64.minValue then 0 else shiftLeft a (-b)

/-! ## Order -/

/-- Is the whole number below the float? -/
def integerBelow (n : Int64) (x : Float) : Bool :=
  if 9223372036854775808.0 ≤ x then true
  else if -9223372036854775808.0 < x then n < x.ceil.toInt64
  else false

/-- Is the whole number at most the float? -/
def integerAtMost (n : Int64) (x : Float) : Bool :=
  if 9223372036854775808.0 ≤ x then true
  else if -9223372036854775808.0 ≤ x then n ≤ x.floor.toInt64
  else false

/-- Is the float below the whole number? -/
def floatBelow (x : Float) (n : Int64) : Bool := !x.isNaN && !integerAtMost n x

/-- Is the float at most the whole number? -/
def floatAtMost (x : Float) (n : Int64) : Bool := !x.isNaN && !integerBelow n x

/-- Is one list of bytes before another, a shorter one before its continuations? -/
def bytesBelow : List UInt8 → List UInt8 → Bool
  | _, [] => false
  | [], _ :: _ => true
  | a :: as, b :: bs => a < b || (a == b && bytesBelow as bs)

/-- The order of numbers and of texts; nothing for other values. -/
def compare? (op : CompareOp) : Value → Value → Option Bool
  | .integer a, .integer b => some (match op with
    | .less => a < b
    | .lessEqual => a ≤ b)
  | .float a, .float b => some (match op with
    | .less => a < b
    | .lessEqual => a ≤ b)
  | .integer a, .float b => some (match op with
    | .less => integerBelow a b
    | .lessEqual => integerAtMost a b)
  | .float a, .integer b => some (match op with
    | .less => floatBelow a b
    | .lessEqual => floatAtMost a b)
  | .text a, .text b => some (match op with
    | .less => bytesBelow a.toList b.toList
    | .lessEqual => !bytesBelow b.toList a.toList)
  | _, _ => none

end Arithmetic

end Scriptorium.Script
