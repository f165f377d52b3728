import Scriptorium.Text.Bytes

/-!
# SHA-256

The digest of bytes as FIPS 180-4 defines it. The message is padded to whole blocks of sixteen words, each
block is spread over sixty-four words, and each of these turns the state once. The constants are the
beginnings of the fractions of square and cube roots of the first primes.
-/

namespace Scriptorium.Sha256

/-! ## Constants -/

/-- The largest number whose `k`-th power is at most `n`. -/
def root (k n : Nat) : Nat :=
  ((List.range (n.log2 / k + 1)).reverse).foldl
    (fun r i => if Nat.pow (r + Nat.pow 2 i) k ≤ n then r + Nat.pow 2 i else r) 0

/-- The first 32 bits of the fraction of the `k`-th root. -/
def rootFraction (k n : Nat) : UInt32 := UInt32.ofNat (root k (n * Nat.pow 2 (32 * k)))

/-- Does nothing between one and the number divide it? -/
def isPrime (n : Nat) : Bool := 2 ≤ n && (List.range n).all fun d => d < 2 || n % d != 0

/-- The first sixty-four primes. -/
def primes : List Nat := (List.range 312).filter isPrime

def roundConstants : List UInt32 := primes.map (rootFraction 3)

/-! ## Words -/

def rotateRight (x : UInt32) (n : UInt32) : UInt32 := (x >>> n) ||| (x <<< (32 - n))

/-- Words from bytes, the highest byte first. -/
def words : List UInt8 → List UInt32
  | a :: b :: c :: d :: rest =>
    (a.toUInt32 <<< 24 ||| b.toUInt32 <<< 16 ||| c.toUInt32 <<< 8 ||| d.toUInt32) :: words rest
  | _ => []

/-- The bytes of a number with so many of them, the highest first. -/
def bigEndian (count n : Nat) : List UInt8 :=
  ((List.range count).reverse).map fun i => UInt8.ofNat (n / Nat.pow 256 i % 256)

/-- The message with a one bit, zeros and its length in bits after it, in whole blocks. -/
def padded (message : List UInt8) : List UInt8 :=
  let zeros := (119 - message.length % 64) % 64
  message ++ 0x80 :: (List.replicate zeros 0 ++ bigEndian 8 (8 * message.length))

/-- The word that follows sixteen words, of which the newest come first. -/
def nextWord (newest : List UInt32) : UInt32 :=
  let w (i : Nat) : UInt32 := (newest[i - 1]?).getD 0
  let s0 := rotateRight (w 15) 7 ^^^ rotateRight (w 15) 18 ^^^ (w 15 >>> 3)
  let s1 := rotateRight (w 2) 17 ^^^ rotateRight (w 2) 19 ^^^ (w 2 >>> 10)
  w 16 + s0 + w 7 + s1

/-- The words of a block, newest first, with so many words after them. -/
def spread : Nat → List UInt32 → List UInt32
  | 0, newest => newest
  | n + 1, newest => spread n (nextWord newest :: newest)

/-! ## Rounds -/

structure State where
  (a b c d e f g h : UInt32)
  deriving DecidableEq, Repr

def State.toList (s : State) : List UInt32 := [s.a, s.b, s.c, s.d, s.e, s.f, s.g, s.h]

/-- The state before the first block: the square roots of the first eight primes. -/
def initial : State :=
  let r := rootFraction 2
  ⟨r 2, r 3, r 5, r 7, r 11, r 13, r 17, r 19⟩

/-- A round with the sum of its constant and its word. -/
def State.round (s : State) (k : UInt32) : State :=
  let s1 := rotateRight s.e 6 ^^^ rotateRight s.e 11 ^^^ rotateRight s.e 25
  let choice := (s.e &&& s.f) ^^^ (~~~s.e &&& s.g)
  let t1 := s.h + s1 + choice + k
  let s0 := rotateRight s.a 2 ^^^ rotateRight s.a 13 ^^^ rotateRight s.a 22
  let majority := (s.a &&& s.b) ^^^ (s.a &&& s.c) ^^^ (s.b &&& s.c)
  ⟨t1 + (s0 + majority), s.a, s.b, s.c, s.d + t1, s.e, s.f, s.g⟩

def State.add (s t : State) : State :=
  ⟨s.a + t.a, s.b + t.b, s.c + t.c, s.d + t.d, s.e + t.e, s.f + t.f, s.g + t.g, s.h + t.h⟩

/-- The state after a block of sixteen words. -/
def State.absorb (s : State) (block : List UInt32) : State :=
  let spreadOut := (spread 48 block.reverse).reverse
  s.add ((List.zipWith (· + ·) roundConstants spreadOut).foldl State.round s)

/-- The state after so many blocks. -/
def State.absorbAll : Nat → State → List UInt32 → State
  | 0, s, _ => s
  | n + 1, s, ws => absorbAll n (s.absorb (ws.take 16)) (ws.drop 16)

/-! ## Digests -/

/-- The eight words of the digest. -/
def digest (message : List UInt8) : List UInt32 :=
  let ws := words (padded message)
  (State.absorbAll (ws.length / 16) initial ws).toList

/-- A word as eight hexadecimal digits. -/
def hexWord (w : UInt32) : List Char :=
  ((List.range 8).reverse).map fun i => Nat.digitChar (w.toNat / Nat.pow 16 i % 16)

/-- The digest in hexadecimal. -/
def hexDigest (message : List UInt8) : String :=
  String.ofList ((digest message).flatMap hexWord)

theorem length_bigEndian (count n : Nat) : (bigEndian count n).length = count := by
  simp [bigEndian]

/-- A padded message is a whole number of blocks. -/
theorem length_padded (message : List UInt8) : (padded message).length % 64 = 0 := by
  simp only [padded, List.length_append, List.length_cons, List.length_replicate, length_bigEndian]
  omega

end Scriptorium.Sha256
