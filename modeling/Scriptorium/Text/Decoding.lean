/-!
# Text from bytes

Bytes that are UTF-8 are read as such. Others are read as Windows-1252, unless a byte order mark at their
start names another encoding; what that encoding does not allow becomes a replacement character.
-/

namespace Scriptorium.Text

/-- Stands for what cannot be decoded. -/
def replacement : Char := '\uFFFD'

/-! ## Windows-1252 -/

/-- The characters of the bytes from 128 to 159. -/
def windows1252Controls : List Char :=
  ['\u20AC', '\u0081', '\u201A', '\u0192', '\u201E', '\u2026', '\u2020', '\u2021', '\u02C6', '\u2030',
   '\u0160', '\u2039', '\u0152', '\u008D', '\u017D', '\u008F', '\u0090', '\u2018', '\u2019', '\u201C',
   '\u201D', '\u2022', '\u2013', '\u2014', '\u02DC', '\u2122', '\u0161', '\u203A', '\u0153', '\u009D',
   '\u017E', '\u0178']

/-- The Windows-1252 character of a byte. -/
def windows1252Char (b : UInt8) : Char :=
  let n := b.toNat
  if 128 ≤ n ∧ n < 160 then windows1252Controls.getD (n - 128) replacement else Char.ofNat n

/-! ## UTF-8 with replacements -/

/-- The number of bytes that follow a first byte; zero when it cannot begin a longer sequence. -/
def trailingCount (lead : Nat) : Nat :=
  if 0xC2 ≤ lead ∧ lead ≤ 0xDF then 1
  else if 0xE0 ≤ lead ∧ lead ≤ 0xEF then 2
  else if 0xF0 ≤ lead ∧ lead ≤ 0xF4 then 3
  else 0

/-- May the byte come second after the first one? -/
def canComeSecond (lead b : Nat) : Bool :=
  (if lead = 0xE0 then 0xA0 else if lead = 0xF0 then 0x90 else 0x80) ≤ b &&
    b ≤ (if lead = 0xED then 0x9F else if lead = 0xF4 then 0x8F else 0xBF)

/-- The bytes that continue a sequence, at most `count`. -/
def continuation (lead count : Nat) : List UInt8 → List UInt8
  | [] => []
  | b :: bs =>
    if count = 0 ∨ !canComeSecond lead b.toNat then []
    else b :: (bs.take (count - 1)).takeWhile fun b => 0x80 ≤ b.toNat && b.toNat ≤ 0xBF

/-- The character of a first byte and its continuation. -/
def assemble (lead : Nat) (more : List UInt8) : Char :=
  let bits := match more.length with
    | 0 => lead
    | 1 => lead % 32
    | 2 => lead % 16
    | _ => lead % 8
  Char.ofNat (more.foldl (fun n b => 64 * n + b.toNat % 64) bits)

/-- UTF-8, where each longest part of a sequence that breaks off becomes a replacement character. -/
def decodeUtf8Lossy : List UInt8 → List Char
  | [] => []
  | b :: bs =>
    let lead := b.toNat
    let count := trailingCount lead
    let more := continuation lead count bs
    let c := if lead < 128 ∨ (0 < count ∧ more.length = count) then assemble lead more else replacement
    c :: decodeUtf8Lossy (bs.drop more.length)
termination_by bytes => bytes.length
decreasing_by simp only [List.length_drop, List.length_cons]; omega

/-- Where bytes stop being UTF-8. -/
structure Utf8Fault where
  /-- The number of bytes before the fault. -/
  index : Nat
  /-- The number of wrong bytes; none when the bytes end within a sequence. -/
  length? : Option Nat
  deriving DecidableEq, Repr

def Utf8Fault.message (f : Utf8Fault) : String :=
  match f.length? with
  | some n => "invalid utf-8 sequence of " ++ toString n ++ " bytes from index " ++ toString f.index
  | none => "incomplete utf-8 byte sequence from index " ++ toString f.index

/-- The first fault, when the bytes begin at an index. -/
def utf8FaultFrom (index : Nat) : List UInt8 → Option Utf8Fault
  | [] => none
  | b :: bs =>
    let lead := b.toNat
    let count := trailingCount lead
    let more := continuation lead count bs
    if lead < 128 ∨ (0 < count ∧ more.length = count) then
      utf8FaultFrom (index + 1 + more.length) (bs.drop more.length)
    else if 0 < count ∧ more.length = bs.length then some ⟨index, none⟩
    else some ⟨index, some (1 + more.length)⟩
termination_by bytes => bytes.length
decreasing_by simp only [List.length_drop, List.length_cons]; omega

/-- The first fault of bytes that are not UTF-8. -/
def utf8Fault? (bytes : ByteArray) : Option Utf8Fault := utf8FaultFrom 0 bytes.toList

/-! ## UTF-16 with replacements -/

/-- The 16-bit units of bytes, and whether one byte is left over. -/
def units16 (bigEndian : Bool) : List UInt8 → List Nat × Bool
  | a :: b :: bs =>
    let unit := if bigEndian then 256 * a.toNat + b.toNat else 256 * b.toNat + a.toNat
    let (units, odd) := units16 bigEndian bs
    (unit :: units, odd)
  | [_] => ([], true)
  | [] => ([], false)

def isHighSurrogate (u : Nat) : Bool := 0xD800 ≤ u && u ≤ 0xDBFF

def isLowSurrogate (u : Nat) : Bool := 0xDC00 ≤ u && u ≤ 0xDFFF

/-- The character of a surrogate pair. -/
def pairChar (high low : Nat) : Char :=
  Char.ofNat (0x10000 + 0x400 * (high - 0xD800) + (low - 0xDC00))

/-- The characters of 16-bit units; `odd` tells that a byte follows the last one. -/
def decodeUnits (odd : Bool) : List Nat → List Char
  | [] => if odd then [replacement] else []
  | [u] =>
    if isHighSurrogate u then [replacement]
    else (if isLowSurrogate u then replacement else Char.ofNat u) :: decodeUnits odd []
  | u :: v :: us =>
    if isHighSurrogate u && isLowSurrogate v then pairChar u v :: decodeUnits odd us
    else
      (if isHighSurrogate u || isLowSurrogate u then replacement else Char.ofNat u) ::
        decodeUnits odd (v :: us)

def decodeUtf16 (bigEndian : Bool) (bytes : List UInt8) : List Char :=
  let (units, odd) := units16 bigEndian bytes
  decodeUnits odd units

/-! ## Any bytes -/

/-- Bytes in a single-byte encoding, or in the one that their byte order mark names. -/
def decodeMarked : List UInt8 → List Char
  | 0xEF :: 0xBB :: 0xBF :: bs => decodeUtf8Lossy bs
  | 0xFF :: 0xFE :: bs => decodeUtf16 false bs
  | 0xFE :: 0xFF :: bs => decodeUtf16 true bs
  | bs => bs.map windows1252Char

/-- The text of bytes, whatever they are. -/
def decodeAny (bytes : ByteArray) : String :=
  match String.fromUTF8? bytes with
  | some text => text
  | none => String.ofList (decodeMarked bytes.toList)

end Scriptorium.Text
