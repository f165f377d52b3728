import Scriptorium.Json.Value
import Scriptorium.Decimal.Read
import Scriptorium.Text.Decoding

/-!
# Reading JSON

A strict reader: no comments, no commas at the end, no leading zeros, and nothing but blanks after the value.
A number without fraction and exponent is an integer of any size; all others are floats, and so is `-0`.

Every reading function takes the text and gives what it read with the rest. `readValue` recurses with a
fuel, of which the length of the text is always enough, because every call takes a character.
-/

namespace Scriptorium.Json

open Text Decimal

/-- The characters that may stand between tokens. -/
def isGap (c : Char) : Bool := c == ' ' || c == '\t' || c == '\n' || c == '\r'

def skipGap (cs : List Char) : List Char := cs.dropWhile isGap

/-! ## Strings -/

/-- What a string is written with: characters, and 16-bit units given by number. -/
inductive Part where
  | char (c : Char)
  | unit (u : Nat)
  deriving DecidableEq, Repr

/-- The value of a hexadecimal digit. -/
def hexValue? (c : Char) : Option Nat :=
  if c.isDigit then some (c.toNat - 48)
  else if 'a' ≤ c ∧ c ≤ 'f' then some (c.toNat - 87)
  else if 'A' ≤ c ∧ c ≤ 'F' then some (c.toNat - 55)
  else none

/-- The value of four hexadecimal digits. -/
def hex4? (a b c d : Char) : Option Nat := do
  return 4096 * (← hexValue? a) + 256 * (← hexValue? b) + 16 * (← hexValue? c) + (← hexValue? d)

/-- The character that a letter after a backslash stands for. -/
def unescape? (c : Char) : Option Char :=
  if c = '"' ∨ c = '\\' ∨ c = '/' then some c
  else if c = 'b' then some '\x08'
  else if c = 'f' then some '\x0c'
  else if c = 'n' then some '\n'
  else if c = 'r' then some '\r'
  else if c = 't' then some '\t'
  else none

/-- The parts of a string after its opening quote. -/
def readParts : List Char → Option (List Part × List Char)
  | [] => none
  | ['\\'] => none
  | '\\' :: e :: cs =>
    if e = 'u' then
      match cs with
      | a :: b :: c :: d :: cs =>
        match hex4? a b c d, readParts cs with
        | some u, some (parts, rest) => some (.unit u :: parts, rest)
        | _, _ => none
      | _ => none
    else
      match unescape? e, readParts cs with
      | some c, some (parts, rest) => some (.char c :: parts, rest)
      | _, _ => none
  | c :: cs =>
    if c = '"' then some ([], cs)
    else if c.toNat < 32 then none
    else (readParts cs).map fun (parts, rest) => (.char c :: parts, rest)

/-- The text of the parts, unless half a surrogate pair is among them. -/
def textOf? : List Part → Option (List Char)
  | [] => some []
  | .char c :: parts => (textOf? parts).map (c :: ·)
  | [.unit u] => if isHighSurrogate u || isLowSurrogate u then none else some [Char.ofNat u]
  | .unit u :: .char c :: parts =>
    if isHighSurrogate u || isLowSurrogate u then none
    else (textOf? parts).map (Char.ofNat u :: c :: ·)
  | .unit u :: .unit v :: parts =>
    if isHighSurrogate u && isLowSurrogate v then (textOf? parts).map (pairChar u v :: ·)
    else if isHighSurrogate u || isLowSurrogate u then none
    else (textOf? (.unit v :: parts)).map (Char.ofNat u :: ·)

/-! ## Numbers -/

/-- The digits of a fraction with its point, and the rest. -/
def readFraction? : List Char → Option (List Char × List Char)
  | '.' :: cs =>
    let (ds, rest) := spanDigits cs
    if ds.isEmpty then none else some ('.' :: ds, rest)
  | cs => some ([], cs)

/-- An exponent with its mark, and the rest. -/
def readPower? : List Char → Option (List Char × List Char)
  | [] => some ([], [])
  | e :: cs =>
    if e = 'e' ∨ e = 'E' then
      let (sign, body) := match cs with
        | '+' :: body => (['+'], body)
        | '-' :: body => (['-'], body)
        | body => ([], body)
      let (ds, rest) := spanDigits body
      if ds.isEmpty then none else some (e :: sign ++ ds, rest)
    else some ([], e :: cs)

/-- A number without its sign, and the rest. -/
def readUnsigned? (negative : Bool) (cs : List Char) : Option (Json × List Char) := do
  let (whole, rest) := spanDigits cs
  if whole.isEmpty || (whole.head? == some '0' && 1 < whole.length) then none
  else
    let (fraction, rest) ← readFraction? rest
    let (power, rest) ← readPower? rest
    let n : Int := digitsValue whole
    if fraction.isEmpty && power.isEmpty && !(negative && n == 0) then
      return (.int (if negative then -n else n), rest)
    else
      let x := (readFloat? (whole ++ fraction ++ power)).getD 0
      return (.float (if negative then -x else x), rest)

def readNumber? : List Char → Option (Json × List Char)
  | '-' :: cs => readUnsigned? true cs
  | cs => readUnsigned? false cs

/-! ## Values -/

/-- A value that one of the words stands for. -/
def readWord? (cs : List Char) : Option (Json × List Char) :=
  [("null", Json.null), ("true", .bool true), ("false", .bool false)].findSome? fun (word, v) =>
    if word.toList.isPrefixOf cs then some (v, cs.drop word.length) else none

/-- A string as a value. -/
def ofParts (parts : List Part) : Json :=
  match textOf? parts with
  | some cs => .str (String.ofList cs)
  | none => .garbled

/-- An object, which is garbled when one of its keys is. -/
def ofMembers (members : List (Json × Json)) : Json :=
  match members.mapM (fun (k, v) => match k with
      | .str s => some (s, v)
      | _ => none) with
  | some members => .obj members
  | none => .garbled

mutual

/-- The value at the start of the text, and the rest. -/
def readValue : Nat → List Char → Option (Json × List Char)
  | 0, _ => none
  | fuel + 1, cs =>
    match skipGap cs with
    | [] => none
    | c :: rest =>
      if c = '"' then (readParts rest).map fun (parts, rest) => (ofParts parts, rest)
      else if c = '[' then
        match skipGap rest with
        | ']' :: rest => some (.arr [], rest)
        | rest => (readItems fuel rest).map fun (items, rest) => (.arr items, rest)
      else if c = '\x7b' then
        match skipGap rest with
        | '\x7d' :: rest => some (.obj [], rest)
        | rest => (readMembers fuel rest).map fun (members, rest) => (ofMembers members, rest)
      else if c = '-' ∨ c.isDigit then readNumber? (c :: rest)
      else readWord? (c :: rest)

/-- The items of an array up to its end. -/
def readItems : Nat → List Char → Option (List Json × List Char)
  | 0, _ => none
  | fuel + 1, cs =>
    match readValue fuel cs with
    | none => none
    | some (v, rest) =>
      match skipGap rest with
      | ',' :: rest => (readItems fuel rest).map fun (vs, rest) => (v :: vs, rest)
      | ']' :: rest => some ([v], rest)
      | _ => none

/-- The members of an object up to its end. -/
def readMembers : Nat → List Char → Option (List (Json × Json) × List Char)
  | 0, _ => none
  | fuel + 1, cs =>
    match skipGap cs with
    | '"' :: rest =>
      match readParts rest with
      | none => none
      | some (parts, rest) =>
        match skipGap rest with
        | ':' :: rest =>
          match readValue fuel rest with
          | none => none
          | some (v, rest) =>
            match skipGap rest with
            | ',' :: rest =>
              (readMembers fuel rest).map fun (ms, rest) => ((ofParts parts, v) :: ms, rest)
            | '\x7d' :: rest => some ([(ofParts parts, v)], rest)
            | _ => none
        | _ => none
    | _ => none

end

/-- The value that a text writes. -/
def read? (cs : List Char) : Option Json :=
  match readValue (2 * cs.length + 1) cs with
  | some (v, rest) => if (skipGap rest).isEmpty then some v else none
  | none => none

end Scriptorium.Json
