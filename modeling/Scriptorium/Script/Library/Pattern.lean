import Scriptorium.Script.Numeral

/-!
# Text patterns

A pattern is a list of pieces. Matching tries the longest repetition first, or the shortest where the pattern
says so, and goes back as long as the rest does not match. A fault in a pattern shows only when matching
comes to it.
-/

namespace Scriptorium.Script.Pattern

/-! ## Pieces -/

/-- A member of a set of characters. -/
inductive SetItem where
  | char (c : Char)
  | range (low high : Char)
  | class (letter : Char)
  deriving DecidableEq, Repr, Inhabited

/-- What one character can be. -/
inductive CharTest where
  | any
  | char (c : Char)
  | class (letter : Char)
  | set (negated : Bool) (items : List SetItem)
  deriving DecidableEq, Repr, Inhabited

inductive Repetition where
  | once | star | plus | minus | optional
  deriving DecidableEq, Repr, Inhabited

inductive Piece where
  | single (t : CharTest) (r : Repetition)
  | openCapture
  | positionCapture
  | closeCapture
  | balance (opening closing : Char)
  | frontier (t : CharTest)
  | backReference (n : Nat)
  | atEnd
  | fault (message : String)
  deriving DecidableEq, Repr, Inhabited

/-- Is a character in the class of a letter? A capital letter means all others; another character means
itself. -/
def inClass (letter c : Char) : Bool :=
  let test? : Option Bool := match letter.toLower with
    | 'a' => some c.isAlpha
    | 'c' => some (c.toNat < 32 || c.toNat = 127)
    | 'd' => some c.isDigit
    | 'g' => some (32 < c.toNat && c.toNat < 127)
    | 'l' => some c.isLower
    | 'p' => some (32 < c.toNat && c.toNat < 127 && !c.isAlphanum)
    | 's' => some (isBlank c)
    | 'u' => some c.isUpper
    | 'w' => some c.isAlphanum
    | 'x' => some (isHexDigit c)
    | _ => none
  match test? with
  | some b => if letter.isUpper then !b else b
  | none => letter == c

def SetItem.has (c : Char) : SetItem → Bool
  | .char a => c == a
  | .range a b => a ≤ c && c ≤ b
  | .class l => inClass l c

def CharTest.has (c : Char) : CharTest → Bool
  | .any => true
  | .char a => c == a
  | .class l => inClass l c
  | .set negated items => items.any (·.has c) != negated

/-! ## Reading a pattern -/

/-- The members of a set up to its closing bracket, and the rest. A bracket that comes first is a member. -/
def readSet : Bool → List SetItem → List Char → Option (List SetItem × List Char)
  | _, _, [] => none
  | isFirst, items, ']' :: cs =>
    if isFirst then
      match cs with
      | '-' :: b :: rest =>
        if b = ']' then readSet false (.char ']' :: items) ('-' :: b :: rest)
        else readSet false (.range ']' b :: items) rest
      | rest => readSet false (.char ']' :: items) rest
    else some (items.reverse, cs)
  | _, _, ['%'] => none
  | _, items, '%' :: c :: cs => readSet false (.class c :: items) cs
  | _, items, a :: '-' :: b :: cs =>
    if b = ']' then some ((.char '-' :: .char a :: items).reverse, cs)
    else readSet false (.range a b :: items) cs
  | _, items, c :: cs => readSet false (.char c :: items) cs

/-- A set after its opening bracket. -/
def readBrackets (cs : List Char) : Option (CharTest × List Char) :=
  match cs with
  | '^' :: more => (readSet true [] more).map fun (items, rest) => (.set true items, rest)
  | more => (readSet true [] more).map fun (items, rest) => (.set false items, rest)

/-- A piece for one character with the repetition after it, and the rest. -/
def repeated (t : CharTest) : List Char → Piece × List Char
  | '*' :: cs => (.single t .star, cs)
  | '+' :: cs => (.single t .plus, cs)
  | '-' :: cs => (.single t .minus, cs)
  | '?' :: cs => (.single t .optional, cs)
  | cs => (.single t .once, cs)

def missingBracket : String := "malformed pattern (missing ']')"

/-- The piece at the start of a pattern, and the rest. -/
def readPiece (c : Char) (cs : List Char) : Piece × List Char :=
  match c, cs with
  | '(', ')' :: rest => (.positionCapture, rest)
  | '(', rest => (.openCapture, rest)
  | ')', rest => (.closeCapture, rest)
  | '$', [] => (.atEnd, [])
  | '%', [] => (.fault "malformed pattern (ends with '%')", [])
  | '%', 'b' :: a :: b :: rest => (.balance a b, rest)
  | '%', 'b' :: _ => (.fault "malformed pattern (missing arguments to '%b')", [])
  | '%', 'f' :: '[' :: rest =>
    match readBrackets rest with
    | some (t, rest) => (.frontier t, rest)
    | none => (.fault missingBracket, [])
  | '%', 'f' :: _ => (.fault "missing '[' after '%f' in pattern", [])
  | '%', d :: rest =>
    if d.isDigit then (.backReference (d.toNat - 48), rest) else repeated (.class d) rest
  | '[', rest =>
    match readBrackets rest with
    | some (t, rest) => repeated t rest
    | none => (.fault missingBracket, [])
  | '.', rest => repeated .any rest
  | c, rest => repeated (.char c) rest

/-- The pieces of a pattern. The fuel is at least its length. -/
def readPieces : Nat → List Char → List Piece
  | 0, _ | _, [] => []
  | fuel + 1, c :: cs =>
    let (p, rest) := readPiece c cs
    p :: readPieces fuel rest

/-- A pattern: is it bound to the start of the text, and its pieces. -/
def read (pattern : Bytes) : Bool × List Piece :=
  match charsOf pattern with
  | '^' :: cs => (true, readPieces cs.length cs)
  | cs => (false, readPieces cs.length cs)

/-- The pieces of a pattern that is never bound to the start. -/
def readUnbound (pattern : Bytes) : List Piece :=
  let cs := charsOf pattern
  readPieces cs.length cs

/-! ## Matching -/

inductive Extent where
  | unfinished
  | position
  | upTo (finish : Nat)
  deriving DecidableEq, Repr, Inhabited

structure Capture where
  start : Nat
  extent : Extent
  deriving DecidableEq, Repr, Inhabited

/-- The end of a match with its captures, if there is one. -/
abbrev Outcome := Except String (Option (Nat × List Capture))

/-- How many captures a pattern can have. -/
def captureLimit : Nat := 32

/-- The character at a position of a text. -/
def charAt? (text : Bytes) (i : Nat) : Option Char := (text[i]?).map fun b => Char.ofNat b.toNat

/-- Does the character at a position pass the test? -/
def passes (text : Bytes) (t : CharTest) (i : Nat) : Bool := (charAt? text i).any t.has

/-- How many characters from a position on pass the test. -/
def run (text : Bytes) (t : CharTest) : Nat → Nat → Nat
  | 0, _ => 0
  | fuel + 1, i => if passes text t i then run text t fuel (i + 1) + 1 else 0

/-- The first outcome that is a match, from the greatest count down. -/
def tryDown (f : Nat → Outcome) : Nat → Outcome
  | 0 => f 0
  | n + 1 =>
    match f (n + 1) with
    | .ok none => tryDown f n
    | r => r

/-- The first outcome that is a match, from a count up. -/
def tryUp (f : Nat → Outcome) : Nat → Nat → Outcome
  | 0, i => f i
  | left + 1, i =>
    match f i with
    | .ok none => tryUp f left (i + 1)
    | r => r

/-- The end of a balanced stretch after its opening character. -/
def balanced (text : Bytes) (opening closing : Char) : Nat → Nat → Nat → Option Nat
  | 0, _, _ => none
  | fuel + 1, depth, i =>
    match charAt? text i with
    | none => none
    | some c =>
      if c = closing then
        if depth = 0 then some (i + 1) else balanced text opening closing fuel (depth - 1) (i + 1)
      else if c = opening then balanced text opening closing fuel (depth + 1) (i + 1)
      else balanced text opening closing fuel depth (i + 1)

/-- Ends the newest capture that is not finished. Captures are given with the newest last. -/
def closeNewest (finish : Nat) (captures : List Capture) : Option (List Capture) :=
  let rec close : List Capture → Option (List Capture)
    | [] => none
    | c :: cs =>
      if c.extent = .unfinished then some (⟨c.start, .upTo finish⟩ :: cs)
      else (close cs).map (c :: ·)
  (close captures.reverse).map List.reverse

/-- Do the bytes from two positions on agree for a length? -/
def agrees (text : Bytes) (a b : Nat) (length : Nat) : Bool :=
  b + length ≤ text.size && text.extract a (a + length) == text.extract b (b + length)

/-- Matches pieces from a position on. -/
def matchPieces (text : Bytes) : List Piece → Nat → List Capture → Outcome
  | [], i, captures => .ok (some (i, captures))
  | .fault message :: _, _, _ => .error message
  | .atEnd :: _, i, captures => .ok (if i = text.size then some (i, captures) else none)
  | .openCapture :: ps, i, captures =>
    if captureLimit ≤ captures.length then .error "too many captures"
    else matchPieces text ps i (captures ++ [⟨i, .unfinished⟩])
  | .positionCapture :: ps, i, captures =>
    if captureLimit ≤ captures.length then .error "too many captures"
    else matchPieces text ps i (captures ++ [⟨i, .position⟩])
  | .closeCapture :: ps, i, captures =>
    match closeNewest i captures with
    | some captures => matchPieces text ps i captures
    | none => .error "invalid pattern capture"
  | .balance a b :: ps, i, captures =>
    if charAt? text i = some a then
      match balanced text a b text.size 0 (i + 1) with
      | some j => matchPieces text ps j captures
      | none => .ok none
    else .ok none
  | .frontier t :: ps, i, captures =>
    let before := if i = 0 then '\x00' else (charAt? text (i - 1)).getD '\x00'
    let here := (charAt? text i).getD '\x00'
    if !t.has before && t.has here then matchPieces text ps i captures else .ok none
  | .backReference n :: ps, i, captures =>
    match captures[n - 1]? with
    | some ⟨start, .upTo finish⟩ =>
      if n = 0 then .error "invalid capture index %0"
      else if agrees text start i (finish - start) then
        matchPieces text ps (i + (finish - start)) captures
      else .ok none
    | _ => .error ("invalid capture index %" ++ toString n)
  | .single t r :: ps, i, captures =>
    let rest (n : Nat) : Outcome := matchPieces text ps (i + n) captures
    match r with
    | .once => if passes text t i then rest 1 else .ok none
    | .optional =>
      if passes text t i then
        match rest 1 with
        | .ok none => rest 0
        | r => r
      else rest 0
    | .star => tryDown rest (run text t (text.size - i) i)
    | .plus =>
      match run text t (text.size - i) i with
      | 0 => .ok none
      | n + 1 => tryDown (fun k => rest (k + 1)) n
    | .minus => tryUp rest (run text t (text.size - i) i) 0

/-- The first match that starts at one of so many positions: its start, its end and its captures. -/
def search (text : Bytes) (ps : List Piece) : Nat → Nat → Except String (Option (Nat × Nat × List Capture))
  | 0, _ => .ok none
  | fuel + 1, i =>
    match matchPieces text ps i [] with
    | .error e => .error e
    | .ok (some (j, captures)) => .ok (some (i, j, captures))
    | .ok none => search text ps fuel (i + 1)

/-- What a capture has found. -/
def Capture.value (text : Bytes) (c : Capture) : Except String Value :=
  match c.extent with
  | .unfinished => .error "unfinished capture"
  | .position => .ok (.integer (Int64.ofNat (c.start + 1)))
  | .upTo finish => .ok (.text (text.extract c.start finish))

/-- What all captures have found. -/
def captureValues (text : Bytes) : List Capture → Except String (List Value)
  | [] => .ok []
  | c :: cs => do
    let v ← c.value text
    return v :: (← captureValues text cs)

/-- What the captures have found, or the whole match if there are none. -/
def found (text : Bytes) (start finish : Nat) (captures : List Capture) : Except String (List Value) :=
  if captures.isEmpty then .ok [.text (text.extract start finish)] else captureValues text captures

end Scriptorium.Script.Pattern
