import Scriptorium.Script.Syntax.Token
import Scriptorium.Script.Numeral

/-!
# From text to tokens

`scan` cuts a text into tokens. A text that does not go on as a token gives a last token that holds the message,
so that whoever reads the tokens meets the fault in its turn.
-/

namespace Scriptorium.Script.Scan

def isNameStart (c : Char) : Bool := c.isAlpha || c = '_'

def isNameChar (c : Char) : Bool := c.isAlphanum || c = '_'

def isLineEnd (c : Char) : Bool := c = '\n' || c = '\r'

/-- A text in quotes, as messages show it. -/
def quoted (cs : List Char) : Bytes := bytesOf ('\'' :: cs ++ ['\''])

/-- The rest after one line end; two different characters are one line end. -/
def afterLineEnd : List Char → List Char
  | '\n' :: '\r' :: cs | '\r' :: '\n' :: cs => cs
  | _ :: cs => cs
  | [] => []

/-- What a reader of a token gives: the token, the line it ends in, how it is shown, and the rest. -/
structure Piece where
  token : Token
  line : Nat
  shown : Bytes
  rest : List Char

/-- The piece that tells a fault near some text. -/
def faultNear (line : Nat) (message : String) (near : Bytes) : Piece :=
  ⟨.fault (bytes (message ++ " near ") ++ near), line, .empty, []⟩

/-! ## Long brackets -/

/-- The rest after a closing bracket of a level. -/
def closing? (level : Nat) : List Char → Option (List Char)
  | ']' :: cs =>
    match cs.drop level with
    | ']' :: rest => if (cs.take level).all (· == '=') then some rest else none
    | _ => none
  | _ => none

/-- The content of a long bracket, newest first, with the line of its end and the rest. -/
def longContent (level : Nat) : Nat → Nat → List Char → List Char →
    Option (List Char × Nat × List Char)
  | 0, _, _, _ => none
  | _ + 1, _, _, [] => none
  | fuel + 1, line, seen, c :: cs =>
    match closing? level (c :: cs) with
    | some rest => some (seen, line, rest)
    | none =>
      if isLineEnd c then longContent level fuel (line + 1) ('\n' :: seen) (afterLineEnd (c :: cs))
      else longContent level fuel line (c :: seen) cs

/-- The level of an opening long bracket after its first bracket, and the rest. -/
def opening? (cs : List Char) : Option (Nat × List Char) :=
  let level := (cs.takeWhile (· == '=')).length
  match cs.drop level with
  | '[' :: rest => some (level, rest)
  | _ => none

/-- A long bracket after its opening. A line end right after the opening is left out. -/
def longBracket? (fuel line level : Nat) (cs : List Char) : Option (List Char × Nat × List Char) :=
  match cs with
  | c :: _ =>
    if isLineEnd c then longContent level fuel (line + 1) [] (afterLineEnd cs)
    else longContent level fuel line [] cs
  | [] => none

/-- The fault of a long bracket that is not closed, at the line that the text ends in. -/
def unclosed (what : String) (start : Nat) (cs : List Char) : Piece :=
  let rec lineEnds : Nat → List Char → Nat
    | 0, _ | _, [] => 0
    | fuel + 1, c :: cs =>
      if isLineEnd c then lineEnds fuel (afterLineEnd (c :: cs)) + 1 else lineEnds fuel cs
  faultNear (start + lineEnds cs.length cs)
    ("unfinished long " ++ what ++ " (starting at line " ++ toString start ++ ")") (bytes "<eof>")

/-! ## Quoted strings -/

/-- The bytes of a code point up to `2 ^ 31`. -/
def longUtf8 (n : Nat) : List Char :=
  let tail (k : Nat) : List Char :=
    (List.range k).reverse.map fun i => Char.ofNat (0x80 + n / Nat.pow 64 i % 64)
  if n < 0x80 then [Char.ofNat n]
  else if n < 0x800 then Char.ofNat (0xC0 + n / 64) :: tail 1
  else if n < 0x10000 then Char.ofNat (0xE0 + n / 0x1000) :: tail 2
  else if n < 0x200000 then Char.ofNat (0xF0 + n / 0x40000) :: tail 3
  else if n < 0x4000000 then Char.ofNat (0xF8 + n / 0x1000000) :: tail 4
  else Char.ofNat (0xFC + n / 0x40000000) :: tail 5

/-- A fault in an escape: its message, and the characters after the backslash that are shown with it. -/
structure EscapeFault where
  message : String
  shown : List Char

/-- A fault at the first of the characters that follow what was read. -/
def escapeFault (message : String) (read rest : List Char) : Except EscapeFault α :=
  .error ⟨message, read ++ rest.take 1⟩

/-- The escapes of one character. -/
def simpleEscape? : Char → Option Char
  | 'a' => some '\x07'
  | 'b' => some '\x08'
  | 'f' => some '\x0c'
  | 'n' => some '\n'
  | 'r' => some '\r'
  | 't' => some '\t'
  | 'v' => some '\x0b'
  | '\\' => some '\\'
  | '"' => some '"'
  | '\'' => some '\''
  | _ => none

/-- Two hexadecimal digits. -/
def hexEscape (cs : List Char) : Except EscapeFault (List Char × List Char) :=
  let ds := (cs.take 2).takeWhile isHexDigit
  if ds.length = 2 then .ok ([Char.ofNat (valueInBase 16 ds)], cs.drop 2)
  else escapeFault "hexadecimal digit expected" ('x' :: ds) (cs.drop ds.length)

/-- The hexadecimal digits of a code point before it is too large, all of them if it is not. -/
def pointDigits : List Char → List Char → List Char
  | read, [] => read
  | read, c :: cs => if 0x80000000 ≤ valueInBase 16 read then read else pointDigits (read ++ [c]) cs

/-- A code point in braces. -/
def pointEscape (cs : List Char) : Except EscapeFault (List Char × List Char) :=
  match cs with
  | '\x7b' :: cs =>
    let ds := cs.takeWhile isHexDigit
    let fit := pointDigits [] ds
    if ds.isEmpty then escapeFault "hexadecimal digit expected" ['u', '\x7b'] cs
    else if 0x80000000 ≤ valueInBase 16 fit then
      .error ⟨"UTF-8 value too large", 'u' :: '\x7b' :: fit⟩
    else
      match cs.drop ds.length with
      | '\x7d' :: rest => .ok (longUtf8 (valueInBase 16 ds), rest)
      | rest => escapeFault "missing '\x7d'" ('u' :: '\x7b' :: ds) rest
  | cs => escapeFault "missing '\x7b'" ['u'] cs

/-- Up to three decimal digits. -/
def decimalEscape (cs : List Char) : Except EscapeFault (List Char × List Char) :=
  let ds := (cs.take 3).takeWhile Char.isDigit
  if ds.isEmpty then escapeFault "invalid escape sequence" [] cs
  else if 255 < valueInBase 10 ds then escapeFault "decimal escape too large" ds (cs.drop ds.length)
  else .ok ([Char.ofNat (valueInBase 10 ds)], cs.drop ds.length)

/-- What an escape after its backslash stands for, and the rest. -/
def escape : List Char → Except EscapeFault (List Char × List Char)
  | 'x' :: cs => hexEscape cs
  | 'u' :: cs => pointEscape cs
  | c :: cs =>
    match simpleEscape? c with
    | some d => .ok ([d], cs)
    | none => decimalEscape (c :: cs)
  | [] => .ok ([], [])

/-- The number of line ends among blanks. -/
def blankLines : Nat → List Char → Nat
  | 0, _ | _, [] => 0
  | fuel + 1, c :: cs =>
    if isLineEnd c then blankLines fuel (afterLineEnd (c :: cs)) + 1 else blankLines fuel cs

/-- A string after its opening quote; `seen` is its content so far, newest first. -/
def quotedString (quote : Char) : Nat → Nat → List Char → List Char → Piece
  | 0, line, _, _ | _ + 1, line, _, [] => faultNear line "unfinished string" (bytes "<eof>")
  | fuel + 1, line, seen, '\\' :: cs =>
    match cs with
    | 'z' :: more =>
      let blanks := more.takeWhile isBlank
      quotedString quote fuel (line + blankLines blanks.length blanks) seen (more.drop blanks.length)
    | '\n' :: _ | '\r' :: _ => quotedString quote fuel (line + 1) ('\n' :: seen) (afterLineEnd cs)
    | cs =>
      match escape cs with
      | .ok (out, rest) => quotedString quote fuel line (out.reverse ++ seen) rest
      | .error e => faultNear line e.message (quoted (quote :: seen.reverse ++ '\\' :: e.shown))
  | fuel + 1, line, seen, c :: cs =>
    if c = quote then
      ⟨.text (bytesOf seen.reverse), line, quoted (quote :: seen.reverse ++ [quote]), cs⟩
    else if isLineEnd c then
      faultNear line "unfinished string" (quoted (quote :: seen.reverse))
    else quotedString quote fuel line (c :: seen) cs

/-! ## Numerals -/

/-- The characters of a numeral: digits, points, and an exponent mark with its sign. -/
def numeralChars (marks : List Char) : Nat → List Char → List Char
  | 0, _ | _, [] => []
  | fuel + 1, c :: cs =>
    if marks.contains c then
      match cs with
      | '+' :: more => c :: '+' :: numeralChars marks fuel more
      | '-' :: more => c :: '-' :: numeralChars marks fuel more
      | more => c :: numeralChars marks fuel more
    else if isHexDigit c || c = '.' then c :: numeralChars marks fuel cs
    else []

/-- A numeral, together with a letter that touches it. -/
def numeral (fuel line : Nat) (cs : List Char) : Piece :=
  let read := match cs with
    | '0' :: 'x' :: more => '0' :: 'x' :: numeralChars ['p', 'P'] fuel more
    | '0' :: 'X' :: more => '0' :: 'X' :: numeralChars ['p', 'P'] fuel more
    | c :: more => c :: numeralChars ['e', 'E'] fuel more
    | [] => []
  let read := read ++ ((cs.drop read.length).take 1).takeWhile isNameStart
  match Numeral.read? read with
  | some v => ⟨.number v, line, quoted read, cs.drop read.length⟩
  | none => faultNear line "malformed number" (quoted read)

/-! ## Tokens -/

/-- The symbol at the start of a text. -/
def symbol? (cs : List Char) : Option (String × Symbol) :=
  Symbol.all.find? fun (s, _) => s.toList.isPrefixOf cs

/-- The token at the start of a text that starts with no blank and no comment. The fuel is more than the length
of the text. -/
def piece (fuel line : Nat) (cs : List Char) : Piece :=
  match cs with
  | [] => ⟨.endOfText, line, bytes "<eof>", []⟩
  | '"' :: rest => quotedString '"' fuel line [] rest
  | '\'' :: rest => quotedString '\'' fuel line [] rest
  | c :: rest =>
    let symbol : Piece :=
      match symbol? cs with
      | some (s, t) => ⟨.symbol t, line, (Token.symbol t).expected, cs.drop s.length⟩
      | none => ⟨.stray c, line, (Token.stray c).expected, rest⟩
    if isNameStart c then
      let word := cs.takeWhile isNameChar
      match Keyword.all.lookup (String.ofList word) with
      | some k => ⟨.keyword k, line, (Token.keyword k).expected, cs.drop word.length⟩
      | none => ⟨.name (bytesOf word), line, quoted word, cs.drop word.length⟩
    else if c.isDigit then numeral fuel line cs
    else if c = '.' then
      if (rest.head?).any Char.isDigit then numeral fuel line cs else symbol
    else if c = '[' then
      match opening? rest with
      | some (level, body) =>
        match longBracket? fuel line level body with
        | some (content, last, after) =>
          let frame := List.replicate level '='
          ⟨.text (bytesOf content.reverse), last,
            quoted ('[' :: frame ++ '[' :: content.reverse ++ ']' :: frame ++ [']']), after⟩
        | none => unclosed "string" line body
      | none =>
        if rest.head? = some '=' then
          faultNear line "invalid long string delimiter" (quoted ('[' :: rest.takeWhile (· == '=')))
        else symbol
    else symbol

/-- The line and the rest after blanks and comments, or a fault among them. The fuel is more than the length of
the text. -/
def skip : Nat → Nat → List Char → Except Piece (Nat × List Char)
  | 0, line, cs => .ok (line, cs)
  | fuel + 1, line, cs =>
    match cs with
    | '-' :: '-' :: rest =>
      let short := fun (_ : Unit) => skip fuel line (rest.dropWhile fun c => !isLineEnd c)
      match rest with
      | '[' :: more =>
        match opening? more with
        | some (level, body) =>
          match longBracket? fuel line level body with
          | some (_, last, after) => skip fuel last after
          | none => .error (unclosed "comment" line body)
        | none => short ()
      | _ => short ()
    | c :: rest =>
      if isLineEnd c then skip fuel (line + 1) (afterLineEnd cs)
      else if isBlank c then skip fuel line rest
      else .ok (line, cs)
    | [] => .ok (line, [])

/-- The tokens of a text, newest first. -/
def tokens : Nat → Nat → List Lexed → List Char → List Lexed
  | 0, _, seen, _ => seen
  | fuel + 1, line, seen, cs =>
    let p := match skip (fuel + 1) line cs with
      | .ok (line, cs) => piece (fuel + 1) line cs
      | .error p => p
    let seen := ⟨p.token, p.line, p.shown⟩ :: seen
    match p.token with
    | .endOfText | .fault _ => seen
    | _ => tokens fuel p.line seen p.rest

end Scan

/-- The tokens of a text, up to its end or the first fault. -/
def scan (text : Bytes) : List Lexed :=
  let cs := charsOf text
  (Scan.tokens (cs.length + 1) 1 [] cs).reverse

end Scriptorium.Script
