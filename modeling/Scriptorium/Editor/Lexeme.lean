import Scriptorium.Text.Bytes
import Scriptorium.Text.Blank

/-!
# Lexemes of script text

The editor colours and inspects script text through its lexemes. `lexemeLength?` says how many
characters the lexeme at the start of a text has; `pieces` cuts a whole text into lexemes and the
characters between them; `tokenize` adds byte positions. The pieces join to the text they were cut from.
-/

namespace Scriptorium.Editor

open Text

inductive LexemeKind where
  | keyword
  | name
  | string
  | number
  | comment
  | symbol
  deriving DecidableEq, Repr, Inhabited

/-- The name of a lexeme class. -/
def LexemeKind.label : LexemeKind → String
  | .keyword => "keyword"
  | .name => "name"
  | .string => "string"
  | .number => "number"
  | .comment => "comment"
  | .symbol => "symbol"

/-- The reserved words of the script language. -/
def keywords : List String :=
  ["and", "break", "do", "else", "elseif", "end", "false", "for", "function", "goto", "if",
   "in", "local", "nil", "not", "or", "repeat", "return", "then", "true", "until", "while"]

/-! ## Character classes -/

/-- An ASCII character. -/
def isAscii (c : Char) : Bool := c.toNat < 128

/-- A character that may begin a name. -/
def isNameStart (c : Char) : Bool := c.isAlpha || c == '_'

/-- A character that may stand in a name. -/
def isNameChar (c : Char) : Bool := c.isAlphanum || c == '_'

/-- A hexadecimal digit. -/
def isHexDigit (c : Char) : Bool :=
  c.isDigit || ('a' ≤ c && c ≤ 'f') || ('A' ≤ c && c ≤ 'F')

/-! ## Lengths of lexemes -/

/-- The characters of a quoted string after its opening quote. A backslash takes the next character with
it; a string that is not closed ends before the LF. -/
def quotedLength (quote : Char) : List Char → Nat
  | [] => 0
  | ['\\'] => 1
  | '\\' :: _ :: cs => 2 + quotedLength quote cs
  | c :: cs =>
    if c = '\n' then 0
    else if c = quote then 1
    else 1 + quotedLength quote cs

/-- The level of the long bracket that opens the text: `[`, that many `=`, `[`. -/
def bracketLevel? : List Char → Option Nat
  | '[' :: cs =>
    let level := (cs.takeWhile (· == '=')).length
    if (cs.drop level).head? = some '[' then some level else none
  | _ => none

/-- The closing long bracket of a level. -/
def closer (level : Nat) : List Char := ']' :: (List.replicate level '=' ++ [']'])

/-- The characters up to and including the first closing bracket of the level, or all of them. -/
def longLength (level : Nat) : List Char → Nat
  | [] => 0
  | c :: cs =>
    if (closer level).isPrefixOf (c :: cs) then level + 2 else 1 + longLength level cs

/-- The characters before the LF. -/
def lineLength (cs : List Char) : Nat := (cs.takeWhile (· != '\n')).length

/-- Does the numeral carry an exponent with this letter? -/
def isExponentMark (hex : Bool) (c : Char) : Bool :=
  if hex then c == 'p' || c == 'P' else c == 'e' || c == 'E'

/-- The characters of a numeral: digits, an exponent mark with its sign, and points not followed by
another point. -/
def numeralLength (hex : Bool) : List Char → Nat
  | [] => 0
  | [c] =>
    if isExponentMark hex c || (hex && isHexDigit c) || c.isDigit || c == '.' then 1 else 0
  | c :: d :: cs =>
    if isExponentMark hex c then
      if d = '+' ∨ d = '-' then 2 + numeralLength hex cs else 1 + numeralLength hex (d :: cs)
    else if (hex && isHexDigit c) || c.isDigit || (c == '.' && d != '.') then
      1 + numeralLength hex (d :: cs)
    else 0

/-- The characters of the numeral that begins the text. -/
def numberLength : List Char → Nat
  | '0' :: x :: cs =>
    if x = 'x' ∨ x = 'X' then 2 + numeralLength true cs else numeralLength false ('0' :: x :: cs)
  | cs => numeralLength false cs

/-- The symbols of more than one character, longest first. -/
def longSymbols : List (List Char) :=
  ["...", "..", "==", "~=", "<=", ">=", "//", "::", "<<", ">>"].map String.toList

/-- The characters of the symbol that begins the text. -/
def symbolLength (cs : List Char) : Nat :=
  match longSymbols.find? (·.isPrefixOf cs) with
  | some op => op.length
  | none => 1

/-- The characters of the comment that begins the text with two dashes. -/
def commentLength (cs : List Char) : Nat :=
  match bracketLevel? (cs.drop 2) with
  | some level => level + 4 + longLength level (cs.drop (level + 4))
  | none => lineLength cs

/-- Does a numeral begin here? -/
def startsNumber : List Char → Bool
  | c :: cs => c.isDigit || (c == '.' && (cs.head?.any Char.isDigit))
  | [] => false

/-- The class of a name: reserved or free. -/
def wordKind (word : List Char) : LexemeKind :=
  if String.ofList word ∈ keywords then .keyword else .name

/-- The class and the number of characters of the lexeme that begins the text; `none` before a blank, a
character outside ASCII, or the end. -/
def lexemeLength? : List Char → Option (LexemeKind × Nat)
  | [] => none
  | c :: cs =>
    if isAsciiBlank c || !isAscii c then none
    else if c = '-' ∧ cs.head? = some '-' then some (.comment, commentLength (c :: cs))
    else if c = '"' ∨ c = '\'' then some (.string, 1 + quotedLength c cs)
    else
      match bracketLevel? (c :: cs) with
      | some level => some (.string, level + 2 + longLength level (cs.drop (level + 1)))
      | none =>
        if startsNumber (c :: cs) then some (.number, numberLength (c :: cs))
        else if isNameStart c then
          let word := (c :: cs).takeWhile isNameChar
          some (wordKind word, word.length)
        else some (.symbol, symbolLength (c :: cs))

/-! ## Cutting a text -/

/-- A lexeme with its text. -/
structure Lexeme where
  kind : LexemeKind
  text : List Char
  deriving DecidableEq, Repr, Inhabited

/-- A part of a text: a character between lexemes, or a lexeme. -/
inductive Piece where
  | gap (c : Char)
  | lexeme (l : Lexeme)
  deriving DecidableEq, Repr

/-- The text of a piece. -/
def Piece.text : Piece → List Char
  | .gap c => [c]
  | .lexeme l => l.text

/-- The pieces of a text, in order. -/
def pieces : List Char → List Piece
  | [] => []
  | c :: cs =>
    match lexemeLength? (c :: cs) with
    | none => .gap c :: pieces cs
    | some (kind, n) =>
      .lexeme ⟨kind, c :: cs.take (n - 1)⟩ :: pieces (cs.drop (n - 1))
  termination_by cs => cs.length
  decreasing_by all_goals (simp only [List.length_cons, List.length_drop]; omega)

theorem pieces_join (cs : List Char) : ((pieces cs).map Piece.text).flatten = cs := by
  fun_induction pieces cs with
  | case1 => rfl
  | case2 c cs h ih => simp [Piece.text, ih]
  | case3 c cs kind n h ih => simp [Piece.text, ih]

/-- A lexeme at its byte position. -/
structure Token where
  start : Nat
  lexeme : Lexeme
  deriving DecidableEq, Repr

namespace Token

def kind (t : Token) : LexemeKind := t.lexeme.kind

def text (t : Token) : List Char := t.lexeme.text

/-- The byte after the last one of the token. -/
def stop (t : Token) : Nat := t.start + size t.text

/-- The token moved by a number of bytes. -/
def shift (k : Nat) (t : Token) : Token := { t with start := t.start + k }

end Token

/-- The lexemes among the pieces, the first piece standing at byte `offset`. -/
def locate (offset : Nat) : List Piece → List Token
  | [] => []
  | .gap c :: ps => locate (offset + c.utf8Size) ps
  | .lexeme l :: ps => ⟨offset, l⟩ :: locate (offset + size l.text) ps

/-- The tokens of a text with their byte positions. -/
def tokenize (cs : List Char) : List Token := locate 0 (pieces cs)

/-- The lexemes of a text that are not comments. -/
def codeLexemes (cs : List Char) : List Lexeme :=
  ((tokenize cs).map Token.lexeme).filter (·.kind != .comment)

/-! ## Code and non-code positions -/

/-- Does the text of a string lexeme look closed? A quoted one has to end in its quote with no backslash
before it, a long one in a bracket. -/
def looksClosedString (cs : List Char) : Bool :=
  match cs with
  | quote :: rest =>
    if quote == '"' || quote == '\'' then
      match rest.reverse with
      | last :: before => last == quote && (before.head?.getD quote) != '\\'
      | [] => false
    else cs.getLast? == some ']'
  | [] => false

/-- Does the text of a comment lexeme look closed? Only a long comment can. -/
def looksClosedComment (cs : List Char) : Bool :=
  (bracketLevel? (cs.drop 2)).isSome && cs.getLast? == some ']'

/-- Is the byte position inside the token, as text and not as code? The position after a token that is not
closed counts as inside. -/
def Token.holds (t : Token) (offset : Nat) : Bool :=
  t.start < offset &&
    match t.kind with
    | .string => offset < t.stop || (offset == t.stop && !looksClosedString t.text)
    | .comment => offset < t.stop || (offset == t.stop && !looksClosedComment t.text)
    | _ => false

/-- Is the byte position in code, outside every string and comment? -/
def isCodePosition (cs : List Char) (offset : Nat) : Bool :=
  !(tokenize cs).any (·.holds (min offset (size cs)))

end Scriptorium.Editor
