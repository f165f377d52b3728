import Scriptorium.Script.Value

/-!
# Tokens of a script

Each token knows its line and how a message shows it.
-/

namespace Scriptorium.Script

inductive Keyword where
  | and | break | do | else | elseif | end | false | for | function | goto | if | in | local | nil | not
  | or | repeat | return | then | true | until | while
  deriving DecidableEq, Repr, Inhabited

def Keyword.all : List (String × Keyword) :=
  [("and", .and), ("break", .break), ("do", .do), ("else", .else), ("elseif", .elseif), ("end", .end),
   ("false", .false), ("for", .for), ("function", .function), ("goto", .goto), ("if", .if), ("in", .in),
   ("local", .local), ("nil", .nil), ("not", .not), ("or", .or), ("repeat", .repeat),
   ("return", .return), ("then", .then), ("true", .true), ("until", .until), ("while", .while)]

inductive Symbol where
  | plus | minus | star | slash | doubleSlash | percent | caret | hash | ampersand | tilde | bar
  | shiftLeft | shiftRight | equal | notEqual | lessEqual | greaterEqual | less | greater | assign
  | openParen | closeParen | openBrace | closeBrace | openBracket | closeBracket | doubleColon
  | semicolon | colon | comma | dot | concat | dots
  deriving DecidableEq, Repr, Inhabited

/-- The symbols, with the longer ones before those that they begin with. -/
def Symbol.all : List (String × Symbol) :=
  [("...", .dots), ("..", .concat), ("==", .equal), ("~=", .notEqual), ("<=", .lessEqual),
   (">=", .greaterEqual), ("<<", .shiftLeft), (">>", .shiftRight), ("//", .doubleSlash),
   ("::", .doubleColon), ("+", .plus), ("-", .minus), ("*", .star), ("/", .slash), ("%", .percent),
   ("^", .caret), ("#", .hash), ("&", .ampersand), ("~", .tilde), ("|", .bar), ("<", .less),
   (">", .greater), ("=", .assign), ("(", .openParen), (")", .closeParen), ("\x7b", .openBrace),
   ("\x7d", .closeBrace), ("[", .openBracket), ("]", .closeBracket), (";", .semicolon),
   (":", .colon), (",", .comma), (".", .dot)]

/-- The text of a word or symbol in a table of them. -/
def spelling [BEq α] (table : List (String × α)) (a : α) : String :=
  ((table.find? (·.2 == a)).map (·.1)).getD ""

inductive Token where
  | name (s : Bytes)
  | text (b : Bytes)
  | number (v : Value)
  | keyword (k : Keyword)
  | symbol (s : Symbol)
  /-- A character that begins no token. -/
  | stray (c : Char)
  | endOfText
  /-- Text that is no token, with the message about it. -/
  | fault (message : Bytes)
  deriving Inhabited

/-- How a message shows what it expects. -/
def Token.expected : Token → Bytes
  | .name _ => bytes "<name>"
  | .text _ => bytes "<string>"
  | .number _ => bytes "<number>"
  | .keyword k => bytes ("'" ++ spelling Keyword.all k ++ "'")
  | .symbol s => bytes ("'" ++ spelling Symbol.all s ++ "'")
  | .stray c =>
    if 32 ≤ c.toNat ∧ c.toNat < 127 then bytes (String.ofList ['\'', c, '\''])
    else bytes ("'<\\" ++ toString c.toNat ++ ">'")
  | .endOfText => bytes "<eof>"
  | .fault message => message

/-- A token in its place. -/
structure Lexed where
  token : Token
  /-- The line that the token ends in. -/
  line : Nat
  /-- How a message shows the token. -/
  shown : Bytes
  deriving Inhabited

end Scriptorium.Script
