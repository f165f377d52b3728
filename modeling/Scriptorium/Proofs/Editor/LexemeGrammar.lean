import Scriptorium.Editor.Lexeme

/-!
# The grammar of lexemes

How lexemes are spelled, said without the functions that cut a text: `Spelled kind cs` holds of the texts of
each class. What follows a lexeme in a text is nothing or a LF (`EndsLine`).
-/

namespace Scriptorium.Editor

/-! ## Names and numerals -/

/-- Letters, digits and underscores that do not begin with a digit. -/
def IsName (cs : List Char) : Prop :=
  ∃ c rest, cs = c :: rest ∧ isNameStart c = true ∧ ∀ x ∈ rest, isNameChar x = true

/-- Digits, one of them at least, and perhaps a point before, among or after them. -/
def IsMantissa (isDigit : Char → Bool) (cs : List Char) : Prop :=
  ∃ whole fraction, (∀ c ∈ whole ++ fraction, isDigit c = true) ∧ whole ++ fraction ≠ [] ∧
    (cs = whole ++ '.' :: fraction ∨ (cs = whole ∧ fraction = []))

/-- Nothing, or a mark, perhaps a sign, and decimal digits. -/
def IsExponent (marks : List Char) (cs : List Char) : Prop :=
  cs = [] ∨ ∃ mark sign digits, cs = mark :: (sign ++ digits) ∧ mark ∈ marks ∧
    sign ∈ [[], ['+'], ['-']] ∧ digits ≠ [] ∧ ∀ c ∈ digits, c.isDigit = true

def IsDecimal (cs : List Char) : Prop :=
  ∃ mantissa exponent, cs = mantissa ++ exponent ∧ IsMantissa Char.isDigit mantissa ∧
    IsExponent ['e', 'E'] exponent

def IsHexadecimal (cs : List Char) : Prop :=
  ∃ x mantissa exponent, cs = '0' :: x :: (mantissa ++ exponent) ∧ x ∈ ['x', 'X'] ∧
    IsMantissa isHexDigit mantissa ∧ IsExponent ['p', 'P'] exponent

/-! ## Strings and comments -/

/-- Characters other than the quote, a backslash and LF, and pairs of a backslash and any character. -/
inductive IsQuotedBody (quote : Char) : List Char → Prop where
  | nil : IsQuotedBody quote []
  | plain {c : Char} {cs : List Char} (not_quote : c ≠ quote) (not_backslash : c ≠ '\\')
      (not_lineFeed : c ≠ '\n') (rest : IsQuotedBody quote cs) : IsQuotedBody quote (c :: cs)
  | escape (c : Char) {cs : List Char} (rest : IsQuotedBody quote cs) : IsQuotedBody quote ('\\' :: c :: cs)

/-- The opening long bracket of a level. -/
def opener (level : Nat) : List Char := '[' :: (List.replicate level '=' ++ ['['])

/-- The text ends in the needle, which does not occur earlier. -/
structure EndsFirst (needle cs : List Char) : Prop where
  suffix : needle <:+ cs
  first : ∀ before after, cs = before ++ needle ++ after → after = []

theorem EndsFirst.self {needle : List Char} : EndsFirst needle needle where
  suffix := List.suffix_refl needle
  first before after h := by
    have hlength := congrArg List.length h
    simp only [List.length_append] at hlength
    exact List.eq_nil_of_length_eq_zero (by omega)

theorem EndsFirst.cons {needle cs : List Char} {c : Char} (hfront : ¬ needle <+: c :: cs)
    (h : EndsFirst needle cs) : EndsFirst needle (c :: cs) where
  suffix := h.suffix.trans (List.suffix_cons c cs)
  first before after hcs := by
    cases before with
    | nil => exact absurd ⟨after, hcs.symm⟩ hfront
    | cons b before => exact h.first before after (List.cons.inj hcs).2

/-- A long bracket of a level with all that it holds. -/
def IsLong (level : Nat) (cs : List Char) : Prop :=
  ∃ body, cs = opener level ++ body ∧ EndsFirst (closer level) body

/-! ## Symbols -/

/-- An ASCII character that is no blank and does not belong to words or quotes. -/
structure IsSymbolChar (c : Char) : Prop where
  ascii : isAscii c = true
  not_blank : Text.isAsciiBlank c = false
  not_alphanum : c.isAlphanum = false
  not_underscore : c ≠ '_'
  not_double : c ≠ '"'
  not_single : c ≠ '\''

/-! ## Lexemes -/

/-- The spelling of each class of lexemes. -/
inductive Spelled : LexemeKind → List Char → Prop where
  | keyword {cs : List Char} (reserved : String.ofList cs ∈ keywords) : Spelled .keyword cs
  | name {cs : List Char} (word : IsName cs) (free : String.ofList cs ∉ keywords) : Spelled .name cs
  | decimal {cs : List Char} (numeral : IsDecimal cs) : Spelled .number cs
  | hexadecimal {cs : List Char} (numeral : IsHexadecimal cs) : Spelled .number cs
  | quoted {quote : Char} {body : List Char} (isQuote : quote = '"' ∨ quote = '\'')
      (escaped : IsQuotedBody quote body) : Spelled .string (quote :: (body ++ [quote]))
  | longString {level : Nat} {cs : List Char} (long : IsLong level cs) : Spelled .string cs
  | lineComment {cs : List Char} (oneLine : '\n' ∉ cs) (short : ∀ level, ¬ opener level <+: cs) :
      Spelled .comment ('-' :: '-' :: cs)
  | longComment {level : Nat} {cs : List Char} (long : IsLong level cs) : Spelled .comment ('-' :: '-' :: cs)
  | longSymbol {cs : List Char} (listed : cs ∈ longSymbols) : Spelled .symbol cs
  | symbol {c : Char} (plain : IsSymbolChar c) : Spelled .symbol [c]

/-- Nothing follows on the line. -/
def EndsLine (rest : List Char) : Prop := rest = [] ∨ rest.head? = some '\n'

theorem endsLine_nil : EndsLine [] := .inl rfl

theorem endsLine_lineFeed (rest : List Char) : EndsLine ('\n' :: rest) := .inr rfl

theorem EndsLine.cases {rest : List Char} (h : EndsLine rest) : rest = [] ∨ ∃ tail, rest = '\n' :: tail := by
  rcases h with h | h
  · exact .inl h
  · exact .inr (List.head?_eq_some_iff.1 h)

/-- What follows begins with no character of a class that LF is not in. -/
theorem EndsLine.head {rest : List Char} (h : EndsLine rest) {p : Char → Prop} (hp : p '\n') :
    ∀ c ∈ rest.head?, p c := by
  rcases h.cases with rfl | ⟨tail, rfl⟩
  · simp
  · simpa using hp

end Scriptorium.Editor
