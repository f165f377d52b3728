import Scriptorium.Proofs.Text.Runs
import Scriptorium.Proofs.Editor.LexemeGrammar

/-!
# Recognising lexemes

Each length that the lexer computes, on a text that begins with a well-spelled lexeme, is the length of that
lexeme. Where a class takes the longest run, the end of the line is what stops it.
-/

namespace Scriptorium.Editor

open Text

variable {cs rest : List Char} {c : Char} {hex : Bool}

/-! ## Numerals -/

/-- The digits of a base. -/
def isBaseDigit (hex : Bool) (c : Char) : Bool := if hex then isHexDigit c else c.isDigit

/-- The letters that mark an exponent in a base. -/
def exponentMarks (hex : Bool) : List Char := if hex then ['p', 'P'] else ['e', 'E']

theorem isExponentMark_iff : isExponentMark hex c = true ↔ c ∈ exponentMarks hex := by
  cases hex <;> simp [isExponentMark, exponentMarks]

theorem isHexDigit_of_isDigit (h : c.isDigit = true) : isHexDigit c = true := by simp [isHexDigit, h]

theorem isBaseDigit_of_isDigit (h : c.isDigit = true) : isBaseDigit hex c = true := by
  cases hex
  · exact h
  · exact isHexDigit_of_isDigit h

theorem ne_of_isBaseDigit (h : isBaseDigit hex c = true) {x : Char} (hx : isBaseDigit hex x = false) :
    c ≠ x := by
  rintro rfl
  rw [h] at hx
  cases hx

theorem not_isExponentMark_of_isBaseDigit (h : isBaseDigit hex c = true) : isExponentMark hex c = false := by
  rw [← Bool.not_eq_true, isExponentMark_iff]
  cases hex with
  | false => simpa [exponentMarks] using ⟨ne_of_isBaseDigit h rfl, ne_of_isBaseDigit h rfl⟩
  | true => simpa [exponentMarks] using ⟨ne_of_isBaseDigit h rfl, ne_of_isBaseDigit h rfl⟩

theorem numeralLength_digit (h : isBaseDigit hex c = true) (cs : List Char) :
    numeralLength hex (c :: cs) = 1 + numeralLength hex cs := by
  have hmark := not_isExponentMark_of_isBaseDigit h
  have hclass : ((hex && isHexDigit c) || c.isDigit) = true := by
    cases hex with
    | false => simpa [isBaseDigit] using h
    | true => simp [show isHexDigit c = true from h]
  cases cs with
  | nil => simp [numeralLength, hmark, hclass]
  | cons d cs => simp [numeralLength, hmark, hclass]

theorem numeralLength_point {cs : List Char} (h : ∀ x ∈ cs.head?, x ≠ '.') :
    numeralLength hex ('.' :: cs) = 1 + numeralLength hex cs := by
  have hmark : isExponentMark hex '.' = false := by cases hex <;> rfl
  cases cs with
  | nil => simp [numeralLength]
  | cons d cs =>
    have hd : d ≠ '.' := h d rfl
    simp [numeralLength, hmark, hd]

theorem numeralLength_signed (h : c ∈ exponentMarks hex) {sign : Char} (hsign : sign = '+' ∨ sign = '-')
    (cs : List Char) : numeralLength hex (c :: sign :: cs) = 2 + numeralLength hex cs := by
  rw [numeralLength, if_pos (isExponentMark_iff.2 h), if_pos hsign]

theorem numeralLength_mark (h : c ∈ exponentMarks hex) {d : Char} (hd : d.isDigit = true) (cs : List Char) :
    numeralLength hex (c :: d :: cs) = 1 + numeralLength hex (d :: cs) := by
  rw [numeralLength, if_pos (isExponentMark_iff.2 h), if_neg]
  rintro (rfl | rfl) <;> exact absurd hd (by decide)

theorem numeralLength_endsLine (h : EndsLine rest) : numeralLength hex rest = 0 := by
  rcases h.cases with rfl | ⟨tail, rfl⟩
  · rfl
  · cases tail with
    | nil => cases hex <;> decide
    | cons d tail => cases hex <;> simp [numeralLength, isExponentMark, isHexDigit]

theorem numeralLength_digits (h : ∀ x ∈ cs, isBaseDigit hex x = true) (rest : List Char) :
    numeralLength hex (cs ++ rest) = cs.length + numeralLength hex rest := by
  induction cs with
  | nil => simp
  | cons c cs ih =>
    rw [List.cons_append, numeralLength_digit (h c (by simp)), ih fun x hx => h x (by simp [hx]),
      List.length_cons]
    omega

theorem numeralLength_exponent (h : IsExponent (exponentMarks hex) cs) (hrest : EndsLine rest) :
    numeralLength hex (cs ++ rest) = cs.length := by
  rcases h with rfl | ⟨mark, sign, digits, rfl, hmark, hsign, hne, hdigits⟩
  · exact numeralLength_endsLine hrest
  · have hrun : numeralLength hex (digits ++ rest) = digits.length := by
      rw [numeralLength_digits (fun x hx => isBaseDigit_of_isDigit (hdigits x hx)),
        numeralLength_endsLine hrest, Nat.add_zero]
    obtain ⟨d, digits, rfl⟩ := List.exists_cons_of_ne_nil hne
    have hd := hdigits d (by simp)
    simp only [List.mem_cons, List.not_mem_nil, or_false] at hsign
    rcases hsign with rfl | rfl | rfl
    · rw [List.nil_append, List.cons_append, List.cons_append, numeralLength_mark hmark hd,
        ← List.cons_append, hrun, List.length_cons (a := mark), Nat.add_comm]
    · rw [List.cons_append, List.cons_append, List.cons_append, List.nil_append,
        numeralLength_signed hmark (.inl rfl), hrun]
      simp only [List.length_cons]
      omega
    · rw [List.cons_append, List.cons_append, List.cons_append, List.nil_append,
        numeralLength_signed hmark (.inr rfl), hrun]
      simp only [List.length_cons]
      omega

theorem IsExponent.forall_head? {marks : List Char} (h : IsExponent marks cs) {p : Char → Prop}
    (hp : ∀ x ∈ marks, p x) : ∀ x ∈ cs.head?, p x := by
  rcases h with rfl | ⟨mark, sign, digits, rfl, hmark, -⟩
  · simp
  · simpa using hp mark hmark

theorem numeralLength_mantissa {mantissa exponent : List Char} (h : IsMantissa (isBaseDigit hex) mantissa)
    (hexponent : IsExponent (exponentMarks hex) exponent) (hrest : EndsLine rest) :
    numeralLength hex (mantissa ++ exponent ++ rest) = (mantissa ++ exponent).length := by
  have htail := numeralLength_exponent hexponent hrest
  obtain ⟨whole, fraction, hdigits, -, rfl | ⟨rfl, rfl⟩⟩ := h
  · have hfraction : ∀ x ∈ fraction, isBaseDigit hex x = true := fun x hx => hdigits x (by simp [hx])
    have hpoint : ∀ x ∈ (fraction ++ (exponent ++ rest)).head?, x ≠ '.' := by
      refine forall_head?_append (fun x hx => ne_of_isBaseDigit (hfraction x hx) (by cases hex <;> rfl)) ?_
      intro x hx
      cases hexponent' : exponent with
      | nil =>
        rw [hexponent'] at hx
        exact hrest.head (p := (· ≠ '.')) (by decide) x hx
      | cons mark tail =>
        rw [hexponent'] at hx hexponent
        refine hexponent.forall_head? (p := (· ≠ '.')) ?_ x hx
        cases hex <;> simp [exponentMarks]
    rw [List.append_assoc, List.append_assoc, numeralLength_digits fun x hx => hdigits x (by simp [hx]),
      List.cons_append, numeralLength_point hpoint, numeralLength_digits hfraction, htail]
    simp only [List.length_append, List.length_cons]
    omega
  · rw [List.append_assoc, numeralLength_digits fun x hx => hdigits x (by simp [hx]), htail,
      List.length_append]

theorem numberLength_eq (h : ∀ x ∈ cs.head?, x ≠ 'x' ∧ x ≠ 'X') (c : Char) :
    numberLength (c :: cs) = numeralLength false (c :: cs) := by
  unfold numberLength
  split
  next x tail heq =>
    obtain ⟨rfl, rfl⟩ := List.cons.inj heq
    rw [if_neg (by simpa using h x rfl)]
  next => rfl

theorem IsMantissa.startsNumber (h : IsMantissa Char.isDigit cs) (rest : List Char) :
    startsNumber (cs ++ rest) = true := by
  obtain ⟨whole, fraction, hdigits, hne, rfl | ⟨rfl, rfl⟩⟩ := h
  · cases whole with
    | nil =>
      obtain ⟨d, fraction, rfl⟩ := List.exists_cons_of_ne_nil hne
      simp [Editor.startsNumber, hdigits d (by simp)]
    | cons d whole => simp [Editor.startsNumber, hdigits d (by simp)]
  · obtain ⟨d, whole, rfl⟩ := List.exists_cons_of_ne_nil (by simpa using hne)
    simp [Editor.startsNumber, hdigits d (by simp)]

/-! ## Strings -/

theorem quotedLength_cons (quote : Char) (h : c ≠ '\\') (cs : List Char) :
    quotedLength quote (c :: cs) =
      if c = '\n' then 0 else if c = quote then 1 else 1 + quotedLength quote cs := by
  rw [quotedLength]
  · exact fun hc _ => h hc
  · exact fun _ _ hc _ => h hc

theorem quotedLength_body {quote : Char} (hquote : quote = '"' ∨ quote = '\'') (h : IsQuotedBody quote cs)
    (rest : List Char) : quotedLength quote (cs ++ quote :: rest) = cs.length + 1 := by
  have hbackslash : quote ≠ '\\' := by rcases hquote with rfl | rfl <;> decide
  have hlineFeed : quote ≠ '\n' := by rcases hquote with rfl | rfl <;> decide
  induction h with
  | nil =>
    rw [List.nil_append, quotedLength_cons quote hbackslash, if_neg hlineFeed, if_pos rfl, List.length_nil]
  | @plain c cs not_quote not_backslash not_lineFeed _ ih =>
    rw [List.cons_append, quotedLength_cons quote not_backslash, if_neg not_lineFeed, if_neg not_quote, ih,
      List.length_cons]
    omega
  | @escape c cs _ ih =>
    rw [List.cons_append, List.cons_append, quotedLength, ih, List.length_cons, List.length_cons]
    omega

/-! ## Long brackets -/

theorem bracketLevel?_opener (level : Nat) (rest : List Char) :
    bracketLevel? (opener level ++ rest) = some level := by
  have hrun : (List.replicate level '=' ++ '[' :: rest).takeWhile (· == '=') = List.replicate level '=' :=
    takeWhile_of_head? (fun x hx => by simp [List.eq_of_mem_replicate hx]) (by simp)
  have hopener : opener level ++ rest = '[' :: (List.replicate level '=' ++ '[' :: rest) := by simp [opener]
  rw [hopener, bracketLevel?]
  simp only [hrun, List.length_replicate, List.drop_left', List.head?_cons, if_true]

theorem opener_of_bracketLevel? {level : Nat} (h : bracketLevel? cs = some level) : opener level <+: cs := by
  unfold bracketLevel? at h
  split at h
  next cs =>
    dsimp only at h
    split at h
    next hhead =>
      obtain rfl := Option.some.inj h
      obtain ⟨tail, htail⟩ := List.head?_eq_some_iff.1 hhead
      have hrun : cs.takeWhile (· == '=') = List.replicate (cs.takeWhile (· == '=')).length '=' :=
        List.eq_replicate_iff.2 ⟨rfl, fun x hx => by simpa using List.mem_takeWhile_imp hx⟩
      refine ⟨tail, ?_⟩
      rw [opener, ← hrun, List.cons_append, List.append_assoc, List.singleton_append, ← htail,
        List.prefix_iff_eq_append.1 (List.takeWhile_prefix _)]
    next => cases h
  next => cases h

/-- A text that ends in the needle for the first time is the needle, or goes on so after its first character. -/
theorem EndsFirst.cons_cases {needle : List Char} (h : EndsFirst needle (c :: cs)) :
    c :: cs = needle ∨ (¬ needle <+: c :: cs ∧ EndsFirst needle cs) := by
  by_cases hfront : needle <+: c :: cs
  · obtain ⟨after, hafter⟩ := hfront
    have hend : after = [] := h.first [] after (by simp [hafter])
    rw [hend, List.append_nil] at hafter
    exact .inl hafter.symm
  · refine .inr ⟨hfront, ?_, fun before after hcs => h.first (c :: before) after (by simp [hcs])⟩
    rcases List.suffix_cons_iff.1 h.suffix with heq | hsuffix
    · exact absurd (heq ▸ List.prefix_refl needle) hfront
    · exact hsuffix

theorem longLength_endsFirst {level : Nat} (h : EndsFirst (closer level) cs) (rest : List Char) :
    longLength level (cs ++ rest) = cs.length := by
  induction cs with
  | nil => exact absurd (List.suffix_nil.1 h.suffix) (by simp [closer])
  | cons c cs ih =>
    rw [List.cons_append, longLength]
    -- what follows the text cannot complete a needle that begins inside it, as a whole one still comes
    rcases h.cons_cases with heq | ⟨hfront, hcs⟩
    · rw [if_pos (List.isPrefixOf_iff_prefix.2 ⟨rest, by rw [← heq, List.cons_append]⟩), heq, closer]
      simp
    · rw [if_neg, ih hcs, List.length_cons, Nat.add_comm]
      rw [List.isPrefixOf_iff_prefix, ← List.cons_append]
      intro hprefix
      exact hfront (List.prefix_of_prefix_length_le hprefix (List.prefix_append _ _) h.suffix.length_le)

theorem lineLength_append (h : '\n' ∉ cs) (hrest : EndsLine rest) : lineLength (cs ++ rest) = cs.length := by
  unfold lineLength
  rw [takeWhile_of_head? (fun x hx => by simpa using ne_of_mem_of_not_mem hx h) (hrest.head (by decide))]

/-! ## The lexeme at the start of a text -/

/-- An ASCII character that begins no comment, no string and is no blank. -/
structure BeginsBare (c : Char) (cs : List Char) : Prop where
  ascii : isAscii c = true
  not_blank : isAsciiBlank c = false
  not_comment : ¬ (c = '-' ∧ cs.head? = some '-')
  not_quote : ¬ (c = '"' ∨ c = '\'')
  not_long : bracketLevel? (c :: cs) = none

theorem BeginsBare.lexemeLength? (h : BeginsBare c cs) :
    lexemeLength? (c :: cs) =
      if startsNumber (c :: cs) then some (.number, numberLength (c :: cs))
      else if isNameStart c then
        some (wordKind ((c :: cs).takeWhile isNameChar), ((c :: cs).takeWhile isNameChar).length)
      else some (.symbol, symbolLength (c :: cs)) := by
  rw [Editor.lexemeLength?, if_neg (by simp [h.ascii, h.not_blank]), if_neg h.not_comment, if_neg h.not_quote,
    h.not_long]

theorem bracketLevel?_of_ne (h : c ≠ '[') (cs : List Char) : bracketLevel? (c :: cs) = none := by
  unfold bracketLevel?
  split
  next heq => exact absurd (List.cons.inj heq).1 h
  next => rfl

theorem isAlpha_iff_toNat :
    c.isAlpha = true ↔ (65 ≤ c.toNat ∧ c.toNat ≤ 90) ∨ (97 ≤ c.toNat ∧ c.toNat ≤ 122) := by
  have hclass : c.isAlpha = (decide ('A'.val ≤ c.val ∧ c.val ≤ 'Z'.val) ||
      (decide ('a'.val ≤ c.val) && decide (c.val ≤ 'z'.val))) := rfl
  rw [hclass]
  simp [UInt32.le_iff_toNat_le]

theorem toNat_lt_of_isAlphanum (h : c.isAlphanum = true) : c.toNat < 128 := by
  rw [Char.isAlphanum, Bool.or_eq_true, isAlpha_iff_toNat, Char.isDigit_iff_toNat] at h
  have h9 : '9'.toNat = 57 := rfl
  omega

theorem ne_of_isNameChar (h : isNameChar c = true) {x : Char} (hx : isNameChar x = false) : c ≠ x := by
  rintro rfl
  rw [h] at hx
  cases hx

theorem beginsBare_of_isNameChar (h : isNameChar c = true) (cs : List Char) : BeginsBare c cs where
  ascii := by
    simp only [isNameChar, Bool.or_eq_true, beq_iff_eq] at h
    rcases h with h | rfl
    · simpa [isAscii] using toNat_lt_of_isAlphanum h
    · rfl
  not_blank := by
    rw [← Bool.not_eq_true]
    intro hblank
    simp only [isAsciiBlank, Bool.or_eq_true, beq_iff_eq, or_assoc] at hblank
    rcases hblank with rfl | rfl | rfl | rfl | rfl <;> exact absurd h (by decide)
  not_comment hc := ne_of_isNameChar h rfl hc.1
  not_quote hc := hc.elim (ne_of_isNameChar h rfl) (ne_of_isNameChar h rfl)
  not_long := bracketLevel?_of_ne (ne_of_isNameChar h rfl) cs

theorem beginsBare_point (cs : List Char) : BeginsBare '.' cs where
  ascii := rfl
  not_blank := rfl
  not_comment := by simp
  not_quote := by decide
  not_long := bracketLevel?_of_ne (by decide) cs

theorem isName_of_all (hstart : cs.head?.any isNameStart = true) (hall : cs.all isNameChar = true) :
    IsName cs := by
  cases cs with
  | nil => cases hstart
  | cons c cs => exact ⟨c, cs, rfl, hstart, fun x hx => List.all_eq_true.1 hall x (by simp [hx])⟩

theorem isName_of_mem_keywords (h : String.ofList cs ∈ keywords) : IsName cs := by
  have hall : ∀ word ∈ keywords,
      word.toList.head?.any isNameStart = true ∧ word.toList.all isNameChar = true := by decide
  obtain ⟨hstart, hchars⟩ := hall _ h
  rw [String.toList_ofList] at hstart hchars
  exact isName_of_all hstart hchars

theorem isNameChar_of_isNameStart (h : isNameStart c = true) : isNameChar c = true := by
  simp only [isNameStart, isNameChar, Char.isAlphanum, Bool.or_eq_true] at h ⊢
  exact h.imp_left .inl

theorem not_isDigit_of_isNameStart (h : isNameStart c = true) : c.isDigit = false := by
  rw [← Bool.not_eq_true, Char.isDigit_iff_toNat]
  intro hdigit
  rw [isNameStart, Bool.or_eq_true, beq_iff_eq, isAlpha_iff_toNat] at h
  have h0 : '0'.toNat = 48 := rfl
  have h9 : '9'.toNat = 57 := rfl
  rcases h with h | rfl
  · omega
  · exact absurd hdigit (by decide)

theorem IsName.lexemeLength? (h : IsName cs) (hrest : EndsLine rest) :
    lexemeLength? (cs ++ rest) = some (wordKind cs, cs.length) := by
  obtain ⟨c, tail, rfl, hstart, hchars⟩ := h
  have hchar := isNameChar_of_isNameStart hstart
  have hnumber : startsNumber (c :: (tail ++ rest)) = false := by
    simp [startsNumber, not_isDigit_of_isNameStart hstart, ne_of_isNameChar hchar (x := '.') rfl]
  have hrun : (c :: (tail ++ rest)).takeWhile isNameChar = c :: tail :=
    takeWhile_of_head? (List.forall_mem_cons.2 ⟨hchar, hchars⟩) (hrest.head (by decide))
  rw [List.cons_append, (beginsBare_of_isNameChar hchar _).lexemeLength?, hnumber, if_neg Bool.false_ne_true,
    if_pos hstart, hrun]

theorem lexemeLength?_number (h : startsNumber cs = true) :
    lexemeLength? cs = some (.number, numberLength cs) := by
  cases cs with
  | nil => cases h
  | cons c cs =>
    have hbare : BeginsBare c cs := by
      have hc := h
      simp only [startsNumber, Bool.or_eq_true, Bool.and_eq_true, beq_iff_eq] at hc
      rcases hc with hdigit | ⟨rfl, -⟩
      · exact beginsBare_of_isNameChar (by simp [isNameChar, Char.isAlphanum, hdigit]) cs
      · exact beginsBare_point cs
    rw [hbare.lexemeLength?, if_pos h]

theorem IsMantissa.mem {isDigit : Char → Bool} (h : IsMantissa isDigit cs) {x : Char} (hx : x ∈ cs) :
    isDigit x = true ∨ x = '.' := by
  obtain ⟨whole, fraction, hdigits, -, rfl | ⟨rfl, rfl⟩⟩ := h
  · simp only [List.mem_append, List.mem_cons] at hx hdigits
    rcases hx with hx | rfl | hx
    · exact .inl (hdigits x (.inl hx))
    · exact .inr rfl
    · exact .inl (hdigits x (.inr hx))
  · exact .inl (hdigits x (by simpa using hx))

theorem IsExponent.mem {marks : List Char} (h : IsExponent marks cs) {x : Char} (hx : x ∈ cs) :
    x ∈ marks ∨ x ∈ ['+', '-'] ∨ x.isDigit = true := by
  rcases h with rfl | ⟨mark, sign, digits, rfl, hmark, hsign, -, hdigits⟩
  · cases hx
  · rw [List.mem_cons, List.mem_append] at hx
    rcases hx with rfl | hx | hx
    · exact .inl hmark
    · simp only [List.mem_cons, List.not_mem_nil, or_false] at hsign
      rcases hsign with rfl | rfl | rfl
      · cases hx
      · exact .inr (.inl (by simp_all))
      · exact .inr (.inl (by simp_all))
    · exact .inr (.inr (hdigits x hx))

/-- No numeral of base ten looks hexadecimal. -/
theorem IsDecimal.not_mark (h : IsDecimal cs) {x : Char} (hx : x ∈ cs) : x ≠ 'x' ∧ x ≠ 'X' := by
  have hdigit : x.isDigit = true → x ≠ 'x' ∧ x ≠ 'X' := by
    intro hx
    constructor <;> rintro rfl <;> cases hx
  obtain ⟨mantissa, exponent, rfl, hmantissa, hexponent⟩ := h
  have hletters : ∀ y ∈ ['e', 'E', '+', '-'], y ≠ 'x' ∧ y ≠ 'X' := by simp
  rcases List.mem_append.1 hx with hx | hx
  · rcases hmantissa.mem hx with hx | rfl
    · exact hdigit hx
    · decide
  · rcases hexponent.mem hx with hx | hx | hx
    · exact hletters x (List.mem_append_left ['+', '-'] hx)
    · exact hletters x (List.mem_append_right ['e', 'E'] hx)
    · exact hdigit hx

theorem IsDecimal.lexemeLength? (h : IsDecimal cs) (hrest : EndsLine rest) :
    lexemeLength? (cs ++ rest) = some (.number, cs.length) := by
  have hmark : ∀ x ∈ cs, x ≠ 'x' ∧ x ≠ 'X' := fun x hx => h.not_mark hx
  obtain ⟨mantissa, exponent, rfl, hmantissa, hexponent⟩ := h
  have hstart : startsNumber (mantissa ++ exponent ++ rest) = true := by
    rw [List.append_assoc]
    exact hmantissa.startsNumber _
  have hlength : numberLength (mantissa ++ exponent ++ rest) =
      numeralLength false (mantissa ++ exponent ++ rest) := by
    cases hcs : mantissa ++ exponent with
    | nil =>
      obtain ⟨rfl, rfl⟩ := List.append_eq_nil_iff.1 hcs
      exact absurd (hmantissa.startsNumber []) (by decide)
    | cons c cs =>
      rw [hcs] at hmark
      have hcs' : ∀ x ∈ cs, x ≠ 'x' ∧ x ≠ 'X' := fun x hx => hmark x (by simp [hx])
      exact numberLength_eq (forall_head?_append hcs' (hrest.head (by decide))) c
  have hrun : numeralLength false (mantissa ++ exponent ++ rest) = (mantissa ++ exponent).length :=
    numeralLength_mantissa hmantissa hexponent hrest
  rw [lexemeLength?_number hstart, hlength, hrun]

theorem IsHexadecimal.lexemeLength? (h : IsHexadecimal cs) (hrest : EndsLine rest) :
    lexemeLength? (cs ++ rest) = some (.number, cs.length) := by
  obtain ⟨x, mantissa, exponent, rfl, hx, hmantissa, hexponent⟩ := h
  have hmark : x = 'x' ∨ x = 'X' := by simpa using hx
  have hrun : numeralLength true (mantissa ++ exponent ++ rest) = (mantissa ++ exponent).length :=
    numeralLength_mantissa hmantissa hexponent hrest
  rw [List.cons_append, List.cons_append, lexemeLength?_number (by simp [startsNumber]), numberLength,
    if_pos hmark, hrun, List.length_cons, List.length_cons, Nat.add_comm]

theorem lexemeLength?_quoted {quote : Char} (hquote : quote = '"' ∨ quote = '\'') (h : IsQuotedBody quote cs)
    (rest : List Char) :
    lexemeLength? (quote :: (cs ++ quote :: rest)) = some (.string, 1 + (cs.length + 1)) := by
  have hplain : (isAsciiBlank quote || !isAscii quote) = false := by rcases hquote with rfl | rfl <;> rfl
  have hdash : quote ≠ '-' := by rcases hquote with rfl | rfl <;> decide
  rw [lexemeLength?, if_neg (by simp [hplain]), if_neg (by simp [hdash]), if_pos hquote,
    quotedLength_body hquote h]

theorem length_opener (level : Nat) : (opener level).length = level + 2 := by simp [opener]

theorem drop_opener (level : Nat) (cs : List Char) : (opener level ++ cs).drop (level + 2) = cs :=
  List.drop_left' (length_opener level)

theorem lexemeLength?_long {level : Nat} (h : IsLong level cs) (rest : List Char) :
    lexemeLength? (cs ++ rest) = some (.string, cs.length) := by
  obtain ⟨body, rfl, hbody⟩ := h
  have hlevel := bracketLevel?_opener level (body ++ rest)
  have hdrop := drop_opener level (body ++ rest)
  rw [opener, List.cons_append] at hlevel hdrop
  rw [List.drop_succ_cons] at hdrop
  rw [List.append_assoc, List.length_append, length_opener, opener, List.cons_append, lexemeLength?,
    if_neg (by decide), if_neg (by simp), if_neg (by decide), hlevel]
  dsimp only
  rw [hdrop, longLength_endsFirst hbody]

theorem lexemeLength?_comment (cs : List Char) :
    lexemeLength? ('-' :: '-' :: cs) = some (.comment, commentLength ('-' :: '-' :: cs)) := by
  rw [lexemeLength?, if_neg (by decide), if_pos ⟨rfl, rfl⟩]

theorem lexemeLength?_longComment {level : Nat} (h : IsLong level cs) (rest : List Char) :
    lexemeLength? ('-' :: '-' :: (cs ++ rest)) = some (.comment, cs.length + 2) := by
  obtain ⟨body, rfl, hbody⟩ := h
  rw [lexemeLength?_comment, commentLength, List.drop_succ_cons, List.drop_succ_cons, List.drop_zero,
    List.append_assoc, bracketLevel?_opener]
  dsimp only
  rw [List.drop_succ_cons, List.drop_succ_cons, drop_opener, longLength_endsFirst hbody, List.length_append,
    length_opener]
  congr 2
  omega

/-- What fits within the line fits before its end. -/
theorem prefix_of_endsLine {needle : List Char} (hneedle : '\n' ∉ needle) (hrest : EndsLine rest)
    (h : needle <+: cs ++ rest) : needle <+: cs := by
  rcases List.prefix_or_prefix_of_prefix h (List.prefix_append cs rest) with hprefix | ⟨tail, rfl⟩
  · exact hprefix
  · have htail : tail <+: rest := (List.prefix_append_right_inj cs).1 h
    cases tail with
    | nil => simp
    | cons x tail =>
      obtain ⟨after, rfl⟩ := htail
      have hx : x = '\n' := hrest.head (p := (· = '\n')) rfl x rfl
      exact absurd (by simp [hx]) hneedle

theorem lineFeed_not_mem_opener (level : Nat) : '\n' ∉ opener level := by
  simp [opener, List.mem_replicate]

theorem lexemeLength?_lineComment (hline : '\n' ∉ cs) (hshort : ∀ level, ¬ opener level <+: cs)
    (hrest : EndsLine rest) :
    lexemeLength? ('-' :: '-' :: (cs ++ rest)) = some (.comment, cs.length + 2) := by
  have hopen : bracketLevel? (cs ++ rest) = none := by
    rw [Option.eq_none_iff_forall_ne_some]
    intro level hlevel
    have hprefix := opener_of_bracketLevel? hlevel
    exact hshort level (prefix_of_endsLine (lineFeed_not_mem_opener level) hrest hprefix)
  have hlength : lineLength ('-' :: '-' :: cs ++ rest) = ('-' :: '-' :: cs).length :=
    lineLength_append (by simpa using hline) hrest
  rw [lexemeLength?_comment, commentLength, List.drop_succ_cons, List.drop_succ_cons, List.drop_zero, hopen]
  dsimp only
  rw [← List.cons_append, ← List.cons_append, hlength, List.length_cons, List.length_cons]

/-! ## Symbols -/

theorem length_of_mem_longSymbols {op : List Char} (h : op ∈ longSymbols) : 2 ≤ op.length ∧ '\n' ∉ op := by
  revert op
  decide

theorem symbolLength_append (hrest : EndsLine rest) (cs : List Char) :
    symbolLength (cs ++ rest) = symbolLength cs := by
  have hsame : ∀ op ∈ longSymbols, op.isPrefixOf (cs ++ rest) = op.isPrefixOf cs := by
    intro op hop
    rw [Bool.eq_iff_iff, List.isPrefixOf_iff_prefix, List.isPrefixOf_iff_prefix]
    constructor
    · exact prefix_of_endsLine (length_of_mem_longSymbols hop).2 hrest
    · exact fun h => h.trans (List.prefix_append cs rest)
  have hfind : longSymbols.find? (·.isPrefixOf (cs ++ rest)) = longSymbols.find? (·.isPrefixOf cs) := by
    rw [← List.head?_filter, ← List.head?_filter, List.filter_congr hsame]
  rw [symbolLength, hfind, symbolLength]

theorem lexemeLength?_symbol (hc : IsSymbolChar c) (hopen : bracketLevel? (c :: (cs ++ rest)) = none)
    (hnext : ∀ x ∈ (cs ++ rest).head?, x ≠ '-' ∧ x.isDigit = false) (hrest : EndsLine rest) :
    lexemeLength? (c :: (cs ++ rest)) = some (.symbol, symbolLength (c :: cs)) := by
  have halphanum := hc.not_alphanum
  simp only [Char.isAlphanum, Bool.or_eq_false_iff] at halphanum
  have hnumber : startsNumber (c :: (cs ++ rest)) = false := by
    cases hhead : (cs ++ rest).head? with
    | none => simp [startsNumber, halphanum.2, hhead]
    | some x => simp [startsNumber, halphanum.2, hhead, (hnext x hhead).2]
  have hname : isNameStart c = false := by simp [isNameStart, halphanum.1, hc.not_underscore]
  have hbare : BeginsBare c (cs ++ rest) :=
    { ascii := hc.ascii
      not_blank := hc.not_blank
      not_comment := fun h => (hnext '-' h.2).1 rfl
      not_quote := fun h => h.elim hc.not_double hc.not_single
      not_long := hopen }
  rw [hbare.lexemeLength?, hnumber, hname, if_neg Bool.false_ne_true, if_neg Bool.false_ne_true,
    ← List.cons_append, symbolLength_append hrest]

theorem symbolLength_singleton (c : Char) : symbolLength [c] = 1 := by
  have hfind : longSymbols.find? (·.isPrefixOf [c]) = none := by
    rw [List.find?_eq_none]
    intro op hop hprefix
    have hle := (List.isPrefixOf_iff_prefix.1 hprefix).length_le
    have := (length_of_mem_longSymbols hop).1
    simp only [List.length_singleton] at hle
    omega
  rw [symbolLength, hfind]

theorem bracketLevel?_endsLine (hrest : EndsLine rest) (c : Char) : bracketLevel? (c :: rest) = none := by
  rw [Option.eq_none_iff_forall_ne_some]
  intro level hlevel
  have hprefix : opener level <+: [c] :=
    prefix_of_endsLine (lineFeed_not_mem_opener level) hrest (opener_of_bracketLevel? hlevel)
  have := hprefix.length_le
  rw [length_opener, List.length_singleton] at this
  omega

theorem IsSymbolChar.lexemeLength? (h : IsSymbolChar c) (hrest : EndsLine rest) :
    lexemeLength? (c :: rest) = some (.symbol, 1) := by
  have hsymbol : Editor.lexemeLength? (c :: ([] ++ rest)) = some (.symbol, symbolLength [c]) :=
    lexemeLength?_symbol h (bracketLevel?_endsLine hrest c) (hrest.head (by decide)) hrest
  rwa [symbolLength_singleton] at hsymbol

theorem lexemeLength?_longSymbol (h : cs ∈ longSymbols) (hrest : EndsLine rest) :
    lexemeLength? (cs ++ rest) = some (.symbol, cs.length) := by
  have hlength : ∀ op ∈ longSymbols, symbolLength op = op.length := by decide
  obtain ⟨c, d, tail, rfl, hc, hopen, hdash, hdigit⟩ : ∃ c d tail,
      cs = c :: d :: tail ∧ IsSymbolChar c ∧ c ≠ '[' ∧ d ≠ '-' ∧ d.isDigit = false := by
    simp only [longSymbols, List.map_cons, List.map_nil, List.mem_cons, List.not_mem_nil, or_false] at h
    rcases h with rfl | rfl | rfl | rfl | rfl | rfl | rfl | rfl | rfl | rfl <;>
      exact ⟨_, _, _, rfl, ⟨rfl, rfl, rfl, by decide, by decide, by decide⟩, by decide, by decide, rfl⟩
  rw [← hlength _ h]
  exact lexemeLength?_symbol hc (bracketLevel?_of_ne hopen _) (by simpa using ⟨hdash, hdigit⟩) hrest

end Scriptorium.Editor
