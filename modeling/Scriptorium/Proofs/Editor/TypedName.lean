import Mathlib.Data.List.DropRight
import Scriptorium.Editor.Completion
import Scriptorium.Proofs.Editor.DigitRuns
import Scriptorium.Proofs.Text.Runs

/-!
# Where names can be completed

There is nothing to complete inside strings and comments, nor at numerals. `typedAt?` finds the numerals by the
character at which the word of the cursor begins, so at a numeral it refuses the cursors of `Token.Blocks` and no
others: `typedAt?_eq_none_iff`.
-/

namespace Scriptorium.Editor

open Text

variable {cs x y front word : List Char} {d : Char} {cursor : Nat} {t : Token}

/-- The name characters at the end of a text. -/
def lastWord (cs : List Char) : List Char := cs.rtakeWhile isNameChar

/-- The text begins with a decimal digit. -/
def BeginsWithDigit (cs : List Char) : Prop := cs.head?.any Char.isDigit = true

instance (cs : List Char) : Decidable (BeginsWithDigit cs) :=
  inferInstanceAs (Decidable (cs.head?.any Char.isDigit = true))

/-- A numeral keeps a cursor from being completed when the word there begins with a digit of it. -/
inductive Token.Blocks (t : Token) (cs : List Char) (cursor : Nat) : Prop where
  /-- In the numeral or right behind it. Behind its point or sign only a digit counts. -/
  | within (front back : List Char) (text : t.text = front ++ back) (nonempty : front ≠ [])
      (place : cursor = t.start + size front) (digit : BeginsWithDigit (lastWord front ++ back))
  /-- Right before the numeral, of which nothing has been typed. -/
  | ahead (place : cursor = t.start) (digit : BeginsWithDigit t.text)
  /-- In a name that begins where the numeral ends. -/
  | behind (word : List Char) (before : word <+: drop t.stop cs) (nonempty : word ≠ [])
      (name : ∀ c ∈ word, isNameChar c = true) (place : cursor = t.stop + size word)
      (digit : BeginsWithDigit (lastWord t.text))

/-! ## Words -/

theorem BeginsWithDigit.append (h : BeginsWithDigit x) (y : List Char) : BeginsWithDigit (x ++ y) := by
  cases x with
  | nil => cases h
  | cons c x => exact h

theorem BeginsWithDigit.exists_cons (h : BeginsWithDigit x) : ∃ d tail, x = d :: tail ∧ d.isDigit = true := by
  cases x with
  | nil => cases h
  | cons d x => exact ⟨d, x, rfl, h⟩

theorem lastWord_append (hfront : ∀ e ∈ front.getLast?, isNameChar e = false)
    (hword : ∀ c ∈ word, isNameChar c = true) : lastWord (front ++ word) = word := by
  rw [lastWord, List.rtakeWhile, List.reverse_append,
    takeWhile_of_head? (fun c hc => hword c (List.mem_reverse.1 hc)) (by rwa [List.head?_reverse]),
    List.reverse_reverse]

/-- A text is cut before its last word. -/
theorem exists_lastWord (x : List Char) :
    ∃ front, x = front ++ lastWord x ∧ (∀ e ∈ front.getLast?, isNameChar e = false) ∧
      ∀ c ∈ lastWord x, isNameChar c = true := by
  refine ⟨x.rdropWhile isNameChar, (List.rdropWhile_append_rtakeWhile).symm, fun e he => ?_,
    fun c hc => List.mem_rtakeWhile_imp hc⟩
  have hne : x.rdropWhile isNameChar ≠ [] := by
    rintro hnil
    rw [hnil] at he
    cases he
  have hlast := List.rdropWhile_last_not isNameChar x hne
  rw [List.getLast?_eq_some_getLast hne] at he
  rw [← Option.some.inj he]
  exact Bool.eq_false_iff.2 hlast

theorem lastWord_append_word (x : List Char) (hword : ∀ c ∈ word, isNameChar c = true) :
    lastWord (x ++ word) = lastWord x ++ word := by
  obtain ⟨front, hcut, hfront, hname⟩ := exists_lastWord x
  conv => lhs; rw [hcut, List.append_assoc]
  exact lastWord_append hfront fun c hc => (List.mem_append.1 hc).elim (hname c) (hword c)

theorem not_isSeparator_of_isNameChar {c : Char} (h : isNameChar c = true) : Registry.isSeparator c = false := by
  rw [Registry.isSeparator, beq_false_of_ne (ne_of_isNameChar h rfl), beq_false_of_ne (ne_of_isNameChar h rfl)]
  rfl

theorem not_isSeparator_of_mem_lastWord {c : Char} (h : c ∈ lastWord x) : Registry.isSeparator c = false :=
  not_isSeparator_of_isNameChar (List.mem_rtakeWhile_imp h)

/-- The name at the end of a text, with its qualifier. -/
def typedName (x : List Char) : List Char :=
  match x.reverse.dropWhile isNameChar with
  | sep :: rest =>
    let qualifier := (rest.takeWhile isNameChar).reverse
    if Registry.isSeparator sep && (qualifier.head?).any isNameStart then qualifier ++ sep :: lastWord x
    else lastWord x
  | [] => lastWord x

theorem typedName_cases (x : List Char) :
    (∃ qualifier sep, Registry.isSeparator sep = true ∧ typedName x = qualifier ++ sep :: lastWord x) ∨
      typedName x = lastWord x := by
  unfold typedName
  split
  · dsimp only
    split
    · next hsep => exact .inl ⟨_, _, (Bool.and_eq_true_iff.1 hsep).1, rfl⟩
    · exact .inr rfl
  · exact .inr rfl

/-- At a cursor between two parts of a text, what has been typed is the name at the end of the first part, unless
there is no code or the word there begins with a digit. -/
theorem typedAt?_append (x y : List Char) :
    typedAt? (x ++ y) (size x) =
      if isCodePosition (x ++ y) (size x) = false ∨ BeginsWithDigit (lastWord x ++ y) then none
      else some (typedName x) := by
  unfold typedAt? typedName BeginsWithDigit lastWord List.rtakeWhile
  simp only [snap_size_append, take_size_append, drop_size_append]
  by_cases hcode : isCodePosition (x ++ y) (size x) = true
  · rw [hcode, Bool.not_true, if_neg Bool.false_ne_true]
    by_cases hdigit : ((x.reverse.takeWhile isNameChar).reverse ++ y).head?.any Char.isDigit = true
    · rw [if_pos hdigit, if_pos (.inr hdigit)]
    · rw [if_neg hdigit, if_neg (by simpa using hdigit)]
      cases x.reverse.dropWhile isNameChar with
      | nil => rfl
      | cons sep rest =>
        dsimp only
        split <;> rfl
  · rw [Bool.not_eq_true] at hcode
    rw [hcode, Bool.not_false, if_pos rfl, if_pos (.inl rfl)]

theorem typedAt?_append_eq_none_iff (x y : List Char) :
    typedAt? (x ++ y) (size x) = none ↔
      isCodePosition (x ++ y) (size x) = false ∨ BeginsWithDigit (lastWord x ++ y) := by
  rw [typedAt?_append]
  split <;> simp_all

/-! ## Words that begin in numerals -/

/-- The word at the end of a numeral or of its front does not reach beyond the numeral. -/
theorem lastWord_append_of_begins {x p q : List Char} (hp : p ≠ []) (hdigit : BeginsWithDigit (lastWord p ++ q))
    (hbefore : BeginsWithDigit p → ∀ e ∈ x.getLast?, isNameChar e = false) : lastWord (x ++ p) = lastWord p := by
  obtain ⟨front, hcut, hfront, hname⟩ := exists_lastWord p
  rcases List.eq_nil_or_concat front with rfl | ⟨front, e, rfl⟩
  · -- the word is all of it, so a digit stands at its beginning
    rw [List.nil_append] at hcut
    rw [← hcut] at hname hdigit
    have hbegins : BeginsWithDigit p := by
      cases p with
      | nil => exact absurd rfl hp
      | cons c p => exact hdigit
    rw [lastWord_append (hbefore hbegins) hname, ← hcut]
  · have hend : ∀ a ∈ (x ++ front.concat e).getLast?, isNameChar a = false := by
      intro a ha
      refine hfront a ?_
      rw [List.concat_eq_append] at ha ⊢
      simpa using ha
    conv => lhs; rw [hcut, ← List.append_assoc, lastWord_append hend hname]

theorem looksClosedString_of_getLast? {e : Char} (he : cs.getLast? = some e) (hname : isNameChar e = true) :
    looksClosedString cs = false := by
  have hbracket : e ≠ ']' := by
    rintro rfl
    cases hname
  obtain ⟨front, rfl⟩ := List.getLast?_eq_some_iff.1 he
  cases front with
  | nil =>
    change (if (e == '"' || e == '\'') = true then false else some e == some ']') = false
    simp [hbracket]
  | cons quote front =>
    by_cases hquote : quote = '"' ∨ quote = '\''
    · have hne : e ≠ quote := by
        rintro rfl
        rcases hquote with rfl | rfl <;> cases hname
      rw [List.cons_append, looksClosedString_quote hquote]
      simp [hne]
    · have hplain : ¬ (quote == '"' || quote == '\'') = true := by simpa using hquote
      rw [List.cons_append, looksClosedString, if_neg hplain, ← List.cons_append, he]
      simp [hbracket]

/-- A string or comment that ends in a name character holds the position behind it. -/
theorem holds_stop {t : Token} {e : Char} (ht : t.start < t.stop) (hkind : t.kind = .string ∨ t.kind = .comment)
    (he : t.text.getLast? = some e) (hname : isNameChar e = true) : t.holds t.stop = true := by
  have hstring := looksClosedString_of_getLast? he hname
  have hcomment : looksClosedComment t.text = false := by
    have hne : e ≠ ']' := by
      rintro rfl
      cases hname
    rw [looksClosedComment, he]
    simp [hne]
  unfold Token.holds
  rcases hkind with hkind | hkind <;> rw [hkind] <;> simp [ht, hstring, hcomment]

/-- Within a string or comment every position is held. -/
theorem holds_of_lt {t : Token} (hkind : t.kind = .string ∨ t.kind = .comment) (hstart : t.start < cursor)
    (hstop : cursor < t.stop) : t.holds cursor = true := by
  unfold Token.holds
  rcases hkind with hkind | hkind <;> rw [hkind] <;> simp [hstart, hstop]

theorem not_holds_of_isCodePosition (h : isCodePosition (x ++ y) (size x) = true) (ht : t ∈ tokenize (x ++ y)) :
    t.holds (size x) = false := by
  rw [isCodePosition, Nat.min_eq_left (by simp), Bool.not_eq_true', ← Bool.not_eq_true, List.any_eq_true, not_exists]
    at h
  exact Bool.eq_false_iff.2 fun hholds => h t ⟨ht, hholds⟩

/-- The word of a cursor between `x` and `y` begins with the digit `d` in a token, behind its characters `u`. -/
structure Token.BeginsWord (t : Token) (x y before u : List Char) (d : Char) (v back : List Char) : Prop where
  cut : x = before ++ u ++ lastWord x
  split : lastWord x ++ y = d :: v ++ back
  text : t.text = u ++ d :: v
  start : t.start = size before
  digit : d.isDigit = true
  apart : ∀ e ∈ u.getLast?, isNameChar e = false
  scan : lexemeLength? (t.text ++ back) = some (t.kind, t.text.length)

theorem exists_beginsWord (h : BeginsWithDigit (lastWord x ++ y)) :
    ∃ t ∈ tokenize (x ++ y), ∃ before u d v back, t.BeginsWord x y before u d v back := by
  obtain ⟨front, hcut, hfront, -⟩ := exists_lastWord x
  obtain ⟨d, tail, hd, hdigit⟩ := h.exists_cons
  have hcs : x ++ y = front ++ d :: tail := by
    conv => lhs; rw [hcut, List.append_assoc, hd]
  have hbegins : (isAsciiBlank d || !isAscii d) = false := by
    have hbare := beginsBare_of_isNameChar (isNameChar_of_isDigit hdigit) []
    rw [hbare.not_blank, hbare.ascii]
    rfl
  obtain ⟨t, ht, before, u, v, back, rfl, rfl, htext, hstart, hscan⟩ :=
    exists_locate_of_append 0 hbegins hcs
  rw [Nat.zero_add] at hstart
  refine ⟨t, ht, before, u, d, v, back, hcut, hd, htext, hstart, hdigit, fun e he => hfront e ?_, hscan⟩
  rw [List.getLast?_append, he]
  rfl

section BeginsWord

variable {before u v back : List Char}

theorem Token.BeginsWord.place (h : t.BeginsWord x y before u d v back) :
    size x = t.start + size u + size (lastWord x) ∧ t.stop = t.start + size u + size (d :: v) := by
  refine ⟨?_, by rw [Token.stop, h.text, size_append, Nat.add_assoc]⟩
  conv => lhs; rw [h.cut, size_append, size_append]
  rw [h.start]

/-- The token goes on to the end of the word, or a part of the word stands behind it. -/
theorem Token.BeginsWord.cases (h : t.BeginsWord x y before u d v back) :
    (∃ rest, d :: v = lastWord x ++ rest) ∨ ∃ c word, lastWord x = d :: v ++ c :: word ∧ back = c :: word ++ y := by
  rcases List.append_eq_append_iff.1 h.split with ⟨rest, hrest, -⟩ | ⟨word, hword, hback⟩
  · exact .inl ⟨rest, hrest⟩
  · cases word with
    | nil => exact .inl ⟨[], by rw [hword, List.append_nil, List.append_nil]⟩
    | cons c word => exact .inr ⟨c, word, hword, hback⟩

theorem Token.BeginsWord.blocks (h : t.BeginsWord x y before u d v back) : t.Blocks (x ++ y) (size x) := by
  obtain ⟨-, -, -, hname⟩ := exists_lastWord x
  obtain ⟨hplace, hstop⟩ := h.place
  rcases h.cases with ⟨rest, hrest⟩ | ⟨c, word, hword, hback⟩
  · by_cases hempty : u ++ lastWord x = []
    · obtain ⟨rfl, hnone⟩ := List.append_eq_nil_iff.1 hempty
      exact .ahead (by simpa [hnone] using hplace) (by rw [h.text]; exact h.digit)
    · refine .within (u ++ lastWord x) rest (by rw [h.text, hrest, List.append_assoc]) hempty ?_ ?_
      · rw [hplace, size_append, Nat.add_assoc]
      · rw [lastWord_append h.apart hname, ← hrest]
        exact h.digit
  · have hbehind : x ++ y = before ++ t.text ++ (c :: word ++ y) := by
      conv => lhs; rw [h.cut, hword]
      rw [h.text]
      simp
    rw [hword] at hname hplace
    refine .behind (c :: word) ?_ (List.cons_ne_nil c word) (fun e he => hname e (List.mem_append_right _ he)) ?_ ?_
    · rw [hbehind, Token.stop, h.start, ← size_append, drop_size_append]
      exact List.prefix_append _ _
    · rw [hplace, size_append, hstop, ← Nat.add_assoc]
    · rw [h.text, lastWord_append h.apart fun e he => hname e (List.mem_append_left _ he)]
      exact h.digit

/-- A string or comment in which the word begins holds the cursor: no name character follows one that ends in a name
character. -/
theorem Token.BeginsWord.holds (h : t.BeginsWord x y before u d v back) (ht : t ∈ tokenize (x ++ y)) (hu : u ≠ [])
    (hkind : t.kind = .string ∨ t.kind = .comment) : t.holds (size x) = true := by
  obtain ⟨-, -, -, hname⟩ := exists_lastWord x
  obtain ⟨hplace, hstop⟩ := h.place
  have hpos : 0 < size u := Nat.pos_of_ne_zero (mt size_eq_zero_iff.1 hu)
  obtain ⟨e, he⟩ : ∃ e, (d :: v).getLast? = some e := ⟨_, List.getLast?_eq_some_getLast (List.cons_ne_nil d v)⟩
  have hlast : t.text.getLast? = some e := by rw [h.text, List.getLast?_append_cons, he]
  rcases h.cases with ⟨rest, hrest⟩ | ⟨c, word, hword, rfl⟩
  · cases rest with
    | nil =>
      rw [List.append_nil] at hrest
      rw [← hrest] at hplace hname
      rw [hplace, ← hstop]
      exact holds_stop (start_lt_stop ht) hkind hlast (hname e (List.mem_of_getLast? he))
    | cons c rest =>
      have := c.utf8Size_pos
      rw [hrest, size_append, size_cons] at hstop
      exact holds_of_lt hkind (by omega) (by omega)
  · rw [hword] at hname
    have hnone := not_isNameChar_of_name_follows h.scan hkind (hname c (by simp)) e hlast
    rw [hname e (List.mem_append_left _ (List.mem_of_getLast? he))] at hnone
    cases hnone

end BeginsWord

/-- At a code position, a word that begins with a digit begins in a numeral that blocks the cursor. -/
theorem exists_blocks (hcode : isCodePosition (x ++ y) (size x) = true) (hdigit : BeginsWithDigit (lastWord x ++ y)) :
    ∃ t ∈ tokenize (x ++ y), t.kind = .number ∧ t.Blocks (x ++ y) (size x) := by
  obtain ⟨t, ht, before, u, d, v, back, h⟩ := exists_beginsWord hdigit
  have hscan : lexemeLength? (u ++ d :: (v ++ back)) = some (t.kind, t.text.length) := by
    rw [← h.scan, h.text]
    simp
  rcases kind_of_digit hscan (by rw [h.text]; simp) h.digit h.apart with hnumber | ⟨hu, hother⟩
  · exact ⟨t, ht, hnumber, h.blocks⟩
  · have hholds := h.holds ht hu hother
    rw [not_holds_of_isCodePosition hcode ht] at hholds
    cases hholds

/-- A numeral that blocks a cursor has the word there begin with a digit. -/
theorem Token.Blocks.beginsWithDigit (h : t.Blocks (x ++ y) (size x)) (ht : t ∈ tokenize (x ++ y)) :
    BeginsWithDigit (lastWord x ++ y) := by
  obtain ⟨before, c, text, rest, hcs, hstart, htext, -⟩ := exists_split_of_mem_tokenize ht
  -- where the numeral begins with a digit, no word runs into it
  have hbefore (tail : List Char) (hbegins : BeginsWithDigit (c :: tail)) :
      ∀ e ∈ before.getLast?, isNameChar e = false :=
    not_isNameChar_before ht (d := c) (y := text ++ rest) (by rw [hcs, htext]; rfl) hstart hbegins
  have hne : t.text ≠ [] := by
    rw [htext]
    exact List.cons_ne_nil c text
  cases h with
  | within front back hfront nonempty place digit =>
    have hcut : x ++ y = (before ++ front) ++ (back ++ rest) := by
      rw [hcs, hfront]
      simp
    obtain ⟨rfl, rfl⟩ := append_inj_of_size hcut (by rw [place, hstart, size_append])
    rw [lastWord_append_of_begins nonempty digit, ← List.append_assoc]
    · exact digit.append rest
    · intro hbegins
      cases front with
      | nil => exact absurd rfl nonempty
      | cons a front =>
        rw [htext] at hfront
        obtain ⟨rfl, -⟩ := List.cons.inj hfront
        exact hbefore front hbegins
  | ahead place digit =>
    obtain ⟨rfl, rfl⟩ := append_inj_of_size hcs (by rw [place, hstart])
    rw [htext] at digit ⊢
    have hnone : lastWord (x ++ []) = [] := lastWord_append (hbefore text digit) (by simp)
    rw [List.append_nil] at hnone
    rw [hnone]
    exact digit.append rest
  | behind word following nonempty name place digit =>
    have hstop : t.stop = size (before ++ t.text) := by rw [Token.stop, hstart, size_append]
    rw [← List.append_assoc] at hcs
    rw [hcs, hstop, drop_size_append] at following
    obtain ⟨rest, rfl⟩ := following
    rw [← List.append_assoc] at hcs
    obtain ⟨rfl, rfl⟩ := append_inj_of_size hcs (by rw [place, hstop, ← size_append])
    have hrun : lastWord (before ++ t.text) = lastWord t.text := by
      refine lastWord_append_of_begins hne (q := []) (digit.append []) fun hbegins => ?_
      rw [htext] at hbegins
      exact hbefore text hbegins
    rw [lastWord_append_word _ name, hrun, List.append_assoc]
    exact digit.append _

/-! ## Where nothing is completed -/

/-- Nothing is completed inside strings and comments and where a numeral blocks the cursor, and only there. -/
theorem typedAt?_eq_none_iff (cs : List Char) (cursor : Nat) :
    typedAt? cs cursor = none ↔ isCodePosition cs (snap cursor cs) = false ∨
      ∃ t ∈ tokenize cs, t.kind = .number ∧ t.Blocks cs (snap cursor cs) := by
  obtain ⟨x, y, rfl, hplace⟩ := boundary_snap cursor cs
  have hsnap : typedAt? (x ++ y) cursor = typedAt? (x ++ y) (size x) := by
    unfold typedAt?
    rw [snap_size_append, ← hplace]
  rw [hsnap, ← hplace, typedAt?_append_eq_none_iff]
  constructor
  · rintro (hcode | hdigit)
    · exact .inl hcode
    · by_cases hcode : isCodePosition (x ++ y) (size x) = true
      · exact .inr (exists_blocks hcode hdigit)
      · exact .inl (Bool.eq_false_iff.2 hcode)
  · exact Or.imp_right fun ⟨_, ht, _, hblocks⟩ => hblocks.beginsWithDigit ht

/-- A name can be completed behind a numeral that ends in a point, but not before a numeral. -/
theorem typedAt?_beside_numerals :
    (typedAt? ['1', '.'] 2 = some [] ∧
      ∃ t ∈ tokenize ['1', '.'], t.kind = .number ∧ t.start < 2 ∧ 2 ≤ t.stop) ∧
    typedAt? ['1'] 0 = none ∧ isCodePosition ['1'] 0 = true ∧
      ¬ ∃ t ∈ tokenize ['1'], t.kind = .number ∧ t.start < 0 ∧ 0 ≤ t.stop := by
  have hpoint : tokenize ['1', '.'] = [⟨0, .number, ['1', '.']⟩] := by
    simp [tokenize, pieces, locate, lexemeLength?, isAsciiBlank, isAscii, bracketLevel?, startsNumber, numberLength,
      numeralLength, isExponentMark]
  have hdigit : tokenize ['1'] = [⟨0, .number, ['1']⟩] := by
    simp [tokenize, pieces, locate, lexemeLength?, isAsciiBlank, isAscii, bracketLevel?, startsNumber, numberLength,
      numeralLength, isExponentMark]
  rw [typedAt?, typedAt?, isCodePosition, isCodePosition, isCodePosition, hpoint, hdigit]
  refine ⟨⟨by decide, ?_⟩, by decide, by decide, ?_⟩
  · exact ⟨_, List.mem_singleton_self _, rfl, by decide, by decide⟩
  · rintro ⟨t, -, -, hlt, -⟩
    exact absurd hlt (Nat.not_lt_zero _)

end Scriptorium.Editor
