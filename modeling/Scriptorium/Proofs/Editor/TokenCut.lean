import Scriptorium.Proofs.Editor.DigitRuns
import Scriptorium.Proofs.Editor.LexemeFront

/-!
# Tokens that go over a cut

Where a text is cut, at most one token goes over the cut. What it leaves in front of the cut is what the front ends in
(`tokenize_front`), and the tokens of the front come first in the whole text if and only if there is no such token
(`tokenize_prefix_iff`).
-/

namespace Scriptorium.Editor

open Text

variable {cs x y u : List Char} {c : Char} {kind : LexemeKind} {n offset : Nat} {s t : Token}

/-! ## The token over a cut -/

/-- The token goes over the cut between the two texts. -/
def Token.Over (t : Token) (x y : List Char) : Prop :=
  t ∈ tokenize (x ++ y) ∧ t.start < size x ∧ size x < t.stop

theorem Token.Over.unique (hs : s.Over x y) (ht : t.Over x y) : s = t :=
  eq_of_overlap hs.1 ht.1 (Nat.lt_trans hs.2.1 ht.2.2) (Nat.lt_trans ht.2.1 hs.2.2)

/-- The front `u` of the token stands before the cut, behind the text `before`. -/
structure Token.OverCut (t : Token) (x y before u : List Char) : Prop where
  cut : x = before ++ u
  start : t.start = size before
  front : ∃ back rest, back ≠ [] ∧ t.text = u ++ back ∧ y = back ++ rest
  nonempty : u ≠ []
  scan : lexemeLength? (u ++ y) = some (t.kind, t.text.length)

theorem Token.OverCut.size_eq {before : List Char} (h : t.OverCut x y before u) : size x = t.start + size u := by
  rw [h.cut, size_append, h.start]

theorem Token.Over.exists_cut (h : t.Over x y) : ∃ before u, t.OverCut x y before u := by
  obtain ⟨ht, hstart, hstop⟩ := h
  obtain ⟨before, c, text, back, hcs, hbefore, htext, hscan⟩ := exists_split_of_mem_tokenize ht
  rw [hbefore] at hstart
  rw [Token.stop, hbefore] at hstop
  rcases List.append_eq_append_iff.1 hcs with ⟨more, rfl, -⟩ | ⟨u, rfl, hrest⟩
  · rw [size_append] at hstart
    omega
  rw [size_append] at hstart hstop
  rcases List.append_eq_append_iff.1 hrest with ⟨more, rfl, -⟩ | ⟨after, hafter, rfl⟩
  · rw [size_append] at hstop
    omega
  · refine ⟨before, u, rfl, hbefore, ⟨after, back, ?_, hafter, rfl⟩, ?_, hrest ▸ hscan⟩
    · rintro rfl
      rw [hafter, List.append_nil] at hstop
      omega
    · rintro rfl
      rw [size_nil] at hstart
      omega

/-- No token goes over the place where another one begins. -/
theorem not_over_start {before rest : List Char} (ht : t ∈ tokenize (before ++ rest)) (hstart : t.start = size before) :
    ∀ s : Token, ¬ s.Over before rest := by
  rintro s ⟨hs, hbegins, hends⟩
  have hle := stop_le_start hs ht (hstart ▸ hbegins)
  rw [hstart] at hle
  omega

theorem tokenize_append_of_not_over (h : ∀ t : Token, ¬ t.Over x y) :
    tokenize (x ++ y) = tokenize x ++ (tokenize y).map (Token.shift (size x)) :=
  tokenize_append fun t ht hover => h t ⟨ht, hover⟩

/-- A token of the front begins no later than the token over the cut, and ends behind its first byte. -/
theorem Token.Over.exists_front (h : t.Over x y) : ∃ s ∈ tokenize x, s.start ≤ t.start ∧ t.start < s.stop := by
  obtain ⟨ht, hstart, -⟩ := h
  obtain ⟨b, hb, hcode⟩ := (tokenize_tiles (x ++ y)).first t ht
  have hbyte : (utf8 x)[t.start]? = some b := by
    rw [utf8_append, List.getElem?_append_left (by rwa [length_utf8])] at hb
    exact hb
  by_contra hnone
  push Not at hnone
  have hbetween := (tokenize_tiles x).between t.start b hbyte fun s hs hinside =>
    absurd hinside.2 (Nat.not_lt.2 (hnone s hs hinside.1))
  rcases hbetween with hblank | habove
  · exact hcode.2 hblank
  · exact absurd hcode.1 (UInt8.not_lt.2 habove)

/-- The tokens of the front come first unless a token goes over the cut: then one of the front is left out. -/
theorem tokenize_prefix_iff : tokenize x <+: tokenize (x ++ y) ↔ ∀ t : Token, ¬ t.Over x y := by
  constructor
  · rintro ⟨rest, hrest⟩ t hover
    obtain ⟨s, hs, hle, hlt⟩ := hover.exists_front
    have hmem : s ∈ tokenize (x ++ y) := hrest ▸ List.mem_append_left rest hs
    have hsame := eq_of_overlap hmem hover.1 (Nat.lt_of_le_of_lt hle (start_lt_stop hover.1)) hlt
    have hinside := stop_le_size hs
    rw [hsame] at hinside
    exact absurd hover.2.2 (Nat.not_lt.2 hinside)
  · intro h
    rw [tokenize_append_of_not_over h]
    exact List.prefix_append _ _

/-- The token that ends at the cut. -/
theorem exists_split_of_stop (ht : t ∈ tokenize (x ++ y)) (hstop : t.stop = size x) :
    ∃ before, x = before ++ t.text ∧ t.text ≠ [] ∧ lexemeLength? (t.text ++ y) = some (t.kind, t.text.length) := by
  obtain ⟨before, c, text, back, hcs, hstart, htext, hscan⟩ := exists_split_of_mem_tokenize ht
  rw [← List.append_assoc] at hcs
  obtain ⟨rfl, rfl⟩ := append_inj_of_size hcs (by rw [size_append, ← hstart, ← hstop, Token.stop])
  exact ⟨before, rfl, by simp [htext], hscan⟩

/-! ## What a token leaves in front of the cut -/

/-- A cut that goes through a token of a text goes through one of every longer text, if more than a point is left. -/
theorem parts_front (y : List Char) (hne : u ≠ []) (hpoint : u ≠ ['.']) :
    ∀ (x : List Char) (offset : Nat), Parts offset x u → Parts offset x (u ++ y)
  | [], offset, h => by
    obtain ⟨t, ht, hstart, -⟩ := h
    have hle := le_start_of_mem_locate ht
    rw [size_nil] at hstart
    omega
  | c :: x, offset, h => by
    obtain ⟨t, ht, hstart, hstop⟩ := h
    rw [List.cons_append, pieces] at ht
    cases hlength : lexemeLength? (c :: (x ++ (u ++ y))) with
    | none =>
      rw [lexemeLength?_eq_none_iff.2 (lexemeLength?_eq_none_iff.1 hlength)] at ht
      rw [size_cons, ← Nat.add_assoc] at hstart hstop
      exact (parts_front y hne hpoint x _ ⟨t, ht, hstart, hstop⟩).gap hlength
    | some found =>
      obtain ⟨kind, n⟩ := found
      rcases Nat.lt_or_ge (x.length + 1) n with hlong | hn
      · exact parts_of_long hlength hlong
      have hcut : lexemeLength? (c :: (x ++ u)) = some (kind, n) := by
        refine lexemeLength?_cut (y := y) (by rw [List.append_assoc, hlength]) (by simp; omega) ?_
        rintro - ⟨front, hfront, rfl, -⟩
        -- the numeral would end in front of the last point, which is then all that is left
        have hcount := congrArg List.length hfront
        simp only [List.length_cons, List.length_append, List.length_nil] at hcount
        have hpos := List.length_pos_iff.2 hne
        obtain ⟨e, rfl⟩ := List.length_eq_one_iff.1 (by omega : u.length = 1)
        rw [← List.cons_append] at hfront
        exact hpoint (List.append_inj' hfront rfl).2
      rw [hcut] at ht
      dsimp only at ht
      rw [List.take_append_of_le_length (by omega), List.drop_append_of_le_length (by omega)] at ht
      refine Parts.lexeme hlength hn (parts_front y hne hpoint _ _ ?_)
      rw [← size_cons_take_drop c x (n - 1) offset] at hstart hstop
      rw [locate] at ht
      rcases List.mem_cons.1 ht with rfl | ht
      · simp only [Token.stop, Token.text] at hstop
        omega
      · exact ⟨t, ht, hstart, hstop⟩
  termination_by x => x.length
  decreasing_by all_goals (simp only [List.length_cons, List.length_drop]; omega)

/-- In front of the cut are the tokens before the one that goes over it, and then those of what it leaves. -/
theorem Token.OverCut.tokenize_front {before : List Char} (h : t.OverCut x y before u) (ht : t ∈ tokenize (x ++ y))
    (hpoint : u ≠ ['.']) : tokenize x = tokenize before ++ (tokenize u).map (Token.shift t.start) := by
  obtain ⟨rfl, hstart, -, hne, -⟩ := h
  rw [List.append_assoc] at ht
  have hnot := not_over_start ht hstart
  rw [hstart]
  refine tokenize_append_of_not_over fun s hover => ?_
  obtain ⟨s', hs', hover'⟩ := parts_front y hne hpoint before 0
    ⟨s, hover.1, by simpa using hover.2.1, by simpa using hover.2.2⟩
  exact hnot s' ⟨hs', by simpa using hover'.1, by simpa using hover'.2⟩

/-- The first token of a text. -/
theorem tokenize_append_of_lexemeLength? {text back : List Char} (hne : text ≠ [])
    (h : lexemeLength? (text ++ back) = some (kind, text.length)) :
    [⟨0, ⟨kind, text⟩⟩] <+: tokenize (text ++ back) := by
  obtain ⟨c, tail, rfl⟩ := List.exists_cons_of_ne_nil hne
  rw [List.cons_append] at h ⊢
  rw [tokenize, pieces, h]
  simp [locate]

theorem tokenize_of_lexemeLength? (hne : x ≠ []) (h : lexemeLength? x = some (kind, x.length)) :
    tokenize x = [⟨0, ⟨kind, x⟩⟩] := by
  obtain ⟨c, tail, rfl⟩ := List.exists_cons_of_ne_nil hne
  rw [tokenize, pieces, h]
  simp [pieces, locate]

/-- What is left of the token is the last token of the front, if it is read as one. -/
theorem Token.OverCut.tokenize_concat {before : List Char} (h : t.OverCut x y before u) (ht : t ∈ tokenize (x ++ y))
    (hpoint : u ≠ ['.']) (hu : lexemeLength? u = some (kind, u.length)) :
    tokenize x = tokenize before ++ [⟨t.start, ⟨kind, u⟩⟩] := by
  rw [h.tokenize_front ht hpoint, tokenize_of_lexemeLength? h.nonempty hu]
  simp [Token.shift]

/-- The whole text has the same tokens before it. -/
theorem Token.OverCut.prefix {before : List Char} (h : t.OverCut x y before u) (ht : t ∈ tokenize (x ++ y)) :
    tokenize before ++ [t] <+: tokenize (x ++ y) := by
  obtain ⟨rfl, hstart, ⟨back, rest, -, htext, rfl⟩, hne, hscan⟩ := h
  rw [List.append_assoc] at ht ⊢
  rw [tokenize_append_of_not_over (not_over_start ht hstart), List.prefix_append_right_inj]
  rw [← List.append_assoc, ← htext] at hscan ⊢
  have hfirst := tokenize_append_of_lexemeLength? (by simp [htext, hne]) hscan
  have hshift : Token.shift (size before) ⟨0, ⟨t.kind, t.text⟩⟩ = t := by
    rw [Token.shift, ← hstart]
    exact congrArg (Token.mk · t.lexeme) (Nat.zero_add t.start)
  simpa [hshift] using hfirst.map (Token.shift (size before))

/-! ## Words over the cut -/

/-- The token is a name or a keyword. -/
def Token.IsWord (t : Token) : Prop := t.kind = .name ∨ t.kind = .keyword

/-- A word is a name, and takes all name characters. -/
theorem isName_of_word {text back : List Char} (h : lexemeLength? (text ++ back) = some (kind, text.length))
    (hne : text ≠ []) (hkind : kind = .name ∨ kind = .keyword) :
    IsName text ∧ ∀ d ∈ back.head?, isNameChar d = false := by
  obtain ⟨c, tail, rfl⟩ := List.exists_cons_of_ne_nil hne
  rw [List.cons_append] at h
  rcases lexemeLength?_cases h with ⟨_, -, -, rfl, -⟩ | ⟨rfl, -⟩ | ⟨_, rfl, -⟩ | ⟨rfl, -⟩ | ⟨rfl, hstart, hn⟩ | ⟨rfl, -⟩
  · simp at hkind
  · simp at hkind
  · simp at hkind
  · simp at hkind
  · have htext : (c :: tail ++ back).takeWhile isNameChar = c :: tail :=
      (List.prefix_of_prefix_length_le (List.takeWhile_prefix isNameChar) (List.prefix_append (c :: tail) back)
        hn.ge).eq_of_length hn.symm
    have hchars : ∀ d ∈ c :: tail, isNameChar d = true := by
      rw [← htext]
      exact fun d hd => List.mem_takeWhile_imp hd
    refine ⟨⟨c, tail, rfl, hstart, fun d hd => hchars d (List.mem_cons_of_mem c hd)⟩, fun d hd => ?_⟩
    obtain ⟨back, rfl⟩ := List.head?_eq_some_iff.1 hd
    rw [List.takeWhile_append_of_pos hchars, List.append_right_eq_self, List.takeWhile_cons] at htext
    split at htext
    · cases htext
    · next hd => exact Bool.eq_false_iff.2 hd
  · simp at hkind

theorem IsName.front {back : List Char} (h : IsName (u ++ back)) (hne : u ≠ []) : IsName u := by
  obtain ⟨c, rest, hcons, hstart, hchars⟩ := h
  obtain ⟨d, u, rfl⟩ := List.exists_cons_of_ne_nil hne
  obtain ⟨rfl, rfl⟩ := List.cons.inj hcons
  exact ⟨d, u, rfl, hstart, fun e he => hchars e (List.mem_append_left back he)⟩

theorem wordKind_cases (word : List Char) : wordKind word = .name ∨ wordKind word = .keyword := by
  unfold wordKind
  split
  · exact .inr rfl
  · exact .inl rfl

/-- In front of the cut stands the first part of the word, as a word. -/
theorem Token.OverCut.tokenize_word {before : List Char} (h : t.OverCut x y before u) (ht : t ∈ tokenize (x ++ y))
    (hword : t.IsWord) : tokenize x = tokenize before ++ [⟨t.start, ⟨wordKind u, u⟩⟩] := by
  obtain ⟨back, rest, -, htext, rfl⟩ := h.front
  have hscan := h.scan
  rw [← List.append_assoc, ← htext] at hscan
  have hname := (isName_of_word hscan (by simp [htext, h.nonempty]) hword).1
  rw [htext] at hname
  have hu := hname.front h.nonempty
  have hpoint : u ≠ ['.'] := by
    rintro rfl
    obtain ⟨c, rest, hcons, hstart, -⟩ := hu
    obtain ⟨rfl, -⟩ := List.cons.inj hcons
    cases hstart
  have hread := hu.lexemeLength? endsLine_nil
  rw [List.append_nil] at hread
  exact h.tokenize_concat ht hpoint hread

/-! ## Numerals over the cut -/

/-- The characters of numerals. -/
def isNumeralChar (c : Char) : Bool := isHexDigit c || c ∈ ['x', 'X', 'p', 'P', '.', '+', '-']

theorem isNumeralChar_of_mark {hex : Bool} (h : isExponentMark hex c = true) : isNumeralChar c = true := by
  rw [isExponentMark_iff] at h
  cases hex <;>
  · simp only [exponentMarks, Bool.false_eq_true, if_false, if_true, List.mem_cons, List.not_mem_nil, or_false] at h
    rcases h with rfl | rfl <;> rfl

theorem isNumeralChar_of_class {hex p : Bool}
    (h : ((hex && isHexDigit c) || c.isDigit || (c == '.' && p)) = true) : isNumeralChar c = true := by
  simp only [Bool.or_eq_true, Bool.and_eq_true, beq_iff_eq] at h
  rcases h with (⟨-, hhex⟩ | hdigit) | ⟨rfl, -⟩
  · simp [isNumeralChar, hhex]
  · simp [isNumeralChar, isHexDigit_of_isDigit hdigit]
  · rfl

theorem numeralLength_take (hex : Bool) (cs : List Char) :
    ∀ e ∈ cs.take (numeralLength hex cs), isNumeralChar e = true := by
  fun_induction numeralLength hex cs with
  | case1 => simp
  | case2 c h =>
    rw [Bool.or_assoc, Bool.or_assoc, Bool.or_eq_true] at h
    have hc : isNumeralChar c = true :=
      h.elim isNumeralChar_of_mark fun h => isNumeralChar_of_class (p := true) (by simpa [Bool.or_assoc] using h)
    simpa using hc
  | case3 => simp
  | case4 c d cs hmark hsign ih =>
    have hd : isNumeralChar d = true := by rcases hsign with rfl | rfl <;> rfl
    rw [Nat.add_comm 2, List.take_succ_cons, List.take_succ_cons]
    exact List.forall_mem_cons.2 ⟨isNumeralChar_of_mark hmark, List.forall_mem_cons.2 ⟨hd, ih⟩⟩
  | case5 c d cs hmark _ ih =>
    rw [Nat.add_comm 1, List.take_succ_cons]
    exact List.forall_mem_cons.2 ⟨isNumeralChar_of_mark hmark, ih⟩
  | case6 c d cs _ hclass ih =>
    rw [Nat.add_comm 1, List.take_succ_cons]
    exact List.forall_mem_cons.2 ⟨isNumeralChar_of_class hclass, ih⟩
  | case7 => simp

theorem numberLength_take (cs : List Char) : ∀ e ∈ cs.take (numberLength cs), isNumeralChar e = true := by
  unfold numberLength
  split
  · next x tail =>
    split
    · next hx =>
      have hmark : isNumeralChar x = true := by rcases hx with rfl | rfl <;> rfl
      rw [Nat.add_comm 2, List.take_succ_cons, List.take_succ_cons]
      exact List.forall_mem_cons.2 ⟨rfl, List.forall_mem_cons.2 ⟨hmark, numeralLength_take true tail⟩⟩
    · exact numeralLength_take false _
  · exact numeralLength_take false cs

/-- A numeral that goes on takes all that is there. -/
theorem numeralLength_front {hex : Bool} :
    ∀ {x : List Char}, x.length < numeralLength hex (x ++ y) → numeralLength hex x = x.length
  | [], _ => rfl
  | c :: x, h => by
    rw [List.cons_append, numeralLength_cons, List.length_cons] at h
    rw [numeralLength_cons, List.length_cons]
    by_cases hmark : isExponentMark hex c = true
    · rw [if_pos hmark] at h ⊢
      cases x with
      | nil => simp [numeralLength]
      | cons d x =>
        rw [List.cons_append, List.length_cons] at h
        by_cases hsign : (d :: (x ++ y)).head? = some '+' ∨ (d :: (x ++ y)).head? = some '-'
        · have hsign' : (d :: x).head? = some '+' ∨ (d :: x).head? = some '-' := hsign
          rw [if_pos hsign, List.tail_cons] at h
          rw [if_pos hsign', List.tail_cons, numeralLength_front (by omega), List.length_cons]
          omega
        · have hsign' : ¬ ((d :: x).head? = some '+' ∨ (d :: x).head? = some '-') := hsign
          rw [if_neg hsign] at h
          rw [if_neg hsign', numeralLength_front (x := d :: x) (by rw [List.length_cons, List.cons_append]; omega),
            Nat.add_comm]
    · rw [if_neg hmark] at h ⊢
      split at h
      · next hclass =>
        have hclass' : ((hex && isHexDigit c) || c.isDigit || (c == '.' && x.head? != some '.')) = true := by
          simp only [Bool.or_eq_true, Bool.and_eq_true, bne_iff_ne] at hclass ⊢
          exact hclass.imp_right fun hpoint => ⟨hpoint.1, mt head?_append_of_head? hpoint.2⟩
        rw [if_pos hclass', numeralLength_front (x := x) (by omega), Nat.add_comm]
      · omega

theorem numberLength_front (h : x.length < numberLength (x ++ y)) : numberLength x = x.length := by
  by_cases hhex : ∃ mark tail, x = '0' :: mark :: tail ∧ (mark = 'x' ∨ mark = 'X')
  · obtain ⟨mark, tail, rfl, hmark⟩ := hhex
    simp only [List.cons_append, numberLength, if_pos hmark, List.length_cons] at h ⊢
    rw [numeralLength_front (x := tail) (y := y) (by omega)]
    omega
  · have hplain : numberLength x = numeralLength false x := by
      unfold numberLength
      split
      · next mark tail => exact if_neg fun hmark => hhex ⟨mark, tail, rfl, hmark⟩
      · rfl
    by_cases hshort : x = [] ∨ x = ['0']
    · rcases hshort with rfl | rfl <;> rfl
    · have hlong : numberLength (x ++ y) = numeralLength false (x ++ y) := by
        unfold numberLength
        split
        · next mark tail heq =>
          rw [heq]
          refine if_neg fun hmark => ?_
          rcases List.append_eq_cons_iff.1 heq with ⟨rfl, -⟩ | ⟨front, rfl, htail⟩
          · exact hshort (.inl rfl)
          rcases List.cons_eq_append_iff.1 htail with ⟨rfl, -⟩ | ⟨front, rfl, rfl⟩
          · exact hshort (.inr rfl)
          · exact hhex ⟨mark, front, rfl, hmark⟩
        · rfl
      rw [hlong] at h
      rw [hplain, numeralLength_front h]

theorem startsNumber_of_number (h : lexemeLength? (c :: cs) = some (.number, n)) :
    startsNumber (c :: cs) = true ∧ n = numberLength (c :: cs) := by
  rcases lexemeLength?_cases h with ⟨_, -, -, hother, -⟩ | ⟨hother, -⟩ | ⟨_, hother, -⟩ | ⟨-, hstart, hn⟩ |
    ⟨hother, -⟩ | ⟨hother, -⟩
  · cases hother
  · cases hother
  · cases hother
  · exact ⟨hstart, hn⟩
  · rcases wordKind_cases ((c :: cs).takeWhile isNameChar) with hword | hword <;> rw [hword] at hother <;> cases hother
  · cases hother

/-- In front of the cut stands the first part of the numeral, as a numeral. -/
theorem Token.OverCut.tokenize_numeral {before : List Char} (h : t.OverCut x y before u) (ht : t ∈ tokenize (x ++ y))
    (hkind : t.kind = .number) (hpoint : u ≠ ['.']) :
    tokenize x = tokenize before ++ [⟨t.start, ⟨.number, u⟩⟩] := by
  obtain ⟨c, u, rfl⟩ := List.exists_cons_of_ne_nil h.nonempty
  obtain ⟨back, rest, hback, htext, -⟩ := h.front
  have hscan := h.scan
  rw [hkind, List.cons_append] at hscan
  obtain ⟨hstart, hn⟩ := startsNumber_of_number hscan
  have hstart' : startsNumber (c :: u) = true := by
    cases u with
    | cons d u => exact hstart
    | nil =>
      have hc : c ≠ '.' := by
        rintro rfl
        exact hpoint rfl
      simpa [startsNumber, hc] using hstart
  have hlong : (c :: u).length < numberLength (c :: u ++ y) := by
    have hpos := List.length_pos_iff.2 hback
    rw [List.cons_append, ← hn, htext, List.length_append]
    omega
  refine h.tokenize_concat ht hpoint ?_
  rw [lexemeLength?_number hstart', numberLength_front hlong]

/-- What begins behind the cut is part of the token. -/
theorem Token.OverCut.mem_take {before : List Char} {d : Char} (h : t.OverCut x (d :: y) before u) :
    d ∈ (u ++ d :: y).take t.text.length := by
  obtain ⟨back, rest, hback, htext, hy⟩ := h.front
  obtain ⟨e, back, rfl⟩ := List.exists_cons_of_ne_nil hback
  obtain ⟨rfl, rfl⟩ := List.cons.inj hy
  rw [htext, List.length_append, List.take_length_add_append]
  exact List.mem_append_right u List.mem_cons_self

/-- A numeral takes only characters of numerals over the cut, and a symbol those of longer symbols. -/
theorem Token.Over.head_cases {d : Char} (h : t.Over x (d :: y)) :
    (t.kind = .number → isNumeralChar d = true) ∧ (t.kind = .symbol → ∃ op ∈ longSymbols, d ∈ op) := by
  obtain ⟨before, u, hcut⟩ := h.exists_cut
  have hmem := hcut.mem_take
  have hscan := hcut.scan
  obtain ⟨c, u, rfl⟩ := List.exists_cons_of_ne_nil hcut.nonempty
  rw [List.cons_append] at hscan hmem
  rcases lexemeLength?_cases hscan with ⟨_, -, -, hkind, -⟩ | ⟨hkind, -⟩ | ⟨_, hkind, -⟩ | ⟨hkind, -, hn⟩ |
    ⟨hkind, -⟩ | ⟨hkind, hn⟩
  · simp [hkind]
  · simp [hkind]
  · simp [hkind]
  · rw [hn] at hmem
    exact ⟨fun _ => numberLength_take _ d hmem, by simp [hkind]⟩
  · rcases wordKind_cases ((c :: (u ++ d :: y)).takeWhile isNameChar) with hword | hword <;> simp [hkind, hword]
  · have hlong : 1 < t.text.length := by
      obtain ⟨back, _, hback, htext, -⟩ := hcut.front
      have hpos := List.length_pos_iff.2 hback
      rw [htext, List.length_append, List.length_cons]
      omega
    rw [hn] at hlong hmem
    exact ⟨by simp [hkind], fun _ => ⟨_, take_symbolLength hlong, hmem⟩⟩

end Scriptorium.Editor
