import Mathlib.Data.List.Chain
import Scriptorium.Proofs.Editor.DigitRuns
import Scriptorium.Proofs.Editor.TokenBoundary
import Scriptorium.Proofs.Editor.LineBreaks
import Scriptorium.Proofs.Editor.TypedName

/-!
# Texts that end within a lexeme

Of a string or comment that goes on behind the end of a text, the text holds an unterminated string or comment, or
only a part of its opening (`lexemeLength?_front`); of other lexemes it holds nothing that looks like a string or a
comment (`PlainText`). So whether a text ends in code can be told without what stands behind it, except behind a part
of an opening and where an unterminated end is misjudged: `isCodePosition_front`.
-/

namespace Scriptorium.Editor

open Text

variable {cs x y : List Char} {c quote : Char} {kind : LexemeKind} {level n offset place : Nat} {t : Token}

/-! ## Texts without strings and comments -/

/-- No string and no comment begins anywhere in the text. -/
def PlainText (cs : List Char) : Prop :=
  ∀ tail kind n, tail <:+ cs → lexemeLength? tail = some (kind, n) → ¬ (kind = .string ∨ kind = .comment)

/-- Strings begin with quotes or long brackets, and comments with two dashes. -/
theorem plainText_of_marks (hquotes : '"' ∉ cs ∧ '\'' ∉ cs) (hdashes : ¬ ['-', '-'] <:+: cs)
    (hbrackets : cs.count '[' ≤ 1) : PlainText cs := by
  rintro tail kind n htail h hkind
  cases tail with
  | nil => cases h
  | cons c tail =>
    rcases lexemeLength?_cases h with ⟨rest, rfl, rfl, -⟩ | ⟨-, hquote, -⟩ | ⟨level, -, hlevel, -⟩ | ⟨rfl, -⟩ |
      ⟨rfl, -⟩ | ⟨rfl, -⟩
    · exact hdashes ((List.prefix_append ['-', '-'] rest).isInfix.trans htail.isInfix)
    · have hmem : c ∈ cs := htail.subset List.mem_cons_self
      rcases hquote with rfl | rfl
      · exact hquotes.1 hmem
      · exact hquotes.2 hmem
    · have hopener := (opener_of_bracketLevel? hlevel).isInfix.trans htail.isInfix
      have hcount := hopener.sublist.count_le '['
      have htwo : (opener level).count '[' = 2 := by simp [opener, List.count_replicate]
      omega
    · exact absurd hkind (by decide)
    · exact absurd hkind (by unfold wordKind; split <;> decide)
    · exact absurd hkind (by decide)

theorem PlainText.not_holds (h : PlainText cs) (ht : t ∈ locate offset (pieces cs)) : t.holds place = false := by
  have hkind : ¬ (t.kind = .string ∨ t.kind = .comment) := by
    obtain ⟨front, back, hcs, -, hscan⟩ := exists_split_of_mem_locate ht
    exact h _ _ _ ⟨front, by rw [hcs, List.append_assoc]⟩ hscan
  unfold Token.holds
  split
  · next hstring => exact absurd (.inl hstring) hkind
  · next hcomment => exact absurd (.inr hcomment) hkind
  · exact Bool.and_false _

theorem PlainText.is_code (h : PlainText cs) (place : Nat) : isCodePosition cs place = true := by
  rw [isCodePosition, Bool.not_eq_true', List.any_eq_false]
  exact fun t ht => Bool.eq_false_iff.1 (h.not_holds ht)

/-! ## Parts of numerals, names and symbols -/

/-- A text without quotes and brackets, and with no two dashes side by side. -/
structure IsUnmarked (cs : List Char) : Prop where
  clear : ∀ c ∈ cs, c ∉ ['"', '\'', '[']
  apart : cs.IsChain fun a b => ¬ (a = '-' ∧ b = '-')

namespace IsUnmarked

theorem nil : IsUnmarked [] := ⟨by simp, .nil⟩

theorem cons (h : IsUnmarked cs) (hc : c ∉ ['"', '\'', '[', '-']) : IsUnmarked (c :: cs) where
  clear := List.forall_mem_cons.2 ⟨fun hmem => hc (List.mem_append_left ['-'] hmem), h.clear⟩
  apart := by
    refine List.isChain_cons.2 ⟨fun _ _ hdashes => ?_, h.apart⟩
    obtain ⟨rfl, -⟩ := hdashes
    exact hc (by decide)

theorem sign (h : IsUnmarked cs) (hhead : cs.head? ≠ some '-') (hc : c = '+' ∨ c = '-') : IsUnmarked (c :: cs) where
  clear := List.forall_mem_cons.2 ⟨by rcases hc with rfl | rfl <;> decide, h.clear⟩
  apart := by
    refine List.isChain_cons.2 ⟨fun d hd hdashes => hhead ?_, h.apart⟩
    rw [← hdashes.2]
    exact hd

theorem front (h : IsUnmarked cs) (hx : x <+: cs) : IsUnmarked x where
  clear c hc := h.clear c (hx.subset hc)
  apart := h.apart.prefix hx

theorem concat_point (h : IsUnmarked cs) : IsUnmarked (cs ++ ['.']) where
  clear := List.forall_mem_append.2 ⟨h.clear, by simp⟩
  apart := List.isChain_append.2 ⟨h.apart, .singleton _, by simp⟩

theorem of_all (h : ∀ c ∈ cs, c ∉ ['"', '\'', '[', '-']) : IsUnmarked cs := by
  induction cs with
  | nil => exact .nil
  | cons c cs ih => exact (ih fun d hd => h d (List.mem_cons_of_mem c hd)).cons (h c List.mem_cons_self)

theorem plain (h : IsUnmarked cs) : PlainText cs := by
  have hmark {c : Char} (hc : c ∈ ['"', '\'', '[']) : c ∉ cs := fun hmem => h.clear c hmem hc
  refine plainText_of_marks ⟨hmark (by decide), hmark (by decide)⟩ (fun hdashes => ?_) ?_
  · have hapart := h.apart.infix hdashes
    simp at hapart
  · rw [List.count_eq_zero.2 (hmark (by decide))]
    exact Nat.zero_le 1

end IsUnmarked

theorem head?_numeral (hex : Bool) (cs : List Char) : (cs.take (numeralLength hex cs)).head? ≠ some '-' := by
  cases cs with
  | nil => simp
  | cons c cs =>
    by_cases hc : c = '-'
    · have hzero : numeralLength hex (c :: cs) = 0 := by
        subst hc
        rw [numeralLength_cons]
        cases hex <;> rfl
      rw [hzero]
      simp
    · cases numeralLength hex (c :: cs) with
      | zero => simp
      | succ k => simpa using hc

/-- A numeral has a dash only behind the letter of its exponent. -/
theorem isUnmarked_numeral (hex : Bool) (cs : List Char) : IsUnmarked (cs.take (numeralLength hex cs)) := by
  have hmark {c : Char} (h : isExponentMark hex c = true) : c ∉ ['"', '\'', '[', '-'] := by
    intro hmem
    simp only [List.mem_cons, List.not_mem_nil, or_false] at hmem
    cases hex <;> rcases hmem with rfl | rfl | rfl | rfl <;> cases h
  have hclass {c : Char} {p : Bool} (h : ((hex && isHexDigit c) || c.isDigit || (c == '.' && p)) = true) :
      c ∉ ['"', '\'', '[', '-'] := by
    simp only [List.mem_cons, List.not_mem_nil, or_false]
    rintro (rfl | rfl | rfl | rfl) <;> cases hex <;> cases h
  fun_induction numeralLength hex cs with
  | case1 => exact .nil
  | case2 c h =>
    refine IsUnmarked.nil.cons ?_
    rw [Bool.or_assoc, Bool.or_assoc, Bool.or_eq_true] at h
    rcases h with h | h
    · exact hmark h
    · exact hclass (p := true) (by simpa [Bool.or_assoc] using h)
  | case3 => exact .nil
  | case4 c d cs hexponent hsign ih =>
    rw [Nat.add_comm 2, List.take_succ_cons, List.take_succ_cons]
    exact (ih.sign (head?_numeral hex cs) hsign).cons (hmark hexponent)
  | case5 c d cs hexponent _ ih =>
    rw [Nat.add_comm 1, List.take_succ_cons]
    exact ih.cons (hmark hexponent)
  | case6 c d cs _ hc ih =>
    rw [Nat.add_comm 1, List.take_succ_cons]
    exact ih.cons (hclass hc)
  | case7 => exact .nil

theorem isUnmarked_number (cs : List Char) : IsUnmarked (cs.take (numberLength cs)) := by
  unfold numberLength
  split
  · next x tail =>
    split
    · next hx =>
      rw [Nat.add_comm 2, List.take_succ_cons, List.take_succ_cons]
      exact ((isUnmarked_numeral true tail).cons (by rcases hx with rfl | rfl <;> decide)).cons (by simp)
    · exact isUnmarked_numeral false _
  · exact isUnmarked_numeral false cs

theorem isUnmarked_symbol (h : 1 < symbolLength cs) : IsUnmarked (cs.take (symbolLength cs)) := by
  have hall : ∀ op ∈ longSymbols, ∀ c ∈ op, c ∉ ['"', '\'', '[', '-'] := by simp [longSymbols]
  exact .of_all (hall _ (take_symbolLength h))

/-- What a cut leaves of a numeral, a name or a symbol holds no mark of a string or comment. -/
theorem isUnmarked_front (h : lexemeLength? (c :: (x ++ y)) = some (kind, n)) (hn : x.length + 1 < n)
    (hkind : ¬ (kind = .string ∨ kind = .comment)) : IsUnmarked (c :: x) := by
  have hprefix : c :: x <+: (c :: (x ++ y)).take n :=
    List.prefix_of_prefix_length_le (List.prefix_append (c :: x) y) (List.take_prefix n _) (by
      have hbounds := (lexemeLength?_bounds h).2
      rw [List.length_take, List.length_cons, List.length_cons]
      omega)
  rcases lexemeLength?_cases h with ⟨tail, -, -, rfl, -⟩ | ⟨rfl, -⟩ | ⟨level, rfl, -⟩ | ⟨-, -, rfl⟩ | ⟨-, -, rfl⟩ |
    ⟨-, rfl⟩
  · exact absurd (.inr rfl) hkind
  · exact absurd (.inl rfl) hkind
  · exact absurd (.inl rfl) hkind
  · exact (isUnmarked_number _).front hprefix
  · rw [← List.prefix_iff_eq_take.1 (List.takeWhile_prefix isNameChar)] at hprefix
    refine .of_all fun d hd hmark => ?_
    have hmem := hprefix.subset hd
    have hname := List.mem_takeWhile_imp hmem
    simp only [List.mem_cons, List.not_mem_nil, or_false] at hmark
    rcases hmark with rfl | rfl | rfl | rfl <;> cases hname
  · exact (isUnmarked_symbol (by omega)).front hprefix

/-! ## Parts of strings and comments -/

/-- A part of what opens a comment or a long bracket. -/
def IsOpening (cs : List Char) : Prop := cs = ['-'] ∨ ∃ level, cs = '[' :: List.replicate level '='

theorem IsOpening.plain (h : IsOpening cs) : PlainText cs := by
  rcases h with rfl | ⟨level, rfl⟩
  · exact plainText_of_marks (by decide) (by decide) (by decide)
  · refine plainText_of_marks ⟨by simp [List.mem_replicate], by simp [List.mem_replicate]⟩ (fun hdashes => ?_)
      (by simp [List.count_replicate])
    have hmem : '-' ∈ '[' :: List.replicate level '=' := hdashes.subset List.mem_cons_self
    simp [List.mem_replicate] at hmem

/-- Of a quoted string that goes on, all is taken that is there. -/
theorem quotedLength_front :
    ∀ {x : List Char}, x.length < quotedLength quote (x ++ y) → quotedLength quote x = x.length ∧
      (IsQuotedBody quote x ∨ ∃ body, x = body ++ ['\\'] ∧ IsQuotedBody quote body)
  | [], _ => ⟨rfl, .inl .nil⟩
  | c :: x, h => by
    by_cases hc : c = '\\'
    · subst hc
      cases x with
      | nil => exact ⟨rfl, .inr ⟨[], rfl, .nil⟩⟩
      | cons d x =>
        simp only [List.cons_append, quotedLength, List.length_cons] at h ⊢
        obtain ⟨hlength, hbody⟩ := quotedLength_front (x := x) (by omega)
        refine ⟨by omega, hbody.imp (.escape d) ?_⟩
        rintro ⟨body, rfl, hescaped⟩
        exact ⟨'\\' :: d :: body, rfl, .escape d hescaped⟩
    · simp only [List.cons_append, quotedLength_cons quote hc, List.length_cons] at h ⊢
      split at h
      · omega
      split at h
      · omega
      next hline hquote =>
      obtain ⟨hlength, hbody⟩ := quotedLength_front (x := x) (by omega)
      rw [if_neg hline, if_neg hquote, hlength]
      refine ⟨Nat.add_comm _ _, hbody.imp (.plain hquote hc hline) ?_⟩
      rintro ⟨body, rfl, hescaped⟩
      exact ⟨c :: body, rfl, .plain hquote hc hline hescaped⟩

theorem longLength_front (h : x.length < longLength level (x ++ y)) :
    longLength level x = x.length ∧ ¬ closer level <:+: x := by
  rcases take_longLength level x with hfirst | ⟨htake, hnone⟩
  · have hlength := longLength_endsFirst hfirst (x.drop (longLength level x) ++ y)
    rw [← List.append_assoc, List.take_append_drop, List.length_take] at hlength
    omega
  · have hlength := congrArg List.length htake
    have hle := longLength_le level x
    rw [List.length_take] at hlength
    exact ⟨by omega, hnone⟩

/-- A cut leaves the opening of a long bracket, or a part of it. -/
theorem bracketLevel?_front (h : bracketLevel? (x ++ y) = some level) :
    (∃ body, x = opener level ++ body) ∨ x = [] ∨ ∃ k, x = '[' :: List.replicate k '=' := by
  have hopener := opener_of_bracketLevel? h
  by_cases hx : level + 2 ≤ x.length
  · obtain ⟨body, hbody⟩ := List.prefix_of_prefix_length_le hopener (List.prefix_append x y) (by rwa [length_opener])
    exact .inl ⟨body, hbody.symm⟩
  · have hfront : x <+: '[' :: List.replicate level '=' := by
      have hcut : opener level = '[' :: List.replicate level '=' ++ ['['] := rfl
      refine List.prefix_of_prefix_length_le (List.prefix_of_prefix_length_le (List.prefix_append x y) hopener ?_)
        (hcut ▸ List.prefix_append _ _) ?_
      · rw [length_opener]
        omega
      · rw [List.length_cons, List.length_replicate]
        omega
    cases x with
    | nil => exact .inr (.inl rfl)
    | cons c x =>
      obtain ⟨rfl, hrest⟩ := List.cons_prefix_cons.1 hfront
      refine .inr (.inr ⟨x.length, congrArg _ (List.eq_replicate_iff.2 ⟨rfl, fun d hd => ?_⟩)⟩)
      exact List.eq_of_mem_replicate (hrest.subset hd)

theorem bracketLevel?_opening (k : Nat) : bracketLevel? ('[' :: List.replicate k '=') = none := by
  simp [bracketLevel?]

/-- A long bracket that is not closed takes all of the text. -/
theorem lexemeLength?_openLong {body : List Char} (h : longLength level body = body.length) :
    lexemeLength? (opener level ++ body) = some (.string, (opener level ++ body).length) := by
  have hlevel := bracketLevel?_opener level body
  have hdrop := drop_opener level body
  rw [opener, List.cons_append] at hlevel hdrop
  rw [List.drop_succ_cons] at hdrop
  rw [List.length_append, length_opener, opener, List.cons_append, lexemeLength?, if_neg (by decide), if_neg (by simp),
    if_neg (by decide), hlevel]
  dsimp only
  rw [hdrop, h]

/-- A line comment takes no LF. -/
theorem lineFeed_not_mem_of_lineLength (h : x.length ≤ lineLength (x ++ y)) : '\n' ∉ x := by
  intro hmem
  have hprefix : x <+: (x ++ y).takeWhile (· != '\n') :=
    List.prefix_of_prefix_length_le (List.prefix_append x y) (List.takeWhile_prefix _) h
  have htaken := hprefix.subset hmem
  cases List.mem_takeWhile_imp htaken

theorem lexemeLength?_front_comment (h : lexemeLength? ('-' :: '-' :: (x ++ y)) = some (.comment, n))
    (hn : x.length + 2 < n) : Unterminated .comment ('-' :: '-' :: x) ∧
      lexemeLength? ('-' :: '-' :: x) = some (.comment, x.length + 2) := by
  have hshort (hlevel : bracketLevel? x = none) (hline : '\n' ∉ x) : Unterminated .comment ('-' :: '-' :: x) ∧
      lexemeLength? ('-' :: '-' :: x) = some (.comment, x.length + 2) := by
    have hopener : ∀ level, ¬ opener level <+: x := by
      rintro level ⟨body, rfl⟩
      rw [bracketLevel?_opener] at hlevel
      cases hlevel
    have hscan := lexemeLength?_lineComment hline hopener endsLine_nil
    rw [List.append_nil] at hscan
    exact ⟨.lineComment hopener, hscan⟩
  rw [lexemeLength?_comment] at h
  obtain ⟨-, rfl⟩ := Prod.mk.inj (Option.some.inj h)
  rw [commentLength, List.drop_succ_cons, List.drop_succ_cons, List.drop_zero] at hn
  cases hlevel : bracketLevel? (x ++ y) with
  | none =>
    rw [hlevel] at hn
    have hline := lineFeed_not_mem_of_lineLength (x := '-' :: '-' :: x) (y := y) (Nat.le_of_lt hn)
    exact hshort (bracketLevel?_cut_none hlevel) fun hmem => hline (by simp [hmem])
  | some level =>
    rw [hlevel] at hn
    dsimp only at hn
    rcases bracketLevel?_front hlevel with ⟨body, rfl⟩ | rfl | ⟨k, rfl⟩
    · rw [List.drop_succ_cons, List.drop_succ_cons, List.append_assoc, drop_opener, List.length_append,
        length_opener] at hn
      obtain ⟨hlength, hnone⟩ := longLength_front (show body.length < longLength level (body ++ y) by omega)
      refine ⟨.longComment ⟨body, rfl, hnone⟩, ?_⟩
      rw [lexemeLength?_comment, commentLength, List.drop_succ_cons, List.drop_succ_cons, List.drop_zero,
        bracketLevel?_opener]
      dsimp only
      rw [List.drop_succ_cons, List.drop_succ_cons, drop_opener, hlength, List.length_append, length_opener]
      congr 2
      omega
    · exact hshort rfl (by simp)
    · exact hshort (bracketLevel?_opening k) (by simp [List.mem_replicate])

theorem lexemeLength?_front (h : lexemeLength? (c :: (x ++ y)) = some (kind, n)) (hn : x.length + 1 < n)
    (hkind : kind = .string ∨ kind = .comment) :
    IsOpening (c :: x) ∨ (Unterminated kind (c :: x) ∧ lexemeLength? (c :: x) = some (kind, x.length + 1)) := by
  rcases lexemeLength?_cases h with ⟨tail, rfl, htail, rfl, -⟩ | ⟨rfl, hquote, rfl⟩ | ⟨level, rfl, hlevel, rfl⟩ |
    ⟨rfl, -⟩ | ⟨rfl, -⟩ | ⟨rfl, -⟩
  · cases x with
    | nil => exact .inl (.inl rfl)
    | cons d x =>
      obtain ⟨rfl, -⟩ := List.cons.inj htail
      exact .inr (lexemeLength?_front_comment h (by simpa using hn))
  · obtain ⟨hlength, hbody⟩ := quotedLength_front (show x.length < quotedLength c (x ++ y) by omega)
    refine .inr ⟨?_, ?_⟩
    · rcases hbody with hbody | ⟨body, rfl, hbody⟩
      · exact .quoted hquote hbody
      · exact .escaping hquote hbody
    · have hplain : (isAsciiBlank c || !isAscii c) = false := by rcases hquote with rfl | rfl <;> rfl
      have hdash : c ≠ '-' := by rcases hquote with rfl | rfl <;> decide
      rw [lexemeLength?, if_neg (by simp [hplain]), if_neg (by simp [hdash]), if_pos hquote, hlength, Nat.add_comm]
  · rcases bracketLevel?_front (x := c :: x) hlevel with ⟨body, hbody⟩ | hnil | hopening
    · have hdrop : (x ++ y).drop (level + 1) = body ++ y := by
        have hwhole : c :: (x ++ y) = opener level ++ (body ++ y) := by
          rw [← List.append_assoc, ← hbody, List.cons_append]
        rw [← drop_opener level (body ++ y), ← hwhole, List.drop_succ_cons]
      have hcount : x.length + 1 = level + 2 + body.length := by
        rw [← List.length_cons, hbody, List.length_append, length_opener]
      rw [hdrop] at hn
      obtain ⟨hlength, hnone⟩ := longLength_front (show body.length < longLength level (body ++ y) by omega)
      have hscan := lexemeLength?_openLong hlength
      rw [← hbody, List.length_cons] at hscan
      exact .inr ⟨.longString ⟨body, hbody, hnone⟩, hscan⟩
    · cases hnil
    · exact .inl (.inr hopening)
  · exact absurd hkind (by decide)
  · exact absurd hkind (by unfold wordKind; split <;> decide)
  · exact absurd hkind (by decide)

/-! ## Ends of texts -/

/-- A token that is not terminated holds the position behind it unless it is misjudged. -/
theorem holds_stop_iff (ht : t.start < t.stop) (h : Unterminated t.kind t.text)
    (hkind : t.kind = .string ∨ t.kind = .comment) : t.holds t.stop = true ↔ ¬ Misjudged t.kind t.text := by
  have hlooks {p q : Prop} (hp : ¬ p) : (p ↔ ¬ q) ↔ q := by rw [iff_false_left hp, not_not]
  have hstring (h : Unterminated .string t.text) : looksClosedString t.text = true ↔ Misjudged .string t.text :=
    (looksClosedString_iff (.inr h)).trans (hlooks h.not_terminated)
  have hcomment (h : Unterminated .comment t.text) : looksClosedComment t.text = true ↔ Misjudged .comment t.text :=
    (looksClosedComment_iff (.inr h)).trans (hlooks h.not_terminated)
  unfold Token.holds
  rcases hkind with hkind | hkind <;> rw [hkind] at h ⊢
  · rw [← hstring h]
    simp [ht]
  · rw [← hcomment h]
    simp [ht]

theorem not_holds_of_le_start (h : place ≤ t.start) : t.holds place = false := by
  unfold Token.holds
  rw [decide_eq_false (Nat.not_lt.2 h), Bool.false_and]

/-- The position is in the token, behind its characters `front`. -/
structure Token.CutBehind (t : Token) (place : Nat) (front : List Char) : Prop where
  text : ∃ back, back ≠ [] ∧ t.text = front ++ back
  place : place = t.start + size front

/-- What stands of the token before the position does not tell that the position is in a string or comment: it is a
part of an opening, or it is misjudged. -/
def Token.LooksOver (t : Token) (place : Nat) : Prop :=
  ∃ front, t.CutBehind place front ∧ (IsOpening front ∨ Misjudged t.kind front)

theorem Token.CutBehind.lt_stop {front : List Char} (h : t.CutBehind place front) : place < t.stop := by
  obtain ⟨⟨back, hne, htext⟩, hplace⟩ := h
  have hpos : 0 < size back := Nat.pos_of_ne_zero (mt size_eq_zero_iff.1 hne)
  rw [Token.stop, htext, size_append]
  omega

theorem Token.CutBehind.unique {front front' : List Char} (h : t.CutBehind place front)
    (h' : t.CutBehind place front') : front = front' := by
  obtain ⟨⟨back, -, htext⟩, hplace⟩ := h
  obtain ⟨⟨back', -, htext'⟩, hplace'⟩ := h'
  exact (append_inj_of_size (htext.symm.trans htext') (by omega)).1

/-- The token that a cut parts. -/
theorem cutBehind_of_long (offset : Nat) (h : lexemeLength? (c :: (x ++ y)) = some (kind, n)) (hn : x.length + 1 < n) :
    Token.CutBehind ⟨offset, kind, c :: (x ++ y).take (n - 1)⟩ (offset + size (c :: x)) (c :: x) where
  text := by
    have hbounds := (lexemeLength?_bounds h).2
    rw [List.length_append] at hbounds
    refine ⟨y.take (n - 1 - x.length), ?_, ?_⟩
    · intro hnil
      have := congrArg List.length hnil
      rw [List.length_take, List.length_nil] at this
      omega
    · change c :: (x ++ y).take (n - 1) = _
      rw [List.take_append, List.take_of_length_le (by omega), List.cons_append]
  place := rfl

/-- Whether a parted lexeme holds the place of the cut, told from what stands before the cut. -/
theorem holds_front (h : lexemeLength? (c :: (x ++ y)) = some (kind, n)) (hn : x.length + 1 < n) :
    (∃ t ∈ locate offset (pieces (c :: x)), t.holds (offset + size (c :: x)) = true) ↔
      Token.holds ⟨offset, kind, c :: (x ++ y).take (n - 1)⟩ (offset + size (c :: x)) = true ∧
        ¬ Token.LooksOver ⟨offset, kind, c :: (x ++ y).take (n - 1)⟩ (offset + size (c :: x)) := by
  have hcut := cutBehind_of_long offset h hn
  generalize ht : Token.mk offset ⟨kind, c :: (x ++ y).take (n - 1)⟩ = t at hcut
  have hstart : t.start = offset := by rw [← ht]
  have htkind : t.kind = kind := by rw [← ht]; rfl
  have hplain (hplain : PlainText (c :: x)) :
      ¬ ∃ t ∈ locate offset (pieces (c :: x)), t.holds (offset + size (c :: x)) = true := by
    rintro ⟨s, hs, hholds⟩
    rw [hplain.not_holds hs] at hholds
    cases hholds
  by_cases hkind : kind = .string ∨ kind = .comment
  · rcases lexemeLength?_front h hn hkind with hopening | ⟨hopen, hscan⟩
    · exact iff_of_false (hplain hopening.plain) fun hheld => hheld.2 ⟨c :: x, hcut, .inl hopening⟩
    · have hpos := c.utf8Size_pos
      have hholds : t.holds (offset + size (c :: x)) = true :=
        holds_of_lt (htkind ▸ hkind) (by rw [hstart, size_cons]; omega) hcut.lt_stop
      have hover : t.LooksOver (offset + size (c :: x)) ↔ Misjudged kind (c :: x) := by
        constructor
        · rintro ⟨front, hfront, hlooks⟩
          obtain rfl := hfront.unique hcut
          rw [htkind] at hlooks
          exact hlooks.resolve_left fun hopening => hopening.plain _ _ _ (List.suffix_refl _) hscan hkind
        · exact fun hjudged => ⟨c :: x, hcut, .inr (htkind ▸ hjudged)⟩
      have htokens : locate offset (pieces (c :: x)) = [⟨offset, kind, c :: x⟩] := by
        rw [pieces, hscan]
        dsimp only
        rw [Nat.add_sub_cancel, List.take_length, List.drop_length, pieces]
        rfl
      have hstop : Token.stop ⟨offset, kind, c :: x⟩ = offset + size (c :: x) := rfl
      rw [htokens, hover]
      simp only [hholds, List.mem_singleton, exists_eq_left, true_and]
      rw [← hstop]
      have hpos : offset < Token.stop ⟨offset, kind, c :: x⟩ := by
        rw [hstop, size_cons]
        omega
      exact holds_stop_iff (t := ⟨offset, kind, c :: x⟩) hpos hopen hkind
  · refine iff_of_false (hplain (isUnmarked_front h hn hkind).plain) fun hheld => ?_
    have hother := hheld.1
    unfold Token.holds at hother
    rw [htkind] at hother
    cases kind <;> simp_all

/-- A token in front of the cut holds the place if and only if it does so with the text behind. -/
theorem exists_mem_cons_holds {ts us : List Token} (hstop : t.stop ≤ place)
    (h : (∃ s ∈ ts, s.holds place = true) ↔ ∃ s ∈ us, s.holds place = true ∧ ¬ s.LooksOver place) :
    (∃ s ∈ t :: ts, s.holds place = true) ↔ ∃ s ∈ t :: us, s.holds place = true ∧ ¬ s.LooksOver place := by
  have hcut : ¬ t.LooksOver place := by
    rintro ⟨front, hfront, -⟩
    exact absurd hfront.lt_stop (Nat.not_lt.2 hstop)
  rw [List.exists_mem_cons_iff, List.exists_mem_cons_iff, h, and_iff_left hcut]

theorem number_of_lexemeLength? (h : lexemeLength? (c :: cs) = some (.number, n)) : n = numberLength (c :: cs) := by
  rcases lexemeLength?_cases h with ⟨tail, -, -, hother, -⟩ | ⟨hother, -⟩ | ⟨level, hother, -⟩ | ⟨-, -, hn⟩ |
    ⟨hother, -⟩ | ⟨hother, -⟩
  · cases hother
  · cases hother
  · cases hother
  · exact hn
  · unfold wordKind at hother
    split at hother <;> cases hother
  · cases hother

/-- Between two points behind a numeral nothing is held, neither with the text behind the cut nor without it. -/
theorem holds_points (h : lexemeLength? (c :: (x ++ y)) = some (.number, n)) (hpoints : PartsPoints (c :: x) y n) :
    (∃ t ∈ locate offset (pieces (c :: x)), t.holds (offset + size (c :: x)) = true) ↔
      ∃ t ∈ locate offset (pieces (c :: (x ++ y))),
        t.holds (offset + size (c :: x)) = true ∧ ¬ t.LooksOver (offset + size (c :: x)) := by
  obtain ⟨front, hx, rfl, hhead⟩ := hpoints
  obtain ⟨y, rfl⟩ := List.head?_eq_some_iff.1 hhead
  have htext : c :: (x ++ '.' :: y) = front ++ '.' :: '.' :: y := by
    rw [← List.cons_append, hx, List.append_assoc]
    rfl
  have hnumeral : IsUnmarked front := by
    have hunmarked := isUnmarked_number (c :: (x ++ '.' :: y))
    rwa [← number_of_lexemeLength? h, htext, List.take_left] at hunmarked
  refine iff_of_false ?_ ?_
  · rintro ⟨t, ht, hholds⟩
    rw [hx] at ht
    rw [hnumeral.concat_point.plain.not_holds ht] at hholds
    cases hholds
  · -- of the text with its second point the next token is a symbol that takes both
    obtain ⟨k, hsymbol, hk⟩ := exists_lexemeLength?_points y
    have htokens : locate offset (pieces (c :: (x ++ '.' :: y))) =
        ⟨offset, .number, front⟩ :: locate (offset + size front) (pieces ('.' :: '.' :: y)) := by
      cases front with
      | nil => exact absurd (lexemeLength?_bounds h).1 (by simp)
      | cons d front =>
        obtain ⟨rfl, htail⟩ := List.cons.inj htext
        change x ++ '.' :: y = front ++ '.' :: '.' :: y at htail
        rw [pieces, h]
        dsimp only
        rw [htail, List.length_cons, Nat.add_sub_cancel, List.take_left, List.drop_left]
        rfl
    rintro ⟨t, ht, hholds, -⟩
    rw [htokens, pieces, hsymbol] at ht
    rcases List.mem_cons.1 ht with rfl | ht
    · simp [Token.holds, Token.kind] at hholds
    rcases List.mem_cons.1 ht with rfl | ht
    · simp [Token.holds, Token.kind] at hholds
    · have hstart := le_start_of_mem_locate ht
      rw [not_holds_of_le_start] at hholds
      · cases hholds
      · refine Nat.le_trans ?_ hstart
        rw [hx, size_append, size_cons, size_cons, size_nil]
        omega

/-- Whether a text ends in a string or comment can be told without what stands behind it, except where a token looks
over. -/
theorem exists_holds_front (y : List Char) :
    ∀ (x : List Char) (offset : Nat),
      (∃ t ∈ locate offset (pieces x), t.holds (offset + size x) = true) ↔
        ∃ t ∈ locate offset (pieces (x ++ y)), t.holds (offset + size x) = true ∧ ¬ t.LooksOver (offset + size x)
  | [], offset => by
    refine iff_of_false (by rw [pieces]; simp [locate]) ?_
    rintro ⟨t, ht, hholds, -⟩
    rw [size_nil, Nat.add_zero, not_holds_of_le_start (le_start_of_mem_locate ht)] at hholds
    cases hholds
  | c :: x, offset => by
    rw [List.cons_append]
    cases hlength : lexemeLength? (c :: (x ++ y)) with
    | none =>
      have hcut : lexemeLength? (c :: x) = none := lexemeLength?_eq_none_iff.2 (lexemeLength?_eq_none_iff.1 hlength)
      rw [pieces, pieces, hlength, hcut, size_cons, ← Nat.add_assoc]
      exact exists_holds_front y x (offset + c.utf8Size)
    | some found =>
      obtain ⟨kind, n⟩ := found
      by_cases hn : n ≤ x.length + 1
      · by_cases hpoints : kind = .number ∧ PartsPoints (c :: x) y n
        · obtain ⟨rfl, hpoints⟩ := hpoints
          exact holds_points hlength hpoints
        · have hcut := lexemeLength?_cut hlength hn fun hkind hparts => hpoints ⟨hkind, hparts⟩
          rw [pieces, pieces, hlength, hcut]
          dsimp only
          rw [List.take_append_of_le_length (by omega), List.drop_append_of_le_length (by omega), locate, locate,
            ← size_cons_take_drop c x (n - 1)]
          exact exists_mem_cons_holds (Nat.le_add_right _ _) (exists_holds_front y (x.drop (n - 1)) _)
      · rw [holds_front hlength (by omega), pieces, hlength]
        dsimp only
        rw [locate, List.exists_mem_cons_iff, or_iff_left]
        rintro ⟨t, ht, hholds, -⟩
        have hlt := (cutBehind_of_long offset hlength (by omega)).lt_stop
        rw [not_holds_of_le_start (Nat.le_trans (Nat.le_of_lt hlt) (le_start_of_mem_locate ht))] at hholds
        cases hholds
  termination_by x => x.length
  decreasing_by all_goals (simp only [List.length_cons, List.length_drop]; omega)

theorem isCodePosition_front (x y : List Char) :
    isCodePosition x (size x) = false ↔
      ∃ t ∈ tokenize (x ++ y), t.holds (size x) = true ∧ ¬ t.LooksOver (size x) := by
  have h := exists_holds_front y x 0
  rw [Nat.zero_add] at h
  rw [isCodePosition, Nat.min_self, Bool.not_eq_false', List.any_eq_true]
  exact h

end Scriptorium.Editor
