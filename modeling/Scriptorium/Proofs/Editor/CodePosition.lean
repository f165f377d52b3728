import Scriptorium.Proofs.Editor.TokenSequence

/-!
# Code positions

`isCodePosition` scans for the tokens and then judges from the last characters of a string or comment whether it
was closed. `Terminated` says of the text of a token that the scan found its end; `isCodePosition_iff` says
where the two agree, and that they part exactly after the `Misjudged` tokens.
-/

namespace Scriptorium.Editor

open Text

variable {cs rest : List Char} {c quote : Char} {kind : LexemeKind}

/-! ## Ends of strings and comments -/

/-- A string or comment that ends where its notation says: at the closing quote, or at the closing bracket of
its level. No line comment does. -/
inductive Terminated : LexemeKind → List Char → Prop where
  | quoted {quote : Char} {body : List Char} (isQuote : quote = '"' ∨ quote = '\'')
      (escaped : IsQuotedBody quote body) : Terminated .string (quote :: (body ++ [quote]))
  | longString {level : Nat} {cs : List Char} (long : IsLong level cs) : Terminated .string cs
  | longComment {level : Nat} {cs : List Char} (long : IsLong level cs) : Terminated .comment ('-' :: '-' :: cs)

/-- A long bracket of a level that is never closed. -/
def IsOpenLong (level : Nat) (cs : List Char) : Prop :=
  ∃ body, cs = opener level ++ body ∧ ¬ closer level <:+: body

/-- A string or comment that goes on to the end of its line or of the text. -/
inductive Unterminated : LexemeKind → List Char → Prop where
  | quoted {quote : Char} {body : List Char} (isQuote : quote = '"' ∨ quote = '\'')
      (escaped : IsQuotedBody quote body) : Unterminated .string (quote :: body)
  /-- The text ends after a backslash. -/
  | escaping {quote : Char} {body : List Char} (isQuote : quote = '"' ∨ quote = '\'')
      (escaped : IsQuotedBody quote body) : Unterminated .string (quote :: (body ++ ['\\']))
  | longString {level : Nat} {cs : List Char} (long : IsOpenLong level cs) : Unterminated .string cs
  | longComment {level : Nat} {cs : List Char} (long : IsOpenLong level cs) :
      Unterminated .comment ('-' :: '-' :: cs)
  | lineComment {cs : List Char} (short : ∀ level, ¬ opener level <+: cs) :
      Unterminated .comment ('-' :: '-' :: cs)

/-! ## What the scan finds -/

theorem take_quotedLength (quote : Char) (cs : List Char) :
    ∃ body, IsQuotedBody quote body ∧
      (cs.take (quotedLength quote cs) = body ++ [quote] ∨ cs.take (quotedLength quote cs) = body ∨
        cs.take (quotedLength quote cs) = body ++ ['\\']) := by
  fun_induction quotedLength quote cs with
  | case1 => exact ⟨[], .nil, .inr (.inl rfl)⟩
  | case2 => exact ⟨[], .nil, .inr (.inr rfl)⟩
  | case3 c cs ih =>
    obtain ⟨body, hbody, h⟩ := ih
    refine ⟨'\\' :: c :: body, .escape c hbody, ?_⟩
    rw [Nat.add_comm 2, List.take_succ_cons, List.take_succ_cons]
    simpa using h
  | case4 => exact ⟨[], .nil, .inr (.inl rfl)⟩
  | case5 => exact ⟨[], .nil, .inl rfl⟩
  | case6 c cs hlast hpair hline hquote ih =>
    obtain ⟨body, hbody, h⟩ := ih
    have hbackslash : c ≠ '\\' := by
      rintro rfl
      cases cs with
      | nil => exact hlast rfl rfl
      | cons d cs => exact hpair d cs rfl rfl
    refine ⟨c :: body, .plain hquote hbackslash hline hbody, ?_⟩
    rw [Nat.add_comm 1, List.take_succ_cons]
    simpa using h

theorem take_longLength (level : Nat) (cs : List Char) :
    EndsFirst (closer level) (cs.take (longLength level cs)) ∨
      (cs.take (longLength level cs) = cs ∧ ¬ closer level <:+: cs) := by
  induction cs with
  | nil => exact .inr ⟨rfl, by simp [closer]⟩
  | cons c cs ih =>
    rw [longLength]
    by_cases hfront : closer level <+: c :: cs
    · have hlength : (closer level).length = level + 2 := by simp [closer]
      rw [if_pos (List.isPrefixOf_iff_prefix.2 hfront), ← hlength, ← List.prefix_iff_eq_take.1 hfront]
      exact .inl .self
    · rw [if_neg (mt List.isPrefixOf_iff_prefix.1 hfront), Nat.add_comm, List.take_succ_cons]
      rcases ih with h | ⟨htake, hnone⟩
      · refine .inl (h.cons fun h => hfront (h.trans ?_))
        exact List.cons_prefix_cons.2 ⟨rfl, List.take_prefix _ _⟩
      · rw [htake, List.infix_cons_iff]
        exact .inr ⟨rfl, fun h => h.elim hfront hnone⟩

theorem take_opener_append (level n : Nat) (body : List Char) :
    (opener level ++ body).take (level + 2 + n) = opener level ++ body.take n := by
  rw [← length_opener level, List.take_length_add_append]

/-- A long bracket is cut behind its first closer, or runs to the end of the text. -/
theorem long_cut {level : Nat} (h : bracketLevel? cs = some level) :
    IsLong level (cs.take (level + 2 + longLength level (cs.drop (level + 2)))) ∨
      IsOpenLong level (cs.take (level + 2 + longLength level (cs.drop (level + 2)))) := by
  obtain ⟨body, rfl⟩ := opener_of_bracketLevel? h
  rw [drop_opener, take_opener_append]
  rcases take_longLength level body with hfirst | ⟨htake, hnone⟩
  · exact .inl ⟨_, rfl, hfirst⟩
  · exact .inr ⟨body, by rw [htake], hnone⟩

/-- Every string and comment that the lexer cuts off is terminated or not, as the notation has it. -/
theorem terminated_or_unterminated {n : Nat} (h : lexemeLength? (c :: cs) = some (kind, n))
    (hkind : kind = .string ∨ kind = .comment) :
    Terminated kind (c :: cs.take (n - 1)) ∨ Unterminated kind (c :: cs.take (n - 1)) := by
  have plain {k : LexemeKind} {m : Nat} (hk : k ≠ .string ∧ k ≠ .comment)
      (heq : some (k, m) = some (kind, n)) : False := by
    obtain ⟨rfl, -⟩ := Prod.mk.inj (Option.some.inj heq)
    exact hkind.elim hk.1 hk.2
  rw [lexemeLength?] at h
  split at h
  · cases h
  split at h
  · next hdash =>
    obtain ⟨rfl, hhead⟩ := hdash
    obtain ⟨tail, rfl⟩ := List.head?_eq_some_iff.1 hhead
    obtain ⟨rfl, rfl⟩ := Prod.mk.inj (Option.some.inj h)
    rw [commentLength, List.drop_succ_cons, List.drop_succ_cons, List.drop_zero]
    cases hlevel : bracketLevel? tail with
    | some level =>
      have hsub (k : Nat) : level + 4 + k - 1 = level + 2 + k + 1 := by omega
      dsimp only
      rw [hsub, List.take_succ_cons, List.drop_succ_cons, List.drop_succ_cons]
      exact (long_cut hlevel).imp .longComment .longComment
    | none =>
      have hlength : lineLength ('-' :: '-' :: tail) - 1 = lineLength tail + 1 := by simp [lineLength]
      dsimp only
      rw [hlength, List.take_succ_cons]
      refine .inr (.lineComment fun level hopener => ?_)
      obtain ⟨body, rfl⟩ := hopener.trans (List.take_prefix _ _)
      rw [bracketLevel?_opener] at hlevel
      cases hlevel
  split at h
  · next hquote =>
    obtain ⟨rfl, rfl⟩ := Prod.mk.inj (Option.some.inj h)
    rw [Nat.add_sub_cancel_left]
    obtain ⟨body, hbody, htake | htake | htake⟩ := take_quotedLength c cs <;> rw [htake]
    · exact .inl (.quoted hquote hbody)
    · exact .inr (.quoted hquote hbody)
    · exact .inr (.escaping hquote hbody)
  split at h
  · next level hlevel =>
    obtain ⟨rfl, rfl⟩ := Prod.mk.inj (Option.some.inj h)
    have hsub (k : Nat) : level + 2 + k - 1 = level + 1 + k := by omega
    have hcut := long_cut hlevel
    rw [show level + 2 = level + 1 + 1 from rfl, List.drop_succ_cons, Nat.add_right_comm,
      List.take_succ_cons] at hcut
    rw [hsub]
    exact hcut.imp .longString .longString
  split at h
  · exact (plain (by decide) h).elim
  split at h
  · refine (plain ?_ h).elim
    unfold wordKind
    split <;> decide
  · exact (plain (by decide) h).elim

/-! ## The two readings of an end -/

/-- In a string that goes on, a quote at the end is escaped. -/
theorem IsQuotedBody.backslash_of_append {before : List Char} (h : IsQuotedBody quote cs)
    (hcs : cs = before ++ [quote]) : before.getLast? = some '\\' := by
  induction h generalizing before with
  | nil => simp at hcs
  | plain not_quote _ _ _ ih =>
    cases before with
    | nil => exact absurd (List.cons.inj hcs).1 not_quote
    | cons b before => rw [List.getLast?_cons, ih (List.cons.inj hcs).2, Option.getD_some]
  | escape c _ ih =>
    rcases before with _ | ⟨b, _ | ⟨d, before⟩⟩
    · simp at hcs
    · rw [(List.cons.inj hcs).1]
      rfl
    · obtain ⟨hb, hcs⟩ := List.cons.inj hcs
      rw [List.getLast?_cons, List.getLast?_cons, ih (List.cons.inj hcs).2]
      rfl

theorem IsQuotedBody.tail (h : IsQuotedBody quote (c :: cs)) (hc : c ≠ '\\') : IsQuotedBody quote cs := by
  cases h with
  | plain _ _ _ rest => exact rest
  | escape => exact absurd rfl hc

/-- No string that was closed goes on with its closing quote. -/
theorem IsQuotedBody.not_append (hquote : quote ≠ '\\') (h : IsQuotedBody quote cs) :
    ¬ IsQuotedBody quote (cs ++ [quote]) := by
  induction h with
  | nil =>
    intro h
    cases h with
    | plain not_quote => exact not_quote rfl
  | plain _ not_backslash _ _ ih =>
    exact fun h => ih (h.tail not_backslash)
  | escape c _ ih =>
    intro h
    rw [List.cons_append, List.cons_append] at h
    cases h with
    | plain _ not_backslash => exact not_backslash rfl
    | escape _ rest => exact ih rest

theorem IsLong.head? {level : Nat} (h : IsLong level cs) : cs.head? = some '[' := by
  obtain ⟨body, rfl, -⟩ := h
  rfl

theorem IsOpenLong.head? {level : Nat} (h : IsOpenLong level cs) : cs.head? = some '[' := by
  obtain ⟨body, rfl, -⟩ := h
  rfl

theorem IsLong.not_isOpenLong {level level' : Nat} (h : IsLong level cs) : ¬ IsOpenLong level' cs := by
  rintro ⟨body', hcs, hnone⟩
  obtain ⟨body, rfl, hbody⟩ := h
  have hlevel := bracketLevel?_opener level body
  rw [hcs, bracketLevel?_opener] at hlevel
  obtain rfl := Option.some.inj hlevel
  obtain rfl := List.append_cancel_left hcs
  exact hnone hbody.suffix.isInfix

theorem ne_of_isQuote (h : quote = '"' ∨ quote = '\'') : quote ≠ '\\' ∧ some quote ≠ some '[' := by
  rcases h with rfl | rfl <;> decide

theorem terminated_quoted_iff (hquote : quote = '"' ∨ quote = '\'') :
    Terminated .string (quote :: cs) ↔ ∃ body, cs = body ++ [quote] ∧ IsQuotedBody quote body := by
  constructor
  · intro h
    cases h with
    | quoted _ escaped => exact ⟨_, rfl, escaped⟩
    | longString long => exact absurd long.head? (ne_of_isQuote hquote).2
  · rintro ⟨body, rfl, escaped⟩
    exact .quoted hquote escaped

theorem terminated_long_iff (h : cs.head? = some '[') : Terminated .string cs ↔ ∃ level, IsLong level cs := by
  constructor
  · intro hcs
    cases hcs with
    | quoted isQuote _ => exact absurd h (ne_of_isQuote isQuote).2
    | longString long => exact ⟨_, long⟩
  · rintro ⟨level, long⟩
    exact .longString long

theorem terminated_comment_iff : Terminated .comment ('-' :: '-' :: cs) ↔ ∃ level, IsLong level cs := by
  constructor
  · intro h
    cases h with
    | longComment long => exact ⟨_, long⟩
  · rintro ⟨level, long⟩
    exact .longComment long

/-- No text is both. -/
theorem Unterminated.not_terminated (h : Unterminated kind cs) : ¬ Terminated kind cs := by
  cases h with
  | quoted isQuote escaped =>
    rw [terminated_quoted_iff isQuote]
    rintro ⟨body, rfl, hbody⟩
    exact hbody.not_append (ne_of_isQuote isQuote).1 escaped
  | escaping isQuote escaped =>
    rw [terminated_quoted_iff isQuote]
    rintro ⟨body, heq, -⟩
    exact (ne_of_isQuote isQuote).1 (by simpa using congrArg List.getLast? heq.symm)
  | longString openLong =>
    rw [terminated_long_iff openLong.head?]
    rintro ⟨level, long⟩
    exact long.not_isOpenLong openLong
  | longComment openLong =>
    rw [terminated_comment_iff]
    rintro ⟨level, long⟩
    exact long.not_isOpenLong openLong
  | lineComment short =>
    rw [terminated_comment_iff]
    rintro ⟨level, body, rfl, -⟩
    exact short level (List.prefix_append _ _)

/-- The texts whose end is judged wrongly: a string that is closed behind an escaped backslash, which looks as
if its quote were escaped, and a long bracket that is not closed but ends in a bracket. -/
inductive Misjudged : LexemeKind → List Char → Prop where
  | quoted {quote : Char} {body : List Char} (isQuote : quote = '"' ∨ quote = '\'')
      (escaped : IsQuotedBody quote body) (backslash : body.getLast? = some '\\') :
      Misjudged .string (quote :: (body ++ [quote]))
  | longString {level : Nat} {cs : List Char} (long : IsOpenLong level cs) (bracket : cs.getLast? = some ']') :
      Misjudged .string cs
  | longComment {level : Nat} {cs : List Char} (long : IsOpenLong level cs) (bracket : cs.getLast? = some ']') :
      Misjudged .comment ('-' :: '-' :: cs)

theorem misjudged_quoted_iff (hquote : quote = '"' ∨ quote = '\'') :
    Misjudged .string (quote :: cs) ↔
      ∃ body, cs = body ++ [quote] ∧ IsQuotedBody quote body ∧ body.getLast? = some '\\' := by
  constructor
  · intro h
    cases h with
    | quoted _ escaped backslash => exact ⟨_, rfl, escaped, backslash⟩
    | longString long => exact absurd long.head? (ne_of_isQuote hquote).2
  · rintro ⟨body, rfl, escaped, backslash⟩
    exact .quoted hquote escaped backslash

theorem misjudged_long_iff (h : cs.head? = some '[') :
    Misjudged .string cs ↔ (∃ level, IsOpenLong level cs) ∧ cs.getLast? = some ']' := by
  constructor
  · intro hcs
    cases hcs with
    | quoted isQuote _ _ => exact absurd h (ne_of_isQuote isQuote).2
    | longString long bracket => exact ⟨⟨_, long⟩, bracket⟩
  · rintro ⟨⟨level, long⟩, bracket⟩
    exact .longString long bracket

theorem misjudged_comment_iff :
    Misjudged .comment ('-' :: '-' :: cs) ↔ (∃ level, IsOpenLong level cs) ∧ cs.getLast? = some ']' := by
  constructor
  · intro h
    cases h with
    | longComment long bracket => exact ⟨⟨_, long⟩, bracket⟩
  · rintro ⟨⟨level, long⟩, bracket⟩
    exact .longComment long bracket

theorem looksClosedString_quote (h : quote = '"' ∨ quote = '\'') (cs : List Char) (c : Char) :
    looksClosedString (quote :: (cs ++ [c])) = (c == quote && cs.getLast?.getD quote != '\\') := by
  have hquote : (quote == '"' || quote == '\'') = true := by simpa using h
  rw [looksClosedString, if_pos hquote, List.reverse_append, List.reverse_singleton, List.singleton_append]
  simp

theorem looksClosedString_long (h : cs.head? = some '[') :
    looksClosedString cs = (cs.getLast? == some ']') := by
  obtain ⟨tail, rfl⟩ := List.head?_eq_some_iff.1 h
  rfl

theorem getLast?_closer (level : Nat) : (closer level).getLast? = some ']' := by
  rw [closer, ← List.cons_append, List.getLast?_concat]

theorem IsLong.getLast? {level : Nat} (h : IsLong level cs) : cs.getLast? = some ']' := by
  obtain ⟨body, rfl, hbody⟩ := h
  obtain ⟨before, rfl⟩ := hbody.suffix
  rw [← List.append_assoc, List.getLast?_append, getLast?_closer]
  rfl

theorem looksClosedComment_dashes (cs : List Char) :
    looksClosedComment ('-' :: '-' :: cs) = ((bracketLevel? cs).isSome && cs.getLast? == some ']') := by
  cases cs <;> rfl

/-- A string looks as it is unless it is misjudged. -/
theorem looksClosedString_iff (h : Terminated .string cs ∨ Unterminated .string cs) :
    looksClosedString cs = true ↔ (Terminated .string cs ↔ ¬ Misjudged .string cs) := by
  rcases h with h | h
  · rw [iff_true_left h]
    cases h with
    | @quoted quote body isQuote escaped =>
      have hbackslash : body.getLast?.getD quote = '\\' ↔ body.getLast? = some '\\' := by
        cases body.getLast? <;> simp [(ne_of_isQuote isQuote).1]
      rw [looksClosedString_quote isQuote, misjudged_quoted_iff isQuote]
      simp [hbackslash, escaped]
    | longString long =>
      rw [looksClosedString_long long.head?, misjudged_long_iff long.head?, long.getLast?]
      exact iff_of_true rfl fun hopen => hopen.1.elim fun _ => long.not_isOpenLong
  · have hnot := h.not_terminated
    rw [iff_false_left hnot, not_not]
    cases h with
    | @quoted quote body isQuote escaped =>
      have hlook : looksClosedString (quote :: body) = false := by
        rcases List.eq_nil_or_concat body with rfl | ⟨before, c, rfl⟩
        · rcases isQuote with rfl | rfl <;> rfl
        · rw [List.concat_eq_append] at escaped ⊢
          rw [looksClosedString_quote isQuote]
          by_cases hc : c = quote
          · simp [hc, (hc ▸ escaped).backslash_of_append rfl]
          · simp [hc]
      have hjudged : ¬ Misjudged .string (quote :: body) := by
        rw [misjudged_quoted_iff isQuote]
        rintro ⟨body', rfl, hbody, -⟩
        exact hnot (.quoted isQuote hbody)
      simp [hlook, hjudged]
    | @escaping quote body isQuote escaped =>
      have hjudged : ¬ Misjudged .string (quote :: (body ++ ['\\'])) := by
        rw [misjudged_quoted_iff isQuote]
        rintro ⟨body', heq, hbody, -⟩
        rw [heq] at hnot
        exact hnot (.quoted isQuote hbody)
      rw [looksClosedString_quote isQuote]
      simp [hjudged, (ne_of_isQuote isQuote).1.symm]
    | longString long =>
      rw [looksClosedString_long long.head?, misjudged_long_iff long.head?, beq_iff_eq]
      exact (and_iff_right ⟨_, long⟩).symm

/-- A comment looks as it is unless it is misjudged. -/
theorem looksClosedComment_iff (h : Terminated .comment cs ∨ Unterminated .comment cs) :
    looksClosedComment cs = true ↔ (Terminated .comment cs ↔ ¬ Misjudged .comment cs) := by
  rcases h with h | h
  · rw [iff_true_left h]
    cases h with
    | longComment long =>
      obtain ⟨body, rfl, -⟩ := id long
      rw [looksClosedComment_dashes, misjudged_comment_iff, long.getLast?, bracketLevel?_opener]
      exact iff_of_true rfl fun hopen => hopen.1.elim fun _ => long.not_isOpenLong
  · rw [iff_false_left h.not_terminated, not_not]
    cases h with
    | longComment long =>
      obtain ⟨body, rfl, -⟩ := id long
      rw [looksClosedComment_dashes, misjudged_comment_iff, bracketLevel?_opener, Option.isSome_some,
        Bool.true_and, beq_iff_eq]
      exact (and_iff_right ⟨_, long⟩).symm
    | @lineComment cs short =>
      have hlevel : bracketLevel? cs = none :=
        Option.eq_none_iff_forall_ne_some.2 fun level hlevel => short level (opener_of_bracketLevel? hlevel)
      rw [looksClosedComment_dashes, misjudged_comment_iff, hlevel]
      refine iff_of_false (by simp) ?_
      rintro ⟨⟨level, body, rfl, -⟩, -⟩
      exact short level (List.prefix_append _ _)

/-! ## Positions -/

theorem mem_locate {t : Token} {offset : Nat} {ps : List Piece} (h : t ∈ locate offset ps) :
    .lexeme t.lexeme ∈ ps := by
  fun_induction locate offset ps with
  | case1 => cases h
  | case2 offset c ps ih => exact List.mem_cons_of_mem _ (ih h)
  | case3 offset l ps ih =>
    rcases List.mem_cons.1 h with rfl | h
    · exact List.mem_cons_self
    · exact List.mem_cons_of_mem _ (ih h)

theorem mem_pieces {l : Lexeme} (h : .lexeme l ∈ pieces cs) :
    ∃ c tail n, lexemeLength? (c :: tail) = some (l.kind, n) ∧ l.text = c :: tail.take (n - 1) := by
  fun_induction pieces cs with
  | case1 => cases h
  | case2 c cs _ ih => exact ih (by simpa using h)
  | case3 c cs kind n hlength ih =>
    rcases List.mem_cons.1 h with heq | h
    · obtain rfl := Piece.lexeme.inj heq
      exact ⟨c, cs, n, hlength, rfl⟩
    · exact ih h

/-- A position is in the text of a string or comment: within it or, if that is not terminated, behind it. -/
def Token.Covers (t : Token) (offset : Nat) : Prop :=
  (t.kind = .string ∨ t.kind = .comment) ∧ t.start < offset ∧
    (offset < t.stop ∨ (offset = t.stop ∧ ¬ Terminated t.kind t.text))

/-- A token holds the positions that it covers, but for the one behind it if it is misjudged. -/
theorem holds_iff {t : Token} (h : t ∈ tokenize cs) (offset : Nat) :
    t.holds offset = true ↔ (t.Covers offset ↔ ¬ (offset = t.stop ∧ Misjudged t.kind t.text)) := by
  obtain ⟨c, tail, n, hlength, htext⟩ := mem_pieces (mem_locate h)
  by_cases hkind : t.kind = .string ∨ t.kind = .comment
  · have hend : Terminated t.kind t.text ∨ Unterminated t.kind t.text := by
      rw [Token.text, htext]
      exact terminated_or_unterminated hlength hkind
    have hnonempty : t.start < t.stop := by
      have := c.utf8Size_pos
      rw [Token.stop, Token.text, htext, size]
      omega
    obtain ⟨closed, hholds, hclosed⟩ : ∃ closed : Bool,
        t.holds offset = (decide (t.start < offset) &&
          (decide (offset < t.stop) || (offset == t.stop && !closed))) ∧
        (closed = true ↔ (Terminated t.kind t.text ↔ ¬ Misjudged t.kind t.text)) := by
      unfold Token.holds
      rcases hkind with hkind | hkind <;> rw [hkind] at hend ⊢
      · exact ⟨_, rfl, looksClosedString_iff hend⟩
      · exact ⟨_, rfl, looksClosedComment_iff hend⟩
    rw [hholds]
    unfold Token.Covers
    rcases Nat.lt_trichotomy offset t.stop with hlt | rfl | hgt
    · simp [hkind, hlt, Nat.ne_of_lt hlt]
    · have hopen : closed = false ↔ (¬ Terminated t.kind t.text ↔ ¬ Misjudged t.kind t.text) := by
        rw [← Classical.not_iff, ← hclosed, Bool.not_eq_true]
      simp [hkind, hnonempty, hopen]
    · simp [Nat.not_lt.2 (Nat.le_of_lt hgt), Nat.ne_of_gt hgt]
  · have hother : ¬ Misjudged t.kind t.text := by
      intro hjudged
      generalize t.kind = kind at hjudged hkind
      generalize t.text = text at hjudged
      cases hjudged <;> simp at hkind
    have hnone : t.holds offset = false := by
      unfold Token.holds
      cases hk : t.kind <;> simp_all
    simp [hnone, hother, Token.Covers, hkind]

/-- A position is taken for code unless a token covers it; behind a misjudged token it is the other way. -/
theorem isCodePosition_iff {offset : Nat} (h : offset ≤ size cs) :
    isCodePosition cs offset = false ↔
      ∃ t ∈ tokenize cs, (t.Covers offset ↔ ¬ (offset = t.stop ∧ Misjudged t.kind t.text)) := by
  rw [isCodePosition, Nat.min_eq_left h, Bool.not_eq_false', List.any_eq_true]
  exact exists_congr fun t => and_congr_right fun ht => holds_iff ht offset

/-- Behind a string of one escaped backslash there is code, which is not seen; at the end of a long string that
is not closed there is none, which is not seen either. -/
theorem isCodePosition_misjudged :
    (isCodePosition ['"', '\\', '\\', '"'] 4 = false ∧
      ¬ ∃ t ∈ tokenize ['"', '\\', '\\', '"'], t.Covers 4) ∧
    isCodePosition ['[', '[', ']'] 3 = true ∧ ∃ t ∈ tokenize ['[', '[', ']'], t.Covers 3 := by
  have hquoted : tokenize ['"', '\\', '\\', '"'] = [⟨0, .string, ['"', '\\', '\\', '"']⟩] := by
    simp [tokenize, pieces, locate, lexemeLength?, isAsciiBlank, isAscii, quotedLength]
  have hlong : tokenize ['[', '[', ']'] = [⟨0, .string, ['[', '[', ']']⟩] := by
    simp [tokenize, pieces, locate, lexemeLength?, isAsciiBlank, isAscii, bracketLevel?, longLength, closer]
  have hclosed : Terminated .string ['"', '\\', '\\', '"'] :=
    @Terminated.quoted '"' ['\\', '\\'] (.inl rfl) (.escape '\\' .nil)
  have hopen : Unterminated .string ['[', '[', ']'] := @Unterminated.longString 0 _ ⟨[']'], rfl, by decide⟩
  rw [isCodePosition, isCodePosition, hquoted, hlong]
  refine ⟨⟨by decide, ?_⟩, by decide, ?_⟩
  · rintro ⟨t, ht, -, -, hstop⟩
    obtain rfl := List.mem_singleton.1 ht
    rcases hstop with hlt | ⟨-, hnot⟩
    · exact absurd hlt (by decide)
    · exact hnot hclosed
  · exact ⟨_, List.mem_singleton_self _, .inl rfl, by decide, .inr ⟨rfl, hopen.not_terminated⟩⟩

/-- The end of a text. -/
theorem isCodePosition_iff_at_end :
    4 ≤ size ['"', '\\', '\\', '"'] ∧
      (isCodePosition ['"', '\\', '\\', '"'] 4 = false ↔ ∃ t ∈ tokenize ['"', '\\', '\\', '"'],
        (t.Covers 4 ↔ ¬ (4 = t.stop ∧ Misjudged t.kind t.text))) :=
  ⟨by decide, isCodePosition_iff (by decide)⟩

end Scriptorium.Editor
