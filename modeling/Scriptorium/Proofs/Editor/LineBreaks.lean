import Scriptorium.Proofs.Editor.CodePosition
import Scriptorium.Proofs.Editor.LexemeCut
import Scriptorium.Proofs.Text.Boundary

/-!
# Line feeds between lexemes

Where a line begins in code, the lexemes before it and those behind it have nothing to do with each other: up to
that line every text is cut alike, whatever stands from there on (`pieces_lineBreak`). Lines that are nothing but
complete comments can be put before any text without a change to its code (`OnlyComments.codeLexemes_append`), and
other lines can not: a single letter behind them tells (`onlyComments_of_letter`).
-/

namespace Scriptorium.Editor

open Text

variable {cs rest s x : List Char} {c : Char} {kind : LexemeKind} {n : Nat}

/-! ## Texts cut behind a line feed -/

/-- A string or comment that ends with a LF looks open. -/
theorem looksClosed_lineFeed (c : Char) (cs : List Char) :
    looksClosedString (c :: (cs ++ ['\n'])) = false ∧ looksClosedComment (c :: (cs ++ ['\n'])) = false := by
  have hlast : (c :: (cs ++ ['\n'])).getLast? = some '\n' := by
    rw [← List.cons_append, List.getLast?_concat]
  constructor
  · by_cases hquote : c = '"' ∨ c = '\''
    · have hc : ('\n' == c) = false := by rcases hquote with rfl | rfl <;> rfl
      rw [looksClosedString_quote hquote, hc, Bool.false_and]
    · have hplain : (c == '"' || c == '\'') = false := by simpa using hquote
      rw [looksClosedString, if_neg (by simp [hplain]), hlast]
      rfl
  · rw [looksClosedComment, hlast]
    exact Bool.and_false _

/-- A token over the end of a line holds the place where the next line begins. -/
theorem holds_lineBreak (h : lexemeLength? (c :: (x ++ '\n' :: s)) = some (kind, n)) (hn : x.length + 1 < n)
    (offset : Nat) :
    Token.holds ⟨offset, kind, c :: (x ++ '\n' :: s).take (n - 1)⟩ (offset + size (c :: x) + 1) = true := by
  obtain ⟨k, rfl⟩ : ∃ k, n = x.length + 1 + (k + 1) := ⟨n - (x.length + 2), by omega⟩
  have htext : (x ++ '\n' :: s).take (x.length + 1 + (k + 1) - 1) = x ++ '\n' :: s.take k := by
    rw [show x.length + 1 + (k + 1) - 1 = x.length + (k + 1) by omega, List.take_length_add_append,
      List.take_succ_cons]
  have hstop : Token.stop ⟨offset, kind, c :: (x ++ '\n' :: s.take k)⟩ =
      offset + size (c :: x) + 1 + size (s.take k) := by
    have hfeed : ('\n' : Char).utf8Size = 1 := rfl
    simp only [Token.stop, Token.text, size, size_append, hfeed]
    omega
  have hkind : kind = .string ∨ kind = .comment := by
    by_contra hkind
    have := length_le_of_lexemeLength? h hkind
    omega
  have hstart : offset < offset + size (c :: x) + 1 := by omega
  rw [htext]
  unfold Token.holds
  rw [hstop]
  generalize offset + size (c :: x) + 1 = place at hstart ⊢
  cases hs : s.take k with
  | nil =>
    obtain ⟨hstring, hcomment⟩ := looksClosed_lineFeed c x
    rcases hkind with rfl | rfl <;> simp [Token.kind, Token.text, hstring, hcomment, hstart]
  | cons d tail =>
    have hinside : 0 < size (d :: tail) := Nat.lt_of_lt_of_le d.utf8Size_pos (Nat.le_add_right _ _)
    rcases hkind with rfl | rfl <;> simp [Token.kind, hstart, hinside, -size_cons]

/-- A lexeme that ends before a LF is cut off, and the LF still comes. -/
theorem pieces_lexeme_lineFeed (h : lexemeLength? (c :: (x ++ '\n' :: s)) = some (kind, n))
    (hn : n ≤ x.length + 1) (rest : List Char) :
    pieces (c :: (x ++ '\n' :: rest)) =
      .lexeme ⟨kind, c :: x.take (n - 1)⟩ :: pieces (x.drop (n - 1) ++ '\n' :: rest) := by
  rw [pieces, lexemeLength?_lineFeed h hn rest]
  dsimp only
  rw [List.take_append_of_le_length (by omega), List.drop_append_of_le_length (by omega)]

/-- Where no token goes over the end of a line, the text up to there is cut alike whatever stands behind. -/
theorem exists_pieces_append (s : List Char) :
    ∀ (x : List Char) (offset : Nat),
      (∀ t ∈ locate offset (pieces (x ++ '\n' :: s)), t.holds (offset + size x + 1) = false) →
        ∃ ps, ∀ rest, pieces (x ++ '\n' :: rest) = ps ++ pieces rest
  | [], _, _ => ⟨[.gap '\n'], pieces_lineFeed⟩
  | c :: x, offset, h => by
    rw [List.cons_append] at h
    cases hlength : lexemeLength? (c :: (x ++ '\n' :: s)) with
    | none =>
      rw [pieces, hlength] at h
      obtain ⟨ps, hps⟩ := exists_pieces_append s x (offset + c.utf8Size) fun t ht => by
        rw [Nat.add_assoc offset]
        exact h t ht
      refine ⟨.gap c :: ps, fun rest => ?_⟩
      rw [List.cons_append, pieces, lexemeLength?_eq_none_iff.2 (lexemeLength?_eq_none_iff.1 hlength)]
      dsimp only
      rw [hps, List.cons_append]
    | some found =>
      obtain ⟨kind, n⟩ := found
      by_cases hn : n ≤ x.length + 1
      · have hcut := pieces_lexeme_lineFeed hlength hn
        rw [hcut, locate] at h
        obtain ⟨ps, hps⟩ := exists_pieces_append s (x.drop (n - 1))
          (offset + size (c :: x.take (n - 1))) fun t ht => by
            rw [size_cons_take_drop]
            exact h t (List.mem_cons_of_mem _ ht)
        exact ⟨.lexeme ⟨kind, c :: x.take (n - 1)⟩ :: ps, fun rest => by
          rw [List.cons_append, hcut, hps, List.cons_append]⟩
      · have hholds := holds_lineBreak hlength (by omega) offset
        rw [pieces, hlength] at h
        rw [h _ List.mem_cons_self] at hholds
        cases hholds
  termination_by x => x.length
  decreasing_by all_goals (simp only [List.length_cons, List.length_drop]; omega)

/-- The parts of a text in front of a line that begins in code do not depend on what stands from there on. -/
theorem pieces_lineBreak (h : isCodePosition (x ++ '\n' :: s) (size x + 1) = true) :
    ∃ ps, ∀ rest, pieces (x ++ '\n' :: rest) = ps ++ pieces rest := by
  have hmin : min (size x + 1) (size (x ++ '\n' :: s)) = size x + 1 := by
    have hfeed : ('\n' : Char).utf8Size = 1 := rfl
    rw [size_append, size, hfeed]
    omega
  rw [isCodePosition, hmin, Bool.not_eq_true', List.any_eq_false] at h
  refine exists_pieces_append s x 0 fun t ht => ?_
  rw [Nat.zero_add]
  exact Bool.not_eq_true _ ▸ h t ht

/-! ## The code of a text -/

/-- The lexeme of a piece, unless it is a comment. -/
def Piece.code? : Piece → Option Lexeme
  | .gap _ => none
  | .lexeme l => if l.kind = .comment then none else some l

theorem map_locate_filter (offset : Nat) (ps : List Piece) :
    ((locate offset ps).map Token.lexeme).filter (·.kind != .comment) = ps.filterMap Piece.code? := by
  fun_induction locate offset ps with
  | case1 => rfl
  | case2 offset c ps ih => exact ih
  | case3 offset l ps ih =>
    by_cases hl : l.kind = .comment <;> simp [Piece.code?, hl, ih]

theorem codeLexemes_eq (cs : List Char) : codeLexemes cs = (pieces cs).filterMap Piece.code? :=
  map_locate_filter 0 (pieces cs)

@[simp] theorem codeLexemes_nil : codeLexemes [] = [] := by
  rw [codeLexemes_eq, pieces]
  rfl

theorem codeLexemes_gap (h : lexemeLength? (c :: cs) = none) : codeLexemes (c :: cs) = codeLexemes cs := by
  rw [codeLexemes_eq, codeLexemes_eq, pieces, h]
  rfl

theorem codeLexemes_cons (h : lexemeLength? (c :: cs) = some (kind, n)) :
    codeLexemes (c :: cs) =
      (Piece.code? (.lexeme ⟨kind, c :: cs.take (n - 1)⟩)).toList ++ codeLexemes (cs.drop (n - 1)) := by
  rw [codeLexemes_eq, codeLexemes_eq, pieces, h]
  dsimp only
  rw [List.filterMap_cons]
  split <;> simp_all

/-- The code of a text whose first lexeme ends before a LF. -/
theorem codeLexemes_lexeme_lineFeed (h : lexemeLength? (c :: (x ++ '\n' :: s)) = some (kind, n))
    (hn : n ≤ x.length + 1) (rest : List Char) :
    codeLexemes (c :: (x ++ '\n' :: rest)) =
      (Piece.code? (.lexeme ⟨kind, c :: x.take (n - 1)⟩)).toList ++ codeLexemes (x.drop (n - 1) ++ '\n' :: rest) := by
  rw [codeLexemes_cons (lexemeLength?_lineFeed h hn rest), List.take_append_of_le_length (by omega),
    List.drop_append_of_le_length (by omega)]

theorem codeLexemes_ne_nil (h : lexemeLength? (c :: cs) = some (kind, n)) (hkind : kind ≠ .comment) :
    codeLexemes (c :: cs) ≠ [] := by
  rw [codeLexemes_cons h]
  simp [Piece.code?, hkind]

/-- The code in front of a line that begins in code is there whatever stands from there on. -/
theorem codeLexemes_lineBreak (h : isCodePosition (x ++ '\n' :: s) (size x + 1) = true) :
    ∃ ls, ∀ rest, codeLexemes (x ++ '\n' :: rest) = ls ++ codeLexemes rest := by
  obtain ⟨ps, hps⟩ := pieces_lineBreak h
  exact ⟨ps.filterMap Piece.code?, fun rest => by
    rw [codeLexemes_eq, codeLexemes_eq, hps, List.filterMap_append]⟩

/-! ## Nothing but comments -/

/-- A text without code, at whose end no comment is open. -/
def OnlyComments (cs : List Char) : Prop := codeLexemes cs = [] ∧ isCodePosition cs (size cs) = true

/-- A long bracket that is not closed before the end of a line takes a letter behind it too. -/
theorem longLength_open {level : Nat} (h : x.length < longLength level (x ++ ['\n'])) :
    longLength level (x ++ ['\n', 'x']) = x.length + 2 := by
  induction x with
  | nil => simp [longLength, closer]
  | cons c x ih =>
    have hsame (s : List Char) := closer_isPrefixOf_append (endsLine_lineFeed s) level (c :: x)
    simp only [List.cons_append] at hsame
    simp only [List.cons_append, longLength, hsame, List.length_cons] at h ⊢
    split
    · next hfront =>
      have hle := (List.isPrefixOf_iff_prefix.1 hfront).length_le
      rw [if_pos hfront] at h
      simp only [closer, List.length_cons, List.length_append, List.length_replicate, List.length_nil] at hle
      omega
    · next hfront =>
      rw [if_neg hfront] at h
      rw [ih (by omega)]
      omega

/-- A comment that is not over where its line ends takes a letter behind it too. -/
theorem lexemeLength?_open (h : lexemeLength? (c :: (x ++ ['\n'])) = some (.comment, n))
    (hn : x.length + 1 < n) : lexemeLength? (c :: (x ++ ['\n', 'x'])) = some (.comment, x.length + 3) := by
  obtain ⟨tail, rfl, htail, rfl⟩ := comment_of_lexemeLength? h
  obtain ⟨x, rfl⟩ : ∃ y, x = '-' :: y := by
    cases x with
    | nil => exact absurd (List.cons.inj htail).1 (by decide)
    | cons d y => exact ⟨y, by rw [(List.cons.inj htail).1]⟩
  obtain rfl : x ++ ['\n'] = tail := (List.cons.inj htail).2
  have hline : lineLength ('-' :: '-' :: (x ++ ['\n'])) ≤ x.length + 2 := by
    unfold lineLength
    rw [← List.cons_append, ← List.cons_append, takeWhile_append_endsLine (by decide) (endsLine_lineFeed [])]
    exact (List.takeWhile_prefix _).length_le
  rw [List.cons_append, lexemeLength?_comment]
  simp only [commentLength, List.drop_succ_cons, List.drop_zero, bracketLevel?_append (endsLine_lineFeed _),
    List.length_cons] at hn ⊢
  cases hlevel : bracketLevel? x with
  | none =>
    rw [hlevel] at hn
    dsimp only at hn
    omega
  | some level =>
    have hle := length_le_of_bracketLevel? hlevel
    rw [hlevel] at hn
    dsimp only at hn ⊢
    rw [List.drop_append_of_le_length hle] at hn ⊢
    rw [longLength_open (by rw [List.length_drop]; omega), List.length_drop]
    congr 2
    omega

theorem Token.le_stop_of_holds {t : Token} {place : Nat} (h : t.holds place = true) : place ≤ t.stop := by
  have judged {closed : Bool} (h : (decide (place < t.stop) || (place == t.stop && !closed)) = true) :
      place ≤ t.stop := by
    rcases Bool.or_eq_true_iff.1 h with hlt | hstop
    · exact Nat.le_of_lt (of_decide_eq_true hlt)
    · exact Nat.le_of_eq (eq_of_beq (Bool.and_eq_true_iff.1 hstop).1)
  obtain ⟨-, h⟩ := Bool.and_eq_true_iff.1 h
  split at h
  · exact judged h
  · exact judged h
  · cases h

/-- If at the end of a text of lines without code a token is not over, then it is a comment that takes a letter
behind the text too. -/
theorem codeLexemes_open :
    ∀ (x : List Char) (offset : Nat) {t : Token}, codeLexemes (x ++ ['\n']) = [] →
      t ∈ locate offset (pieces (x ++ ['\n'])) → t.holds (offset + size x + 1) = true →
        codeLexemes (x ++ ['\n', 'x']) = []
  | [], _, _, _, ht, _ => by
    rw [List.nil_append, pieces_lineFeed, pieces] at ht
    cases ht
  | c :: x, offset, _, hcode, ht, hholds => by
    rw [List.cons_append] at hcode ht ⊢
    cases hlength : lexemeLength? (c :: (x ++ ['\n'])) with
    | none =>
      have hgap : lexemeLength? (c :: (x ++ ['\n', 'x'])) = none :=
        lexemeLength?_eq_none_iff.2 (lexemeLength?_eq_none_iff.1 hlength)
      rw [codeLexemes_gap hlength] at hcode
      rw [pieces, hlength] at ht
      rw [codeLexemes_gap hgap]
      refine codeLexemes_open x (offset + c.utf8Size) hcode ht ?_
      rwa [Nat.add_assoc offset]
    | some found =>
      obtain ⟨kind, n⟩ := found
      by_cases hn : n ≤ x.length + 1
      · have hcut := pieces_lexeme_lineFeed hlength hn
        rw [hcut, locate] at ht
        have hcode' := codeLexemes_lexeme_lineFeed hlength hn
        rw [hcode', List.append_eq_nil_iff] at hcode
        rw [hcode', hcode.1, List.nil_append]
        rw [← size_cons_take_drop c x (n - 1)] at hholds
        rcases List.mem_cons.1 ht with rfl | ht
        · -- the lexeme is over before the LF
          have := Token.le_stop_of_holds hholds
          simp only [Token.stop, Token.text] at this
          omega
        · exact codeLexemes_open (x.drop (n - 1)) (offset + size (c :: x.take (n - 1))) hcode.2 ht hholds
      · rw [codeLexemes_cons hlength, List.append_eq_nil_iff] at hcode
        obtain rfl : kind = .comment := by
          by_contra hkind
          simp [Piece.code?, hkind] at hcode
        have hopen := lexemeLength?_open hlength (by omega)
        have hnil : (x ++ ['\n', 'x']).drop (x.length + 3 - 1) = [] := List.drop_eq_nil_of_le (by simp)
        rw [codeLexemes_cons hopen, hnil, codeLexemes_nil]
        rfl
  termination_by x => x.length
  decreasing_by all_goals (simp only [List.length_cons, List.length_drop]; omega)

theorem onlyComments_nil : OnlyComments [] := by
  refine ⟨codeLexemes_nil, ?_⟩
  rw [isCodePosition, tokenize, pieces]
  rfl

/-- Lines of complete comments can be put before any text without a change to its code. -/
theorem OnlyComments.codeLexemes_append (h : OnlyComments (x ++ ['\n'])) (rest : List Char) :
    codeLexemes (x ++ '\n' :: rest) = codeLexemes rest := by
  obtain ⟨hcode, hend⟩ := h
  have hsize : size (x ++ ['\n']) = size x + 1 := size_append x ['\n']
  rw [hsize] at hend
  obtain ⟨ls, hls⟩ := codeLexemes_lineBreak hend
  obtain rfl : ls = [] := by simpa [hcode] using (hls []).symm
  exact hls rest

/-- Lines that change nothing before no text and before a letter are lines of complete comments. -/
theorem onlyComments_of_letter (hnone : codeLexemes (x ++ ['\n']) = [])
    (hletter : codeLexemes (x ++ ['\n', 'x']) = codeLexemes ['x']) : OnlyComments (x ++ ['\n']) := by
  refine ⟨hnone, ?_⟩
  by_contra hend
  rw [isCodePosition, Nat.min_self, Bool.not_eq_true, Bool.not_eq_false', List.any_eq_true] at hend
  obtain ⟨t, ht, hholds⟩ := hend
  have hsize : size (x ++ ['\n']) = size x + 1 := size_append x ['\n']
  have hopen : codeLexemes (x ++ ['\n', 'x']) = [] :=
    codeLexemes_open x 0 hnone ht (by rwa [Nat.zero_add, ← hsize])
  have hname : lexemeLength? ['x'] = some (.name, 1) := by decide
  rw [hopen, codeLexemes_cons hname] at hletter
  exact absurd hletter (by simp [Piece.code?])

/-! ## Comments of one line -/

/-- Of the blanks, only a vertical tab is a lexeme. -/
theorem isGap_of_isBlank {c : Char} (h : isBlank c = true) (htab : c ≠ '\x0b') :
    (isAsciiBlank c || !isAscii c) = true := by
  by_cases hascii : c.toNat < 128
  · have hcode : c.toNat ∈ [9, 10, 11, 12, 13, 32] := by
      simp only [isBlank, Bool.or_eq_true, Bool.and_eq_true, decide_eq_true_eq, beq_iff_eq] at h
      simp only [List.mem_cons, List.not_mem_nil, or_false]
      omega
    have hc : Char.ofNat c.toNat = c := Char.ofNat_toNat c
    simp only [List.mem_cons, List.not_mem_nil, or_false] at hcode
    rcases hcode with h | h | h | h | h | h <;> rw [h] at hc <;> subst hc
    · rfl
    · rfl
    · exact absurd rfl htab
    · rfl
    · rfl
    · rfl
  · simp [isAscii, hascii]

theorem codeLexemes_gaps {gaps : List Char} (h : ∀ c ∈ gaps, (isAsciiBlank c || !isAscii c) = true)
    (cs : List Char) : codeLexemes (gaps ++ cs) = codeLexemes cs := by
  induction gaps with
  | nil => rfl
  | cons c gaps ih =>
    rw [List.cons_append, codeLexemes_gap (lexemeLength?_eq_none_iff.2 (h c List.mem_cons_self)),
      ih fun c hc => h c (List.mem_cons_of_mem _ hc)]

theorem codeLexemes_lineComment (hline : '\n' ∉ cs) (hshort : ∀ level, ¬ opener level <+: cs)
    (rest : List Char) : codeLexemes ('-' :: '-' :: (cs ++ '\n' :: rest)) = codeLexemes rest := by
  have hcomment : Spelled .comment ('-' :: '-' :: cs) := .lineComment hline hshort
  have hpieces := pieces_lexeme hcomment (endsLine_lineFeed rest)
  rw [List.cons_append, List.cons_append, pieces_lineFeed] at hpieces
  rw [codeLexemes_eq, codeLexemes_eq, hpieces]
  rfl

end Scriptorium.Editor
