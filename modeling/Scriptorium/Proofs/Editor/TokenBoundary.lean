import Scriptorium.Proofs.Editor.LexemeCut
import Scriptorium.Proofs.Editor.TokenTiling

/-!
# Texts cut between tokens

Where no token goes over a place, the tokens before it are those of the text up to there, and the tokens behind it
those of the text from there on: `tokenize_cut`. A cut is no such place only where it parts a lexeme, and a lexeme
that ends at the cut or before it is found alike in the cut text (`lexemeLength?_cut`).
-/

namespace Scriptorium.Editor

open Text

variable {cs x y : List Char} {c : Char} {kind : LexemeKind} {k n offset : Nat}

/-! ## Places of pieces -/

theorem locate_append (offset : Nat) (ps qs : List Piece) :
    locate offset (ps ++ qs) = locate offset ps ++ locate (offset + size (ps.map Piece.text).flatten) qs := by
  fun_induction locate offset ps with
  | case1 => rfl
  | case2 offset c ps ih =>
    rw [List.cons_append, locate, ih, List.map_cons, List.flatten_cons, size_append, Nat.add_assoc]
    rfl
  | case3 offset l ps ih =>
    rw [List.cons_append, locate, ih, List.map_cons, List.flatten_cons, size_append, Nat.add_assoc]
    rfl

theorem locate_add (offset k : Nat) (ps : List Piece) :
    locate (offset + k) ps = (locate offset ps).map (Token.shift k) := by
  fun_induction locate offset ps with
  | case1 => rfl
  | case2 offset c ps ih => rw [locate, Nat.add_right_comm, ih]
  | case3 offset l ps ih =>
    rw [locate, Nat.add_right_comm, ih]
    rfl

/-! ## Pieces of a cut text -/

/-- Two points begin a symbol that takes both. -/
theorem exists_lexemeLength?_points (cs : List Char) :
    ∃ n, lexemeLength? ('.' :: '.' :: cs) = some (.symbol, n) ∧ 2 ≤ n := by
  refine ⟨symbolLength ('.' :: '.' :: cs), ?_, ?_⟩
  · rw [(beginsBare_point _).lexemeLength?]
    rfl
  · have hfront : ['.', '.'].isPrefixOf ('.' :: '.' :: cs) = true := rfl
    unfold symbolLength
    split
    · next op hop => exact (length_of_mem_longSymbols (List.mem_of_find?_eq_some hop)).1
    · next hop => exact absurd hfront (List.find?_eq_none.1 hop ['.', '.'] (by decide))

/-- The cut goes through a token of the text. -/
def Parts (offset : Nat) (x y : List Char) : Prop :=
  ∃ t ∈ locate offset (pieces (x ++ y)), t.start < offset + size x ∧ offset + size x < t.stop

/-- A lexeme longer than what stands before the cut is parted by it. -/
theorem parts_of_long (h : lexemeLength? (c :: (x ++ y)) = some (kind, n)) (hn : x.length + 1 < n) :
    Parts offset (c :: x) y := by
  have hbounds := (lexemeLength?_bounds h).2
  rw [List.length_append] at hbounds
  obtain ⟨k, rfl⟩ : ∃ k, n = x.length + (k + 1) + 1 := ⟨n - x.length - 2, by omega⟩
  obtain ⟨d, y, rfl⟩ : ∃ d tail, y = d :: tail := by
    cases y with
    | nil =>
      rw [List.length_nil] at hbounds
      omega
    | cons d tail => exact ⟨d, tail, rfl⟩
  refine ⟨⟨offset, kind, c :: (x ++ d :: y).take (x.length + (k + 1))⟩, ?_, ?_, ?_⟩
  · rw [List.cons_append, pieces, h]
    exact List.mem_cons_self
  · have := c.utf8Size_pos
    simp only [size_cons]
    omega
  · have := d.utf8Size_pos
    simp only [Token.stop, Token.text, List.take_length_add_append, List.take_succ_cons, size_cons, size_append]
    omega

/-- Behind a cut between two points is the second character of a token. -/
theorem parts_points (offset : Nat) (y : List Char) : Parts offset ['.'] ('.' :: y) := by
  obtain ⟨n, hlength, hn⟩ := exists_lexemeLength?_points y
  exact parts_of_long (x := []) hlength hn

theorem Parts.gap (h : lexemeLength? (c :: (x ++ y)) = none) (hparts : Parts (offset + c.utf8Size) x y) :
    Parts offset (c :: x) y := by
  obtain ⟨t, ht, hstart, hstop⟩ := hparts
  rw [Nat.add_assoc] at hstart hstop
  refine ⟨t, ?_, hstart, hstop⟩
  rw [List.cons_append, pieces, h]
  exact ht

theorem Parts.lexeme (h : lexemeLength? (c :: (x ++ y)) = some (kind, n)) (hn : n ≤ x.length + 1)
    (hparts : Parts (offset + size (c :: x.take (n - 1))) (x.drop (n - 1)) y) : Parts offset (c :: x) y := by
  obtain ⟨t, ht, hstart, hstop⟩ := hparts
  rw [size_cons_take_drop] at hstart hstop
  refine ⟨t, ?_, hstart, hstop⟩
  rw [List.cons_append, pieces, h]
  dsimp only
  rw [List.take_append_of_le_length (by omega), List.drop_append_of_le_length (by omega)]
  exact List.mem_cons_of_mem _ ht

/-- A text has the pieces of its two parts unless a token goes over the cut. -/
theorem pieces_append (y : List Char) :
    ∀ (x : List Char) (offset : Nat), ¬ Parts offset x y → pieces (x ++ y) = pieces x ++ pieces y
  | [], _, _ => by rw [pieces, List.nil_append, List.nil_append]
  | c :: x, offset, h => by
    rw [List.cons_append]
    cases hlength : lexemeLength? (c :: (x ++ y)) with
    | none =>
      have hcut : lexemeLength? (c :: x) = none := lexemeLength?_eq_none_iff.2 (lexemeLength?_eq_none_iff.1 hlength)
      rw [pieces, pieces, hlength, hcut]
      dsimp only
      rw [pieces_append y x _ fun hparts => h (hparts.gap hlength), List.cons_append]
    | some found =>
      obtain ⟨kind, n⟩ := found
      have hn : n ≤ x.length + 1 := Nat.le_of_not_lt fun hlong => h (parts_of_long hlength hlong)
      have hcut : lexemeLength? (c :: x) = some (kind, n) := by
        refine lexemeLength?_cut hlength hn ?_
        rintro - ⟨front, hx, hfront, hhead⟩
        have hpos := (lexemeLength?_bounds hlength).1
        obtain ⟨y, rfl⟩ := List.head?_eq_some_iff.1 hhead
        have hdrop : x.drop (n - 1) = ['.'] := by
          obtain ⟨m, rfl⟩ : ∃ m, n = m + 1 := ⟨n - 1, by omega⟩
          have hbehind : (c :: x).drop (m + 1) = (front ++ ['.']).drop (m + 1) := congrArg _ hx
          rwa [List.drop_succ_cons, hfront, List.drop_left] at hbehind
        refine h (Parts.lexeme hlength hn ?_)
        rw [hdrop]
        exact parts_points _ y
      rw [pieces, pieces, hlength, hcut]
      dsimp only
      rw [List.take_append_of_le_length (by omega), List.drop_append_of_le_length (by omega),
        pieces_append y (x.drop (n - 1)) _ fun hparts => h (hparts.lexeme hlength hn), List.cons_append]
  termination_by x => x.length
  decreasing_by all_goals (simp only [List.length_cons, List.length_drop]; omega)

/-! ## Tokens of a cut text -/

theorem tokenize_append (h : ∀ t ∈ tokenize (x ++ y), ¬ (t.start < size x ∧ size x < t.stop)) :
    tokenize (x ++ y) = tokenize x ++ (tokenize y).map (Token.shift (size x)) := by
  have hpieces : pieces (x ++ y) = pieces x ++ pieces y := by
    refine pieces_append y x 0 ?_
    rintro ⟨t, ht, hcut⟩
    rw [Nat.zero_add] at hcut
    exact h t ht hcut
  rw [tokenize, hpieces, locate_append, pieces_join, locate_add]
  rfl

/-- Text behind a place where no token is open changes nothing about the tokens before it, and text before the
place only moves those behind it. -/
theorem tokenize_cut (hk : Boundary k cs) (h : ∀ t ∈ tokenize cs, ¬ (t.start < k ∧ k < t.stop)) :
    tokenize cs = tokenize (take k cs) ++ (tokenize (drop k cs)).map (Token.shift k) ∧
    (tokenize cs).filter (·.stop ≤ k) = tokenize (take k cs) ∧
    (tokenize cs).filter (k ≤ ·.start) = (tokenize (drop k cs)).map (Token.shift k) := by
  obtain ⟨x, y, rfl, rfl⟩ := hk
  rw [take_size_append, drop_size_append, tokenize_append h]
  have hbefore {t : Token} (ht : t ∈ tokenize x) : t.start < size x ∧ t.stop ≤ size x :=
    ⟨Nat.lt_of_lt_of_le (start_lt_stop ht) (stop_le_size ht), stop_le_size ht⟩
  have hbehind {t : Token} (ht : t ∈ (tokenize y).map (Token.shift (size x))) :
      size x ≤ t.start ∧ size x < t.stop := by
    obtain ⟨s, hs, rfl⟩ := List.mem_map.1 ht
    have hlt := start_lt_stop hs
    simp only [Token.shift, Token.stop, Token.text] at hlt ⊢
    omega
  refine ⟨rfl, ?_, ?_⟩
  · rw [List.filter_append, List.filter_eq_self.2, List.filter_eq_nil_iff.2, List.append_nil]
    · intro t ht hstop
      exact Nat.not_lt.2 (of_decide_eq_true hstop) (hbehind ht).2
    · exact fun t ht => decide_eq_true (hbefore ht).2
  · rw [List.filter_append, List.filter_eq_nil_iff.2, List.filter_eq_self.2, List.nil_append]
    · exact fun t ht => decide_eq_true (hbehind ht).1
    · intro t ht hstart
      exact Nat.not_lt.2 (of_decide_eq_true hstart) (hbefore ht).1

/-- The place between a numeral and two points, the first of which the numeral would take if it were the only one. -/
theorem tokenize_cut_before_points :
    Boundary 3 ['é', '1', '.', '.', '2'] ∧
    (∀ t ∈ tokenize ['é', '1', '.', '.', '2'], ¬ (t.start < 3 ∧ 3 < t.stop)) ∧
    tokenize ['é', '1', '.', '.', '2'] =
      tokenize (take 3 ['é', '1', '.', '.', '2']) ++
        (tokenize (drop 3 ['é', '1', '.', '.', '2'])).map (Token.shift 3) ∧
    (tokenize ['é', '1', '.', '.', '2']).filter (·.stop ≤ 3) = tokenize (take 3 ['é', '1', '.', '.', '2']) ∧
    (tokenize ['é', '1', '.', '.', '2']).filter (3 ≤ ·.start) =
      (tokenize (drop 3 ['é', '1', '.', '.', '2'])).map (Token.shift 3) := by
  have hboundary : Boundary 3 ['é', '1', '.', '.', '2'] := ⟨['é', '1'], ['.', '.', '2'], rfl, by decide⟩
  have htokens : tokenize ['é', '1', '.', '.', '2'] =
      [⟨2, .number, ['1']⟩, ⟨3, .symbol, ['.', '.']⟩, ⟨5, .number, ['2']⟩] := by
    have hsize : 'é'.utf8Size = 2 ∧ '1'.utf8Size = 1 ∧ '.'.utf8Size = 1 := by decide
    have hname : isNameStart '.' = false := by decide
    simp [tokenize, pieces, locate, lexemeLength?, isAsciiBlank, isAscii, bracketLevel?, startsNumber, numberLength,
      numeralLength, isExponentMark, symbolLength, longSymbols, hsize, hname]
  have hbetween : ∀ t ∈ tokenize ['é', '1', '.', '.', '2'], ¬ (t.start < 3 ∧ 3 < t.stop) := by
    rw [htokens]
    decide
  exact ⟨hboundary, hbetween, tokenize_cut hboundary hbetween⟩

end Scriptorium.Editor
