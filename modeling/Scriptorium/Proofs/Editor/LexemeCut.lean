import Scriptorium.Proofs.Editor.LexemeExtent

/-!
# Lexemes and what stands behind them

A lexeme stays the same when what stands behind it is taken away or gives way to a new line (`lexemeLength?_exchange`).
The scans look ahead, but what they look for they would take, with one exception: a point is no part of a numeral before
another point, and becomes one when the two are parted.
-/

namespace Scriptorium.Editor

open Text

variable {x y z : List Char} {c : Char} {kind : LexemeKind} {n : Nat}

theorem takeWhile_cut {p : Char → Bool} (h : ((x ++ y).takeWhile p).length ≤ x.length) :
    (x ++ y).takeWhile p = x.takeWhile p := by
  rw [List.takeWhile_append] at h ⊢
  split
  · next hall =>
    rw [if_pos hall, List.length_append] at h
    have hnone : y.takeWhile p = [] := List.eq_nil_of_length_eq_zero (by omega)
    rw [hnone, List.append_nil]
    exact ((List.takeWhile_prefix p).eq_of_length hall).symm
  · rfl

/-! ## Strings and comments -/

theorem bracketLevel?_cut {level : Nat} (h : bracketLevel? (x ++ y) = some level) (hx : level + 2 ≤ x.length) :
    bracketLevel? x = some level := by
  have hopener : opener level <+: x :=
    List.prefix_of_prefix_length_le (opener_of_bracketLevel? h) (List.prefix_append x y) (by rwa [length_opener])
  obtain ⟨body, rfl⟩ := hopener
  exact bracketLevel?_opener level body

/-- A cut opens no long bracket. -/
theorem bracketLevel?_cut_none (h : bracketLevel? (x ++ y) = none) : bracketLevel? x = none := by
  rw [Option.eq_none_iff_forall_ne_some]
  intro level hlevel
  obtain ⟨body, rfl⟩ := opener_of_bracketLevel? hlevel
  rw [List.append_assoc, bracketLevel?_opener] at h
  cases h

/-- A string that ends before a cut ends there too when its line does. -/
theorem quotedLength_exchange {quote : Char} (hz : EndsLine z) (hopen : y = [] → z = []) :
    ∀ {x : List Char}, quotedLength quote (x ++ y) ≤ x.length →
      quotedLength quote (x ++ z) = quotedLength quote (x ++ y)
  | [], h => by
    simp only [List.nil_append] at h ⊢
    rw [Nat.le_zero.1 h]
    rcases hz.cases with rfl | ⟨tail, rfl⟩ <;> rfl
  | c :: x, h => by
    by_cases hc : c = '\\'
    · subst hc
      cases x with
      | nil =>
        cases y with
        | nil => rw [hopen rfl]
        | cons d y =>
          -- the backslash takes the first character behind the cut
          simp only [List.singleton_append, quotedLength, List.length_singleton] at h
          omega
      | cons d x =>
        simp only [List.cons_append, quotedLength, List.length_cons] at h ⊢
        rw [quotedLength_exchange hz hopen (by omega)]
    · simp only [List.cons_append, quotedLength_cons quote hc, List.length_cons] at h ⊢
      split
      · rfl
      · split
        · rfl
        · next hline hquote =>
          rw [if_neg hline, if_neg hquote] at h
          rw [quotedLength_exchange hz hopen (by omega)]

theorem longLength_exchange {level : Nat} (hz : EndsLine z) (hopen : y = [] → z = [])
    (h : longLength level (x ++ y) ≤ x.length) : longLength level (x ++ z) = longLength level (x ++ y) := by
  induction x with
  | nil =>
    cases y with
    | nil => rw [hopen rfl]
    | cons d y =>
      rw [List.nil_append, longLength] at h
      split at h <;> simp at h
  | cons c x ih =>
    have hlength : (closer level).length = level + 2 := by simp [closer]
    have hcut : (closer level).isPrefixOf (c :: (x ++ z)) = (closer level).isPrefixOf (c :: x) :=
      closer_isPrefixOf_append hz level (c :: x)
    rw [List.cons_append, longLength, List.length_cons] at h
    rw [List.cons_append, List.cons_append, longLength, longLength, hcut]
    split at h
    · next hfront =>
      have hfront' : closer level <+: c :: x :=
        List.prefix_of_prefix_length_le (List.isPrefixOf_iff_prefix.1 hfront) (List.prefix_append (c :: x) y)
          (by rw [hlength, List.length_cons]; exact h)
      rw [if_pos hfront, if_pos (List.isPrefixOf_iff_prefix.2 hfront')]
    · next hfront =>
      have hfront' : ¬ closer level <+: c :: x := fun h =>
        hfront (List.isPrefixOf_iff_prefix.2 (h.trans (List.prefix_append (c :: x) y)))
      rw [if_neg hfront, if_neg (mt List.isPrefixOf_iff_prefix.1 hfront'), ih (by omega)]

theorem longLength_drop_exchange {level k : Nat} (hz : EndsLine z) (hopen : y = [] → z = []) (hk : k ≤ x.length)
    (h : k + longLength level ((x ++ y).drop k) ≤ x.length) :
    longLength level ((x ++ z).drop k) = longLength level ((x ++ y).drop k) := by
  rw [List.drop_append_of_le_length hk] at h ⊢
  rw [List.drop_append_of_le_length hk]
  exact longLength_exchange hz hopen (by rw [List.length_drop]; omega)

theorem commentLength_exchange (hz : EndsLine z) (hopen : y = [] → z = [])
    (h : commentLength ('-' :: '-' :: (x ++ y)) ≤ x.length + 2) :
    commentLength ('-' :: '-' :: (x ++ z)) = commentLength ('-' :: '-' :: (x ++ y)) := by
  simp only [commentLength, List.drop_succ_cons, List.drop_zero] at h ⊢
  rw [bracketLevel?_append hz]
  cases hlevel : bracketLevel? (x ++ y) with
  | none =>
    rw [hlevel] at h
    rw [bracketLevel?_cut_none hlevel]
    have hline := takeWhile_append_endsLine (p := (· != '\n')) rfl hz ('-' :: '-' :: x)
    have hcut := takeWhile_cut (x := '-' :: '-' :: x) h
    exact congrArg List.length (hline.trans hcut.symm)
  | some level =>
    rw [hlevel] at h
    dsimp only at h ⊢
    rw [bracketLevel?_cut hlevel (by omega)]
    dsimp only
    rw [longLength_drop_exchange hz hopen (by omega) (by omega)]

/-! ## Numerals -/

theorem numeralLength_cons (hex : Bool) (c : Char) (cs : List Char) :
    numeralLength hex (c :: cs) =
      if isExponentMark hex c then
        if cs.head? = some '+' ∨ cs.head? = some '-' then 2 + numeralLength hex cs.tail
        else 1 + numeralLength hex cs
      else if (hex && isHexDigit c) || c.isDigit || (c == '.' && cs.head? != some '.') then
        1 + numeralLength hex cs
      else 0 := by
  cases cs with
  | nil => by_cases hmark : isExponentMark hex c = true <;> simp [numeralLength, hmark]
  | cons d cs => by_cases hmark : isExponentMark hex c = true <;> simp [numeralLength, hmark]

theorem head?_append_of_head? {d : Char} (h : x.head? = some d) : (x ++ y).head? = some d := by
  rw [List.head?_append, h]
  rfl

/-- The cut parts two points, of which the first is the character at `n`. -/
def PartsPoints (x y : List Char) (n : Nat) : Prop :=
  ∃ front, x = front ++ ['.'] ∧ n = front.length ∧ y.head? = some '.'

theorem PartsPoints.cons (h : PartsPoints x y n) (c : Char) : PartsPoints (c :: x) y (1 + n) := by
  obtain ⟨front, rfl, rfl, hhead⟩ := h
  exact ⟨c :: front, rfl, Nat.add_comm _ _, hhead⟩

theorem PartsPoints.cons_cons (h : PartsPoints x y n) (c d : Char) : PartsPoints (c :: d :: x) y (2 + n) := by
  have hparts := (h.cons d).cons c
  rwa [← Nat.add_assoc] at hparts

/-- A numeral is the same in the cut text unless the cut parts two points behind it. -/
theorem numeralLength_cut {hex : Bool} :
    ∀ {x : List Char}, numeralLength hex (x ++ y) ≤ x.length → ¬ PartsPoints x y (numeralLength hex (x ++ y)) →
      numeralLength hex (x ++ y) = numeralLength hex x
  | [], h, _ => by simpa [numeralLength] using h
  | c :: x, h, hpoints => by
    rw [List.cons_append, numeralLength_cons, List.length_cons] at h
    rw [List.cons_append, numeralLength_cons] at hpoints ⊢
    rw [numeralLength_cons hex c x]
    by_cases hmark : isExponentMark hex c = true
    · rw [if_pos hmark] at h hpoints ⊢
      rw [if_pos hmark]
      by_cases hsign : (x ++ y).head? = some '+' ∨ (x ++ y).head? = some '-'
      · rw [if_pos hsign] at h hpoints ⊢
        cases x with
        | nil =>
          rw [List.length_nil] at h
          omega
        | cons d x =>
          have hsign' : (d :: x).head? = some '+' ∨ (d :: x).head? = some '-' := hsign
          rw [List.cons_append, List.tail_cons] at h hpoints ⊢
          rw [List.length_cons] at h
          rw [if_pos hsign', List.tail_cons,
            numeralLength_cut (by omega) fun hparts => hpoints (hparts.cons_cons c d)]
      · rw [if_neg hsign] at h hpoints ⊢
        have hplain : ¬ (x.head? = some '+' ∨ x.head? = some '-') :=
          fun h => hsign (h.imp head?_append_of_head? head?_append_of_head?)
        rw [if_neg hplain, numeralLength_cut (by omega) fun hparts => hpoints (hparts.cons c)]
    · rw [if_neg hmark] at h hpoints ⊢
      rw [if_neg hmark]
      by_cases hclass : ((hex && isHexDigit c) || c.isDigit || (c == '.' && (x ++ y).head? != some '.')) = true
      · have hclass' : ((hex && isHexDigit c) || c.isDigit || (c == '.' && x.head? != some '.')) = true := by
          simp only [Bool.or_eq_true, Bool.and_eq_true, bne_iff_ne] at hclass ⊢
          exact hclass.imp_right fun hpoint => ⟨hpoint.1, mt head?_append_of_head? hpoint.2⟩
        rw [if_pos hclass] at h hpoints ⊢
        rw [if_pos hclass', numeralLength_cut (by omega) fun hparts => hpoints (hparts.cons c)]
      · rw [if_neg hclass] at hpoints ⊢
        rw [if_neg]
        intro hclass'
        simp only [Bool.or_eq_true, Bool.and_eq_true, beq_iff_eq, bne_iff_ne, not_or, not_and, not_not]
          at hclass hclass'
        obtain ⟨hdigit, hpoint⟩ := hclass
        -- only a point that another point follows can be taken for a part of the numeral
        obtain ⟨rfl, hnext⟩ := hclass'.resolve_left fun h => h.elim (fun h => hdigit.1 h.1 h.2) hdigit.2
        cases x with
        | nil => exact hpoints ⟨[], rfl, rfl, hpoint rfl⟩
        | cons d x => exact hnext (hpoint rfl)

theorem numberLength_cut (h : numberLength (x ++ y) ≤ x.length) (hpoints : ¬ PartsPoints x y (numberLength (x ++ y))) :
    numberLength (x ++ y) = numberLength x := by
  by_cases hhex : ∃ mark tail, x ++ y = '0' :: mark :: tail ∧ (mark = 'x' ∨ mark = 'X')
  · obtain ⟨mark, tail, heq, hmark⟩ := hhex
    rw [heq, numberLength, if_pos hmark] at h hpoints
    rw [heq, numberLength, if_pos hmark]
    -- the two characters of the prefix stand before the cut
    rcases List.append_eq_cons_iff.1 heq with ⟨rfl, -⟩ | ⟨front, rfl, htail⟩
    · simp at h
    rcases List.cons_eq_append_iff.1 htail with ⟨rfl, -⟩ | ⟨x, rfl, rfl⟩
    · rw [List.length_singleton] at h
      omega
    rw [List.length_cons, List.length_cons] at h
    rw [numberLength, if_pos hmark, numeralLength_cut (by omega) fun hparts => hpoints (hparts.cons_cons '0' mark)]
  · have hplain {cs : List Char} (hcs : cs <+: x ++ y) : numberLength cs = numeralLength false cs := by
      unfold numberLength
      split
      · next mark tail =>
        obtain ⟨rest, hrest⟩ := hcs
        exact if_neg fun hmark => hhex ⟨mark, tail ++ rest, hrest.symm, hmark⟩
      · rfl
    rw [hplain (List.prefix_refl _)] at h hpoints ⊢
    rw [hplain (List.prefix_append x y), numeralLength_cut h hpoints]

/-- A point in front of a digit begins a numeral that takes the digit too. -/
theorem two_le_numberLength_point {d : Char} (hd : d.isDigit = true) (cs : List Char) :
    2 ≤ numberLength ('.' :: d :: cs) := by
  have hpoint : ∀ x ∈ (d :: cs).head?, x ≠ '.' := by
    rintro x hx rfl
    obtain rfl := Option.some.inj hx
    exact absurd hd (by decide)
  rw [numberLength, numeralLength_point hpoint, numeralLength_digit (isBaseDigit_of_isDigit hd)]
  · omega
  · rintro x cs heq
    exact absurd (List.cons.inj heq).1 (by decide)

theorem startsNumber_cut (h : startsNumber (c :: (x ++ y)) = true → numberLength (c :: (x ++ y)) ≤ x.length + 1) :
    startsNumber (c :: (x ++ y)) = startsNumber (c :: x) := by
  cases x with
  | cons d x => rfl
  | nil =>
    cases y with
    | nil => rfl
    | cons d y =>
      by_cases hpoint : c = '.' ∧ d.isDigit = true
      · obtain ⟨rfl, hdigit⟩ := hpoint
        have hlong := two_le_numberLength_point hdigit y
        have hshort := h (by simp [startsNumber, hdigit])
        rw [List.nil_append, List.length_nil] at hshort
        omega
      · simp only [startsNumber, List.nil_append, List.head?_cons, List.head?_nil, Option.any_some, Option.any_none]
        rw [not_and, Bool.not_eq_true] at hpoint
        by_cases hc : c = '.'
        · rw [hpoint hc]
        · rw [beq_false_of_ne hc, Bool.false_and, Bool.false_and]

/-! ## Symbols -/

theorem symbolLength_cut (h : symbolLength (x ++ y) ≤ x.length) : symbolLength (x ++ y) = symbolLength x := by
  unfold symbolLength at h ⊢
  cases hop : longSymbols.find? (·.isPrefixOf (x ++ y)) with
  | none =>
    rw [List.find?_eq_none] at hop
    rw [List.find?_eq_none.2 fun op hmem hfits => hop op hmem <|
      List.isPrefixOf_iff_prefix.2 ((List.isPrefixOf_iff_prefix.1 hfits).trans (List.prefix_append x y))]
  | some op =>
    rw [hop] at h
    obtain ⟨hfront, before, after, hsplit, hnone⟩ := List.find?_eq_some_iff_append.1 hop
    have hfront' : op <+: x :=
      List.prefix_of_prefix_length_le (List.isPrefixOf_iff_prefix.1 hfront) (List.prefix_append x y) h
    have hop' : longSymbols.find? (·.isPrefixOf x) = some op := by
      refine List.find?_eq_some_iff_append.2 ⟨List.isPrefixOf_iff_prefix.2 hfront', before, after, hsplit, ?_⟩
      intro other hother
      have hbefore := hnone other hother
      rw [Bool.not_eq_true', ← Bool.not_eq_true, List.isPrefixOf_iff_prefix] at hbefore ⊢
      exact fun hfits => hbefore (hfits.trans (List.prefix_append x y))
    rw [hop']

/-! ## Lexemes -/

theorem head?_of_head?_append {d : Char} (hz : EndsLine z) (hd : d ≠ '\n') (h : (x ++ z).head? = some d) :
    x.head? = some d := by
  cases x with
  | cons c x => exact h
  | nil =>
    rcases hz.cases with rfl | ⟨tail, rfl⟩
    · exact h
    · exact absurd (Option.some.inj h).symm hd

/-- A lexeme in front of a cut is found also where its line ends at the cut, unless the cut parts two points behind
a numeral, or a string or comment that ends with the text finds more. -/
theorem lexemeLength?_exchange (h : lexemeLength? (c :: (x ++ y)) = some (kind, n)) (hn : n ≤ x.length + 1)
    (hpoints : kind = .number → ¬ PartsPoints (c :: x) y n) (hz : EndsLine z)
    (hopen : kind = .string ∨ kind = .comment → y = [] → z = []) : lexemeLength? (c :: (x ++ z)) = some (kind, n) := by
  rw [lexemeLength?] at h ⊢
  split at h
  · cases h
  next hplain =>
  rw [if_neg hplain]
  split at h
  · next hdashes =>
    obtain ⟨rfl, hsecond⟩ := hdashes
    obtain ⟨rfl, rfl⟩ := Prod.mk.inj (Option.some.inj h)
    obtain ⟨tail, htail⟩ := List.head?_eq_some_iff.1 hsecond
    rcases List.append_eq_cons_iff.1 htail with ⟨rfl, -⟩ | ⟨x, rfl, rfl⟩
    · have := (commentLength_bounds tail).1
      rw [htail, List.length_nil] at hn
      omega
    · rw [if_pos ⟨rfl, rfl⟩, List.cons_append, List.cons_append,
        commentLength_exchange hz (hopen (.inr rfl)) (by simpa using hn)]
  next hdashes =>
  rw [if_neg fun hx => hdashes ⟨hx.1, head?_append_of_head? (head?_of_head?_append hz (by decide) hx.2)⟩]
  split at h
  · next hquote =>
    obtain ⟨rfl, rfl⟩ := Prod.mk.inj (Option.some.inj h)
    rw [if_pos hquote, quotedLength_exchange hz (hopen (.inl rfl)) (by omega)]
  next hquote =>
  rw [if_neg hquote]
  have hbracket : bracketLevel? (c :: (x ++ z)) = bracketLevel? (c :: x) := bracketLevel?_append hz (c :: x)
  rw [hbracket]
  cases hlevel : bracketLevel? (c :: (x ++ y)) with
  | some level =>
    rw [hlevel] at h
    obtain ⟨rfl, rfl⟩ := Prod.mk.inj (Option.some.inj h)
    have hcut : bracketLevel? (c :: x) = some level :=
      bracketLevel?_cut (y := y) hlevel (by rw [List.length_cons]; omega)
    rw [hcut]
    dsimp only
    rw [longLength_drop_exchange hz (hopen (.inl rfl)) (by omega) (by omega)]
  | none =>
    rw [hlevel] at h
    rw [bracketLevel?_cut_none (x := c :: x) hlevel, startsNumber_append hz, numberLength_append hz]
    dsimp only at h ⊢
    have hstart : startsNumber (c :: (x ++ y)) = startsNumber (c :: x) := by
      refine startsNumber_cut fun hnumber => ?_
      rw [if_pos hnumber] at h
      rwa [(Prod.mk.inj (Option.some.inj h)).2]
    rw [hstart] at h
    split at h
    · next hnumber =>
      obtain ⟨rfl, rfl⟩ := Prod.mk.inj (Option.some.inj h)
      have hcut : numberLength (c :: (x ++ y)) = numberLength (c :: x) :=
        numberLength_cut (x := c :: x) hn (hpoints rfl)
      rw [if_pos hnumber, hcut]
    next hnumber =>
    rw [if_neg hnumber]
    split at h
    · next hname =>
      obtain ⟨rfl, rfl⟩ := Prod.mk.inj (Option.some.inj h)
      have hcut : (c :: (x ++ y)).takeWhile isNameChar = (c :: x).takeWhile isNameChar := takeWhile_cut (x := c :: x) hn
      have hword : (c :: (x ++ z)).takeWhile isNameChar = (c :: x).takeWhile isNameChar :=
        takeWhile_append_endsLine rfl hz (c :: x)
      rw [if_pos hname, hcut, hword]
    · next hname =>
      obtain ⟨rfl, rfl⟩ := Prod.mk.inj (Option.some.inj h)
      have hcut : symbolLength (c :: (x ++ y)) = symbolLength (c :: x) := symbolLength_cut (x := c :: x) hn
      have hsymbol : symbolLength (c :: (x ++ z)) = symbolLength (c :: x) := symbolLength_append hz (c :: x)
      rw [if_neg hname, hcut, hsymbol]

/-- A lexeme in front of a cut is found in the cut text too, unless the cut parts two points behind a numeral. -/
theorem lexemeLength?_cut (h : lexemeLength? (c :: (x ++ y)) = some (kind, n)) (hn : n ≤ x.length + 1)
    (hpoints : kind = .number → ¬ PartsPoints (c :: x) y n) : lexemeLength? (c :: x) = some (kind, n) := by
  have hcut := lexemeLength?_exchange h hn hpoints endsLine_nil fun _ _ => rfl
  rwa [List.append_nil] at hcut

/-- A lexeme that ends before a LF is found there whatever stands behind the LF. -/
theorem lexemeLength?_lineFeed {s : List Char} (h : lexemeLength? (c :: (x ++ '\n' :: s)) = some (kind, n))
    (hn : n ≤ x.length + 1) (rest : List Char) : lexemeLength? (c :: (x ++ '\n' :: rest)) = some (kind, n) := by
  refine lexemeLength?_exchange h hn ?_ (endsLine_lineFeed rest) fun _ hnil => absurd hnil (List.cons_ne_nil _ _)
  rintro - ⟨front, -, -, hhead⟩
  exact absurd (Option.some.inj hhead) (by decide)

end Scriptorium.Editor
