import Scriptorium.Proofs.Editor.TokenSequence

/-!
# How far lexemes reach

Most lexemes end with their line at the latest, and then what stands behind the line does not matter. Only strings
and comments can go on (`length_le_of_lexemeLength?`). No lexeme is empty, and none reaches over the end of the text
(`lexemeLength?_bounds`).
-/

namespace Scriptorium.Editor

open Text

variable {cs rest s x : List Char} {c : Char} {kind : LexemeKind} {n : Nat}

/-! ## What ends with its line

Of most classes a lexeme ends with its line at the latest, and what stands behind the line does not matter. -/

theorem takeWhile_append_endsLine {p : Char → Bool} (hp : p '\n' = false) (hrest : EndsLine rest)
    (cs : List Char) : (cs ++ rest).takeWhile p = cs.takeWhile p := by
  induction cs with
  | nil =>
    rcases hrest.cases with rfl | ⟨tail, rfl⟩
    · rfl
    · exact List.takeWhile_cons_of_neg (by simp [hp])
  | cons c cs ih => simp [List.takeWhile_cons, ih]

/-- A character in front of the end of its line is taken as if it were the last one. -/
theorem numeralLength_last (hrest : EndsLine rest) (hex : Bool) (c : Char) :
    numeralLength hex (c :: rest) = numeralLength hex [c] := by
  rcases hrest.cases with rfl | ⟨tail, rfl⟩
  · rfl
  · have hzero : numeralLength hex ('\n' :: tail) = 0 := numeralLength_endsLine hrest
    by_cases hmark : isExponentMark hex c = true <;> simp [numeralLength, hzero, hmark]

theorem numeralLength_append (hrest : EndsLine rest) (hex : Bool) (cs : List Char) :
    numeralLength hex (cs ++ rest) = numeralLength hex cs := by
  fun_induction numeralLength hex cs with
  | case1 => exact numeralLength_endsLine hrest
  | case2 c hlast =>
    rw [List.singleton_append, numeralLength_last hrest, numeralLength, if_pos hlast]
  | case3 c hlast =>
    rw [List.singleton_append, numeralLength_last hrest, numeralLength, if_neg hlast]
  | case4 c d cs hmark hsign ih =>
    rw [List.cons_append, List.cons_append, numeralLength, if_pos hmark, if_pos hsign, ih]
  | case5 c d cs hmark hsign ih =>
    rw [List.cons_append, List.cons_append, numeralLength, if_pos hmark, if_neg hsign, ← List.cons_append, ih]
  | case6 c d cs hmark hclass ih =>
    rw [List.cons_append, List.cons_append, numeralLength, if_neg hmark, if_pos hclass, ← List.cons_append, ih]
  | case7 c d cs hmark hclass =>
    rw [List.cons_append, List.cons_append, numeralLength, if_neg hmark, if_neg hclass]

theorem numeralLength_le (hex : Bool) (cs : List Char) : numeralLength hex cs ≤ cs.length := by
  fun_induction numeralLength hex cs <;> simp only [List.length_cons, List.length_nil] at * <;> omega

theorem bracketLevel?_append (hrest : EndsLine rest) (cs : List Char) :
    bracketLevel? (cs ++ rest) = bracketLevel? cs := by
  refine Option.ext fun level => ⟨fun h => ?_, fun h => ?_⟩
  · obtain ⟨body, rfl⟩ := prefix_of_endsLine (lineFeed_not_mem_opener level) hrest (opener_of_bracketLevel? h)
    exact bracketLevel?_opener level body
  · obtain ⟨body, rfl⟩ := opener_of_bracketLevel? h
    rw [List.append_assoc]
    exact bracketLevel?_opener level (body ++ rest)

theorem startsNumber_append (hrest : EndsLine rest) (c : Char) (cs : List Char) :
    startsNumber (c :: (cs ++ rest)) = startsNumber (c :: cs) := by
  cases cs with
  | nil =>
    rcases hrest.cases with rfl | ⟨tail, rfl⟩
    · rfl
    · simp [startsNumber]
  | cons d cs => rfl

theorem numberLength_append (hrest : EndsLine rest) (c : Char) (cs : List Char) :
    numberLength (c :: (cs ++ rest)) = numberLength (c :: cs) := by
  cases cs with
  | nil =>
    rw [List.nil_append, numberLength_eq (hrest.head (by decide)), numberLength_eq (by simp)]
    exact numeralLength_append hrest false [c]
  | cons d cs =>
    have hlong := numeralLength_append hrest true cs
    have hshort := numeralLength_append hrest false (c :: d :: cs)
    rw [List.cons_append, List.cons_append] at hshort
    rw [List.cons_append]
    by_cases hc : c = '0'
    · subst hc
      simp only [numberLength, hlong, hshort]
    · have hother (cs : List Char) : numberLength (c :: cs) = numeralLength false (c :: cs) := by
        unfold numberLength
        split
        next heq => exact absurd (List.cons.inj heq).1 hc
        next => rfl
      rw [hother, hother, hshort]

theorem numberLength_le (c : Char) (cs : List Char) : numberLength (c :: cs) ≤ cs.length + 1 := by
  unfold numberLength
  split
  next x tail heq =>
    obtain ⟨rfl, rfl⟩ := List.cons.inj heq
    have hlong := numeralLength_le true tail
    have hshort := numeralLength_le false ('0' :: x :: tail)
    simp only [List.length_cons] at hshort ⊢
    split <;> omega
  next => exact numeralLength_le false (c :: cs)

theorem symbolLength_le (c : Char) (cs : List Char) : symbolLength (c :: cs) ≤ cs.length + 1 := by
  unfold symbolLength
  split
  next op hop =>
    have hprefix : op <+: c :: cs := List.isPrefixOf_iff_prefix.1 (by simpa using List.find?_some hop)
    exact hprefix.length_le
  next => exact Nat.le_add_left 1 cs.length

theorem lineFeed_not_mem_closer (level : Nat) : '\n' ∉ closer level := by
  simp [closer, List.mem_replicate]

/-- A closing bracket does not go over the end of a line. -/
theorem closer_isPrefixOf_append (hrest : EndsLine rest) (level : Nat) (cs : List Char) :
    (closer level).isPrefixOf (cs ++ rest) = (closer level).isPrefixOf cs := by
  rw [Bool.eq_iff_iff, List.isPrefixOf_iff_prefix, List.isPrefixOf_iff_prefix]
  exact ⟨prefix_of_endsLine (lineFeed_not_mem_closer level) hrest, fun h => h.trans (List.prefix_append cs rest)⟩

/-! ## Lexemes -/

theorem lexemeLength?_eq_none_iff :
    lexemeLength? (c :: cs) = none ↔ (isAsciiBlank c || !isAscii c) = true := by
  rw [lexemeLength?]
  constructor
  · intro h
    by_contra hc
    rw [if_neg hc] at h
    split at h
    · cases h
    split at h
    · cases h
    split at h
    · cases h
    split at h
    · cases h
    split at h <;> cases h
  · intro h
    rw [if_pos h]

/-- An opening bracket in front of the end of a line stands before it. -/
theorem length_le_of_bracketLevel? {level : Nat} (h : bracketLevel? cs = some level) : level + 2 ≤ cs.length := by
  rw [← length_opener level]
  exact (opener_of_bracketLevel? h).length_le

/-- What a lexeme is, how it begins, and how long it is. -/
theorem lexemeLength?_cases (h : lexemeLength? (c :: cs) = some (kind, n)) :
    (∃ tail, c = '-' ∧ cs = '-' :: tail ∧ kind = .comment ∧ n = commentLength ('-' :: '-' :: tail)) ∨
    (kind = .string ∧ (c = '"' ∨ c = '\'') ∧ n = 1 + quotedLength c cs) ∨
    (∃ level, kind = .string ∧ bracketLevel? (c :: cs) = some level ∧
      n = level + 2 + longLength level (cs.drop (level + 1))) ∨
    (kind = .number ∧ startsNumber (c :: cs) = true ∧ n = numberLength (c :: cs)) ∨
    (kind = wordKind ((c :: cs).takeWhile isNameChar) ∧ isNameStart c = true ∧
      n = ((c :: cs).takeWhile isNameChar).length) ∨
    (kind = .symbol ∧ n = symbolLength (c :: cs)) := by
  rw [lexemeLength?] at h
  split at h
  · cases h
  split at h
  · next hdashes =>
    obtain ⟨rfl, hhead⟩ := hdashes
    obtain ⟨tail, rfl⟩ := List.head?_eq_some_iff.1 hhead
    obtain ⟨rfl, rfl⟩ := Prod.mk.inj (Option.some.inj h)
    exact .inl ⟨tail, rfl, rfl, rfl, rfl⟩
  split at h
  · next hquote =>
    obtain ⟨rfl, rfl⟩ := Prod.mk.inj (Option.some.inj h)
    exact .inr (.inl ⟨rfl, hquote, rfl⟩)
  split at h
  · next level hlevel =>
    obtain ⟨rfl, rfl⟩ := Prod.mk.inj (Option.some.inj h)
    exact .inr (.inr (.inl ⟨level, rfl, hlevel, rfl⟩))
  split at h
  · next hnumber =>
    obtain ⟨rfl, rfl⟩ := Prod.mk.inj (Option.some.inj h)
    exact .inr (.inr (.inr (.inl ⟨rfl, hnumber, rfl⟩)))
  split at h
  · next hname =>
    obtain ⟨rfl, rfl⟩ := Prod.mk.inj (Option.some.inj h)
    exact .inr (.inr (.inr (.inr (.inl ⟨rfl, hname, rfl⟩))))
  · obtain ⟨rfl, rfl⟩ := Prod.mk.inj (Option.some.inj h)
    exact .inr (.inr (.inr (.inr (.inr ⟨rfl, rfl⟩))))

/-- Only strings and comments go on behind a LF. -/
theorem length_le_of_lexemeLength? (h : lexemeLength? (c :: (x ++ '\n' :: s)) = some (kind, n))
    (hkind : ¬ (kind = .string ∨ kind = .comment)) : n ≤ x.length + 1 := by
  have hrest := endsLine_lineFeed s
  rcases lexemeLength?_cases h with ⟨tail, -, -, hcomment, -⟩ | ⟨hstring, -⟩ | ⟨level, hstring, -⟩ |
    ⟨-, -, rfl⟩ | ⟨-, -, rfl⟩ | ⟨-, rfl⟩
  · exact absurd (.inr hcomment) hkind
  · exact absurd (.inl hstring) hkind
  · exact absurd (.inl hstring) hkind
  · rw [numberLength_append hrest]
    exact numberLength_le c x
  · rw [← List.cons_append, takeWhile_append_endsLine (by decide) hrest]
    exact (List.takeWhile_prefix isNameChar).length_le
  · rw [← List.cons_append, symbolLength_append hrest]
    exact symbolLength_le c x

theorem wordKind_ne_comment (word : List Char) : wordKind word ≠ .comment := by
  unfold wordKind
  split <;> decide

theorem comment_of_lexemeLength? (h : lexemeLength? (c :: cs) = some (.comment, n)) :
    ∃ tail, c = '-' ∧ cs = '-' :: tail ∧ n = commentLength ('-' :: '-' :: tail) := by
  rcases lexemeLength?_cases h with ⟨tail, hc, hcs, -, hn⟩ | ⟨hother, -⟩ | ⟨level, hother, -⟩ | ⟨hother, -⟩ |
    ⟨hother, -⟩ | ⟨hother, -⟩
  · exact ⟨tail, hc, hcs, hn⟩
  · cases hother
  · cases hother
  · cases hother
  · exact absurd hother.symm (wordKind_ne_comment _)
  · cases hother

/-! ## Within the text -/

theorem quotedLength_le (quote : Char) (cs : List Char) : quotedLength quote cs ≤ cs.length := by
  fun_induction quotedLength quote cs <;> simp only [List.length_cons, List.length_nil] at * <;> omega

theorem longLength_le (level : Nat) (cs : List Char) : longLength level cs ≤ cs.length := by
  induction cs with
  | nil => exact Nat.le_refl 0
  | cons c cs ih =>
    rw [longLength, List.length_cons]
    split
    · next hfront =>
      have hle := (List.isPrefixOf_iff_prefix.1 hfront).length_le
      simp only [closer, List.length_cons, List.length_append, List.length_replicate, List.length_nil] at hle
      omega
    · omega

theorem commentLength_bounds (cs : List Char) :
    2 ≤ commentLength ('-' :: '-' :: cs) ∧ commentLength ('-' :: '-' :: cs) ≤ cs.length + 2 := by
  simp only [commentLength, List.drop_succ_cons, List.drop_zero]
  cases hlevel : bracketLevel? cs with
  | none =>
    have hline : lineLength ('-' :: '-' :: cs) = lineLength cs + 2 := by simp [lineLength]
    have hle : lineLength cs ≤ cs.length := (List.takeWhile_prefix _).length_le
    dsimp only
    omega
  | some level =>
    have hopen := length_le_of_bracketLevel? hlevel
    have hle := longLength_le level (cs.drop (level + 2))
    rw [List.length_drop] at hle
    dsimp only
    omega

theorem numeralLength_pos {hex : Bool} (h : startsNumber (c :: cs) = true) : 1 ≤ numeralLength hex (c :: cs) := by
  simp only [startsNumber, Bool.or_eq_true, Bool.and_eq_true, beq_iff_eq] at h
  rcases h with hdigit | ⟨rfl, hnext⟩
  · rw [numeralLength_digit (isBaseDigit_of_isDigit hdigit)]
    omega
  · rw [numeralLength_point]
    · omega
    · rintro d hd rfl
      rw [Option.mem_def.1 hd] at hnext
      exact absurd hnext (by decide)

theorem numberLength_pos (h : startsNumber (c :: cs) = true) : 1 ≤ numberLength (c :: cs) := by
  unfold numberLength
  split
  next x tail heq =>
    rw [heq] at h
    split
    · omega
    · exact numeralLength_pos h
  next => exact numeralLength_pos h

theorem symbolLength_pos (cs : List Char) : 1 ≤ symbolLength cs := by
  unfold symbolLength
  split
  next op hop =>
    have := (length_of_mem_longSymbols (List.mem_of_find?_eq_some hop)).1
    omega
  next => exact Nat.le_refl 1

/-- Every scan goes on by a character at least and stays within the text. -/
theorem lexemeLength?_bounds (h : lexemeLength? (c :: cs) = some (kind, n)) : 1 ≤ n ∧ n ≤ cs.length + 1 := by
  rcases lexemeLength?_cases h with ⟨tail, rfl, rfl, -, rfl⟩ | ⟨-, -, rfl⟩ | ⟨level, -, hlevel, rfl⟩ |
    ⟨-, hnumber, rfl⟩ | ⟨-, hname, rfl⟩ | ⟨-, rfl⟩
  · have hbounds := commentLength_bounds tail
    rw [List.length_cons]
    omega
  · have hle := quotedLength_le c cs
    omega
  · have hopen := length_le_of_bracketLevel? hlevel
    have hle := longLength_le level (cs.drop (level + 1))
    rw [List.length_drop] at hle
    rw [List.length_cons] at hopen
    omega
  · exact ⟨numberLength_pos hnumber, numberLength_le c cs⟩
  · refine ⟨?_, (List.takeWhile_prefix isNameChar).length_le⟩
    rw [List.takeWhile_cons_of_pos (isNameChar_of_isNameStart hname), List.length_cons]
    omega
  · exact ⟨symbolLength_pos _, symbolLength_le c cs⟩

end Scriptorium.Editor
