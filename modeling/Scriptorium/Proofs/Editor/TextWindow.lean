import Scriptorium.Proofs.Editor.LexemeFront

/-!
# Reading a part of a text

A reader that sees only a window of the text in front of a position finds there what a reader of the whole text finds,
if both are in step somewhere in the window (`InStep`): the name before the position is the same
(`InStep.names`), and so are strings and comments, except where what stands behind the position is needed to
tell (`InStep.code_iff`).
-/

namespace Scriptorium.Editor

open Text

variable {x y z before window behind : List Char} {c : Char} {k place : Nat} {t : Token}

/-! ## Names behind a mark -/

/-- A word does not reach over a character that is not of a name. -/
theorem lastWord_append_mark (hc : isNameChar c = false) (x y : List Char) : lastWord (x ++ c :: y) = lastWord y := by
  unfold lastWord List.rtakeWhile
  rw [List.reverse_append, List.reverse_cons, List.append_assoc, List.singleton_append, takeWhile_append_mark hc]

/-- Nor does a name with its qualifier, if the character does not part the two. -/
theorem typedName_append_mark (hc : isNameChar c = false) (hsep : Registry.isSeparator c = false) (x y : List Char) :
    typedName (x ++ c :: y) = typedName (c :: y) := by
  have hword := lastWord_append_mark hc x y
  have hword' : lastWord (c :: y) = lastWord y := lastWord_append_mark hc [] y
  have hreverse (x : List Char) :
      (x ++ c :: y).reverse.dropWhile isNameChar = y.reverse.dropWhile isNameChar ++ c :: x.reverse := by
    rw [List.reverse_append, List.reverse_cons, List.append_assoc, List.singleton_append, dropWhile_append_mark hc]
  have hshort := hreverse []
  rw [List.nil_append] at hshort
  unfold typedName
  rw [hreverse, hshort, hword, hword']
  cases y.reverse.dropWhile isNameChar with
  | nil => simp [hsep]
  | cons d rest =>
    simp only [List.cons_append, takeWhile_append_mark hc]

/-- Behind a character that is of no name and parts none, no name has been typed. -/
theorem names_of_mark (hlast : x.getLast? = some c) (hc : isNameChar c = false)
    (hsep : Registry.isSeparator c = false) :
    lastWord x = [] ∧ typedName x = [] := by
  obtain ⟨front, rfl⟩ := List.getLast?_eq_some_iff.1 hlast
  rw [lastWord_append_mark hc, typedName_append_mark hc hsep]
  simp [typedName, hc, hsep, lastWord, List.rtakeWhile]

/-! ## Reading from within a text -/

@[simp] theorem Token.shift_start (t : Token) (k : Nat) : (t.shift k).start = t.start + k := rfl

@[simp] theorem Token.shift_kind (t : Token) (k : Nat) : (t.shift k).kind = t.kind := rfl

@[simp] theorem Token.shift_text (t : Token) (k : Nat) : (t.shift k).text = t.text := rfl

theorem Token.shift_stop (t : Token) (k : Nat) : (t.shift k).stop = t.stop + k := by
  simp only [Token.stop, Token.shift_start, Token.shift_text]
  omega

theorem Token.shift_holds (t : Token) (k place : Nat) : (t.shift k).holds (k + place) = t.holds place := by
  have hstart : decide ((t.shift k).start < k + place) = decide (t.start < place) :=
    decide_eq_decide.2 (by rw [Token.shift_start]; omega)
  have hlt : decide (k + place < (t.shift k).stop) = decide (place < t.stop) :=
    decide_eq_decide.2 (by rw [Token.shift_stop]; omega)
  have hstop : (k + place == (t.shift k).stop) = (place == t.stop) := by
    rw [Bool.eq_iff_iff, beq_iff_eq, beq_iff_eq, Token.shift_stop]
    omega
  unfold Token.holds
  rw [hstart, hlt, hstop, Token.shift_kind, Token.shift_text]

theorem Token.shift_looksOver (t : Token) (k place : Nat) : (t.shift k).LooksOver (k + place) ↔ t.LooksOver place := by
  have hplace (front : List Char) : (t.shift k).CutBehind (k + place) front ↔ t.CutBehind place front := by
    constructor
    · rintro ⟨htext, hplace⟩
      exact ⟨htext, by rw [Token.shift_start] at hplace; omega⟩
    · rintro ⟨htext, hplace⟩
      exact ⟨htext, by rw [Token.shift_start]; omega⟩
  unfold Token.LooksOver
  simp only [hplace, Token.shift_kind]

/-- Behind a place that no token goes over, what a position is in does not depend on what stands before the place. -/
theorem exists_holds_behind (h : ∀ t ∈ tokenize (z ++ (x ++ y)), ¬ (t.start < size z ∧ size z < t.stop)) (hx : x ≠ []) :
    (∃ t ∈ tokenize (z ++ (x ++ y)), t.holds (size (z ++ x)) = true ∧ ¬ t.LooksOver (size (z ++ x))) ↔
      ∃ t ∈ tokenize (x ++ y), t.holds (size x) = true ∧ ¬ t.LooksOver (size x) := by
  rw [tokenize_append h, size_append]
  constructor
  · rintro ⟨t, ht, hholds, hover⟩
    rcases List.mem_append.1 ht with ht | ht
    · have hpos : 0 < size x := Nat.pos_of_ne_zero (mt size_eq_zero_iff.1 hx)
      have := Token.le_stop_of_holds hholds
      have := stop_le_size ht
      omega
    · obtain ⟨s, hs, rfl⟩ := List.mem_map.1 ht
      rw [Token.shift_holds] at hholds
      rw [Token.shift_looksOver] at hover
      exact ⟨s, hs, hholds, hover⟩
  · rintro ⟨t, ht, hholds, hover⟩
    refine ⟨t.shift (size z), List.mem_append_right _ (List.mem_map_of_mem ht), ?_, ?_⟩
    · rwa [Token.shift_holds]
    · rwa [Token.shift_looksOver]

/-! ## Reading in step -/

/-- A reader of the window alone gets in step with a reader of the whole text: nothing stands before the window, or
there is a character in it, of no name and parting none, behind which both stand between tokens. -/
inductive InStep (before window behind : List Char) : Prop where
  | whole (none : before = [])
  | mark (skipped : List Char) (mark : Char) (rest : List Char) (text : window = skipped ++ mark :: rest)
      (nonempty : rest ≠ []) (not_name : isNameChar mark = false) (not_separator : Registry.isSeparator mark = false)
      (alone : ∀ t ∈ tokenize window, ¬ (t.start < size (skipped ++ [mark]) ∧ size (skipped ++ [mark]) < t.stop))
      (within : ∀ t ∈ tokenize (before ++ window ++ behind),
        ¬ (t.start < size (before ++ skipped ++ [mark]) ∧ size (before ++ skipped ++ [mark]) < t.stop))

theorem InStep.names (h : InStep before window behind) :
    lastWord window = lastWord (before ++ window) ∧ typedName window = typedName (before ++ window) := by
  cases h with
  | whole none =>
    subst none
    exact ⟨rfl, rfl⟩
  | mark skipped mark rest text _ not_name not_separator =>
    subst text
    rw [← List.append_assoc, lastWord_append_mark not_name, lastWord_append_mark not_name,
      typedName_append_mark not_name not_separator, typedName_append_mark not_name not_separator]
    exact ⟨rfl, rfl⟩

theorem InStep.code_iff (h : InStep before window behind) :
    isCodePosition window (size window) = false ↔
      ∃ t ∈ tokenize (before ++ window ++ behind),
        t.holds (size (before ++ window)) = true ∧ ¬ t.LooksOver (size (before ++ window)) := by
  cases h with
  | whole none =>
    subst none
    exact isCodePosition_front window behind
  | mark skipped mark rest text nonempty _ _ alone within =>
    have hwindow : window = skipped ++ [mark] ++ (rest ++ []) := by
      rw [text, List.append_nil, List.append_assoc, List.singleton_append]
    have htext : before ++ window ++ behind = before ++ skipped ++ [mark] ++ (rest ++ behind) := by
      rw [text]
      simp
    have hplace : size (before ++ window) = size (before ++ skipped ++ [mark] ++ rest) := by
      rw [text]
      simp
    have hsize : size window = size (skipped ++ [mark] ++ rest) := by
      rw [hwindow, List.append_nil]
    rw [hwindow] at alone
    rw [htext] at within ⊢
    rw [hplace, exists_holds_behind within nonempty, ← isCodePosition_front]
    calc isCodePosition window (size window) = false
        ↔ ∃ t ∈ tokenize (window ++ []), t.holds (size window) = true ∧ ¬ t.LooksOver (size window) :=
          isCodePosition_front window []
      _ ↔ ∃ t ∈ tokenize (rest ++ []), t.holds (size rest) = true ∧ ¬ t.LooksOver (size rest) := by
          rw [hsize, List.append_nil, hwindow]
          exact exists_holds_behind alone nonempty
      _ ↔ isCodePosition rest (size rest) = false := (isCodePosition_front rest []).symm

end Scriptorium.Editor
