import Mathlib.Data.List.Basic
import Scriptorium.Proofs.Text.Lines
import Scriptorium.Proofs.Text.Trim

/-!
# Lines one by one

The first line of a text is cut off at its line end (`lines_append_lineFeed`), and a text that is cut where a line begins
has the lines of its two parts (`lines_append`). What holds of a line, and of a line before a text of which it holds,
holds of every text (`line_induction`). `firstLine` and `below` are the text up to its first line end and behind it.
-/

namespace Scriptorium.Text

variable {line cs : List Char} {c : Char}

theorem rawLines_append_lineFeed (h : '\n' ∉ line) (cs : List Char) :
    rawLines (line ++ '\n' :: cs) = line :: rawLines cs := by
  unfold rawLines
  rw [splitOn_append, splitOn_of_not_mem h, List.singleton_append, List.reverse_cons]
  obtain ⟨parts, hsplit, -⟩ := splitOn_eq_cons '\n' cs
  have hne : (splitOn '\n' cs).reverse ≠ [] := by simp [hsplit]
  rcases hcut : (splitOn '\n' cs).reverse with _ | ⟨last, front⟩
  · exact absurd hcut hne
  · cases last <;> simp

theorem getLast?_append_cons (h : cs ≠ []) : (line ++ c :: cs).getLast? = cs.getLast? := by
  rw [← List.singleton_append, ← List.append_assoc, List.getLast?_append_of_ne_nil _ h]

@[simp] theorem lines_nil : lines [] = [] := rfl

theorem lines_of_not_mem (h : '\n' ∉ line) (hne : line ≠ []) : lines line = [line] := by
  have hlast : line.getLast? ≠ some '\n' := fun hlast => h (List.mem_of_getLast? hlast)
  unfold lines
  rw [rawLines_eq_splitOn hne hlast, splitOn_of_not_mem h]
  dsimp only
  split
  · next heq => exact absurd heq hlast
  · rfl

theorem lines_append_lineFeed (h : '\n' ∉ line) (cs : List Char) :
    lines (line ++ '\n' :: cs) = dropFinalCR line :: lines cs := by
  rcases List.eq_nil_or_concat' cs with rfl | ⟨front, last, rfl⟩
  · have hlast : (line ++ ['\n']).getLast? = some '\n' := List.getLast?_concat
    unfold lines
    rw [rawLines_append_lineFeed h, hlast]
    rfl
  · have hlast : (front ++ [last]).getLast? = some last := List.getLast?_concat
    unfold lines
    rw [rawLines_append_lineFeed h, getLast?_append_cons (by simp), hlast]
    dsimp only
    split
    · rfl
    · next hne =>
      have hcut : rawLines (front ++ [last]) ≠ [] := by
        rw [rawLines_eq_splitOn (by simp) (by rw [hlast]; exact hne)]
        obtain ⟨parts, hsplit, -⟩ := splitOn_eq_cons '\n' (front ++ [last])
        simp [hsplit]
      obtain ⟨lastLine, others, hreverse⟩ := List.exists_cons_of_ne_nil (mt List.reverse_eq_nil_iff.1 hcut)
      rw [List.reverse_cons, hreverse]
      simp

/-- Lines that are joined are cut again, except for an empty line at the end, which is none behind the line end before
it. -/
theorem lines_join {parts : List (List Char)} (h : ∀ part ∈ parts, '\n' ∉ part ∧ dropFinalCR part = part) :
    lines (join ['\n'] parts) = if parts.getLast? = some [] then parts.dropLast else parts := by
  induction parts with
  | nil => rfl
  | cons first parts ih =>
    obtain ⟨hfirst, hreturn⟩ := h first List.mem_cons_self
    by_cases hparts : parts = []
    · subst hparts
      by_cases hempty : first = []
      · subst hempty
        rfl
      · rw [join, lines_of_not_mem hfirst hempty, if_neg (by simpa using hempty)]
    · obtain ⟨next, rest, rfl⟩ := List.exists_cons_of_ne_nil hparts
      rw [join_cons _ _ hparts, lines_append_lineFeed hfirst, hreturn,
        ih fun part hpart => h part (List.mem_cons_of_mem first hpart), List.getLast?_cons_cons]
      split <;> rfl

/-! ## Texts line by line -/

/-- A text is one line without a line end, or begins with a line and its end. -/
theorem exists_line (cs : List Char) :
    '\n' ∉ cs ∨ ∃ line rest, '\n' ∉ line ∧ cs = line ++ '\n' :: rest := by
  by_cases h : '\n' ∈ cs
  · obtain ⟨line, rest, rfl, hline⟩ := List.eq_append_cons_of_mem h
    exact .inr ⟨line, rest, hline, rfl⟩
  · exact .inl h

theorem lines_eq_nil_iff : lines cs = [] ↔ cs = [] := by
  refine ⟨fun h => ?_, fun h => h ▸ rfl⟩
  rcases exists_line cs with hline | ⟨line, rest, hline, rfl⟩
  · by_contra hne
    rw [lines_of_not_mem hline hne] at h
    cases h
  · rw [lines_append_lineFeed hline] at h
    cases h

theorem line_induction {P : List Char → Prop} (hlast : ∀ line, '\n' ∉ line → P line)
    (hline : ∀ line rest, '\n' ∉ line → P rest → P (line ++ '\n' :: rest)) (cs : List Char) : P cs := by
  induction hn : cs.length using Nat.strong_induction_on generalizing cs with
  | _ n ih =>
    rcases exists_line cs with h | ⟨line, rest, h, rfl⟩
    · exact hlast cs h
    · refine hline line rest h (ih rest.length ?_ rest rfl)
      simp only [List.length_append, List.length_cons] at hn
      omega

/-- After the text a line begins. -/
def EndsLine (cs : List Char) : Prop := cs = [] ∨ cs.getLast? = some '\n'

theorem lines_append (h : EndsLine cs) (rest : List Char) : lines (cs ++ rest) = lines cs ++ lines rest := by
  induction cs using line_induction with
  | hlast line hline =>
    rcases h with rfl | h
    · rfl
    · exact absurd (List.mem_of_getLast? h) hline
  | hline line cs hline ih =>
    have hcs : EndsLine cs := by
      rcases h with h | h
      · simp at h
      · rcases List.eq_nil_or_concat' cs with rfl | ⟨front, last, rfl⟩
        · exact .inl rfl
        · exact .inr (by rwa [getLast?_append_cons (by simp)] at h)
    rw [List.append_assoc, List.cons_append, lines_append_lineFeed hline, lines_append_lineFeed hline, ih hcs,
      List.cons_append]

/-- A text that does not end its last line is such a text with that line after it. -/
theorem exists_lastLine (h : ¬ EndsLine cs) :
    ∃ front line, EndsLine front ∧ '\n' ∉ line ∧ line ≠ [] ∧ cs = front ++ line := by
  induction cs using line_induction with
  | hlast line hline => exact ⟨[], line, .inl rfl, hline, fun hnil => h (.inl hnil), rfl⟩
  | hline first cs hfirst ih =>
    obtain ⟨front, line, hfront, hline, hne, rfl⟩ := ih fun hcs => h (.inr (by
      rcases hcs with rfl | hcs
      · simp
      · simp [List.getLast?_cons, hcs]))
    refine ⟨first ++ '\n' :: front, line, .inr ?_, hline, hne, by simp⟩
    rcases hfront with rfl | hfront
    · simp
    · simp [List.getLast?_cons, hfront]

/-! ## The first line -/

/-- The first line of a text, without its line end. -/
def firstLine (cs : List Char) : List Char := cs.takeWhile (· != '\n')

/-- The lines below the first one. -/
def below (cs : List Char) : List Char := (cs.dropWhile (· != '\n')).tail

theorem firstLine_append (h : '\n' ∉ line) (cs : List Char) : firstLine (line ++ cs) = line ++ firstLine cs :=
  List.takeWhile_append_of_pos fun _ hc => bne_iff_ne.2 fun heq => h (heq ▸ hc)

theorem below_append (h : '\n' ∉ line) (cs : List Char) : below (line ++ cs) = below cs :=
  congrArg List.tail (List.dropWhile_append_of_pos fun _ hc => bne_iff_ne.2 fun heq => h (heq ▸ hc))

theorem firstLine_of_not_mem (h : '\n' ∉ line) : firstLine line = line := by
  have hfirst := firstLine_append h []
  rwa [List.append_nil, show firstLine [] = [] from rfl, List.append_nil] at hfirst

theorem below_of_not_mem (h : '\n' ∉ line) : below line = [] := by
  have hbelow := below_append h []
  rwa [List.append_nil] at hbelow

theorem firstLine_append_lineFeed (h : '\n' ∉ line) (cs : List Char) : firstLine (line ++ '\n' :: cs) = line := by
  rw [firstLine_append h, show firstLine ('\n' :: cs) = [] from rfl, List.append_nil]

theorem below_append_lineFeed (h : '\n' ∉ line) (cs : List Char) : below (line ++ '\n' :: cs) = cs :=
  below_append h ('\n' :: cs)

theorem isBlankText_firstLine (hc : isBlank c = false) (cs : List Char) :
    isBlankText (firstLine (c :: cs)) = false := by
  have hline : (c != '\n') = true := bne_iff_ne.2 fun heq => by rw [heq] at hc; cases hc
  rw [firstLine, List.takeWhile_cons, if_pos hline]
  exact isBlankText_of_mem List.mem_cons_self hc

theorem trimEnd_dropFinalCR (line : List Char) : trimEnd (dropFinalCR line) = trimEnd line := by
  unfold dropFinalCR
  split
  · next hlast =>
    obtain ⟨front, rfl⟩ := List.getLast?_eq_some_iff.1 hlast
    rw [List.dropLast_concat, trimEnd_append_of_blank rfl]
  · rfl

theorem all_isBlankText_lines (cs : List Char) : (lines cs).all isBlankText = isBlankText cs := by
  induction cs using line_induction with
  | hlast line h =>
    by_cases hne : line = []
    · rw [hne]
      rfl
    · rw [lines_of_not_mem h hne, List.all_cons, List.all_nil, Bool.and_true]
  | hline line rest h ih =>
    have hfirst : isBlankText (dropFinalCR line) = isBlankText line := by
      rw [← isBlankText_trimEnd, trimEnd_dropFinalCR, isBlankText_trimEnd]
    rw [lines_append_lineFeed h, List.all_cons, hfirst, ih, isBlankText_append]
    rfl

theorem lines_eq_cons (hne : cs ≠ []) :
    ∃ line, lines cs = line :: lines (below cs) ∧ trimEnd line = trimEnd (firstLine cs) := by
  rcases exists_line cs with h | ⟨line, rest, h, rfl⟩
  · exact ⟨cs, by rw [lines_of_not_mem h hne, below_of_not_mem h, lines_nil], by rw [firstLine_of_not_mem h]⟩
  · refine ⟨dropFinalCR line, ?_, ?_⟩
    · rw [lines_append_lineFeed h, below_append_lineFeed h]
    · rw [trimEnd_dropFinalCR, firstLine_append_lineFeed h]

end Scriptorium.Text
