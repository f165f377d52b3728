import Mathlib.Data.List.TakeWhile
import Scriptorium.Text.Newline

/-!
# Cutting a text into lines

The parts between the separators join to the text they were cut from (`join_splitOn`), parts without a separator are
what is cut from the text they join to (`splitOn_join`), and each part is the longest run without a separator from where
it begins (`splitOn_eq_cons`). A text without CR that ends inside a line is
cut into exactly these parts (`lines_eq_splitOn`).
-/

namespace Scriptorium.Text

variable {sep : Char} {cs : List Char}

theorem splitOn_eq_cons (sep : Char) (cs : List Char) :
    ∃ parts, splitOn sep cs = cs.takeWhile (· != sep) :: parts ∧
      ∀ part ∈ parts, ∃ before after, cs = before ++ sep :: after ∧ part = after.takeWhile (· != sep) := by
  induction cs with
  | nil => exact ⟨[], rfl, by simp⟩
  | cons c cs ih =>
    obtain ⟨parts, hsplit, hparts⟩ := ih
    by_cases hc : c = sep
    · refine ⟨cs.takeWhile (· != sep) :: parts, by simp [splitOn, hsplit, hc], ?_⟩
      intro part hpart
      rcases List.mem_cons.1 hpart with rfl | hpart
      · exact ⟨[], cs, by simp [hc], rfl⟩
      · obtain ⟨before, after, rfl, rfl⟩ := hparts part hpart
        exact ⟨c :: before, after, rfl, rfl⟩
    · refine ⟨parts, by simp [splitOn, hsplit, hc], ?_⟩
      intro part hpart
      obtain ⟨before, after, rfl, rfl⟩ := hparts part hpart
      exact ⟨c :: before, after, rfl, rfl⟩

theorem splitOn_ne_nil (sep : Char) (cs : List Char) : splitOn sep cs ≠ [] := by
  cases cs with
  | nil => simp [splitOn]
  | cons c cs =>
    rw [splitOn]
    split
    · simp
    · split_ifs <;> simp

theorem splitOn_of_not_mem (h : sep ∉ cs) : splitOn sep cs = [cs] := by
  induction cs with
  | nil => rfl
  | cons c cs ih =>
    rw [List.mem_cons, not_or] at h
    rw [splitOn, ih h.2]
    simp only
    rw [if_neg (Ne.symm h.1)]

theorem splitOn_append (sep : Char) (a b : List Char) :
    splitOn sep (a ++ sep :: b) = splitOn sep a ++ splitOn sep b := by
  induction a with
  | nil =>
    obtain ⟨part, parts, hb⟩ := List.exists_cons_of_ne_nil (splitOn_ne_nil sep b)
    simp [splitOn, hb]
  | cons c a ih =>
    obtain ⟨part, parts, ha⟩ := List.exists_cons_of_ne_nil (splitOn_ne_nil sep a)
    rw [List.cons_append, splitOn, ih, splitOn, ha]
    simp only [List.cons_append]
    split_ifs <;> rfl

theorem mem_of_mem_splitOn {part : List Char} (hpart : part ∈ splitOn sep cs) {c : Char} (hc : c ∈ part) :
    c ∈ cs := by
  obtain ⟨parts, hsplit, hparts⟩ := splitOn_eq_cons sep cs
  rw [hsplit] at hpart
  rcases List.mem_cons.1 hpart with rfl | hpart
  · exact (List.takeWhile_sublist _).subset hc
  · obtain ⟨before, after, rfl, rfl⟩ := hparts part hpart
    exact List.mem_append_right before (List.mem_cons_of_mem sep ((List.takeWhile_sublist _).subset hc))

theorem not_mem_splitOn {part : List Char} (hpart : part ∈ splitOn sep cs) : sep ∉ part := by
  have hrun (cs : List Char) : sep ∉ cs.takeWhile (· != sep) := fun h => by
    simpa using List.mem_takeWhile_imp h
  obtain ⟨parts, hsplit, hparts⟩ := splitOn_eq_cons sep cs
  rw [hsplit] at hpart
  rcases List.mem_cons.1 hpart with rfl | hpart
  · exact hrun cs
  · obtain ⟨before, after, -, rfl⟩ := hparts part hpart
    exact hrun after

theorem join_cons {parts : List (List Char)} (sep : Char) (part : List Char) (h : parts ≠ []) :
    join [sep] (part :: parts) = part ++ sep :: join [sep] parts := by
  obtain ⟨next, rest, rfl⟩ := List.exists_cons_of_ne_nil h
  simp [join]

theorem join_splitOn (sep : Char) (cs : List Char) : join [sep] (splitOn sep cs) = cs := by
  induction cs with
  | nil => rfl
  | cons c cs ih =>
    obtain ⟨parts, hsplit, -⟩ := splitOn_eq_cons sep cs
    rw [hsplit] at ih
    by_cases hc : c = sep
    · simp only [splitOn, hsplit, hc, if_true, join, List.nil_append, List.singleton_append]
      rw [ih]
    · simp only [splitOn, hsplit, hc, if_false]
      cases parts with
      | nil => rw [join] at ih ⊢; rw [ih]
      | cons part parts =>
        simp only [join, List.cons_append] at ih ⊢
        rw [ih]

theorem join_concat {parts : List (List Char)} (sep : Char) (h : parts ≠ []) (part : List Char) :
    join [sep] (parts ++ [part]) = join [sep] parts ++ sep :: part := by
  induction parts with
  | nil => exact absurd rfl h
  | cons first parts ih =>
    by_cases hparts : parts = []
    · subst hparts
      simp [join]
    · rw [List.cons_append, join_cons sep first (by simp), ih hparts, join_cons sep first hparts, List.append_assoc,
        List.cons_append]

theorem splitOn_join {parts : List (List Char)} (hne : parts ≠ []) (h : ∀ part ∈ parts, sep ∉ part) :
    splitOn sep (join [sep] parts) = parts := by
  induction parts with
  | nil => exact absurd rfl hne
  | cons first parts ih =>
    have hfirst : sep ∉ first := h first List.mem_cons_self
    by_cases hparts : parts = []
    · subst hparts
      exact splitOn_of_not_mem hfirst
    · rw [join_cons sep first hparts, splitOn_append, splitOn_of_not_mem hfirst,
        ih hparts fun part hpart => h part (List.mem_cons_of_mem first hpart), List.singleton_append]

/-- Only a text that ends in a separator, or has no character, ends in an empty part. -/
theorem getLast?_splitOn (h : (splitOn sep cs).getLast? = some []) : cs = [] ∨ cs.getLast? = some sep := by
  induction cs with
  | nil => exact .inl rfl
  | cons c cs ih =>
    obtain ⟨parts, hsplit, -⟩ := splitOn_eq_cons sep cs
    rw [hsplit] at ih
    right
    by_cases hc : c = sep
    · simp only [splitOn, hsplit, hc, if_true, List.getLast?_cons_cons] at h
      rcases ih h with rfl | hlast
      · rw [hc]
        rfl
      · simp [List.getLast?_cons, hlast]
    · simp only [splitOn, hsplit, hc, if_false] at h
      cases parts with
      | nil => cases h
      | cons part parts =>
        rw [List.getLast?_cons_cons] at h ih
        rcases ih h with rfl | hlast
        · cases hsplit
        · simp [List.getLast?_cons, hlast]

theorem dropFinalCR_of_not_mem {line : List Char} (h : '\r' ∉ line) : dropFinalCR line = line := by
  unfold dropFinalCR
  split
  next hlast => exact absurd (List.mem_of_getLast? hlast) h
  next => rfl

theorem dropFinalCR_prefix (line : List Char) : dropFinalCR line <+: line := by
  unfold dropFinalCR
  split
  · exact List.dropLast_prefix line
  · exact List.prefix_refl line

theorem mem_splitOn_of_mem_rawLines {line : List Char} (h : line ∈ rawLines cs) : line ∈ splitOn '\n' cs := by
  unfold rawLines at h
  split at h
  next parts hparts =>
    rw [← List.mem_reverse, hparts]
    exact List.mem_cons_of_mem _ (List.mem_reverse.1 h)
  next => rwa [List.reverse_reverse] at h

/-- No line holds a line end. -/
theorem lineFeed_not_mem_lines {line : List Char} (h : line ∈ lines cs) : '\n' ∉ line := by
  obtain ⟨raw, hraw, hfront⟩ : ∃ raw ∈ rawLines cs, line <+: raw := by
    unfold lines at h
    dsimp only at h
    split at h
    · obtain ⟨raw, hraw, rfl⟩ := List.mem_map.1 h
      exact ⟨raw, hraw, dropFinalCR_prefix raw⟩
    · split at h
      · cases h
      · next last front hcut =>
        have hmem {raw : List Char} (h : raw ∈ last :: front) : raw ∈ rawLines cs := by
          rwa [← hcut, List.mem_reverse] at h
        rcases List.mem_append.1 h with h | h
        · obtain ⟨raw, hraw, rfl⟩ := List.mem_map.1 h
          exact ⟨raw, hmem (List.mem_cons_of_mem _ (List.mem_reverse.1 hraw)), dropFinalCR_prefix raw⟩
        · obtain rfl := List.mem_singleton.1 h
          exact ⟨line, hmem List.mem_cons_self, List.prefix_refl line⟩
  exact fun hmem => not_mem_splitOn (mem_splitOn_of_mem_rawLines hraw) (hfront.subset hmem)

/-- A text whose last line is ended is so with LF for CR LF and CR too. -/
theorem getLast?_normalize (h : cs.getLast? = some '\n') : (normalize cs).getLast? = some '\n' := by
  fun_induction normalize cs with
  | case1 => cases h
  | case2 cs ih =>
    cases cs with
    | nil => rfl
    | cons c cs => rw [List.getLast?_cons, ih (by simpa using h), Option.getD_some]
  | case3 c cs hpair ih =>
    cases cs with
    | nil =>
      obtain rfl : c = '\n' := by simpa using h
      rfl
    | cons d cs => rw [List.getLast?_cons, ih (by simpa using h), Option.getD_some]

theorem rawLines_eq_splitOn (hne : cs ≠ []) (hlast : cs.getLast? ≠ some '\n') :
    rawLines cs = splitOn '\n' cs := by
  unfold rawLines
  split
  next parts hparts =>
    have hempty : (splitOn '\n' cs).getLast? = some [] := by
      rw [← List.reverse_reverse (splitOn '\n' cs), hparts, List.getLast?_reverse, List.head?_cons]
    exact absurd (getLast?_splitOn hempty) (not_or.2 ⟨hne, hlast⟩)
  next => exact List.reverse_reverse _

theorem lines_eq_splitOn (hne : cs ≠ []) (hlast : cs.getLast? ≠ some '\n') (hreturn : '\r' ∉ cs) :
    lines cs = splitOn '\n' cs := by
  have hplain : ∀ line ∈ splitOn '\n' cs, dropFinalCR line = line :=
    fun line hline => dropFinalCR_of_not_mem fun h => hreturn (mem_of_mem_splitOn hline h)
  unfold lines
  rw [rawLines_eq_splitOn hne hlast]
  dsimp only
  split
  next hlineFeed => exact absurd hlineFeed hlast
  next =>
    split
    next hnil => exact (List.reverse_eq_nil_iff.1 hnil).symm
    next last front hcut =>
      have hsplit : splitOn '\n' cs = front.reverse ++ [last] := by
        rw [← List.reverse_reverse (splitOn '\n' cs), hcut, List.reverse_cons]
      have hfront : front.reverse.map dropFinalCR = front.reverse := by
        rw [List.map_congr_left fun line hline => hplain line (hsplit ▸ List.mem_append_left [last] hline),
          List.map_id']
      rw [hfront, hsplit]

end Scriptorium.Text
