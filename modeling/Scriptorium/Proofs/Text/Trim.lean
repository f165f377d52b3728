import Mathlib.Data.List.DropRight
import Scriptorium.Text.Blank

/-!
# Trimming

A trimmed text does not begin or end with a blank, so trimming it again changes nothing (`trim_trim`).
-/

namespace Scriptorium.Text

theorem head?_trimStart (cs : List Char) : ∀ c ∈ (trimStart cs).head?, isBlank c = false := by
  intro c hc
  have h := List.head?_dropWhile_not isBlank cs
  rw [Option.mem_def] at hc
  rw [trimStart] at hc
  rw [hc] at h
  exact h

theorem trimStart_of_head? {cs : List Char} (h : ∀ c ∈ cs.head?, isBlank c = false) : trimStart cs = cs := by
  cases cs with
  | nil => rfl
  | cons c cs => rw [trimStart, List.dropWhile_cons_of_neg (by simp [h c (by simp)])]

theorem trim_of_all {cs : List Char} (h : ∀ c ∈ cs, isBlank c = false) : trim cs = cs := by
  rw [trim, trimStart_of_head? fun c hc => h c (List.mem_of_head? hc)]
  exact List.rdropWhile_eq_self_iff.2 fun hne => by simp [h _ (List.getLast_mem hne)]

theorem isBlank_of_isDigit {c : Char} (h : c.isDigit = true) : isBlank c = false := by
  rw [Char.isDigit_iff_toNat] at h
  have h0 : '0'.toNat = 48 := rfl
  have h9 : '9'.toNat = 57 := rfl
  simp only [isBlank, Bool.or_eq_false_iff, Bool.and_eq_false_iff, decide_eq_false_iff_not, beq_eq_false_iff_ne]
  omega

theorem isBlankText_append (x y : List Char) : isBlankText (x ++ y) = (isBlankText x && isBlankText y) :=
  List.all_append

theorem isBlankText_of_mem {c : Char} {cs : List Char} (h : c ∈ cs) (hc : isBlank c = false) :
    isBlankText cs = false := by
  rw [isBlankText, List.all_eq_false]
  exact ⟨c, h, by simp [hc]⟩

theorem trimEnd_prefix (cs : List Char) : trimEnd cs <+: cs := List.rdropWhile_prefix isBlank cs

/-- What is taken off the end of a text are blanks. -/
theorem exists_trimEnd_append (cs : List Char) : ∃ back, cs = trimEnd cs ++ back ∧ isBlankText back = true := by
  refine ⟨cs.rtakeWhile isBlank, List.rdropWhile_append_rtakeWhile.symm, ?_⟩
  rw [isBlankText, List.all_eq_true]
  exact fun c hc => List.mem_rtakeWhile_imp hc

theorem getLast?_trimEnd (cs : List Char) : ∀ c ∈ (trimEnd cs).getLast?, isBlank c = false := by
  intro c hc
  obtain ⟨hne, rfl⟩ := List.mem_getLast?_eq_getLast hc
  exact Bool.not_eq_true _ ▸ List.rdropWhile_last_not isBlank cs hne

@[simp] theorem trimEnd_trimEnd (cs : List Char) : trimEnd (trimEnd cs) = trimEnd cs :=
  List.rdropWhile_idempotent isBlank cs

theorem trimEnd_eq_nil_iff {cs : List Char} : trimEnd cs = [] ↔ isBlankText cs = true := by
  rw [isBlankText, List.all_eq_true]
  exact List.rdropWhile_eq_nil_iff

@[simp] theorem isBlankText_trimEnd (cs : List Char) : isBlankText (trimEnd cs) = isBlankText cs := by
  rw [Bool.eq_iff_iff, ← trimEnd_eq_nil_iff, trimEnd_trimEnd, trimEnd_eq_nil_iff]

theorem trimEnd_append_of_blank {y : List Char} (h : isBlankText y = true) (x : List Char) :
    trimEnd (x ++ y) = trimEnd x := by
  rw [trimEnd, trimEnd, List.reverse_append, List.dropWhile_append_of_pos]
  exact fun c hc => List.all_eq_true.1 h c (List.mem_reverse.1 hc)

theorem trimEnd_append {y : List Char} (h : isBlankText y = false) (x : List Char) :
    trimEnd (x ++ y) = x ++ trimEnd y := by
  have hne : trimEnd y ≠ [] := fun hnil => by
    rw [trimEnd_eq_nil_iff.1 hnil] at h
    cases h
  rw [trimEnd, Ne, List.reverse_eq_nil_iff] at hne
  rw [trimEnd, trimEnd, List.reverse_append, List.dropWhile_append, if_neg (mt List.isEmpty_iff.1 hne),
    List.reverse_append, List.reverse_reverse]

theorem trimEnd_cons {c : Char} {cs : List Char} (h : isBlankText (c :: cs) = false) :
    trimEnd (c :: cs) = c :: trimEnd cs := by
  cases hcs : isBlankText cs with
  | false => exact trimEnd_append hcs [c]
  | true =>
    have hc : isBlank c = false := by
      rwa [isBlankText, List.all_cons, ← isBlankText, hcs, Bool.and_true] at h
    rw [← List.singleton_append, trimEnd_append_of_blank hcs, trimEnd_eq_nil_iff.2 hcs, trimEnd,
      List.reverse_singleton, List.dropWhile_cons_of_neg (by simp [hc]), List.reverse_singleton]

theorem head?_trim (cs : List Char) : ∀ c ∈ (trim cs).head?, isBlank c = false := by
  intro c hc
  obtain ⟨rest, hrest⟩ := trimEnd_prefix (trimStart cs)
  obtain ⟨tail, htail⟩ := List.head?_eq_some_iff.1 hc
  refine head?_trimStart cs c ?_
  rw [trim] at htail
  rw [← hrest, htail]
  rfl

@[simp] theorem trim_trim (cs : List Char) : trim (trim cs) = trim cs := by
  rw [trim, trimStart_of_head? (head?_trim cs), trim, trimEnd_trimEnd]

theorem trim_eq_nil_iff {cs : List Char} : trim cs = [] ↔ isBlankText cs = true := by
  have hend : trim cs = [] ↔ ∀ c ∈ trimStart cs, isBlank c = true := by
    rw [trim, trimEnd_eq_nil_iff, isBlankText, List.all_eq_true]
  rw [hend, isBlankText, List.all_eq_true]
  constructor
  · intro h
    -- the first character that is left would be no blank, so nothing is left
    cases hstart : trimStart cs with
    | nil => exact List.dropWhile_eq_nil_iff.1 hstart
    | cons c rest =>
      have hc := head?_trimStart cs c (by rw [hstart]; rfl)
      rw [h c (by rw [hstart]; exact List.mem_cons_self)] at hc
      cases hc
  · exact fun h c hc => h c ((List.dropWhile_suffix isBlank).subset hc)

end Scriptorium.Text
