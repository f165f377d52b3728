import Mathlib.Data.List.TakeWhile

/-!
# Runs of characters

A reader that takes the longest run of a class takes what was written, if what follows does not go on with
that class.
-/

namespace Scriptorium.Text

variable {p : Char → Bool} {cs rest : List Char}

theorem takeWhile_of_head? (hcs : ∀ x ∈ cs, p x = true) (hrest : ∀ x ∈ rest.head?, p x = false) :
    (cs ++ rest).takeWhile p = cs := by
  rw [List.takeWhile_append_of_pos hcs]
  cases rest with
  | nil => simp
  | cons x rest => simp [hrest x rfl]

theorem dropWhile_of_head? (hcs : ∀ x ∈ cs, p x = true) (hrest : ∀ x ∈ rest.head?, p x = false) :
    (cs ++ rest).dropWhile p = rest := by
  rw [List.dropWhile_append_of_pos hcs]
  cases rest with
  | nil => rfl
  | cons x rest => simp [hrest x rfl]

theorem forall_head?_append {p : Char → Prop} (hcs : ∀ x ∈ cs, p x) (hrest : ∀ x ∈ rest.head?, p x) :
    ∀ x ∈ (cs ++ rest).head?, p x := by
  cases cs with
  | nil => exact hrest
  | cons c cs => simpa using hcs c (by simp)

theorem takeWhile_append_mark {c : Char} (hc : p c = false) (x y : List Char) :
    (x ++ c :: y).takeWhile p = x.takeWhile p := by
  induction x with
  | nil => exact List.takeWhile_cons_of_neg (by simp [hc])
  | cons d x ih => rw [List.cons_append, List.takeWhile_cons, List.takeWhile_cons, ih]

theorem dropWhile_append_mark {c : Char} (hc : p c = false) (x y : List Char) :
    (x ++ c :: y).dropWhile p = x.dropWhile p ++ c :: y := by
  induction x with
  | nil => exact List.dropWhile_cons_of_neg (by simp [hc])
  | cons d x ih =>
    rw [List.cons_append, List.dropWhile_cons, List.dropWhile_cons, ih]
    split <;> rfl

end Scriptorium.Text
