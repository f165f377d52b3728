import Mathlib.Data.List.Basic
import Mathlib.Data.List.Induction
import Mathlib.Logic.Function.Iterate
import Scriptorium.Proofs.Editor.BufferInvariant

/-!
# Undoing by keystrokes

A buffer without a selection is a text before the cursor and a text behind it (`Stands`). Inserting adds to the first;
erasing to the left or right and moving take or hand over one character, whatever its size. So what was inserted is
erased again by as many keystrokes as it has characters, from either end (`insert_undone`).
-/

namespace Scriptorium.Editor.Buffer

open Text

variable {b : Buffer} {front middle back : List Char} {c : Char}

/-- Nothing is selected, and the cursor stands between two parts of the text. -/
structure Stands (b : Buffer) (front back : List Char) : Prop where
  text : b.text = front ++ back
  cursor : b.cursor = size front
  selection : b.selection = none

theorem WellFormed.exists_stands (h : b.WellFormed) (hnone : b.selection = none) :
    ∃ front back, b.Stands front back := by
  obtain ⟨front, back, htext, hsize⟩ := h.cursor
  exact ⟨front, back, htext, hsize.symm, hnone⟩

namespace Stands

theorem before_eq (h : b.Stands front back) : b.before = front := by
  rw [before, h.text, h.cursor, take_size_append]

theorem after_eq (h : b.Stands front back) : b.after = back := by
  rw [after, h.text, h.cursor, drop_size_append]

/-- The character that a keystroke to the left takes. -/
theorem last_before (h : b.Stands (front ++ [c]) back) :
    b.before.getLast? = some c ∧ b.cursor - c.utf8Size = size front := by
  constructor
  · rw [h.before_eq, List.getLast?_concat]
  · rw [h.cursor, size_append, size_cons, size_nil]
    omega

/-- The character that a keystroke to the right takes. -/
theorem first_after (h : b.Stands front (c :: back)) :
    b.after.head? = some c ∧ b.cursor + c.utf8Size = size (front ++ [c]) := by
  constructor
  · rw [h.after_eq, List.head?_cons]
  · rw [h.cursor, size_append, size_cons, size_nil, Nat.add_zero]

/-! ## One keystroke -/

/-- What replaces a part of the text stands before the cursor. -/
theorem of_replaceRange (htext : b.text = front ++ middle ++ back) (x : List Char) :
    (b.replaceRange ⟨size front, size (front ++ middle)⟩ x).Stands (front ++ Text.normalize x) back where
  text := replaceRange_of_cuts ⟨htext, rfl, rfl⟩ x
  cursor := by
    have hstart : snap (size front) b.text = size front := by
      rw [htext, List.append_assoc, snap_size_append]
    show snap (size front) b.text + size (Text.normalize x) = size (front ++ Text.normalize x)
    rw [hstart, size_append]
  selection := rfl

theorem insert (h : b.Stands front back) (x : List Char) : (b.insert x).Stands (front ++ Text.normalize x) back := by
  have hrange : b.selection.getD (.point b.cursor) = ⟨size front, size (front ++ [])⟩ := by
    rw [h.selection, h.cursor, List.append_nil]
    rfl
  rw [Buffer.insert, hrange]
  apply of_replaceRange
  rw [List.append_nil, h.text]

theorem backspace (h : b.Stands (front ++ [c]) back) : b.backspace.Stands front back := by
  obtain ⟨hlast, hstart⟩ := h.last_before
  simp only [Buffer.backspace, h.selection, hlast]
  rw [hstart, h.cursor]
  simpa [Text.normalize] using of_replaceRange h.text []

theorem delete (h : b.Stands front (c :: back)) : b.delete.Stands front back := by
  obtain ⟨hfirst, hstop⟩ := h.first_after
  have htext : b.text = front ++ [c] ++ back := by rw [h.text, List.append_assoc, List.singleton_append]
  simp only [Buffer.delete, h.selection, hfirst]
  rw [hstop, h.cursor]
  simpa [Text.normalize] using of_replaceRange htext []

theorem cursorLeft (h : b.Stands (front ++ [c]) back) : b.cursorLeft.Stands front (c :: back) := by
  obtain ⟨hlast, hcursor⟩ := h.last_before
  simp only [Buffer.cursorLeft, hlast]
  exact ⟨by rw [h.text, List.append_assoc, List.singleton_append], hcursor, rfl⟩

theorem cursorRight (h : b.Stands front (c :: back)) : b.cursorRight.Stands (front ++ [c]) back := by
  obtain ⟨hfirst, hcursor⟩ := h.first_after
  simp only [Buffer.cursorRight, hfirst]
  exact ⟨by rw [h.text, List.append_assoc, List.singleton_append], hcursor, rfl⟩

/-! ## As many keystrokes as there are characters -/

theorem iterate_backspace {x : List Char} (h : b.Stands (front ++ x) back) :
    (Buffer.backspace^[x.length] b).Stands front back := by
  induction x using List.reverseRecOn generalizing b with
  | nil => rwa [List.append_nil] at h
  | append_singleton x c ih =>
    rw [List.length_append, List.length_singleton, Function.iterate_succ_apply]
    rw [← List.append_assoc] at h
    exact ih h.backspace

theorem iterate_cursorLeft {x : List Char} (h : b.Stands (front ++ x) back) :
    (Buffer.cursorLeft^[x.length] b).Stands front (x ++ back) := by
  induction x using List.reverseRecOn generalizing b back with
  | nil => rwa [List.append_nil] at h
  | append_singleton x c ih =>
    rw [List.length_append, List.length_singleton, Function.iterate_succ_apply, List.append_assoc]
    rw [← List.append_assoc] at h
    exact ih h.cursorLeft

theorem iterate_delete {x : List Char} (h : b.Stands front (x ++ back)) :
    (Buffer.delete^[x.length] b).Stands front back := by
  induction x generalizing b with
  | nil => exact h
  | cons c x ih =>
    rw [List.length_cons, Function.iterate_succ_apply]
    exact ih h.delete

end Stands

/-- Inserting puts the text, with LF for CR LF and CR, between what is before the cursor and what is behind it. As many
erasures to the left as it has characters, or moves to the left and then erasures to the right, bring back text and
cursor. A move to the left and one to the right bring back the cursor, unless it was at the start. -/
theorem insert_undone (h : b.Reachable) (hnone : b.selection = none) (x : List Char) :
    let inserted := b.insert x
    let n := (Text.normalize x).length
    (inserted.text = b.before ++ Text.normalize x ++ b.after ∧ inserted.cursor = size (b.before ++ Text.normalize x)) ∧
      ((backspace^[n] inserted).text = b.text ∧ (backspace^[n] inserted).cursor = b.cursor) ∧
      ((cursorLeft^[n] inserted).cursor = b.cursor ∧
        (delete^[n] (cursorLeft^[n] inserted)).text = b.text ∧
        (delete^[n] (cursorLeft^[n] inserted)).cursor = b.cursor) ∧
      (b.cursor ≠ 0 → b.cursorLeft.cursorRight.cursor = b.cursor) := by
  obtain ⟨front, back, hstands⟩ := h.wellFormed.exists_stands hnone
  intro inserted n
  have hinserted : inserted.Stands (front ++ Text.normalize x) back := hstands.insert x
  have herased : (backspace^[n] inserted).Stands front back := hinserted.iterate_backspace
  have hmoved : (cursorLeft^[n] inserted).Stands front (Text.normalize x ++ back) := hinserted.iterate_cursorLeft
  have hdeleted : (delete^[n] (cursorLeft^[n] inserted)).Stands front back := hmoved.iterate_delete
  rw [hstands.before_eq, hstands.after_eq, hstands.text, hstands.cursor]
  refine ⟨⟨hinserted.text, hinserted.cursor⟩, ⟨herased.text, herased.cursor⟩,
    ⟨hmoved.cursor, hdeleted.text, hdeleted.cursor⟩, fun hne => ?_⟩
  obtain rfl | ⟨front, c, rfl⟩ := List.eq_nil_or_concat' front
  · exact absurd size_nil hne
  · exact hstands.cursorLeft.cursorRight.cursor

/-- A text of characters of three sizes with a CR LF in it, inserted between two characters. -/
theorem insert_undone_wide :
    let b := (Buffer.ofText 1 ['a', 'é']).cursorLeft
    let inserted := b.insert ['ß', '\r', '\n', '😀']
    b.Reachable ∧ b.selection = none ∧ inserted.text = ['a', 'ß', '\n', '😀', 'é'] ∧
      (backspace^[3] inserted).text = ['a', 'é'] ∧ (delete^[3] (cursorLeft^[3] inserted)).text = ['a', 'é'] ∧
      b.cursorLeft.cursorRight.cursor = 1 := by
  intro b inserted
  have h : b.Reachable := ⟨1, [.setText ['a', 'é'], .left], rfl⟩
  obtain ⟨⟨htext, -⟩, ⟨herased, -⟩, ⟨-, hdeleted, -⟩, hmoves⟩ := insert_undone h rfl ['ß', '\r', '\n', '😀']
  exact ⟨h, rfl, htext, herased, hdeleted, hmoves (by decide)⟩

end Scriptorium.Editor.Buffer
