import Scriptorium.Editor.Buffer
import Scriptorium.Proofs.Text.Boundary

/-!
# The invariant of the editing buffer

Whatever a user does, the text of a buffer has no CR, its cursor stands on a character boundary, and a
selection is not empty, lies on boundaries and ends at the cursor (`WellFormed.perform`). Every change of
the text raises the revision (`perform_revision`).
-/

namespace Scriptorium.Editor

open Text

/-- The range cuts a text into what is before it, what is in it and what is after it. -/
structure Span.Cuts (r : Span) (cs head middle tail : List Char) : Prop where
  text : cs = head ++ middle ++ tail
  start : size head = r.start
  stop : size (head ++ middle) = r.stop

theorem Span.exists_cuts {r : Span} {cs : List Char} (hstart : Boundary r.start cs)
    (hstop : Boundary r.stop cs) (hle : r.start ≤ r.stop) :
    ∃ head middle tail, r.Cuts cs head middle tail := by
  obtain ⟨head, middle, tail, htext, hhead, hmiddle⟩ := hstart.split hstop hle
  exact ⟨head, middle, tail, htext, hhead, hmiddle⟩

namespace Buffer

structure WellFormed (b : Buffer) : Prop where
  no_cr : '\r' ∉ b.text
  cursor : Boundary b.cursor b.text
  selection : ∀ r, b.selection = some r →
    Boundary r.start b.text ∧ r.start < r.stop ∧ r.stop = b.cursor

theorem wellFormed_new (id : Nat) : WellFormed { id } :=
  ⟨by simp, boundary_zero _, by simp⟩

/-- What moves the cursor to a boundary and selects nothing keeps the invariant. -/
theorem WellFormed.move {b : Buffer} (h : b.WellFormed) {n : Nat} (hn : Boundary n b.text) :
    WellFormed { b with cursor := n, selection := none } :=
  ⟨h.no_cr, hn, by simp⟩

/-! ## Edits -/

/-- A replaced range that lies on boundaries makes way for the new text, and all else stays. -/
theorem replaceRange_of_cuts {b : Buffer} {r : Span} {head middle tail : List Char}
    (h : r.Cuts b.text head middle tail) (text : List Char) :
    (b.replaceRange r text).text = head ++ normalize text ++ tail := by
  obtain ⟨htext, hstart, hstop⟩ := h
  have hle : r.start ≤ r.stop := by rw [← hstart, ← hstop, size_append]; omega
  have h1 : snap r.start b.text = size head := by
    rw [htext, ← hstart, List.append_assoc, snap_size_append]
  have h2 : snap r.stop b.text = size (head ++ middle) := by
    rw [htext, ← hstop, snap_size_append]
  have h3 : max (size (head ++ middle)) (size head) = size (head ++ middle) := by
    rw [size_append]; omega
  simp only [replaceRange, h1, h2, h3]
  rw [htext, drop_size_append, List.append_assoc head, take_size_append]

theorem WellFormed.replaceRange {b : Buffer} (h : b.WellFormed) (r : Span) (text : List Char) :
    (b.replaceRange r text).WellFormed where
  no_cr := by
    simp only [Buffer.replaceRange, List.mem_append, not_or]
    refine ⟨⟨fun hc => h.no_cr ?_, not_mem_normalize text⟩, fun hc => h.no_cr ?_⟩
    · rw [← take_append_drop (snap r.start b.text) b.text]
      exact List.mem_append_left _ hc
    · rw [← take_append_drop (max (snap r.stop b.text) (snap r.start b.text)) b.text]
      exact List.mem_append_right _ hc
  cursor := by
    have hstart : size (take (snap r.start b.text) b.text) = snap r.start b.text :=
      (boundary_snap r.start b.text).snap_eq
    simp only [Buffer.replaceRange]
    rw [← hstart, ← size_append, hstart]
    exact boundary_size_append _ _
  selection := by simp [Buffer.replaceRange]

theorem WellFormed.setText {b : Buffer} (text : List Char) : (b.setText text).WellFormed :=
  ⟨not_mem_normalize text, boundary_size _, by simp [Buffer.setText]⟩

theorem backspace_cases (b : Buffer) : b.backspace = b ∨ ∃ r, b.backspace = b.replaceRange r [] := by
  unfold backspace
  split
  · exact .inr ⟨_, rfl⟩
  · split
    · exact .inr ⟨_, rfl⟩
    · exact .inl rfl

theorem delete_cases (b : Buffer) : b.delete = b ∨ ∃ r, b.delete = b.replaceRange r [] := by
  unfold delete
  split
  · exact .inr ⟨_, rfl⟩
  · split
    · exact .inr ⟨_, rfl⟩
    · exact .inl rfl

/-! ## Moves and selections -/

theorem WellFormed.select {b : Buffer} (h : b.WellFormed) (r : Span) : (b.select r).WellFormed where
  no_cr := h.no_cr
  cursor := (boundary_snap _ _).max (boundary_snap _ _)
  selection := by
    intro s hs
    simp only [Buffer.select] at hs ⊢
    split at hs
    · rename_i hlt
      obtain rfl := Option.some.inj hs
      exact ⟨boundary_snap _ _, hlt, rfl⟩
    · cases hs

theorem WellFormed.cursorLeft {b : Buffer} (h : b.WellFormed) : b.cursorLeft.WellFormed := by
  unfold Buffer.cursorLeft
  split
  · rename_i c hc
    refine h.move ?_
    obtain ⟨front, back, htext, hsize⟩ := h.cursor
    have hbefore : b.before = front := by rw [before, htext, ← hsize, take_size_append]
    obtain ⟨init, rfl⟩ := List.getLast?_eq_some_iff.1 (hbefore ▸ hc)
    rw [htext, ← hsize, size_append, size_cons, size_nil, Nat.add_zero, Nat.add_sub_cancel,
      List.append_assoc]
    exact boundary_size_append _ _
  · exact h.move h.cursor

theorem WellFormed.cursorRight {b : Buffer} (h : b.WellFormed) : b.cursorRight.WellFormed := by
  unfold Buffer.cursorRight
  split
  · rename_i c hc
    refine h.move ?_
    obtain ⟨front, back, htext, hsize⟩ := h.cursor
    have hafter : b.after = back := by rw [after, htext, ← hsize, drop_size_append]
    obtain ⟨rest, rfl⟩ := List.head?_eq_some_iff.1 (hafter ▸ hc)
    refine ⟨front ++ [c], rest, by simp [htext], by simp [hsize]⟩
  · exact h.move h.cursor

/-! ## Lines -/

/-- The line around a boundary starts at or before it and ends at or after it, on boundaries. -/
theorem lineAround_bounds {cs : List Char} {pos : Nat} (h : Boundary pos cs) :
    Boundary (lineAround cs pos).start cs ∧ Boundary (lineAround cs pos).stop cs ∧
      (lineAround cs pos).start ≤ pos ∧ pos ≤ (lineAround cs pos).stop := by
  obtain ⟨a, b, rfl, rfl⟩ := h
  have ha : a = (a.reverse.dropWhile (· != '\n')).reverse ++ (a.reverse.takeWhile (· != '\n')).reverse := by
    rw [← List.reverse_append, List.takeWhile_append_dropWhile, List.reverse_reverse]
  have hsize := congrArg size ha
  rw [size_append, size_reverse (a.reverse.takeWhile _)] at hsize
  have hb : b = b.takeWhile (· != '\n') ++ b.dropWhile (· != '\n') :=
    List.takeWhile_append_dropWhile.symm
  simp only [lineAround, take_size_append, drop_size_append]
  refine ⟨⟨(a.reverse.dropWhile (· != '\n')).reverse,
    (a.reverse.takeWhile (· != '\n')).reverse ++ b, ?_, by omega⟩,
    ⟨a ++ b.takeWhile (· != '\n'), b.dropWhile (· != '\n'), ?_, by rw [size_append]⟩, by omega, by omega⟩
  · rw [← List.append_assoc, ← ha]
  · rw [List.append_assoc, ← hb]

/-- The line around a boundary starts at the start of the text or behind a LF. -/
theorem lineAround_start {cs : List Char} {pos : Nat} (h : Boundary pos cs) :
    ∃ head tail, cs = head ++ tail ∧ size head = (lineAround cs pos).start ∧
      (head = [] ∨ ∃ x, head = x ++ ['\n']) := by
  obtain ⟨a, b, rfl, rfl⟩ := h
  simp only [lineAround, take_size_append]
  refine ⟨(a.reverse.dropWhile (· != '\n')).reverse, (a.reverse.takeWhile (· != '\n')).reverse ++ b, ?_, ?_, ?_⟩
  · rw [← List.append_assoc, ← List.reverse_append, List.takeWhile_append_dropWhile, List.reverse_reverse]
  · have hsize := congrArg size (List.takeWhile_append_dropWhile (p := (· != '\n')) (l := a.reverse))
    rw [size_append, size_reverse] at hsize
    rw [size_reverse]
    omega
  · cases hrest : a.reverse.dropWhile (· != '\n') with
    | nil => exact .inl rfl
    | cons c rest =>
      have hc := List.head?_dropWhile_not (· != '\n') a.reverse
      rw [hrest] at hc
      obtain rfl : c = '\n' := by simpa using hc
      exact .inr ⟨rest.reverse, List.reverse_cons⟩

/-! ## All operations -/

theorem WellFormed.perform {b : Buffer} (h : b.WellFormed) (a : Action) : (b.perform a).WellFormed := by
  cases a with
  | setText text => exact WellFormed.setText text
  | setCursor pos => exact h.move (boundary_snap _ _)
  | select r => exact h.select r
  | insert text => exact h.replaceRange _ _
  | replaceRange r text => exact h.replaceRange r text
  | backspace =>
    simp only [Buffer.perform]
    rcases b.backspace_cases with e | ⟨r, e⟩ <;> rw [e]
    · exact h
    · exact h.replaceRange r []
  | delete =>
    simp only [Buffer.perform]
    rcases b.delete_cases with e | ⟨r, e⟩ <;> rw [e]
    · exact h
    · exact h.replaceRange r []
  | left => exact h.cursorLeft
  | right => exact h.cursorRight
  | home => exact h.move (lineAround_bounds h.cursor).1
  | lineEnd => exact h.move (lineAround_bounds h.cursor).2.1

theorem WellFormed.performAll {b : Buffer} (h : b.WellFormed) (actions : List Action) :
    (actions.foldl Buffer.perform b).WellFormed := by
  induction actions generalizing b with
  | nil => exact h
  | cons a actions ih => exact ih (h.perform a)

/-- What actions make of an empty buffer. -/
def Reachable (b : Buffer) : Prop := ∃ (id : Nat) (actions : List Action), b = actions.foldl perform { id }

theorem Reachable.wellFormed {b : Buffer} (h : b.Reachable) : b.WellFormed := by
  obtain ⟨id, actions, rfl⟩ := h
  exact (wellFormed_new id).performAll actions

theorem reachable_ofText (id : Nat) (text : List Char) : (ofText id text).Reachable := ⟨id, [.setText text], rfl⟩

/-- An action sets the text, replaces a part of it, or only moves the cursor and the selection. -/
theorem perform_shape (b : Buffer) (a : Action) :
    (∃ text, b.perform a = b.setText text) ∨ (∃ r text, b.perform a = b.replaceRange r text) ∨
      ∃ cursor selection, b.perform a = { b with cursor, selection } := by
  cases a with
  | setText text => exact .inl ⟨text, rfl⟩
  | insert text => exact .inr (.inl ⟨_, text, rfl⟩)
  | replaceRange r text => exact .inr (.inl ⟨r, text, rfl⟩)
  | backspace =>
    rcases b.backspace_cases with e | ⟨r, e⟩
    · exact .inr (.inr ⟨b.cursor, b.selection, e⟩)
    · exact .inr (.inl ⟨r, [], e⟩)
  | delete =>
    rcases b.delete_cases with e | ⟨r, e⟩
    · exact .inr (.inr ⟨b.cursor, b.selection, e⟩)
    · exact .inr (.inl ⟨r, [], e⟩)
  | left =>
    refine .inr (.inr ?_)
    simp only [perform, cursorLeft]
    split <;> exact ⟨_, _, rfl⟩
  | right =>
    refine .inr (.inr ?_)
    simp only [perform, cursorRight]
    split <;> exact ⟨_, _, rfl⟩
  | setCursor pos => exact .inr (.inr ⟨_, _, rfl⟩)
  | select r => exact .inr (.inr ⟨_, _, rfl⟩)
  | home => exact .inr (.inr ⟨_, _, rfl⟩)
  | lineEnd => exact .inr (.inr ⟨_, _, rfl⟩)

/-- An action leaves text and revision as they are, or it raises the revision. -/
theorem perform_revision (b : Buffer) (a : Action) :
    ((b.perform a).revision = b.revision ∧ (b.perform a).text = b.text) ∨
      (b.perform a).revision = b.revision + 1 := by
  rcases b.perform_shape a with ⟨text, e⟩ | ⟨r, text, e⟩ | ⟨cursor, selection, e⟩
  · exact .inr (e ▸ rfl)
  · exact .inr (e ▸ rfl)
  · exact .inl (e ▸ ⟨rfl, rfl⟩)

@[simp] theorem perform_id (b : Buffer) (a : Action) : (b.perform a).id = b.id := by
  rcases b.perform_shape a with ⟨text, e⟩ | ⟨r, text, e⟩ | ⟨cursor, selection, e⟩ <;> rw [e] <;> rfl

@[simp] theorem performAll_id (b : Buffer) (actions : List Action) :
    (actions.foldl perform b).id = b.id := by
  induction actions generalizing b with
  | nil => rfl
  | cons a actions ih => rw [List.foldl_cons, ih, perform_id]

end Buffer

end Scriptorium.Editor
