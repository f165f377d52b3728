import Mathlib.Data.List.DropRight
import Scriptorium.Proofs.Editor.BufferInvariant

/-!
# The line that holds a position

The range of a line goes on, in both directions, to a LF or an end of the text, and has no LF in it (`Span.IsLine`). A
buffer gives the line of every position on a character boundary and of every position past the end; inside a character
it gives none, unlike the operations that snap their positions (`lineRangeAt?_lines`).
-/

namespace Scriptorium.Editor

open Text

/-- The range is a line of the text: it has no LF, and a LF or an end of the text on either side. -/
def Span.IsLine (r : Span) (cs : List Char) : Prop :=
  ∃ head middle tail, r.Cuts cs head middle tail ∧ '\n' ∉ middle ∧
    (head = [] ∨ head.getLast? = some '\n') ∧ (tail = [] ∨ tail.head? = some '\n')

/-- The range is a line of the text and holds the position. -/
structure Span.IsLineAt (r : Span) (cs : List Char) (pos : Nat) : Prop where
  isLine : r.IsLine cs
  start_le : r.start ≤ pos
  le_stop : pos ≤ r.stop

namespace Buffer

variable {b : Buffer} {cs : List Char} {pos : Nat}

/-! ## Between LFs -/

theorem getLast?_rdropWhile_lineFeed (cs : List Char) :
    cs.rdropWhile (· != '\n') = [] ∨ (cs.rdropWhile (· != '\n')).getLast? = some '\n' := by
  by_cases hnil : cs.rdropWhile (· != '\n') = []
  · exact .inl hnil
  · right
    have hlast := List.rdropWhile_last_not (· != '\n') cs hnil
    rw [List.getLast?_eq_some_getLast hnil]
    simpa using hlast

theorem head?_dropWhile_lineFeed (cs : List Char) :
    cs.dropWhile (· != '\n') = [] ∨ (cs.dropWhile (· != '\n')).head? = some '\n' := by
  cases hrest : cs.dropWhile (· != '\n') with
  | nil => exact .inl rfl
  | cons c rest =>
    have hfirst := List.head?_dropWhile_not (· != '\n') cs
    rw [hrest] at hfirst
    right
    simpa using hfirst

/-- The part of a text up to its last line, and that line. -/
theorem size_lastLine (cs : List Char) :
    size cs = size (cs.rdropWhile (· != '\n')) + size (cs.reverse.takeWhile (· != '\n')) := by
  rw [← size_reverse (cs.reverse.takeWhile _), ← size_append]
  exact congrArg size List.rdropWhile_append_rtakeWhile.symm

theorem lineFeed_not_mem_takeWhile (cs : List Char) : '\n' ∉ cs.takeWhile (· != '\n') := by
  intro h
  simpa using List.mem_takeWhile_imp h

theorem lineAround_isLine (h : Boundary pos cs) : (lineAround cs pos).IsLineAt cs pos := by
  obtain ⟨-, -, hstart, hstop⟩ := lineAround_bounds h
  refine ⟨?_, hstart, hstop⟩
  obtain ⟨a, b, rfl, rfl⟩ := h
  have hfront : a = a.rdropWhile (· != '\n') ++ a.rtakeWhile (· != '\n') := List.rdropWhile_append_rtakeWhile.symm
  have hback : b = b.takeWhile (· != '\n') ++ b.dropWhile (· != '\n') := List.takeWhile_append_dropWhile.symm
  have hsize := size_lastLine a
  refine ⟨a.rdropWhile (· != '\n'), a.rtakeWhile (· != '\n') ++ b.takeWhile (· != '\n'), b.dropWhile (· != '\n'),
    ⟨?_, ?_, ?_⟩, ?_, getLast?_rdropWhile_lineFeed a, head?_dropWhile_lineFeed b⟩
  · rw [← List.append_assoc, ← hfront, List.append_assoc, ← hback]
  · simp only [lineAround, take_size_append]
    omega
  · rw [← List.append_assoc, ← hfront, size_append]
    simp only [lineAround, drop_size_append]
  · rw [List.mem_append, not_or, List.rtakeWhile, List.mem_reverse]
    exact ⟨lineFeed_not_mem_takeWhile _, lineFeed_not_mem_takeWhile _⟩

/-! ## The line of a position -/

theorem lineRangeAt?_of_boundary (h : Boundary (min pos (size b.text)) b.text) :
    b.lineRangeAt? pos = some (lineAround b.text (min pos (size b.text))) := if_pos (isBoundary_iff.2 h)

theorem lineRangeAt?_eq_none_iff : b.lineRangeAt? pos = none ↔ ¬ Boundary (min pos (size b.text)) b.text := by
  constructor
  · intro hnone h
    rw [lineRangeAt?_of_boundary h] at hnone
    cases hnone
  · intro h
    exact if_neg (mt isBoundary_iff.1 h)

/-- Within the text or past its end, a position that is on a boundary is snapped to itself. -/
theorem snap_of_boundary (h : Boundary (min pos (size cs)) cs) : snap pos cs = min pos (size cs) := by
  rcases Nat.le_total pos (size cs) with hle | hle
  · rw [Nat.min_eq_left hle] at h ⊢
    exact h.snap_eq
  · rw [Nat.min_eq_right hle, snap, take_of_size_le hle]

/-- The column counts from the start of the cursor's line. -/
theorem cursorLineColumn_eq (h : Boundary b.cursor b.text) :
    b.cursorLineColumn = (b.before.count '\n', b.cursor - b.cursorLine.start) := by
  have hbefore : size b.before = b.cursor := h.snap_eq
  have hsize := size_lastLine b.before
  have hstart : b.cursorLine.start = b.cursor - size (b.before.reverse.takeWhile (· != '\n')) := rfl
  rw [cursorLineColumn, hstart]
  congr 1
  omega

/-- There is no line for a position inside a character, and only for such a position. For every other one the line is
the one that holds it, or the end of the text if it is past the end; this is so for every position that is snapped
first. The cursor's line is as many lines down as there are LFs before it, and its column counts from the start of the
line that it is given. -/
theorem lineRangeAt?_lines (h : b.Reachable) (pos : Nat) :
    (b.lineRangeAt? pos = none ↔ ¬ Boundary (min pos (size b.text)) b.text) ∧
      (∀ r, b.lineRangeAt? pos = some r → r.IsLineAt b.text (snap pos b.text)) ∧
      (∃ r, b.lineRangeAt? (snap pos b.text) = some r ∧ r.IsLineAt b.text (snap pos b.text)) ∧
      ∃ line, b.lineRangeAt? b.cursor = some line ∧
        b.cursorLineColumn = (b.before.count '\n', b.cursor - line.start) := by
  have hcursor := h.wellFormed.cursor
  have hsnap : min (snap pos b.text) (size b.text) = snap pos b.text := Nat.min_eq_left (snap_le_size pos b.text)
  have hmin : min b.cursor (size b.text) = b.cursor := by
    rw [← hcursor.snap_eq]
    exact Nat.min_eq_left (snap_le_size b.cursor b.text)
  refine ⟨lineRangeAt?_eq_none_iff, fun r hr => ?_, ?_, b.cursorLine, ?_, cursorLineColumn_eq hcursor⟩
  · have hboundary : Boundary (min pos (size b.text)) b.text := by
      by_contra hnot
      rw [lineRangeAt?_eq_none_iff.2 hnot] at hr
      cases hr
    rw [lineRangeAt?_of_boundary hboundary] at hr
    obtain rfl := Option.some.inj hr
    rw [snap_of_boundary hboundary]
    exact lineAround_isLine hboundary
  · have hboundary := boundary_snap pos b.text
    refine ⟨lineAround b.text (snap pos b.text), ?_, lineAround_isLine hboundary⟩
    rw [lineRangeAt?_of_boundary (by rwa [hsnap]), hsnap]
  · rw [lineRangeAt?_of_boundary (by rwa [hmin]), hmin]
    rfl

/-- Between two line ends, behind a character of two bytes. -/
theorem lineRangeAt?_lines_empty :
    let b := Buffer.ofText 1 ['é', '\n', '\n', 'x']
    b.Reachable ∧ b.lineRangeAt? 3 = some ⟨3, 3⟩ ∧ Span.IsLineAt ⟨3, 3⟩ b.text 3 := by
  intro b
  have h : b.Reachable := reachable_ofText 1 _
  have hline : b.lineRangeAt? 3 = some ⟨3, 3⟩ := by decide
  exact ⟨h, hline, (lineRangeAt?_lines h 3).2.1 ⟨3, 3⟩ hline⟩

/-- The second byte of a character is snapped to its start elsewhere, but has no line. -/
theorem lineRangeAt?_inside_character :
    let b := Buffer.ofText 1 ['é']
    b.Reachable ∧ b.lineRangeAt? 1 = none ∧ b.lineRangeAt? (snap 1 b.text) = some ⟨0, 2⟩ ∧ (b.setCursor 1).cursor = 0 :=
  ⟨reachable_ofText 1 _, by decide, by decide, by decide⟩

end Buffer

end Scriptorium.Editor
