import Mathlib.Data.List.Basic
import Scriptorium.Proofs.Editor.BufferInvariant

/-!
# Editing with cuts that can fail

A text can only be cut at a character boundary. Here each action on a buffer is written with cuts that fail anywhere
else, at the offsets that it takes from the buffer or computes. While the buffer keeps its invariant no cut fails, and
the result is the one of `Buffer.perform` (`perform?_eq`). As every action keeps the invariant, all of them go through,
one after the other; what they do to the text shows in the revision (`editing_sound`).
-/

namespace Scriptorium.Editor

open Text

namespace Buffer

/-! ## The actions -/

def replaceRange? (b : Buffer) (r : Span) (text : List Char) : Option Buffer := do
  let start := snap r.start b.text
  let stop := max (snap r.stop b.text) start
  let text := normalize text
  let spliced ← splice? start stop text b.text
  return { b with
    text := spliced
    cursor := start + size text
    selection := none
    revision := b.revision + 1 }

/-- Where the last character of a text begins; an empty text has none, and this is its start. -/
def lastOffset (cs : List Char) : Nat := size cs.dropLast

/-- Where the second character of a text begins; without one this is its end. -/
def secondOffset (cs : List Char) : Nat := size (cs.take 1)

def backspace? (b : Buffer) : Option Buffer :=
  match b.selection with
  | some r => b.replaceRange? r []
  | none =>
    if 0 < b.cursor then do
      let front ← front? b.cursor b.text
      b.replaceRange? ⟨lastOffset front, b.cursor⟩ []
    else some b

/-- The cursor is put back after the deletion. -/
def delete? (b : Buffer) : Option Buffer :=
  match b.selection with
  | some r => b.replaceRange? r []
  | none =>
    if b.cursor < b.length then do
      let back ← back? b.cursor b.text
      let deleted ← b.replaceRange? ⟨b.cursor, b.cursor + secondOffset back⟩ []
      return { deleted with cursor := b.cursor }
    else some b

def cursorLeft? (b : Buffer) : Option Buffer :=
  if 0 < b.cursor then do
    let front ← front? b.cursor b.text
    return { b with cursor := lastOffset front, selection := none }
  else some { b with selection := none }

def cursorRight? (b : Buffer) : Option Buffer :=
  if b.cursor < b.length then do
    let back ← back? b.cursor b.text
    return { b with cursor := b.cursor + secondOffset back, selection := none }
  else some { b with selection := none }

/-- The buffer after an action, unless a cut fails. -/
def perform? (b : Buffer) : Action → Option Buffer
  | .setText text => some (b.setText text)
  | .setCursor pos => some (b.setCursor pos)
  | .select r => some (b.select r)
  | .insert text => b.replaceRange? (b.selection.getD (.point b.cursor)) text
  | .replaceRange r text => b.replaceRange? r text
  | .backspace => b.backspace?
  | .delete => b.delete?
  | .left => b.cursorLeft?
  | .right => b.cursorRight?
  | .home => (b.lineRangeAt? b.cursor).map fun line => { b with cursor := line.start, selection := none }
  | .lineEnd => (b.lineRangeAt? b.cursor).map fun line => { b with cursor := line.stop, selection := none }

/-! ## No cut fails -/

variable {b : Buffer}

/-- The offsets of a range are snapped before the text is cut at them. -/
theorem replaceRange?_eq (b : Buffer) (r : Span) (text : List Char) :
    b.replaceRange? r text = some (b.replaceRange r text) := by
  have hstart := boundary_snap r.start b.text
  have hstop := (boundary_snap r.stop b.text).max hstart
  rw [replaceRange?, splice?_eq_some (Nat.le_max_right _ _) hstart hstop]
  rfl

/-- Before the cursor there is nothing, or a last character that begins where it should. -/
theorem WellFormed.before_cases (h : b.WellFormed) :
    (b.cursor = 0 ∧ b.before.getLast? = none) ∨
      ∃ c, 0 < b.cursor ∧ b.before.getLast? = some c ∧ lastOffset b.before = b.cursor - c.utf8Size := by
  have hsize : size b.before = b.cursor := h.cursor.snap_eq
  obtain hnil | ⟨front, c, hbefore⟩ := List.eq_nil_or_concat' b.before
  · rw [hnil] at hsize
    exact .inl ⟨hsize.symm, by rw [hnil]; rfl⟩
  · have hpos := c.utf8Size_pos
    rw [hbefore, size_append, size_cons, size_nil] at hsize
    refine .inr ⟨c, by omega, by rw [hbefore, List.getLast?_concat], ?_⟩
    rw [lastOffset, hbefore, List.dropLast_concat]
    omega

/-- Behind the cursor there is nothing, or a first character that ends where it should. -/
theorem WellFormed.after_cases (h : b.WellFormed) :
    (b.cursor = b.length ∧ b.after.head? = none) ∨
      ∃ c, b.cursor < b.length ∧ b.after.head? = some c ∧ secondOffset b.after = c.utf8Size := by
  have hsize : b.length = b.cursor + size b.after := by
    rw [length, ← take_append_drop b.cursor b.text, size_append]
    show snap b.cursor b.text + _ = _
    rw [h.cursor.snap_eq]
    rfl
  cases hafter : b.after with
  | nil =>
    rw [hafter, size_nil] at hsize
    exact .inl ⟨by omega, rfl⟩
  | cons c rest =>
    have hpos := c.utf8Size_pos
    rw [hafter, size_cons] at hsize
    exact .inr ⟨c, by omega, rfl, by simp [secondOffset]⟩

theorem WellFormed.backspace?_eq (h : b.WellFormed) : b.backspace? = some b.backspace := by
  unfold backspace? backspace
  cases b.selection with
  | some r => exact replaceRange?_eq b r []
  | none =>
    obtain ⟨hzero, hnone⟩ | ⟨c, hpos, hlast, hoffset⟩ := h.before_cases
    · rw [hnone, if_neg (by omega)]
    · rw [hlast, if_pos hpos, front?_eq_some h.cursor]
      show b.replaceRange? ⟨lastOffset b.before, b.cursor⟩ [] = _
      rw [hoffset, replaceRange?_eq]

theorem WellFormed.delete?_eq (h : b.WellFormed) : b.delete? = some b.delete := by
  unfold delete? delete
  cases b.selection with
  | some r => exact replaceRange?_eq b r []
  | none =>
    obtain ⟨hend, hnone⟩ | ⟨c, hlt, hfirst, hoffset⟩ := h.after_cases
    · rw [hnone, if_neg (by omega)]
    · have hcursor : (b.replaceRange ⟨b.cursor, b.cursor + c.utf8Size⟩ []).cursor = b.cursor := h.cursor.snap_eq
      rw [hfirst, if_pos hlt, back?_eq_some h.cursor]
      show (b.replaceRange? ⟨b.cursor, b.cursor + secondOffset b.after⟩ []).bind _ = _
      rw [hoffset, replaceRange?_eq]
      show some { b.replaceRange ⟨b.cursor, b.cursor + c.utf8Size⟩ [] with cursor := b.cursor } =
        some (b.replaceRange ⟨b.cursor, b.cursor + c.utf8Size⟩ [])
      generalize b.replaceRange ⟨b.cursor, b.cursor + c.utf8Size⟩ [] = deleted at hcursor
      rw [← hcursor]

theorem WellFormed.cursorLeft?_eq (h : b.WellFormed) : b.cursorLeft? = some b.cursorLeft := by
  unfold cursorLeft? Buffer.cursorLeft
  obtain ⟨hzero, hnone⟩ | ⟨c, hpos, hlast, hoffset⟩ := h.before_cases
  · rw [hnone, if_neg (by omega)]
  · rw [hlast, if_pos hpos, front?_eq_some h.cursor]
    show some { b with cursor := lastOffset b.before, selection := none } = _
    rw [hoffset]

theorem WellFormed.cursorRight?_eq (h : b.WellFormed) : b.cursorRight? = some b.cursorRight := by
  unfold cursorRight? Buffer.cursorRight
  obtain ⟨hend, hnone⟩ | ⟨c, hlt, hfirst, hoffset⟩ := h.after_cases
  · rw [hnone, if_neg (by omega)]
  · rw [hfirst, if_pos hlt, back?_eq_some h.cursor]
    show some { b with cursor := b.cursor + secondOffset b.after, selection := none } = _
    rw [hoffset]

theorem WellFormed.lineRangeAt?_cursor (h : b.WellFormed) : b.lineRangeAt? b.cursor = some b.cursorLine := by
  have hle : b.cursor ≤ size b.text := h.cursor.snap_eq ▸ snap_le_size b.cursor b.text
  rw [lineRangeAt?, Nat.min_eq_left hle]
  exact if_pos (isBoundary_iff.2 h.cursor)

theorem WellFormed.perform?_eq (h : b.WellFormed) (a : Action) : b.perform? a = some (b.perform a) := by
  cases a with
  | setText text => rfl
  | setCursor pos => rfl
  | select r => rfl
  | insert text => exact replaceRange?_eq b _ text
  | replaceRange r text => exact replaceRange?_eq b r text
  | backspace => exact h.backspace?_eq
  | delete => exact h.delete?_eq
  | left => exact h.cursorLeft?_eq
  | right => exact h.cursorRight?_eq
  | home => rw [perform?, h.lineRangeAt?_cursor]; rfl
  | lineEnd => rw [perform?, h.lineRangeAt?_cursor]; rfl

theorem WellFormed.foldlM_perform? (h : b.WellFormed) (actions : List Action) :
    actions.foldlM perform? b = some (actions.foldl Buffer.perform b) := by
  induction actions generalizing b with
  | nil => rfl
  | cons a actions ih =>
    rw [List.foldlM_cons, h.perform?_eq]
    exact ih (h.perform a)

/-! ## Revisions -/

/-- What only moves the cursor or selects. -/
def Action.isMove : Action → Bool
  | .setCursor _ | .select _ | .left | .right | .home | .lineEnd => true
  | .setText _ | .insert _ | .replaceRange _ _ | .backspace | .delete => false

theorem perform_of_isMove {a : Action} (h : a.isMove = true) (b : Buffer) :
    (b.perform a).text = b.text ∧ (b.perform a).revision = b.revision := by
  cases a with
  | setCursor pos => exact ⟨rfl, rfl⟩
  | select r => exact ⟨rfl, rfl⟩
  | left =>
    simp only [perform, cursorLeft]
    split <;> exact ⟨rfl, rfl⟩
  | right =>
    simp only [perform, cursorRight]
    split <;> exact ⟨rfl, rfl⟩
  | home => exact ⟨rfl, rfl⟩
  | lineEnd => exact ⟨rfl, rfl⟩
  | _ => cases h

/-- The revision never falls, it rises when the text changes, and no action raises it by more than one. -/
theorem performAll_revision (b : Buffer) (actions : List Action) :
    b.revision ≤ (actions.foldl perform b).revision ∧
      ((actions.foldl perform b).text ≠ b.text → b.revision < (actions.foldl perform b).revision) ∧
      (actions.foldl perform b).revision ≤ b.revision + actions.length := by
  induction actions generalizing b with
  | nil => exact ⟨Nat.le_refl _, fun h => absurd rfl h, Nat.le_refl _⟩
  | cons a actions ih =>
    obtain ⟨hle, hchange, hmost⟩ := ih (b.perform a)
    rw [List.foldl_cons, List.length_cons]
    obtain ⟨hrevision, htext⟩ | hrevision := b.perform_revision a
    · rw [hrevision, htext] at hchange
      exact ⟨by omega, hchange, by omega⟩
    · exact ⟨by omega, fun _ => by omega, by omega⟩

/-- Any actions go through on a new buffer, without a cut that fails, and keep the invariant. From there on, whatever
comes later, the revision never falls and rises when the text changes, so that of one buffer two states with one
revision have one text. Moves and selections change neither. -/
theorem editing_sound (id : Nat) (actions later : List Action) :
    let b : Buffer := actions.foldl perform { id }
    let b' := later.foldl perform b
    actions.foldlM perform? { id } = some b ∧ b.WellFormed ∧
      b.revision ≤ b'.revision ∧ (b'.text ≠ b.text → b.revision < b'.revision) ∧
      (b'.revision = b.revision → b'.text = b.text) ∧ b.revision ≤ actions.length ∧
      ∀ a : Action, a.isMove = true → (b.perform a).text = b.text ∧ (b.perform a).revision = b.revision := by
  intro b b'
  have hnew := wellFormed_new id
  obtain ⟨hle, hchange, -⟩ := performAll_revision b later
  obtain ⟨-, -, hmost⟩ := performAll_revision { id } actions
  refine ⟨hnew.foldlM_perform? actions, hnew.performAll actions, hle, hchange, fun hrevision => ?_, ?_,
    fun a ha => perform_of_isMove ha b⟩
  · by_contra htext
    exact absurd hrevision (Nat.ne_of_gt (hchange htext))
  · rwa [Nat.zero_add] at hmost

end Buffer

end Scriptorium.Editor
