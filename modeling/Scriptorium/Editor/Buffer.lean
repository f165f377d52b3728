import Scriptorium.Text.Newline

/-!
# The editing buffer

A buffer holds a text whose lines end at LF, a cursor and perhaps a selection, both as byte offsets on
character boundaries, and a revision that every edit raises. Positions given from outside are snapped to
the boundary at or before them; only `lineRangeAt?` takes its position as it is.
-/

namespace Scriptorium.Editor

open Text

/-- A range of bytes, from the first up to the one after the last. -/
structure Span where
  start : Nat
  stop : Nat
  deriving DecidableEq, Repr, Inhabited

namespace Span

/-- The empty range at a position. -/
def point (n : Nat) : Span := ⟨n, n⟩

/-- The characters of a text in the range. -/
def text (r : Span) (cs : List Char) : List Char := slice r.start r.stop cs

end Span

structure Buffer where
  id : Nat
  text : List Char := []
  cursor : Nat := 0
  selection : Option Span := none
  revision : Nat := 0
  deriving DecidableEq, Repr, Inhabited

namespace Buffer

/-- The characters before the cursor. -/
def before (b : Buffer) : List Char := take b.cursor b.text

/-- The characters after the cursor. -/
def after (b : Buffer) : List Char := drop b.cursor b.text

/-- The number of bytes of the text. -/
def length (b : Buffer) : Nat := size b.text

/-- The selected characters, none without a selection. -/
def selectedText (b : Buffer) : List Char :=
  match b.selection with
  | some r => r.text b.text
  | none => []

/-! ## Edits -/

/-- Replaces the whole text; the cursor goes to the end. -/
def setText (b : Buffer) (text : List Char) : Buffer :=
  let text := normalize text
  { b with text, cursor := size text, selection := none, revision := b.revision + 1 }

/-- A buffer that holds a text, with the cursor at its end. -/
def ofText (id : Nat) (text : List Char) : Buffer := setText { id } text

/-- Replaces the characters in a range; the cursor goes to the end of the new ones. -/
def replaceRange (b : Buffer) (r : Span) (text : List Char) : Buffer :=
  let start := snap r.start b.text
  let stop := max (snap r.stop b.text) start
  let text := normalize text
  { b with
    text := take start b.text ++ text ++ drop stop b.text
    cursor := start + size text
    selection := none
    revision := b.revision + 1 }

/-- Inserts at the cursor, in place of the selection if there is one. -/
def insert (b : Buffer) (text : List Char) : Buffer :=
  b.replaceRange (b.selection.getD (.point b.cursor)) text

/-- Deletes the selection, or else the character before the cursor. -/
def backspace (b : Buffer) : Buffer :=
  match b.selection with
  | some r => b.replaceRange r []
  | none =>
    match b.before.getLast? with
    | some c => b.replaceRange ⟨b.cursor - c.utf8Size, b.cursor⟩ []
    | none => b

/-- Deletes the selection, or else the character after the cursor. -/
def delete (b : Buffer) : Buffer :=
  match b.selection with
  | some r => b.replaceRange r []
  | none =>
    match b.after.head? with
    | some c => b.replaceRange ⟨b.cursor, b.cursor + c.utf8Size⟩ []
    | none => b

/-! ## Moves and selections -/

def setCursor (b : Buffer) (pos : Nat) : Buffer :=
  { b with cursor := snap pos b.text, selection := none }

/-- Selects a range and moves the cursor to its end. An empty or reversed range selects nothing. -/
def select (b : Buffer) (r : Span) : Buffer :=
  let start := snap r.start b.text
  let stop := max (snap r.stop b.text) start
  { b with cursor := stop, selection := if start < stop then some ⟨start, stop⟩ else none }

/-- Moves the cursor over the character before it. -/
def cursorLeft (b : Buffer) : Buffer :=
  match b.before.getLast? with
  | some c => { b with cursor := b.cursor - c.utf8Size, selection := none }
  | none => { b with selection := none }

/-- Moves the cursor over the character after it. -/
def cursorRight (b : Buffer) : Buffer :=
  match b.after.head? with
  | some c => { b with cursor := b.cursor + c.utf8Size, selection := none }
  | none => { b with selection := none }

/-! ## Lines -/

/-- The bytes of the line around a boundary, without its LF. -/
def lineAround (cs : List Char) (pos : Nat) : Span :=
  let head := (take pos cs).reverse.takeWhile (· != '\n')
  let tail := (drop pos cs).takeWhile (· != '\n')
  ⟨pos - size head, pos + size tail⟩

/-- The bytes of the line that holds a position, without its LF. A position past the end counts as the
end; there is no answer for a position inside a character. -/
def lineRangeAt? (b : Buffer) (pos : Nat) : Option Span :=
  let pos := min pos (size b.text)
  if isBoundary pos b.text then some (lineAround b.text pos) else none

/-- The bytes of the line that holds the cursor. -/
def cursorLine (b : Buffer) : Span := lineAround b.text b.cursor

/-- Moves the cursor to the start of its line. -/
def cursorHome (b : Buffer) : Buffer :=
  { b with cursor := b.cursorLine.start, selection := none }

/-- Moves the cursor to the end of its line. -/
def cursorEnd (b : Buffer) : Buffer :=
  { b with cursor := b.cursorLine.stop, selection := none }

/-- The line of the cursor and its byte column, both counted from zero. -/
def cursorLineColumn (b : Buffer) : Nat × Nat :=
  (b.before.count '\n', size (b.before.reverse.takeWhile (· != '\n')))

/-! ## Operations as data -/

/-- What a user can do to a buffer. -/
inductive Action where
  | setText (text : List Char)
  | setCursor (pos : Nat)
  | select (r : Span)
  | insert (text : List Char)
  | replaceRange (r : Span) (text : List Char)
  | backspace
  | delete
  | left
  | right
  | home
  | lineEnd
  deriving DecidableEq, Repr

/-- The buffer after an action. -/
def perform (b : Buffer) : Action → Buffer
  | .setText text => b.setText text
  | .setCursor pos => b.setCursor pos
  | .select r => b.select r
  | .insert text => b.insert text
  | .replaceRange r text => b.replaceRange r text
  | .backspace => b.backspace
  | .delete => b.delete
  | .left => b.cursorLeft
  | .right => b.cursorRight
  | .home => b.cursorHome
  | .lineEnd => b.cursorEnd

end Buffer

end Scriptorium.Editor
