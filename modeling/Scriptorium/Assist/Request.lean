import Scriptorium.Editor.Buffer

/-!
# Requests for suggestions

What the editor asks an assistant for, and what comes back. Every request has a number, its generation, by
which the answer is matched to it.
-/

namespace Scriptorium.Assist

open Editor

inductive SuggestionError where
  | notConfigured (reason : String)
  /-- No key in the variable. -/
  | missingKey (variableName : String)
  | network (text : String)
  | api (status : Nat) (text : String)
  | invalidResponse (text : String)
  | timedOut (afterSecs : Nat)
  | dispatch (text : String)
  deriving DecidableEq, Repr, Inhabited

def SuggestionError.message : SuggestionError → String
  | .notConfigured reason => "AI not configured: " ++ reason
  | .missingKey name => "API key not configured (set " ++ name ++ ")"
  | .network text => "Network error: " ++ text
  | .api status text => "API error (" ++ toString status ++ "): " ++ text
  | .invalidResponse text => "Invalid response: " ++ text
  | .timedOut secs => "Request timed out after " ++ toString secs ++ "s"
  | .dispatch text => "Request dispatch failed: " ++ text

inductive Action where
  /-- Go on with the code at the cursor. -/
  | suggest
  /-- Make the selection clearer and faster. -/
  | optimize
  /-- Put a comment above the selection that explains it. -/
  | explain
  /-- Mend the selection so that it no longer fails. -/
  | fix (error? : Option String)
  deriving DecidableEq, Repr, Inhabited

namespace Action

def label : Action → String
  | .suggest => "suggest"
  | .optimize => "optimize"
  | .explain => "explain"
  | .fix _ => "fix"

/-- The action of a name. -/
def ofName? (name : String) (error? : Option String) : Option Action :=
  [suggest, optimize, explain, fix error?].find? (·.label == name)

end Action

structure Request where
  buffer : Nat
  generation : Nat
  action : Action
  /-- The selected text, or the line of the cursor when nothing is selected. -/
  selection : List Char
  /-- The text before the target, at most `contextLimit` bytes of it. -/
  context : List Char
  cursor : Nat
  deriving DecidableEq, Repr, Inhabited

structure Response where
  buffer : Nat
  generation : Nat
  result : Except SuggestionError (List Char)

/-- A source of answers. -/
structure Backend where
  name : String
  suggest : Request → Except SuggestionError (List Char)

/-- An edit that is shown and not yet made. -/
structure GhostEdit where
  range : Span
  text : List Char
  deriving DecidableEq, Repr, Inhabited

/-- The most bytes of context. -/
def contextLimit : Nat := 2000

/-- The longest part at the end of a text that has at most so many bytes. -/
def lastBytes (limit : Nat) (cs : List Char) : List Char := (Text.take limit cs.reverse).reverse

namespace Request

/-- The bytes that an action is about: the cursor, or else the selection or the line of the cursor. -/
def anchor (b : Buffer) (action : Action) : Span :=
  match action with
  | .suggest => .point b.cursor
  | _ => b.selection.getD b.cursorLine

/-- The bytes that the answer will replace. An explanation goes to the start of the line. -/
def target (b : Buffer) (action : Action) : Span :=
  let anchor := anchor b action
  match action with
  | .explain => .point (Buffer.lineAround b.text anchor.start).start
  | _ => anchor

/-- The request for an action on a buffer. -/
def ofBuffer (b : Buffer) (generation : Nat) (action : Action) : Request :=
  { buffer := b.id
    generation
    action
    selection := (anchor b action).text b.text
    context := lastBytes contextLimit (Text.take (target b action).start b.text)
    cursor := b.cursor }

end Request

end Scriptorium.Assist
