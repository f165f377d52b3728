import Scriptorium.Assist.Chat
import Scriptorium.Assist.Engine
import Scriptorium.Proofs.Editor.BufferInvariant

/-!
# Privacy mode

In privacy mode a prompt is made of the action and what the action is about, and of nothing else in the buffer
(`userPrompt_trigger`): for a continuation that is the line of the cursor up to the cursor, for all other actions the
selected text or the line of the cursor. So two buffers that agree on it send the same prompt, whatever else they hold
(`userPrompt_eq_of_subject_eq`).
-/

namespace Scriptorium.Assist

open Editor Text

variable {b : Buffer}

/-- What an action is about: the text before the cursor on its line, or else the selected text, or the line of the
cursor when nothing is selected. -/
def subject (b : Buffer) : Action → List Char
  | .suggest => Span.text ⟨b.cursorLine.start, b.cursor⟩ b.text
  | _ => (b.selection.getD b.cursorLine).text b.text

/-- The prompt for an action that shows nothing but its subject. -/
def privatePrompt (action : Action) (subject : List Char) : List Char :=
  (instruction action).toList ++
    match action with
    | .suggest => lastBytes contextLimit subject
    | _ => "\nCODE:\n".toList ++ subject

/-! ## The line before the cursor -/

/-- Of a text cut at its front, what is left of the last line is the same part of that line. -/
theorem lastLine_lastBytes (limit : Nat) (cs : List Char) :
    lastLine (lastBytes limit cs) = lastBytes limit (lastLine cs) := by
  simp only [lastLine, lastBytes, List.reverse_reverse, takeWhile_take]

/-- The text between the start of the cursor's line and the cursor is the last line before the cursor. -/
theorem text_cursorLine (h : Boundary b.cursor b.text) :
    Span.text ⟨b.cursorLine.start, b.cursor⟩ b.text = lastLine (take b.cursor b.text) := by
  obtain ⟨front, back, htext, hcursor⟩ := h
  obtain ⟨lines, hlines⟩ : ∃ lines, front = lines ++ lastLine front := by
    refine ⟨(front.reverse.dropWhile (· != '\n')).reverse, ?_⟩
    rw [lastLine, ← List.reverse_append, List.takeWhile_append_dropWhile, List.reverse_reverse]
  have hsize : size front = size lines + size (lastLine front) := by rw [← size_append, ← hlines]
  have hstart : b.cursorLine.start = size lines := by
    have hline : b.cursorLine.start = size front - size (lastLine front) := by
      rw [Buffer.cursorLine, Buffer.lineAround, htext, ← hcursor, take_size_append, lastLine, size_reverse]
    omega
  have hback : b.text = lines ++ (lastLine front ++ back) := by rw [htext, ← List.append_assoc, ← hlines]
  rw [htext, ← hcursor, take_size_append, ← htext, Span.text, slice, hstart, hback, drop_size_append, hsize,
    Nat.add_sub_cancel_left, take_size_append]

/-! ## Prompts -/

/-- In privacy mode nothing but the subject of the action goes into the prompt. -/
theorem userPrompt_trigger (h : b.WellFormed) (e : Engine) (action : Action) (now : Nat) :
    userPrompt true (e.trigger b action now).1 = privatePrompt action (subject b action) := by
  have hcontext : lastLine (lastBytes contextLimit (take b.cursor b.text)) =
      lastBytes contextLimit (subject b .suggest) := by
    rw [lastLine_lastBytes, subject, text_cursorLine h.cursor]
  cases action with
  | suggest => exact congrArg ((instruction .suggest).toList ++ ·) hcontext
  | optimize | explain | fix error? =>
    simp [Engine.trigger, Request.ofBuffer, userPrompt, privatePrompt, Request.anchor, subject]

/-- Two buffers in which an action is about the same text make the same prompt, and a chat server is asked the same,
whatever else they hold and whatever was asked before. -/
theorem userPrompt_eq_of_subject_eq {b b' : Buffer} (hb : b.Reachable) (hb' : b'.Reachable) {action : Action}
    (h : subject b action = subject b' action) (e e' : Engine) (now now' : Nat) :
    userPrompt true (e.trigger b action now).1 = userPrompt true (e'.trigger b' action now').1 ∧
      ∀ c endpoint r, c.privacyMode = true →
        chatRequest c endpoint r (e.trigger b action now).1 =
          chatRequest c endpoint r (e'.trigger b' action now').1 := by
  have hprompt : userPrompt true (e.trigger b action now).1 = userPrompt true (e'.trigger b' action now').1 := by
    rw [userPrompt_trigger hb.wellFormed, userPrompt_trigger hb'.wellFormed, h]
  refine ⟨hprompt, fun c endpoint r hprivate => ?_⟩
  simp only [chatRequest, hprivate, hprompt]

/-- A line above the one that is gone on with stays private. -/
theorem userPrompt_eq_of_hidden_line :
    let b := Buffer.ofText 1 ['k', '\n', 'é']
    let b' := Buffer.ofText 2 ['é']
    let q := (Engine.trigger { buffer := 1 } b .suggest 0).1
    let q' := (Engine.trigger { buffer := 2 } b' .suggest 5).1
    b.Reachable ∧ b'.Reachable ∧ subject b .suggest = subject b' .suggest ∧
      userPrompt true q = userPrompt true q' ∧
      ∀ c endpoint r, c.privacyMode = true → chatRequest c endpoint r q = chatRequest c endpoint r q' := by
  have hsame : subject (Buffer.ofText 1 ['k', '\n', 'é']) .suggest = subject (Buffer.ofText 2 ['é']) .suggest := by
    decide
  exact ⟨Buffer.reachable_ofText 1 _, Buffer.reachable_ofText 2 _, hsame,
    userPrompt_eq_of_subject_eq (Buffer.reachable_ofText 1 _) (Buffer.reachable_ofText 2 _) hsame
      { buffer := 1 } { buffer := 2 } 0 5⟩

end Scriptorium.Assist
