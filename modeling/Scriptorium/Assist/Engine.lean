import Scriptorium.Assist.Request
import Scriptorium.HostLog.Basic
import Scriptorium.Text.Newline

/-!
# Inline suggestions

An engine serves one buffer. A trigger starts a request with a new generation; the answer to it is shown as
ghost text and only goes into the buffer when the user accepts it while the buffer is as it was. Answers
to requests that were cancelled, timed out or replaced are discarded.

At any time at most one request is outstanding: `Phase` says how far it is. A request that is no longer
outstanding has an `Outcome`.
-/

namespace Scriptorium.Assist

open Editor Text

/-- How far the outstanding request is. -/
inductive Phase where
  | idle
  | requesting (generation : Nat) (action : Action) (target : Span)
  | presented (generation : Nat) (ghost : GhostEdit)
  deriving DecidableEq, Repr, Inhabited

namespace Phase

def generation? : Phase → Option Nat
  | .idle => none
  | .requesting g _ _ => some g
  | .presented g _ => some g

def isActive : Phase → Bool
  | .idle => false
  | _ => true

end Phase

/-- How a request ended. -/
inductive Outcome where
  | accepted (generation : Nat)
  | cancelled (generation : Nat)
  | failed (generation : Nat) (error : SuggestionError)
  deriving DecidableEq, Repr, Inhabited

def Outcome.generation : Outcome → Nat
  | .accepted g => g
  | .cancelled g => g
  | .failed g _ => g

/-- What became of a response. -/
inductive Disposition where
  | presented
  | failed
  | discarded
  deriving DecidableEq, Repr, Inhabited

structure Engine where
  /-- The buffer it serves. -/
  buffer : Nat
  phase : Phase := .idle
  lastOutcome? : Option Outcome := none
  nextGeneration : Nat := 1
  /-- When the outstanding request was made, in milliseconds, until it is answered. -/
  requestedAt? : Option Nat := none
  /-- The revision of the buffer when the outstanding request was made. -/
  revision : Nat := 0
  timeoutMillis : Nat := 30000
  deriving DecidableEq, Repr, Inhabited

/-! ## Explanations -/

/-- A line as a comment; a line that is one already stays. -/
def commentLine (line : List Char) : List Char :=
  let line := trimEnd line
  if startsWith (trimStart line) ['-', '-'] then line
  else if line.isEmpty then ['-', '-']
  else '-' :: '-' :: ' ' :: line

/-- A text as lines of comments. -/
def asComment (text : List Char) : List Char :=
  (lines (trim text)).flatMap fun line => commentLine line ++ ['\n']

/-- The text shown for an answer. -/
def presentation (action : Action) (text : List Char) : List Char :=
  match action with
  | .explain => asComment text
  | _ => text

namespace Engine

def ghost? (e : Engine) : Option GhostEdit :=
  match e.phase with
  | .presented _ ghost => some ghost
  | _ => none

/-- Ends the outstanding request. -/
def settle (e : Engine) (o : Outcome) : Engine :=
  { e with phase := .idle, lastOutcome? := some o, requestedAt? := none }

/-- Ends the outstanding request as failed, which is logged as an error. -/
def fail (e : Engine) (j : Journal) (generation : Nat) (error : SuggestionError) :
    Outcome × Engine × Journal :=
  let o := Outcome.failed generation error
  (o, e.settle o,
    j.write .error ("suggestion " ++ toString generation ++ " failed: " ++ error.message))

/-- Drops the outstanding request or ghost text. -/
def cancel (e : Engine) : Option Outcome × Engine :=
  match e.phase.generation? with
  | some g => (some (.cancelled g), e.settle (.cancelled g))
  | none => (none, e)

/-- Starts a request; an outstanding one is cancelled first. -/
def trigger (e : Engine) (b : Buffer) (action : Action) (now : Nat) : Request × Engine :=
  let e := e.cancel.2
  let generation := e.nextGeneration
  ({ Request.ofBuffer b generation action with buffer := e.buffer },
    { e with
      phase := .requesting generation action (Request.target b action)
      nextGeneration := generation + 1
      requestedAt? := some now
      revision := b.revision })

/-- Takes a response. Only the one to the request that waits for it counts; its text is shown unless it is
blank. -/
def onResponse (e : Engine) (j : Journal) (r : Response) : Disposition × Engine × Journal :=
  match e.phase with
  | .requesting generation action target =>
    if r.buffer = e.buffer ∧ r.generation = generation then
      match r.result with
      | .error error => (.failed, (e.fail j generation error).2)
      | .ok text =>
        let shown := presentation action text
        if isBlankText shown then
          (.failed, (e.fail j generation (.invalidResponse "empty suggestion")).2)
        else
          (.presented,
            { e with phase := .presented generation ⟨target, shown⟩, requestedAt? := none }, j)
    else (.discarded, e, j)
  | _ => (.discarded, e, j)

/-- Puts the ghost text into the buffer. If the buffer is another one or has changed, the suggestion is
cancelled instead. -/
def accept (e : Engine) (b : Buffer) : Option Outcome × Engine × Buffer :=
  match e.phase with
  | .presented g ghost =>
    if b.id = e.buffer ∧ b.revision = e.revision then
      (some (.accepted g), e.settle (.accepted g), b.replaceRange ghost.range ghost.text)
    else (some (.cancelled g), e.settle (.cancelled g), b)
  | _ => (none, e, b)

/-- Called after the user edits the buffer: typing dismisses the suggestion. -/
def onBufferEdit (e : Engine) (b : Buffer) : Option Outcome × Engine :=
  if e.phase.isActive && b.revision != e.revision then e.cancel else (none, e)

/-- Fails a request that has waited as long as the timeout. -/
def checkTimeout (e : Engine) (j : Journal) (now : Nat) : Option Outcome × Engine × Journal :=
  match e.phase, e.requestedAt? with
  | .requesting g _ _, some started =>
    if now - started < e.timeoutMillis then (none, e, j)
    else
      let (o, e, j) := e.fail j g (.timedOut (e.timeoutMillis / 1000))
      (some o, e, j)
  | _, _ => (none, e, j)

end Engine

end Scriptorium.Assist
