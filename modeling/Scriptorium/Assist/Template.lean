import Scriptorium.Assist.Request
import Scriptorium.Editor.Completion
import Scriptorium.Text.Newline

/-!
# Offline answers

Answers that follow from the code alone: the best completion at the cursor or a starter snippet, the code
without needless blanks, a count of its lines with the registry's words on the members it uses, and the code
guarded against failing.
-/

namespace Scriptorium.Assist

open Editor Text

/-- Offered where nothing can be completed. -/
def starterSnippet : List Char :=
  "local t = data.load_csv(\"input.csv\")\nhost.log(\"rows: \" .. t.row_count)".toList

/-- What is missing of a completion, with parentheses after a method. -/
def remainder (c : Completion) (typed : List Char) : List Char :=
  let known := match Completion.splitQualifier? typed with
    | some (_, name) => name
    | none => typed
  c.label.toList.drop known.length ++ if c.kind = .method then ['(', ')'] else []

/-- The rest of the best completion at the end of the code, or the snippet. -/
def continuation (r : Registry) (context : List Char) : List Char :=
  match typedAt? context (size context) with
  | none | some [] => starterSnippet
  | some typed =>
    match Completion.items r typed with
    | [] => starterSnippet
    | c :: _ => if (remainder c typed).isEmpty then starterSnippet else remainder c typed

/-! ## Explaining -/

/-- The members that the tokens name with their namespace, in order. -/
def mentionedMembers (r : Registry) : List Token → List Member
  | ns :: sep :: member :: rest =>
    let more := mentionedMembers r (sep :: member :: rest)
    if ns.kind = .name ∧ sep.kind = .symbol ∧ member.kind = .name ∧
        (sep.text = ['.'] ∨ sep.text = [':']) then
      match r.resolve (String.ofList ns.text) (String.ofList member.text) with
      | some m => m :: more
      | none => more
    else more
  | _ => []

/-- The members without those whose qualified name came before. -/
def firstMentions : List String → List Member → List Member
  | _, [] => []
  | seen, m :: ms =>
    if m.qualifiedName ∈ seen then firstMentions seen ms
    else m :: firstMentions (m.qualifiedName :: seen) ms

/-- The number of lines of the code that are not blank, and a line for each member it uses. -/
def explanation (r : Registry) (code : List Char) : List Char :=
  let count := ((lines code).filter fun line => !isBlankText line).length
  let heading := toString count ++ " line" ++ (if count = 1 then "" else "s") ++ " of Lua."
  let members := firstMentions [] (mentionedMembers r (tokenize code))
  (heading ++ String.join (members.map fun m =>
    "\n" ++ m.qualifiedName ++ ": " ++ m.description)).toList

/-! ## Rewriting -/

/-- The lines without blanks at their ends, and at most one empty line after another line. -/
def tidyLines : Bool → List (List Char) → List (List Char)
  | _, [] => []
  | afterEmpty, line :: rest =>
    let line := trimEnd line
    if line.isEmpty && afterEmpty then tidyLines true rest
    else line :: tidyLines line.isEmpty rest

/-- The code without blanks at the ends of lines and without runs of empty lines. -/
def tidy (code : List Char) : List Char := join ['\n'] (tidyLines false (lines code))

/-- The comment that names the error to fix. -/
def fixNote (error : String) : List Char :=
  "-- fix: ".toList ++ trim ((lines error.toList).headD []) ++ ['\n']

/-- The line before guarded code. -/
def guardHeader : List Char := "local ok, err = pcall(function()\n".toList

/-- The lines after guarded code. -/
def guardFooter : List Char :=
  "end)\nif not ok then\n  host.log(\"error: \" .. tostring(err))\nend".toList

/-- A line of guarded code. -/
def guardedLine (line : List Char) : List Char :=
  if line.isEmpty then ['\n'] else ' ' :: ' ' :: (line ++ ['\n'])

/-- The code run under protection, with its failure logged. -/
def guarded (code : List Char) (error? : Option String) : List Char :=
  (error?.map fixNote).getD [] ++ guardHeader ++ (lines (trimEnd code)).flatMap guardedLine ++
    guardFooter

/-! ## The backend -/

/-- The answer to a request. Every action but the first needs code that is not blank. -/
def templateAnswer (r : Registry) (q : Request) : Except SuggestionError (List Char) :=
  if q.action ≠ .suggest ∧ isBlankText q.selection then .error (.invalidResponse "nothing selected")
  else
    match q.action with
    | .suggest => .ok (continuation r q.context)
    | .optimize => .ok (tidy q.selection)
    | .explain => .ok (explanation r q.selection)
    | .fix error? => .ok (guarded q.selection error?)

/-- Answers without a network. -/
def templateBackend (r : Registry) : Backend := ⟨"template", templateAnswer r⟩

end Scriptorium.Assist
