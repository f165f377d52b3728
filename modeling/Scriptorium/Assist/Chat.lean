import Scriptorium.Assist.Request
import Scriptorium.Assist.Config
import Scriptorium.Registry.Basic
import Scriptorium.Json.Reader
import Scriptorium.Json.Record
import Scriptorium.Text.Blank

/-!
# Answers from a chat server

A request becomes a chat of two messages: the system prompt lists the members that scripts can use, the user
prompt holds the code. In privacy mode the code around the selection stays out of it. The first choice of the
server's reply is the answer, once the fences around its code are gone.

The exchange itself is a parameter: `HttpClient` says what the server answers.
-/

namespace Scriptorium.Assist

open Text

structure ChatMessage where
  role : String
  content : List Char
  deriving DecidableEq, Repr, Inhabited

structure HttpRequest where
  url : String
  headers : List (String × String)
  timeoutSecs : Nat
  model : String
  messages : List ChatMessage
  temperature : String
  maxTokens : Nat
  deriving DecidableEq, Repr, Inhabited

inductive HttpReply where
  | received (status : Nat) (body : String)
  | timedOut
  | failed (text : String)
  deriving DecidableEq, Repr, Inhabited

structure HttpClient where
  send : HttpRequest → HttpReply
  /-- What the client says of a body that is not of the expected form. -/
  undecodable : String

/-! ## Prompts -/

/-- The line of the system prompt for a member. -/
def memberLine (m : Member) : String := "- " ++ m.signature ++ ": " ++ m.description ++ "\n"

/-- The rules for the assistant, with the members of the enabled namespaces. -/
def systemPrompt (r : Registry) : List Char :=
  ("You are a coding assistant inside a Lua 5.4 macro editor.\n" ++
    "Scripts can use these host objects:\n" ++
    String.join ((r.enabledNamespaces.flatMap (·.members)).map memberLine) ++
    "\nRULES:\n" ++
    "1. For code requests return ONLY Lua code, no markdown fences, no commentary\n" ++
    "2. For explain requests return a few short plain-text sentences\n" ++
    "3. The os, io and require libraries are not available\n").toList

/-- The text after the last line end. -/
def lastLine (cs : List Char) : List Char := (cs.reverse.takeWhile (· != '\n')).reverse

/-- What the user prompt asks for. -/
def instruction : Action → String
  | .suggest =>
    "Continue the code at the cursor. Return only the text to insert.\n\nCODE BEFORE CURSOR:\n"
  | .optimize =>
    "Rewrite this code to be clearer and faster without changing what it does. Return only the replacement code.\n"
  | .explain => "Explain what this code does. Plain text, no code.\n"
  | .fix none => "This code fails. Return only a corrected replacement.\n"
  | .fix (some error) =>
    "This code fails. Return only a corrected replacement.\n\nERROR:\n" ++ error ++ "\n"

/-- The code that the user prompt shows, with the code before it unless it is private. -/
def userPrompt (privacyMode : Bool) (q : Request) : List Char :=
  let asked := (instruction q.action).toList
  match q.action with
  | .suggest => asked ++ if privacyMode then lastLine q.context else q.context
  | _ =>
    let before :=
      if privacyMode || q.context.isEmpty then []
      else "\nPRECEDING CODE:\n".toList ++ q.context ++ ['\n']
    asked ++ before ++ "\nCODE:\n".toList ++ q.selection

/-! ## Replies -/

/-- A fence around code. -/
def fence : List Char := ['`', '`', '`']

/-- The content of the first fenced block, or all of a text without a fence. -/
def fencedBody (content : List Char) : List Char :=
  match splitOnce fence content with
  | none => content
  | some (_, after) =>
    let code := (after.dropWhile (· != '\n')).drop 1
    match splitOnce fence code with
    | some (body, _) => body
    | none => code

/-- The code in a reply. -/
def cleanReply (content : List Char) : Except SuggestionError (List Char) :=
  let body := trimEnd ((fencedBody content).dropWhile (· == '\n'))
  if body.isEmpty then
    .error (.invalidResponse ("no code in reply: " ++ String.ofList content))
  else .ok body

/-- A record of a single field that has to be there. -/
def onlyField? (key : String) (read : Json → Option α) (v : Json) : Option α :=
  (Json.decode? [.of key (fun s => s) (fun a _ => a) (fun v => (read v).map some) fun _ => .null]
    none v).join

/-- The contents of the choices in a reply. -/
def choicesOf? (body : String) : Option (List String) :=
  (Json.read? body.toList).bind <|
    onlyField? "choices" (Json.asList? (onlyField? "message" (onlyField? "content" Json.asString?)))

/-- The message in the body of a failure, or the body as it is. -/
def failureText (body : String) : String :=
  ((Json.read? body.toList).bind
    (onlyField? "error" (onlyField? "message" Json.asString?))).getD body

/-! ## The backend -/

/-- The endpoint without slashes at its end. -/
def trimmedEndpoint (endpoint : String) : String :=
  String.ofList (endpoint.toList.reverse.dropWhile (· == '/')).reverse

/-- The exchange that a request asks for. -/
def chatRequest (c : AssistConfig) (endpoint : String) (r : Registry) (q : Request) : HttpRequest :=
  { url := trimmedEndpoint endpoint ++ "/chat/completions"
    headers := [("Content-Type", "application/json")] ++
      (c.apiKey?.map fun key => ("Authorization", "Bearer " ++ key)).toList
    timeoutSecs := c.timeoutSecs
    model := c.model
    messages := [⟨"system", systemPrompt r⟩, ⟨"user", userPrompt c.privacyMode q⟩]
    temperature := "0.2"
    maxTokens := 512 }

/-- The answer that a reply gives. -/
def answerOf (c : AssistConfig) (undecodable : String) : HttpReply →
    Except SuggestionError (List Char)
  | .timedOut => .error (.timedOut c.timeoutSecs)
  | .failed text => .error (.network text)
  | .received status body =>
    if status < 200 ∨ 300 ≤ status then .error (.api status (failureText body))
    else
      match choicesOf? body with
      | none => .error (.invalidResponse undecodable)
      | some [] => .error (.invalidResponse "No choices in response")
      | some (content :: _) => cleanReply content.toList

/-- Asks a chat server; the configuration has to give its endpoint. -/
def chatBackend (client : HttpClient) (c : AssistConfig) (r : Registry) :
    Except SuggestionError Backend :=
  match c.endpoint? with
  | none => .error (.notConfigured "no endpoint for provider")
  | some endpoint =>
    .ok ⟨c.provider.label, fun q =>
      answerOf c client.undecodable (client.send (chatRequest c endpoint r q))⟩

end Scriptorium.Assist
