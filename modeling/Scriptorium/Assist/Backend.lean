import Scriptorium.Assist.Template
import Scriptorium.Assist.Chat
import Scriptorium.Assist.Engine

/-!
# Choosing and asking a backend

The configuration decides which backend answers. A dispatcher asks it and collects the responses until the
editor hands them to its engine.
-/

namespace Scriptorium.Assist

/-- The backend that the configuration asks for. -/
def backendOf (client : HttpClient) (c : AssistConfig) (r : Registry) :
    Except SuggestionError Backend :=
  match c.status with
  | .disabled => .error (.notConfigured (c.blockingReason?.getD "AI is disabled"))
  | .missingKey => .error (.missingKey (AssistConfig.keyVariable c.provider))
  | .ready =>
    match c.provider with
    | .template => .ok (templateBackend r)
    | .openAI | .localServer => chatBackend client c r
    | .none => .error (.notConfigured "AI is disabled")

/-- A backend with the responses that nobody has taken yet. -/
structure Dispatcher where
  backend : Backend
  arrived : List Response := []

namespace Dispatcher

/-- Asks the backend. -/
def dispatch (d : Dispatcher) (q : Request) : Dispatcher :=
  { d with arrived := d.arrived ++ [⟨q.buffer, q.generation, d.backend.suggest q⟩] }

/-- Hands every response to the engine. -/
def pump (d : Dispatcher) (e : Engine) (j : Journal) :
    List Disposition × Dispatcher × Engine × Journal :=
  let (out, e, j) := d.arrived.foldl (fun (out, e, j) r =>
    let (disposition, e, j) := e.onResponse j r
    (out ++ [disposition], e, j)) ([], e, j)
  (out, { d with arrived := [] }, e, j)

end Dispatcher

end Scriptorium.Assist
