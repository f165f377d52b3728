import Scriptorium.Settings.Basic

/-!
# The assistant's configuration

What the settings and the environment together say about the assistant: which provider answers, where, with
which model and key, and why it cannot answer when it cannot. Keys come from the environment only.
-/

namespace Scriptorium

inductive KeySource where
  | environment
  | none
  deriving DecidableEq, Repr, Inhabited

def KeySource.label : KeySource → String
  | .environment => "environment"
  | .none => "none"

inductive AssistStatus where
  | disabled
  | ready
  | missingKey
  deriving DecidableEq, Repr, Inhabited

def AssistStatus.label : AssistStatus → String
  | .disabled => "disabled"
  | .ready => "ready"
  | .missingKey => "missing_key"

structure AssistConfig where
  provider : Provider
  model : String
  endpoint? : Option String
  privacyMode : Bool
  timeoutSecs : Nat
  apiKey? : Option String := none
  keySource : KeySource := .none
  status : AssistStatus
  /-- Why the provider cannot be asked. -/
  blockingReason? : Option String := none
  deriving DecidableEq, Repr, Inhabited

namespace AssistConfig

/-- The endpoint of OpenAI when none is set. -/
def openAIEndpoint : String := "https://api.openai.com/v1"

/-- The variable that holds the key of a provider. -/
def keyVariable (p : Provider) : String := "MACROHOST_" ++ p.label.toUpper ++ "_KEY"

/-- The key of a provider; an empty one does not count. -/
def key? (env : Environment) (p : Provider) : Option String :=
  (env.value? (keyVariable p)).filter (!·.isEmpty)

def endpointOf (s : AssistSettings) : Option String :=
  match s.provider with
  | .localServer => some s.effectiveEndpoint
  | .openAI => some (s.endpoint?.getD openAIEndpoint)
  | .template | .none => none

/-- The configuration that settings and environment give. A request waits at least a second. -/
def resolve (s : AssistSettings) (env : Environment) : AssistConfig :=
  let timeoutSecs := max 1 s.requestTimeoutSecs.toNat
  if !s.provider.isEnabled then
    { provider := s.provider, model := "", endpoint? := none, privacyMode := s.privacyMode, timeoutSecs
      status := .disabled, blockingReason? := some "AI is disabled (ai.provider = \"none\")" }
  else
    let ready : AssistConfig :=
      { provider := s.provider, model := s.effectiveModel, endpoint? := endpointOf s
        privacyMode := s.privacyMode, timeoutSecs, status := .ready }
    if s.provider.needsKey then
      match key? env s.provider with
      | some key => { ready with apiKey? := some key, keySource := .environment }
      | none =>
        { ready with
          status := .missingKey
          blockingReason? :=
            some ("No API key found. Set via keychain or " ++ keyVariable s.provider) }
    else ready

def isReady (c : AssistConfig) : Bool := c.status == .ready

/-- The lines that describe the configuration. -/
def summaryLines (c : AssistConfig) : List String :=
  ["AI Configuration", "──────────────────────────────",
   "Provider:          " ++ c.provider.label,
   "Status:            " ++ c.status.label,
   "Model:             " ++ c.model,
   "Key source:        " ++ c.keySource.label] ++
  (c.endpoint?.map ("Endpoint:          " ++ ·)).toList ++
  ["Privacy mode:      " ++ (if c.privacyMode then "on" else "off"),
   "Request timeout:   " ++ toString c.timeoutSecs ++ "s"] ++
  (c.blockingReason?.map ("Reason:            " ++ ·)).toList

/-- The description of the configuration. -/
def summary (c : AssistConfig) : String := String.join (c.summaryLines.map (· ++ "\n"))

end AssistConfig

end Scriptorium
