import AgentFlow.Json.Double
import AgentFlow.Repair.Basic
import AgentFlow.Service.Http
import AgentFlow.Service.Limiter

/-!
# Repairs by a language model

The repairer that asks a language model through a chat service. Every call goes through a limiter.
-/

namespace AgentFlow

/-- How the chat service is reached. -/
structure ChatConfig where
  baseUrl : String := "https://api.openai.com/v1"
  model : String := "gpt-4o-mini"
  timeoutSecs : Nat := 60
  apiKey : Option String := none
  deriving DecidableEq, Repr

namespace ChatConfig

def timeoutMs (c : ChatConfig) : Nat := 1000 * c.timeoutSecs

/-- The stored form, which does not hold the key. -/
def toJson (c : ChatConfig) : Json :=
  .obj [("baseUrl", .str c.baseUrl), ("model", .str c.model), ("timeoutSecs", .nat c.timeoutSecs)]

def ofFields? (fs : Json.Fields) : Option ChatConfig := do
  let d : ChatConfig := {}
  let baseUrl ← fs.get 0 ["baseUrl"] (.default d.baseUrl) Json.str?
  let model ← fs.get 1 ["model"] (.default d.model) Json.str?
  let timeoutSecs ← fs.get 2 ["timeoutSecs"] (.default d.timeoutSecs) (Json.unsigned? 64)
  let apiKey ← fs.get 3 ["apiKey"] (.default none) (Json.optional? Json.str?)
  some ⟨baseUrl, model, timeoutSecs, apiKey⟩

def ofJson? (v : Json) : Option ChatConfig := (v.fields? 4).bind ofFields?

end ChatConfig

namespace Chat

/-- What the model is told about its task. -/
def systemPrompt : String :=
  "You repair Python agent code. Fix exactly the listed problems and keep everything else unchanged, including the "
    ++ "`root_agent` binding. Reply with a JSON object \x7b\"code\": <complete fixed file>, \"confidence\": <0-100>, "
    ++ "\"explanation\": <one sentence>\x7d and nothing else."

/-- The authorization, if there is a key; a key that no header can hold is refused. -/
def authorization (c : ChatConfig) : Except ServiceError (Option String) :=
  match c.apiKey.filter fun k => k != "" with
  | none => .ok none
  | some key =>
    if key.toList.all Http.isHeaderChar then .ok (some ("Bearer " ++ key))
    else .error (.unauthorized "failed to parse header value")

/-- A message of a chat. -/
def message (role content : String) : Json := .obj [("role", .str role), ("content", .str content)]

def payload (c : ChatConfig) (r : RepairRequest) : Json :=
  .obj [("model", .str c.model), ("temperature", .float 0.0),
    ("messages", .arr [message "system" systemPrompt, message "user" r.prompt])]

/-- The address of chats. -/
def url (c : ChatConfig) : String :=
  String.ofList (c.baseUrl.toList.reverse.dropWhile (· = '/')).reverse ++ "/chat/completions"

/-- What the model said, in a body that holds it. -/
def content? (body : Json) : Option String := do
  let choices ← (body.get? "choices").bind Json.arr?
  let first ← choices.head?
  let message ← first.get? "message"
  (message.get? "content").bind Json.str?

/-- The answer in what came back. -/
def read (c : ChatConfig) : Exchange → Except ServiceError RepairResponse
  | .answer status body retryAfter complaint =>
    let text := Http.bodyText body
    if Http.isSuccess status then
      match Json.load? text with
      | none => .error (.malformed complaint)
      | some v =>
        match content? v with
        | none => .error (.malformed "Missing message content")
        | some s => RepairResponse.parse s
    else .error (.ofModelStatus status text (Http.retryAfter? retryAfter))
  | .dropped reason => .error (.network reason)
  | .hung => .error (.timeout c.timeoutMs)

variable {τ : Type}

/-- A repair call through a limiter and a transport with states of type `τ`, that starts and ends at the given
times. -/
def repair (c : ChatConfig) (bounds : LimiterConfig) (started ended : Nat)
    (transport : τ → HttpRequest → Exchange × τ) (state : Limiter × τ) (r : RepairRequest) :
    Except ServiceError RepairResponse × (Limiter × τ) :=
  match state.1.start? bounds started with
  | none => (.error .circuitOpen, state)
  | some (_, limiter) =>
    let (result, t) :=
      match authorization c with
      | .error e => (Except.error e, state.2)
      | .ok authorization =>
        let (exchange, t) := transport state.2 ⟨url c, authorization, payload c r⟩
        (read c exchange, t)
    (result, (limiter.complete bounds ended result, t))

end Chat

end AgentFlow
