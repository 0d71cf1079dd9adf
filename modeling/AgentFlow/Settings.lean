import AgentFlow.Execution
import AgentFlow.Repair.Chat
import AgentFlow.Verify.Options

/-!
# Settings

The settings of the program: every part has a default, and variables of the environment override the addresses and
the key.
-/

namespace AgentFlow

/-- All settings. -/
structure Settings where
  verify : VerifyOptions := {}
  limiter : LimiterConfig := {}
  fixer : ChatConfig := {}
  execution : ExecutionConfig := {}

namespace Settings

/-- Equal as far as their numbers are. -/
def same (a b : Settings) : Bool :=
  a.verify.same b.verify && a.limiter == b.limiter && a.fixer == b.fixer && a.execution.same b.execution

def toJson (s : Settings) : Json :=
  .obj [("verify", s.verify.toJson), ("limiter", s.limiter.toJson), ("fixer", s.fixer.toJson),
    ("execution", s.execution.toJson)]

def ofFields? (fs : Json.Fields) : Option Settings := do
  let verify ← fs.get 0 ["verify"] (.default {}) (VerifyOptions.ofJson? (Json.maxDepth - 1))
  let limiter ← fs.get 1 ["limiter"] (.default {}) LimiterConfig.ofJson?
  let fixer ← fs.get 2 ["fixer"] (.default {}) ChatConfig.ofJson?
  let execution ← fs.get 3 ["execution"] (.default {}) ExecutionConfig.ofJson?
  some ⟨verify, limiter, fixer, execution⟩

def ofJson? (v : Json) : Option Settings := (v.fields? 4).bind ofFields?

/-- The settings that a text holds. -/
def parse? (text : String) : Option Settings := (Json.parse? text).bind ofJson?

/-- The variable with the key of the chat service. -/
def apiKeyVariable : String := "FLOWSMITH_LLM_API_KEY"

/-- The variable with the address of the chat service. -/
def baseUrlVariable : String := "FLOWSMITH_LLM_BASE_URL"

/-- The variable with the address of the execution service. -/
def endpointVariable : String := "FLOWSMITH_EXECUTION_URL"

/-- The settings with what the variables say; a blank variable says nothing. -/
def override (s : Settings) (lookup : String → Option String) : Settings :=
  let get := fun name => Text.nonBlank (lookup name)
  { s with
    fixer := { s.fixer with
      apiKey := (get apiKeyVariable).or s.fixer.apiKey
      baseUrl := (get baseUrlVariable).getD s.fixer.baseUrl }
    execution := { s.execution with endpoint := (get endpointVariable).getD s.execution.endpoint } }

end Settings

end AgentFlow
