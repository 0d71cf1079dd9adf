import AgentFlow.Json.Fields
import AgentFlow.Text.Basic

/-!
# Agent frameworks

The frameworks that agent modules can be generated for.
-/

namespace AgentFlow

/-- A framework. The custom agent needs none: its module carries a small runtime of its own. -/
inductive Framework where
  | adk
  | openAIAgents
  | langGraph
  | customAgent
  deriving DecidableEq, Repr

namespace Framework

def all : List Framework := [.adk, .openAIAgents, .langGraph, .customAgent]

def name : Framework → String
  | .adk => "adk"
  | .openAIAgents => "openai-agents"
  | .langGraph => "langgraph"
  | .customAgent => "custom-agent"

/-- A framework as stored: by its name, or by a neutral name that two of them have. -/
def ofStoredName? (s : String) : Option Framework :=
  if s = "agent-framework-a" then some .adk
  else if s = "agent-framework-b" then some .openAIAgents
  else all.find? fun f => f.name == s

/-- A framework as a user names it: in any case, with blanks around it, or by a short name. -/
def ofUserName? (s : String) : Option Framework :=
  let word := String.ofList ((Text.trim s.toList).map Char.toLower)
  if word = "openai" then some .openAIAgents
  else if word = "custom" then some .customAgent
  else ofStoredName? word

/-- What is said of a name that no framework has. -/
def unknownMessage (s : String) : String := "Unknown target framework '" ++ s ++ "'"

def ofJson? : Json → Option Framework := Json.word? ofStoredName?

/-- The model of an agent that no model is drawn next to. -/
def defaultModel : Framework → String
  | .adk => "gemini-2.0-flash"
  | .openAIAgents => "gpt-4o-mini"
  | .langGraph => "openai:gpt-4o-mini"
  | .customAgent => "gpt-4o-mini"

end Framework

end AgentFlow
