import AgentFlow.Framework.Basic
import AgentFlow.Graph.Capability
import AgentFlow.Graph.Wiring
import AgentFlow.Launch.Basic
import AgentFlow.Python.Literal
import AgentFlow.Python.Module

/-!
# Plans

A plan is what a graph says about its first agent, with identifiers for everything that the generated module will
bind: all tools of the graph become functions, and the tool servers wired to the agent become toolsets.
-/

namespace AgentFlow

/-- A tool of the graph. -/
structure ToolPlan where
  nodeId : String
  ident : String
  label : String
  description : Option String
  deriving DecidableEq, Repr

/-- A tool server wired to the agent. -/
structure ToolsetPlan where
  ident : String
  config : LaunchConfig
  deriving DecidableEq

/-- All that the module of an agent is generated from. -/
structure AgentPlan where
  /-- The label of the agent, as written. -/
  label : String
  /-- The name of the agent inside the module. -/
  agentName : String
  description : Option String
  instruction : Option String
  model : Option String
  tools : List ToolPlan
  toolsets : List ToolsetPlan
  /-- The identifiers of the tools that the agent is given. -/
  boundTools : List String
  capabilities : Capabilities
  deriving DecidableEq

namespace Plan

/-- The name that every module binds its agent to. -/
def agentBinding : String := "root_agent"

/-- Names that modules bind or import themselves, and that no label may take. -/
def reserved : List String :=
  [agentBinding, "agent", "agents", "asyncio", "create_react_agent", "create_static_tool_filter", "function_tool",
   "json", "main", "memory_service", "protocol_client", "runner", "session", "session_service", "stack", "tool",
   "types", "config"]

/-- Only the reserved names in use. -/
def startNames : Names := reserved.foldl Names.reserve .empty

/-- What a toolset is called, before it becomes an identifier. -/
def toolsetLabel (name : String) : String := if name = "" then "" else name ++ "_toolset"

/-- The name of a model: the one given, or else its label. -/
def modelName (n : Node) : Option String := (Text.stripped n.modelName).or (Text.stripped (some n.label))

/-- The plan of a tool. -/
def planTool (n : Node) (ident : String) : ToolPlan :=
  ⟨n.id, ident, Text.strip n.label, Text.stripped n.description⟩

/-- The label and fallback for each tool. -/
def toolLabels (ns : List Node) : List (String × String) :=
  ns.mapIdx fun i n => (n.label, "tool_" ++ toString (i + 1))

/-- The label and fallback for each toolset. -/
def toolsetLabels (cs : List LaunchConfig) : List (String × String) :=
  cs.mapIdx fun i c => (toolsetLabel c.name, "protocol_" ++ toString (i + 1) ++ "_toolset")

/-- The server goes with the agent: a node that launches it is wired to the agent, or no node launches it, or there
is no agent. -/
def bound (links : Option AgentLinks) (c : LaunchConfig) : Bool :=
  match links with
  | none => true
  | some l => c.sources.isEmpty || c.sources.any l.reachesProtocol

/-! ### Parts that modules of several frameworks share -/

/-- The message that a module sends when it runs as a program. -/
def samplePrompt : String := "Hello! What can you do?"

/-- The comment above the tool servers. -/
def serverComment : String := "Tool servers launched as child processes over stdio."

/-- The line that runs the main function in an event loop. -/
def runMain : String := "asyncio.run(main())"

/-- The asynchronous main function. -/
def mainFunction (body : List String) : Python.Function :=
  { name := "main"
    isAsync := true
    doc := some "Sends one sample message and prints the agent's reply."
    body := body }

/-- The binding that names what the module exports. -/
def exportDecl : Python.Decl := .assign "__all__" .support (.strs [agentBinding])

end Plan

namespace AgentPlan

/-- The plan of a graph whose tool servers are launched as in `configs`. -/
def build (g : Graph) (configs : List LaunchConfig) : AgentPlan :=
  let agent := g.firstOfKind .agent
  let links := agent.map g.agentLinks
  let toolNodes := g.ofKind .tool
  let (toolIdents, names) := Plan.startNames.allocateAll (Plan.toolLabels toolNodes)
  let tools := toolNodes.zipWith Plan.planTool toolIdents
  let bound := configs.filter (Plan.bound links)
  let (toolsetIdents, _) := names.allocateAll (Plan.toolsetLabels bound)
  let toolsets := toolsetIdents.zipWith ToolsetPlan.mk bound
  match agent with
  | none =>
    { label := "Placeholder Agent"
      agentName := "placeholder_agent"
      description := some "Placeholder agent. Add an agent node to the graph."
      instruction := none
      model := none
      tools := tools
      toolsets := toolsets
      boundTools := tools.map (·.ident)
      capabilities := .ofGraph g }
  | some a =>
    let l := g.agentLinks a
    { label := Text.strip a.label
      agentName := Naming.identifier a.label "agent"
      description := Text.stripped a.description
      instruction := Text.stripped a.instruction
      model := l.model.bind Plan.modelName
      tools := tools
      toolsets := toolsets
      boundTools := l.tools.filterMap fun n => (tools.find? fun t => t.nodeId == n.id).map (·.ident)
      capabilities := .ofGraph g }

/-- The identifiers of the toolsets. -/
def toolsetIdents (p : AgentPlan) : List String := p.toolsets.map (·.ident)

/-- The model, or the framework's own. -/
def modelFor (p : AgentPlan) (f : Framework) : String := p.model.getD f.defaultModel

/-- What the agent is told. -/
def instructionText (p : AgentPlan) : String :=
  (p.instruction.or p.description).getD "You are a helpful assistant."

/-- The docstring of the module. -/
def header (p : AgentPlan) (f : Framework) : String :=
  (if p.label = "" then p.agentName else p.label) ++ " agent for the " ++ f.name
    ++ " framework, generated by flowsmith."

end AgentPlan

namespace ToolPlan

/-- The label, or the identifier if that is empty. -/
def title (t : ToolPlan) : String := if t.label = "" then t.ident else t.label

/-- The function of a tool: it answers with what it was asked, so that the module runs as it is. -/
def function (t : ToolPlan) (decorators : List String) : Python.Function :=
  Python.Function.documented
    { name := t.ident
      decorators := decorators
      params := ["query: str"]
      returns := some "dict"
      body := ["return \x7b\"status\": \"success\", \"tool\": " ++ Python.quote t.title
        ++ ", \"query\": query\x7d"] }
    (t.description.getD ("Runs the " ++ t.title ++ " tool."))

end ToolPlan

end AgentFlow
