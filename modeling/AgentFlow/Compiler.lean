import AgentFlow.Framework.Adk
import AgentFlow.Framework.Custom
import AgentFlow.Framework.LangGraph
import AgentFlow.Framework.OpenAIAgents
import AgentFlow.Graph.Defect
import AgentFlow.Launch.OfGraph
import AgentFlow.Python.Render
import AgentFlow.Source

/-!
# Compiling a graph

A graph becomes the module of its first agent for one framework, and a companion module that exports the agent.
Compiling never fails: what is missing has a default and what is wrong is skipped. `compileStrict` refuses a graph
with structural defects.
-/

namespace AgentFlow

/-- The module of a plan for a framework. -/
def AgentPlan.moduleFor (p : AgentPlan) : Framework → Python.Module
  | .adk => Adk.module p
  | .openAIAgents => OpenAIAgents.module p
  | .langGraph => LangGraph.module p
  | .customAgent => Custom.module p

/-- What is to be compiled, and how. -/
structure Compiler where
  graph : Graph
  framework : Framework
  /-- Tool servers are wanted. -/
  protocol : Bool
  /-- Launch records to be used in place of the graph's own. -/
  configs : Option (List LaunchConfig) := none
  /-- The credential of tool servers that have none. -/
  credential : Option String := none
  deriving DecidableEq

/-- The modules of an agent. -/
structure CompiledAgent where
  framework : Framework
  code : String
  companion : String
  /-- The launch records of the tool servers that the code uses. -/
  configs : List LaunchConfig
  deriving DecidableEq

namespace Compiler

/-- Compiles a graph; tool servers are wanted if it describes any. -/
def ofGraph (g : Graph) (f : Framework) : Compiler := { graph := g, framework := f, protocol := g.hasProtocol }

/-- With tool servers, or without. -/
def withProtocol (c : Compiler) (wanted : Bool) : Compiler := { c with protocol := wanted }

/-- With these launch records, and so with tool servers. -/
def withConfigs (c : Compiler) (configs : List LaunchConfig) : Compiler :=
  { c with protocol := true, configs := some configs }

/-- With a credential, unless it is blank. -/
def withCredential (c : Compiler) (credential : String) : Compiler :=
  { c with credential := Text.nonBlank (some credential) }

/-- The launch records that code is generated with. -/
def launchConfigs (c : Compiler) : List LaunchConfig :=
  if c.protocol then
    let configs :=
      match c.configs with
      | some supplied => LaunchConfig.dedupe supplied
      | none => c.graph.launchConfigs c.credential
    if configs.isEmpty then [.builtIn c.credential] else configs
  else []

/-- The plan of the graph. -/
def plan (c : Compiler) : AgentPlan := .build c.graph c.launchConfigs

/-- The module of the graph. -/
def module (c : Compiler) : Python.Module := c.plan.moduleFor c.framework

/-- The text of the companion module. -/
def companion : String := "from .agent import " ++ Plan.agentBinding ++ "\n"

/-- The modules of the graph. -/
def compile (c : Compiler) : CompiledAgent where
  framework := c.framework
  code := Source.clean c.module.render
  companion := companion
  configs := c.plan.toolsets.map (·.config)

/-- The modules of a graph without defects. -/
def compileStrict (c : Compiler) : Except (List Defect) CompiledAgent :=
  if c.graph.defects.isEmpty then .ok c.compile else .error c.graph.defects

end Compiler

/-- The files of the package of an agent. -/
def CompiledAgent.files (a : CompiledAgent) : TextMap :=
  (TextMap.empty.insert "agent.py" a.code).insert "__init__.py" a.companion

/-- The module of a graph in one call; launch records count only if tool servers are wanted. -/
def generate (g : Graph) (f : Framework) (protocol : Bool) (configs : Option (List LaunchConfig)) : String :=
  let c := (Compiler.ofGraph g f).withProtocol protocol
  let c :=
    match configs with
    | some cs => if protocol then c.withConfigs cs else c
    | none => c
  c.compile.code

end AgentFlow
