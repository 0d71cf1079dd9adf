import AgentFlow.Plan

/-!
# Modules without a framework

The module carries a small class that calls the agent's tools directly. All of it is synchronous.
-/

namespace AgentFlow.Custom

open Python (Expr Decl quote)
open Python.Expr (kw kw?)

/-- The runtime class of the module. -/
def runtimeClass : List String :=
  ["class Agent:",
   "    \"\"\"Minimal agent runtime without framework dependencies.\"\"\"",
   "",
   "    def __init__(self, name, model, instruction=\"\", description=\"\", tools=None, servers=None):",
   "        self.name = name",
   "        self.model = model",
   "        self.instruction = instruction",
   "        self.description = description",
   "        self.tools = \x7bfn.__name__: fn for fn in (tools or [])\x7d",
   "        self.servers = list(servers or [])",
   "        self.history = []",
   "        self.listeners = []",
   "",
   "    def on_event(self, callback):",
   "        self.listeners.append(callback)",
   "",
   "    def _emit(self, kind, payload):",
   "        for callback in self.listeners:",
   "            callback(kind, payload)",
   "",
   "    def run(self, message):",
   "        self.history.append(\x7b\"role\": \"user\", \"content\": message\x7d)",
   "        self._emit(\"message\", message)",
   "        results = \x7b\x7d",
   "        for name, fn in self.tools.items():",
   "            results[name] = fn(message)",
   "            self._emit(\"tool\", results[name])",
   "        reply = \x7b",
   "            \"agent\": self.name,",
   "            \"model\": self.model,",
   "            \"instruction\": self.instruction,",
   "            \"servers\": [server[\"command\"] for server in self.servers],",
   "            \"tool_results\": results,",
   "        \x7d",
   "        self.history.append(\x7b\"role\": \"assistant\", \"content\": reply\x7d)",
   "        return reply"]

/-- A tool server. -/
def server (t : ToolsetPlan) : Expr :=
  let c := t.config
  .dict [("command", .str c.command), ("args", .strs c.args), ("env", .strDict c.env.entries),
    ("package", .str c.package), ("tool_filter", .strs c.toolFilter)]

def agent (p : AgentPlan) : Expr :=
  .call "Agent"
    (kw "name" (.str p.agentName)
      ++ kw "model" (.str (p.modelFor .customAgent))
      ++ kw "instruction" (.str p.instructionText)
      ++ kw? "description" (p.description.map .str)
      ++ kw "tools" (.idents p.boundTools)
      ++ kw "servers" (.idents p.toolsetIdents))

/-- What the module does as a program. -/
def program (p : AgentPlan) : List String :=
  (if p.capabilities.events then
      [Plan.agentBinding ++ ".on_event(lambda kind, payload: print(f\"[\x7bkind\x7d] \x7bpayload\x7d\"))"]
    else [])
    ++ ["print(json.dumps(" ++ Plan.agentBinding ++ ".run(" ++ quote Plan.samplePrompt
          ++ "), indent=2, default=str))"]

/-- The module of a plan. -/
def module (p : AgentPlan) : Python.Module where
  header := some (p.header .customAgent)
  imports := Python.Import.collect [("json", none)]
  decls := [.block runtimeClass]
    ++ p.tools.map (fun t => .tool (t.function []))
    ++ p.toolsets.map (fun t => .assign t.ident .protocol (server t))
    ++ [.assign Plan.agentBinding .agent (agent p), Plan.exportDecl, .entryPoint (program p)]

end AgentFlow.Custom
