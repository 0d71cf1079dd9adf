import AgentFlow.Plan

/-!
# Modules for LangGraph

The tools of tool servers are loaded once, when the module is imported, so the agent and the program stay
synchronous.
-/

namespace AgentFlow.LangGraph

open Python (Expr Decl quote)
open Python.Expr (kw kw?)

/-- The launch record of a tool server. -/
def server (t : ToolsetPlan) : String × Expr :=
  let c := t.config
  (t.ident, .dict [("command", .str c.command), ("args", .strs c.args), ("env", .strDict c.env.entries),
    ("transport", .str "stdio")])

/-- The client of all tool servers. -/
def client (p : AgentPlan) : Expr := .call "MultiServerMCPClient" [(none, .dict (p.toolsets.map server))]

/-- The tools of a tool server, restricted to its filter. -/
def toolset (t : ToolsetPlan) : Expr :=
  let load := "asyncio.run(protocol_client.get_tools(server_name=" ++ quote t.ident ++ "))"
  let filter := t.config.toolFilter
  if filter.isEmpty then .raw load
  else
    .raw ("[t for t in " ++ load ++ " if t.name in \x7b" ++ ", ".intercalate (filter.map quote) ++ "\x7d]")

def agent (p : AgentPlan) : Expr :=
  .call "create_react_agent"
    (kw "model" (.str (p.modelFor .langGraph))
      ++ kw "tools" (.list (p.boundTools.map .ident ++ p.toolsetIdents.map fun id => .raw ("*" ++ id)))
      ++ kw "prompt" (.str p.instructionText)
      ++ kw "name" (.str p.agentName)
      ++ kw? "checkpointer" (if p.capabilities.memory then some (.call "InMemorySaver" []) else none))

/-- What the module does as a program. -/
def program (p : AgentPlan) : List String :=
  let message := "\x7b\"messages\": [\x7b\"role\": \"user\", \"content\": " ++ quote Plan.samplePrompt
    ++ "\x7d]\x7d"
  let args := message ++ (if p.capabilities.memory then ", config" else "")
  (if p.capabilities.memory then
      ["config = \x7b\"configurable\": \x7b\"thread_id\": " ++ quote p.agentName ++ "\x7d\x7d"]
    else [])
    ++ (if p.capabilities.events then
          ["for update in " ++ Plan.agentBinding ++ ".stream(" ++ args ++ ", stream_mode=\"updates\"):",
           "    print(update)"]
        else
          ["result = " ++ Plan.agentBinding ++ ".invoke(" ++ args ++ ")",
           "print(result[\"messages\"][-1].content)"])

/-- The module of a plan. -/
def module (p : AgentPlan) : Python.Module :=
  let servers := !p.toolsets.isEmpty
  { header := some (p.header .langGraph)
    imports := Python.Import.collect
      ((if servers then [("asyncio", none), ("langchain_mcp_adapters.client", some "MultiServerMCPClient")] else [])
        ++ (if p.tools.isEmpty then [] else [("langchain_core.tools", some "tool")])
        ++ (if p.capabilities.memory then [("langgraph.checkpoint.memory", some "InMemorySaver")] else [])
        ++ [("langgraph.prebuilt", some "create_react_agent")])
    decls := p.tools.map (fun t => .tool (t.function ["tool"]))
      ++ (if servers then [.comment Plan.serverComment, .assign "protocol_client" .support (client p)] else [])
      ++ p.toolsets.map (fun t => .assign t.ident .protocol (toolset t))
      ++ [.assign Plan.agentBinding .agent (agent p), Plan.exportDecl, .entryPoint (program p)] }

end AgentFlow.LangGraph
