import AgentFlow.Plan

/-!
# Modules for the Agents SDK

Running an agent is always asynchronous here, so the module is a program for an event loop.
-/

namespace AgentFlow.OpenAIAgents

open Python (Expr Decl quote)
open Python.Expr (kw kw?)

/-- A tool server. -/
def server (t : ToolsetPlan) : Expr :=
  let c := t.config
  let params := Expr.dict
    [("command", .str c.command), ("args", .strs c.args), ("env", .strDict c.env.entries)]
  let filter :=
    if c.toolFilter.isEmpty then none
    else some (Expr.call "create_static_tool_filter" (kw "allowed_tool_names" (.strs c.toolFilter)))
  .call "MCPServerStdio" (kw "name" (.str c.package) ++ kw "params" params ++ kw? "tool_filter" filter)

def agent (p : AgentPlan) : Expr :=
  .call "Agent"
    (kw "name" (.str p.agentName)
      ++ kw "model" (.str (p.modelFor .openAIAgents))
      ++ kw "instructions" (.str p.instructionText)
      ++ kw? "handoff_description" (p.description.map .str)
      ++ kw "tools" (.idents p.boundTools)
      ++ kw? "mcp_servers" (if p.toolsets.isEmpty then none else some (.idents p.toolsetIdents)))

/-- The lines that run the agent once. -/
def runLines (p : AgentPlan) : List String :=
  let call := Plan.agentBinding ++ ", " ++ quote Plan.samplePrompt
    ++ (if p.capabilities.memory then ", session=session" else "") ++ ")"
  (if p.capabilities.memory then ["session = SQLiteSession(" ++ quote p.agentName ++ ")"] else [])
    ++ (if p.capabilities.events then
          ["result = Runner.run_streamed(" ++ call, "async for event in result.stream_events():",
           "    print(f\"[\x7bevent.type\x7d] event received\")"]
        else ["result = await Runner.run(" ++ call])
    ++ ["print(result.final_output)"]

/-- The body of the main function: the tool servers stay open while the agent runs. -/
def mainBody (p : AgentPlan) : List String :=
  if p.toolsets.isEmpty then runLines p
  else
    ["async with AsyncExitStack() as stack:", "    for server in " ++ Plan.agentBinding ++ ".mcp_servers:",
     "        await stack.enter_async_context(server)"]
      ++ (runLines p).map ("    " ++ ·)

/-- The module of a plan. -/
def module (p : AgentPlan) : Python.Module :=
  let servers := !p.toolsets.isEmpty
  { header := some (p.header .openAIAgents)
    imports := Python.Import.collect
      ([("asyncio", none)]
        ++ (if servers then [("contextlib", some "AsyncExitStack")] else [])
        ++ [("agents", some "Agent"), ("agents", some "Runner")]
        ++ (if p.tools.isEmpty then [] else [("agents", some "function_tool")])
        ++ (if p.capabilities.memory then [("agents", some "SQLiteSession")] else [])
        ++ (if servers then [("agents.mcp", some "MCPServerStdio")] else [])
        ++ (if p.toolsets.any fun t => !t.config.toolFilter.isEmpty then
              [("agents.mcp", some "create_static_tool_filter")]
            else []))
    decls := p.tools.map (fun t => .tool (t.function ["function_tool"]))
      ++ p.toolsets.map (fun t => .assign t.ident .protocol (server t))
      ++ [.assign Plan.agentBinding .agent (agent p), Plan.exportDecl,
          .function (Plan.mainFunction (mainBody p)), .entryPoint [Plan.runMain]] }

end AgentFlow.OpenAIAgents
