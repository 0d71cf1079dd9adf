import AgentFlow.Plan

/-!
# Modules for the Agent Development Kit

The module drives its runner synchronously, unless the agent talks to tool servers: then it runs in an event loop,
so that their connections are closed after the answer.
-/

namespace AgentFlow.Adk

open Python (Expr Decl quote)
open Python.Expr (kw kw?)

/-- The bridge to a tool server. -/
def toolset (t : ToolsetPlan) : Expr :=
  let c := t.config
  let server := Expr.call "StdioServerParameters"
    (kw "command" (.str c.command) ++ kw "args" (.strs c.args) ++ kw "env" (.strDict c.env.entries))
  let connection := Expr.call "StdioConnectionParams" (kw "server_params" server)
  .call "MCPToolset"
    (kw "connection_params" connection
      ++ kw? "tool_filter" (if c.toolFilter.isEmpty then none else some (.strs c.toolFilter)))

def agent (p : AgentPlan) : Expr :=
  .call "LlmAgent"
    (kw "name" (.str p.agentName)
      ++ kw "model" (.str (p.modelFor .adk))
      ++ kw? "description" (p.description.map .str)
      ++ kw "instruction" (.str p.instructionText)
      ++ kw "tools" (.idents (p.boundTools ++ p.toolsetIdents)))

def runner (p : AgentPlan) : Expr :=
  .call "Runner"
    (kw "agent" (.ident Plan.agentBinding)
      ++ kw "app_name" (.str p.agentName)
      ++ kw "session_service" (.ident "session_service")
      ++ kw? "memory_service" (if p.capabilities.memory then some (.ident "memory_service") else none))

/-- Lines that print the answer out of the events of a loop. -/
def eventLoop (p : AgentPlan) (loop : String) : List String :=
  [loop ++ ":"]
    ++ (if p.capabilities.events then ["    print(f\"[\x7bevent.author\x7d] event received\")"] else [])
    ++ ["    if event.is_final_response() and event.content and event.content.parts:",
        "        print(event.content.parts[0].text)"]

/-- The line that makes the message to the agent. -/
def messageLine : String :=
  "content = types.Content(role=\"user\", parts=[types.Part(text=" ++ quote Plan.samplePrompt ++ ")])"

def sessionArgs (p : AgentPlan) : String := "app_name=" ++ quote p.agentName ++ ", user_id=" ++ quote "user"

def runArgs : String := "user_id=" ++ quote "user" ++ ", session_id=session.id, new_message=content"

/-- The body of the function that talks to the agent in an event loop. -/
def mainBody (p : AgentPlan) : List String :=
  ["session = await session_service.create_session(" ++ sessionArgs p ++ ")", messageLine, "try:"]
    ++ (eventLoop p ("async for event in runner.run_async(" ++ runArgs ++ ")")).map ("    " ++ ·)
    ++ ["finally:"]
    ++ p.toolsetIdents.map fun id => "    await " ++ id ++ ".close()"

/-- What the module does as a program. -/
def program (p : AgentPlan) : List Decl :=
  if p.toolsets.isEmpty then
    [.entryPoint (["session = session_service.create_session_sync(" ++ sessionArgs p ++ ")", messageLine]
      ++ eventLoop p ("for event in runner.run(" ++ runArgs ++ ")"))]
  else
    [.function (Plan.mainFunction (mainBody p)), .entryPoint [Plan.runMain]]

/-- The module of a plan. -/
def module (p : AgentPlan) : Python.Module :=
  let servers := !p.toolsets.isEmpty
  { header := some (p.header .adk)
    imports := Python.Import.collect
      ((if servers then [("asyncio", none)] else [])
        ++ [("google.adk.agents", some "LlmAgent"), ("google.adk.runners", some "Runner"),
            ("google.adk.sessions", some "InMemorySessionService")]
        ++ (if p.capabilities.memory then [("google.adk.memory", some "InMemoryMemoryService")] else [])
        ++ [("google.genai", some "types")]
        ++ (if servers then
              [("google.adk.tools.mcp_tool.mcp_toolset", some "MCPToolset"),
               ("google.adk.tools.mcp_tool.mcp_session_manager", some "StdioConnectionParams"),
               ("mcp", some "StdioServerParameters")]
            else []))
    decls := p.tools.map (fun t => .tool (t.function []))
      ++ (if servers then [.comment Plan.serverComment] else [])
      ++ p.toolsets.map (fun t => .assign t.ident .protocol (toolset t))
      ++ [.assign Plan.agentBinding .agent (agent p),
          .assign "session_service" .support (.call "InMemorySessionService" [])]
      ++ (if p.capabilities.memory then [.assign "memory_service" .support (.call "InMemoryMemoryService" [])]
          else [])
      ++ [.assign "runner" .support (runner p), Plan.exportDecl]
      ++ program p }

end AgentFlow.Adk
