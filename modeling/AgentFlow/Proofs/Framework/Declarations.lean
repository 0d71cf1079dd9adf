import AgentFlow.Compiler
import AgentFlow.Proofs.Plan.Parts

/-!
# The declarations of a generated module

The modules of all frameworks are laid out alike: the tools of the plan in order, its toolsets in order, the one agent,
and at the very end the one entry point (`Module.landmarks`). The call that makes the agent is handed the bound tools
and the toolsets, each once and nothing else. Since the identifiers of a plan differ, no tool is handed over twice under
one name.
-/

namespace AgentFlow

/-! ### Landmarks -/

namespace Python

/-- What a reader looks for in a module. -/
inductive Landmark where
  | tool (name : String)
  | toolset (name : String)
  | agent (name : String)
  | entryPoint
  deriving DecidableEq, Repr

/-- What a declaration is in its module, if it is more than support. -/
def Decl.landmark? : Decl → Option Landmark
  | .tool f => some (.tool f.name)
  | .assign name .protocol _ => some (.toolset name)
  | .assign name .agent _ => some (.agent name)
  | .assign _ .support _ => none
  | .entryPoint _ => some .entryPoint
  | .comment _ => none
  | .function _ => none
  | .block _ => none

/-- The landmarks of a module, in order. -/
def Module.landmarks (m : Module) : List Landmark := m.decls.filterMap Decl.landmark?

/-- The name that an item of a list stands for: the item itself, or a name with a star before it. -/
def Expr.mention? : Expr → Option String
  | .ident name => some name
  | .raw text =>
    match text.toList with
    | '*' :: cs => some (String.ofList cs)
    | _ => none
  | _ => none

/-- The arguments of a call that are lists, with their keywords. -/
def Expr.listArgs : Expr → List (Option String × List Expr)
  | .call _ args =>
    args.filterMap fun a =>
      match a.2 with
      | .list items => some (a.1, items)
      | _ => none
  | _ => []

/-- The keywords under which an agent is handed its tools and its tool servers. -/
def toolKeywords : List (Option String) := [some "tools", some "mcp_servers", some "servers"]

/-- The lists that a call is handed are lists of tools, and together they mention the names in order and nothing
else. -/
structure Expr.Mentions (e : Expr) (names : List String) : Prop where
  keywords : ∀ l ∈ e.listArgs, l.1 ∈ toolKeywords
  names : (e.listArgs.flatMap (·.2)).map Expr.mention? = names.map some

end Python

open Python
open Python.Expr (kw kw?)

theorem ToolPlan.name_function (t : ToolPlan) (decorators : List String) : (t.function decorators).name = t.ident := by
  unfold ToolPlan.function Function.documented
  split <;> rfl

/-! ### The common layout -/

/-- The module is laid out by the plan and makes its agent by `agent`: the tools and toolsets stand before it in order,
and after it comes nothing of note but the entry point, at the end. -/
def AgentPlan.LaidOut (p : AgentPlan) (agent : Expr) (m : Module) : Prop :=
  ∃ (before after : List Decl) (body : List String),
    m.decls = before ++ .assign Plan.agentBinding .agent agent :: after ++ [.entryPoint body] ∧
    before.filterMap Decl.landmark? = p.tools.map (fun t => .tool t.ident) ++ p.toolsetIdents.map .toolset ∧
    after.filterMap Decl.landmark? = []

theorem Python.bindings_append (ds ds' : List Decl) (role : Role) :
    Module.bindings { decls := ds ++ ds' } role = Module.bindings { decls := ds } role
      ++ Module.bindings { decls := ds' } role :=
  List.filterMap_append

/-- Declarations without an agent among their landmarks bind none. -/
theorem Python.bindings_agent_eq_nil {ds : List Decl} (h : ∀ name, .agent name ∉ ds.filterMap Decl.landmark?) :
    Module.bindings { decls := ds } .agent = [] := by
  refine List.filterMap_eq_nil_iff.mpr fun d hd => ?_
  cases d with
  | assign name role value =>
    cases role with
    | agent =>
      -- its name would be a landmark
      have hmem : .agent name ∈ ds.filterMap Decl.landmark? := List.mem_filterMap.mpr ⟨_, hd, rfl⟩
      exact absurd hmem (h name)
    | protocol => rfl
    | support => rfl
  | comment text => rfl
  | tool f => rfl
  | function f => rfl
  | block lines => rfl
  | entryPoint body => rfl

namespace AgentPlan.LaidOut

variable {p : AgentPlan} {agent : Expr} {m : Module}

/-- The landmarks come in the order of the plan. -/
theorem landmarks_eq (h : p.LaidOut agent m) :
    m.landmarks = p.tools.map (fun t => .tool t.ident) ++ p.toolsetIdents.map .toolset
      ++ [.agent Plan.agentBinding, .entryPoint] := by
  obtain ⟨before, after, body, hdecls, hbefore, hafter⟩ := h
  rw [Module.landmarks, hdecls, List.filterMap_append, List.filterMap_append, hbefore]
  simp [Decl.landmark?, hafter]

theorem getLast?_eq (h : p.LaidOut agent m) : ∃ body, m.decls.getLast? = some (.entryPoint body) := by
  obtain ⟨before, after, body, hdecls, -, -⟩ := h
  exact ⟨body, by rw [hdecls, List.getLast?_concat]⟩

/-- One agent is bound, and it is the one that was made. -/
theorem bindings_eq (h : p.LaidOut agent m) : m.bindings .agent = [(Plan.agentBinding, agent)] := by
  obtain ⟨before, after, body, hdecls, hbefore, hafter⟩ := h
  -- neither the parts before it nor those after it bind an agent
  have hnone : Module.bindings { decls := before } .agent = [] :=
    bindings_agent_eq_nil fun name => by simp [hbefore]
  have hlater : Module.bindings { decls := after ++ [.entryPoint body] } .agent = [] :=
    bindings_agent_eq_nil fun name => by simp [hafter, Decl.landmark?]
  have hsplit : m.decls = before ++ ([.assign Plan.agentBinding .agent agent] ++ (after ++ [.entryPoint body])) := by
    simp [hdecls]
  have hall : m.bindings .agent = Module.bindings { decls := m.decls } .agent := rfl
  rw [hall, hsplit, bindings_append, bindings_append, hnone, hlater]
  rfl

end AgentPlan.LaidOut

/-! ### The frameworks -/

section Frameworks

variable (p : AgentPlan)

theorem landmarks_tools (decorators : List String) :
    (p.tools.map fun t => Decl.tool (t.function decorators)).filterMap Decl.landmark? =
      p.tools.map fun t => .tool t.ident := by
  simp [List.filterMap_map, Function.comp_def, Decl.landmark?, ToolPlan.name_function]

theorem landmarks_toolsets (server : ToolsetPlan → Expr) :
    (p.toolsets.map fun t => Decl.assign t.ident .protocol (server t)).filterMap Decl.landmark? =
      p.toolsetIdents.map .toolset := by
  simp [List.filterMap_map, Function.comp_def, Decl.landmark?, AgentPlan.toolsetIdents]

/-- The program is the entry point, perhaps with a main function before it. -/
theorem Adk.program_eq :
    ∃ main body, Adk.program p = main ++ [.entryPoint body] ∧ main.filterMap Decl.landmark? = [] := by
  unfold Adk.program
  split_ifs
  · exact ⟨[], _, rfl, rfl⟩
  · exact ⟨[_], _, rfl, rfl⟩

theorem Adk.laidOut_module : p.LaidOut (Adk.agent p) (Adk.module p) := by
  obtain ⟨main, body, hprogram, hmain⟩ := Adk.program_eq p
  -- the declarations before the agent, and those between it and the entry point
  refine ⟨p.tools.map (fun t => .tool (t.function []))
      ++ (if !p.toolsets.isEmpty then [.comment Plan.serverComment] else [])
      ++ p.toolsets.map (fun t => .assign t.ident .protocol (Adk.toolset t)),
    [.assign "session_service" .support (.call "InMemorySessionService" [])]
      ++ (if p.capabilities.memory then [.assign "memory_service" .support (.call "InMemoryMemoryService" [])] else [])
      ++ [.assign "runner" .support (Adk.runner p), Plan.exportDecl] ++ main, body, ?_, ?_, ?_⟩
  · simp [Adk.module, hprogram]
  · rw [List.filterMap_append, List.filterMap_append, landmarks_tools, landmarks_toolsets]
    split_ifs <;> simp [Decl.landmark?]
  · rw [List.filterMap_append, hmain]
    split_ifs <;> rfl

theorem OpenAIAgents.laidOut_module : p.LaidOut (OpenAIAgents.agent p) (OpenAIAgents.module p) := by
  refine ⟨p.tools.map (fun t => .tool (t.function ["function_tool"]))
      ++ p.toolsets.map (fun t => .assign t.ident .protocol (OpenAIAgents.server t)),
    [Plan.exportDecl, .function (Plan.mainFunction (OpenAIAgents.mainBody p))], [Plan.runMain], ?_, ?_, rfl⟩
  · simp [OpenAIAgents.module]
  · rw [List.filterMap_append, landmarks_tools, landmarks_toolsets]

theorem LangGraph.laidOut_module : p.LaidOut (LangGraph.agent p) (LangGraph.module p) := by
  refine ⟨p.tools.map (fun t => .tool (t.function ["tool"]))
      ++ (if !p.toolsets.isEmpty then
            [.comment Plan.serverComment, .assign "protocol_client" .support (LangGraph.client p)]
          else [])
      ++ p.toolsets.map (fun t => .assign t.ident .protocol (LangGraph.toolset t)),
    [Plan.exportDecl], LangGraph.program p, ?_, ?_, rfl⟩
  · simp [LangGraph.module]
  · rw [List.filterMap_append, List.filterMap_append, landmarks_tools, landmarks_toolsets]
    split_ifs <;> simp [Decl.landmark?]

theorem Custom.laidOut_module : p.LaidOut (Custom.agent p) (Custom.module p) := by
  refine ⟨[.block Custom.runtimeClass] ++ p.tools.map (fun t => .tool (t.function []))
      ++ p.toolsets.map (fun t => .assign t.ident .protocol (Custom.server t)),
    [Plan.exportDecl], Custom.program p, ?_, ?_, rfl⟩
  · simp [Custom.module]
  · rw [List.filterMap_append, List.filterMap_append, landmarks_tools, landmarks_toolsets]
    rfl

/-! ### What the agent is handed -/

theorem map_mention?_idents (names : List String) : (names.map Expr.ident).map Expr.mention? = names.map some := by
  simp [Function.comp_def, Expr.mention?]

/-- A star does not hide the name behind it. -/
theorem map_mention?_starred (names : List String) :
    (names.map fun name => Expr.raw ("*" ++ name)).map Expr.mention? = names.map some := by
  have hchars : ∀ name : String, ("*" ++ name).toList = '*' :: name.toList := by
    intro name
    rw [String.toList_append]
    rfl
  simp [Function.comp_def, Expr.mention?, hchars]

/-- The lists that a call is handed come in the order of its arguments. -/
theorem listArgs_append (callee : String) (as bs : List (Option String × Expr)) :
    (Expr.call callee (as ++ bs)).listArgs = (Expr.call callee as).listArgs ++ (Expr.call callee bs).listArgs :=
  List.filterMap_append

theorem listArgs_text (callee keyword text : String) : (Expr.call callee (kw keyword (.str text))).listArgs = [] := rfl

theorem listArgs_text? (callee keyword : String) (text : Option String) :
    (Expr.call callee (kw? keyword (text.map .str))).listArgs = [] := by
  cases text <;> rfl

theorem listArgs_list (callee keyword : String) (items : List Expr) :
    (Expr.call callee (kw keyword (.list items))).listArgs = [(some keyword, items)] := rfl

theorem Adk.mentions_agent : (Adk.agent p).Mentions (p.boundTools ++ p.toolsetIdents) := by
  have hargs : (Adk.agent p).listArgs = [(some "tools", (p.boundTools ++ p.toolsetIdents).map .ident)] := by
    simp only [Adk.agent, listArgs_append, listArgs_text, listArgs_text?, Expr.idents, listArgs_list, List.nil_append]
  constructor
  · simp [hargs, toolKeywords]
  · rw [hargs, List.flatMap_singleton, map_mention?_idents]

/-- Tools and servers are handed over apart, and no servers if there are none. -/
theorem OpenAIAgents.mentions_agent : (OpenAIAgents.agent p).Mentions (p.boundTools ++ p.toolsetIdents) := by
  have hargs : (OpenAIAgents.agent p).listArgs = (some "tools", p.boundTools.map .ident) ::
      if p.toolsets.isEmpty then [] else [(some "mcp_servers", p.toolsetIdents.map .ident)] := by
    simp only [OpenAIAgents.agent, listArgs_append, listArgs_text, listArgs_text?, Expr.idents, listArgs_list,
      List.nil_append, List.singleton_append]
    split_ifs <;> rfl
  have hnone : p.toolsets.isEmpty = true → p.toolsetIdents = [] := by
    intro h
    simp [AgentPlan.toolsetIdents, List.isEmpty_iff.mp h]
  constructor
  · rw [hargs]
    split_ifs <;> simp [toolKeywords]
  · rw [hargs, List.flatMap_cons, List.map_append, map_mention?_idents, List.map_append]
    -- without toolsets there is no second list, and no name is missing from it
    split_ifs with h
    · simp [hnone h]
    · rw [List.flatMap_singleton, map_mention?_idents]

theorem LangGraph.mentions_agent : (LangGraph.agent p).Mentions (p.boundTools ++ p.toolsetIdents) := by
  have hargs : (LangGraph.agent p).listArgs =
      [(some "tools", p.boundTools.map .ident ++ p.toolsetIdents.map fun id => .raw ("*" ++ id))] := by
    simp only [LangGraph.agent, listArgs_append, listArgs_text, listArgs_list, List.nil_append, List.append_nil]
    split_ifs <;> rfl
  constructor
  · simp [hargs, toolKeywords]
  · rw [hargs, List.flatMap_singleton, List.map_append, map_mention?_idents, map_mention?_starred, List.map_append]

theorem Custom.mentions_agent : (Custom.agent p).Mentions (p.boundTools ++ p.toolsetIdents) := by
  have hargs : (Custom.agent p).listArgs =
      [(some "tools", p.boundTools.map .ident), (some "servers", p.toolsetIdents.map .ident)] := by
    simp only [Custom.agent, listArgs_append, listArgs_text, listArgs_text?, Expr.idents, listArgs_list,
      List.nil_append, List.singleton_append]
  constructor
  · simp [hargs, toolKeywords]
  · rw [hargs, List.flatMap_cons, List.flatMap_singleton, List.map_append, map_mention?_idents, map_mention?_idents,
      List.map_append]

/-- Each framework lays its module out by the plan and hands the agent what is planned for it. -/
theorem exists_laidOut (f : Framework) :
    ∃ callee args, p.LaidOut (.call callee args) (p.moduleFor f) ∧
      (Expr.call callee args).Mentions (p.boundTools ++ p.toolsetIdents) := by
  cases f with
  | adk => exact ⟨_, _, Adk.laidOut_module p, Adk.mentions_agent p⟩
  | openAIAgents => exact ⟨_, _, OpenAIAgents.laidOut_module p, OpenAIAgents.mentions_agent p⟩
  | langGraph => exact ⟨_, _, LangGraph.laidOut_module p, LangGraph.mentions_agent p⟩
  | customAgent => exact ⟨_, _, Custom.laidOut_module p, Custom.mentions_agent p⟩

end Frameworks

/-- **All frameworks lay out a module alike.** Whatever the graph, the credential and the launch records are, the module
binds each tool of the plan, then each toolset, then one agent, all in order, and ends with its one entry point. The
agent is handed the bound tools and the toolsets, each once and nothing else; the bound tools are those planned for the
tool nodes wired to the first agent, or all if there is no agent. -/
theorem module_laid_out (c : Compiler) :
    c.module.landmarks = c.plan.tools.map (fun t => .tool t.ident) ++ c.plan.toolsetIdents.map .toolset
        ++ [.agent Plan.agentBinding, .entryPoint] ∧
      (∃ body, c.module.decls.getLast? = some (.entryPoint body)) ∧
      (∃ callee args, c.module.bindings .agent = [(Plan.agentBinding, .call callee args)] ∧
        (Expr.call callee args).Mentions (c.plan.boundTools ++ c.plan.toolsetIdents)) ∧
      (c.plan.boundTools ++ c.plan.toolsetIdents).Nodup ∧
      c.plan.BindsWired c.graph := by
  obtain ⟨callee, args, hlaid, hmentions⟩ := exists_laidOut c.plan c.framework
  refine ⟨hlaid.landmarks_eq, hlaid.getLast?_eq, ⟨callee, args, hlaid.bindings_eq, hmentions⟩, ?_, ?_⟩
  · exact AgentPlan.nodup_bound c.graph c.launchConfigs
  · exact AgentPlan.bindsWired_build c.graph c.launchConfigs

end AgentFlow
