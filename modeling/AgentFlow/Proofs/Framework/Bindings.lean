import Mathlib.Data.List.Perm.Basic
import AgentFlow.Check.Symbol
import AgentFlow.Proofs.Framework.Declarations
import AgentFlow.Proofs.Plan.Names

/-!
# Generated modules bind each name once

A module binds names by its imports, its functions and its assignments, and by classes among its lines. What it binds
is made up of names of its framework's own and of the identifiers of its plan (`AgentPlan.Binds`). The identifiers all
differ and are none of the names that modules keep for themselves, and all names of a framework's own are among those,
so no name is bound twice.
-/

namespace AgentFlow

namespace Python

/-! ### The names that a module binds -/

/-- The names that an import binds: those taken from the module, or the module itself. -/
def Import.bound (i : Import) : List String := if i.names.isEmpty then [i.module] else i.names

/-- The name that a line defines, if it is the header of a class or a function and is not indented. -/
def definedName? (line : String) : Option String :=
  (["class ", "def ", "async def "].find? fun word => Text.startsWith word line.toList).map fun word =>
    String.ofList ((line.toList.drop word.length).takeWhile Symbol.isNameChar)

/-- A line that is empty or indented defines no name. -/
theorem filterMap_definedName?_cons {cs : List Char} {lines names : List String}
    (h : (cs.head?.all fun c => c == ' ') = true) (hlines : lines.filterMap definedName? = names) :
    (String.ofList cs :: lines).filterMap definedName? = names := by
  have hnone : definedName? (String.ofList cs) = none := by
    rw [definedName?, String.toList_ofList, Option.map_eq_none_iff, List.find?_eq_none]
    cases cs with
    | nil => decide
    | cons c cs =>
      obtain rfl : c = ' ' := by simpa using h
      simp [Text.startsWith]
  rw [List.filterMap_cons_none hnone, hlines]

/-- The names that a declaration binds at the top level of its module. -/
def Decl.bound : Decl → List String
  | .assign name _ _ => [name]
  | .tool f => [f.name]
  | .function f => [f.name]
  | .block lines => lines.filterMap definedName?
  | .comment _ => []
  | .entryPoint _ => []

/-- The names that a module binds at its top level, each as often as it does. -/
def Module.boundNames (m : Module) : List String := m.imports.flatMap Import.bound ++ m.decls.flatMap Decl.bound

namespace Import

/-- The name that is bound by an import that is wanted. -/
def wantedName (wanted : String × Option String) : String := wanted.2.getD wanted.1

/-- A new name joins the others, at the import of its module or after all of them. -/
theorem bound_addName {module name : String} {imports : List Import} (h : name ∉ imports.flatMap bound) :
    ((addName module name imports).flatMap bound).Perm (imports.flatMap bound ++ [name]) := by
  induction imports with
  | nil => exact .refl _
  | cons i is ih =>
    rw [List.flatMap_cons, List.mem_append, not_or] at h
    unfold addName
    -- the module is imported by this line, which gets longer, or by a later one
    by_cases hi : i.module = module ∧ (!i.names.isEmpty) = true
    · have hbound : i.bound = i.names := by
        have hne : i.names.isEmpty = false := by simpa using hi.2
        rw [bound, if_neg (by simp [hne])]
      have hnew : i.names.contains name = false := by
        rw [hbound] at h
        simpa using h.1
      rw [if_pos hi, hnew, if_neg (by simp), List.flatMap_cons, List.flatMap_cons, hbound]
      have hlonger : bound ⟨i.module, i.names ++ [name]⟩ = i.names ++ [name] := if_neg (by simp)
      rw [hlonger, List.append_assoc, List.append_assoc]
      exact .append_left _ List.perm_append_comm
    · rw [if_neg hi, List.flatMap_cons, List.flatMap_cons, List.append_assoc]
      exact (ih h.2).append_left _

/-- A new import binds just the name that it is wanted for. -/
theorem bound_add {imports : List Import} {wanted : String × Option String}
    (h : wantedName wanted ∉ imports.flatMap bound) :
    ((add imports wanted).flatMap bound).Perm (imports.flatMap bound ++ [wantedName wanted]) := by
  obtain ⟨module, name | name⟩ := wanted
  · -- a second import of the whole module would bind its name already
    have hnew : (imports.any fun i => i.module == module && i.names.isEmpty) = false := by
      rw [List.any_eq_false]
      intro i hi hsame
      obtain ⟨rfl, hnone⟩ : i.module = module ∧ i.names.isEmpty = true := by simpa using hsame
      refine h (List.mem_flatMap.mpr ⟨i, hi, ?_⟩)
      rw [bound, if_pos hnone]
      exact List.mem_singleton_self _
    rw [add, addModule, hnew, if_neg (by simp), List.flatMap_append]
    exact .refl _
  · exact bound_addName h

/-- Wanting different names, one gets each of them. -/
theorem bound_collect {wanted : List (String × Option String)} (h : (wanted.map wantedName).Nodup) :
    ((collect wanted).flatMap bound).Perm (wanted.map wantedName) := by
  induction wanted using List.reverseRecOn with
  | nil => exact .refl _
  | append_singleton ws w ih =>
    rw [List.map_append, List.nodup_append] at h
    obtain ⟨hws, -, hdisjoint⟩ := h
    have hperm := ih hws
    have hnew : wantedName w ∉ (collect ws).flatMap bound := by
      intro hmem
      exact hdisjoint _ (hperm.subset hmem) _ (List.mem_singleton_self _) rfl
    rw [collect, List.foldl_append, List.map_append]
    exact (bound_add hnew).trans (hperm.append_right _)

end Import

end Python

open Python

/-! ### The frameworks -/

/-- The names that modules for a framework may bind apart from those of the plan. -/
def Framework.ownNames : Framework → List String
  | .adk =>
    ["asyncio", "LlmAgent", "Runner", "InMemorySessionService", "InMemoryMemoryService", "types", "MCPToolset",
     "StdioConnectionParams", "StdioServerParameters", Plan.agentBinding, "session_service", "memory_service",
     "runner", "__all__", "main"]
  | .openAIAgents =>
    ["asyncio", "AsyncExitStack", "Agent", "Runner", "function_tool", "SQLiteSession", "MCPServerStdio",
     "create_static_tool_filter", Plan.agentBinding, "__all__", "main"]
  | .langGraph =>
    ["asyncio", "MultiServerMCPClient", "tool", "InMemorySaver", "create_react_agent", "protocol_client",
     Plan.agentBinding, "__all__"]
  | .customAgent => ["json", "Agent", Plan.agentBinding, "__all__"]

theorem Framework.nodup_ownNames (f : Framework) : f.ownNames.Nodup := by
  cases f <;> decide

/-- No identifier of a plan can be a name of the framework. -/
theorem Framework.withheld_ownNames (f : Framework) : ∀ name ∈ f.ownNames, Plan.withheld name = true := by
  rw [← List.all_eq_true]
  cases f <;> decide

/-- The module binds names of its framework's own and the identifiers of the plan, and nothing else. -/
def AgentPlan.Binds (p : AgentPlan) (f : Framework) (m : Module) : Prop :=
  ∃ own : List String, own.Sublist f.ownNames ∧ m.boundNames.Perm (own ++ p.idents)

section Frameworks

variable (p : AgentPlan)

theorem bound_tools (decorators : List String) :
    (p.tools.map fun t => Decl.tool (t.function decorators)).flatMap Decl.bound = p.tools.map (·.ident) := by
  induction p.tools with
  | nil => rfl
  | cons t ts ih => simp [Decl.bound, ToolPlan.name_function, ih]

theorem bound_toolsets (server : ToolsetPlan → Expr) :
    (p.toolsets.map fun t => Decl.assign t.ident .protocol (server t)).flatMap Decl.bound = p.toolsetIdents := by
  rw [AgentPlan.toolsetIdents]
  induction p.toolsets with
  | nil => rfl
  | cons t ts ih => simp [Decl.bound, ih]

/-- Imports that are wanted, and declarations that hold the tools and the toolsets of the plan among others. -/
theorem binds_of_parts {f : Framework} {m : Module} {wanted : List (String × Option String)}
    (before between after : List String) (himports : m.imports = Import.collect wanted)
    (hdecls : m.decls.flatMap Decl.bound =
      before ++ p.tools.map (·.ident) ++ between ++ p.toolsetIdents ++ after)
    (hown : (wanted.map Import.wantedName ++ (before ++ between ++ after)).Sublist f.ownNames) : p.Binds f m := by
  refine ⟨_, hown, ?_⟩
  have hwanted : (wanted.map Import.wantedName).Nodup :=
    ((List.sublist_append_left _ _).trans hown).nodup f.nodup_ownNames
  rw [Module.boundNames, himports, hdecls, AgentPlan.idents]
  refine ((Import.bound_collect hwanted).append_right _).trans ?_
  rw [List.append_assoc (wanted.map Import.wantedName)]
  refine .append_left _ ?_
  -- both sides hold the same five parts
  rw [List.perm_iff_count]
  intro name
  simp only [List.count_append]
  omega

theorem Adk.binds_module : p.Binds .adk (Adk.module p) := by
  refine binds_of_parts p [] []
    ([Plan.agentBinding, "session_service"] ++ (if p.capabilities.memory then ["memory_service"] else [])
      ++ ["runner", "__all__"] ++ (if p.toolsets.isEmpty then [] else ["main"])) rfl ?_ ?_
  · have hprogram : (Adk.program p).flatMap Decl.bound = if p.toolsets.isEmpty then [] else ["main"] := by
      unfold Adk.program
      split_ifs <;> rfl
    simp only [Adk.module, List.flatMap_append, bound_tools, bound_toolsets, hprogram]
    split_ifs <;> simp [Decl.bound, Plan.exportDecl]
  · -- which names are imported depends on what the plan asks for
    cases p.toolsets.isEmpty <;> cases p.capabilities.memory <;> decide

theorem OpenAIAgents.binds_module : p.Binds .openAIAgents (OpenAIAgents.module p) := by
  refine binds_of_parts p [] [] [Plan.agentBinding, "__all__", "main"] rfl ?_ ?_
  · simp only [OpenAIAgents.module, List.flatMap_append, bound_tools, bound_toolsets, List.nil_append, List.append_nil]
    rfl
  · cases p.toolsets.isEmpty <;> cases p.tools.isEmpty <;> cases p.capabilities.memory <;>
      cases (p.toolsets.any fun t => !t.config.toolFilter.isEmpty) <;> decide

theorem LangGraph.binds_module : p.Binds .langGraph (LangGraph.module p) := by
  refine binds_of_parts p [] (if !p.toolsets.isEmpty then ["protocol_client"] else []) [Plan.agentBinding, "__all__"]
    rfl ?_ ?_
  · simp only [LangGraph.module, List.flatMap_append, bound_tools, bound_toolsets]
    split_ifs <;> rfl
  · cases p.toolsets.isEmpty <;> cases p.tools.isEmpty <;> cases p.capabilities.memory <;> decide

/-- All lines of the class but its header are empty or indented. -/
theorem Custom.bound_runtimeClass : Decl.bound (.block Custom.runtimeClass) = ["Agent"] := by
  refine List.filterMap_cons_some (by decide : definedName? "class Agent:" = some "Agent") |>.trans ?_
  refine congrArg _ ?_
  repeat refine filterMap_definedName?_cons (by decide) ?_
  rfl

theorem Custom.binds_module : p.Binds .customAgent (Custom.module p) := by
  refine binds_of_parts p ["Agent"] [] [Plan.agentBinding, "__all__"] rfl ?_ ?_
  · simp only [Custom.module, List.flatMap_append, bound_tools, bound_toolsets, List.flatMap_singleton,
      Custom.bound_runtimeClass, List.append_nil]
    rfl
  · decide

/-- Modules for every framework bind nothing else. -/
theorem AgentPlan.binds_moduleFor (f : Framework) : p.Binds f (p.moduleFor f) := by
  cases f with
  | adk => exact Adk.binds_module p
  | openAIAgents => exact OpenAIAgents.binds_module p
  | langGraph => exact LangGraph.binds_module p
  | customAgent => exact Custom.binds_module p

end Frameworks

/-- The identifiers of the plan differ from each other and from the names of the framework. -/
theorem AgentPlan.Separate.nodup_boundNames {p : AgentPlan} (h : p.Separate) {f : Framework} {m : Module}
    (hm : p.Binds f m) : m.boundNames.Nodup := by
  obtain ⟨own, hown, hperm⟩ := hm
  rw [hperm.nodup_iff, List.nodup_append]
  refine ⟨hown.nodup f.nodup_ownNames, h.nodup, ?_⟩
  rintro name hname ident hident rfl
  have hfree := h.free name hident
  rw [f.withheld_ownNames name (hown.subset hname)] at hfree
  cases hfree

/-- **A generated module binds each of its names once.** Whatever the graph, the launch records and the framework are,
imports, functions, assignments and classes of the module bind pairwise different names: those of the framework's own
and one for each tool and each toolset of the plan. -/
theorem module_binds_once (c : Compiler) :
    c.module.boundNames.Nodup ∧
      ∃ own : List String, c.module.boundNames.Perm (own ++ c.plan.idents) ∧ own ⊆ c.framework.ownNames := by
  have hbinds := c.plan.binds_moduleFor c.framework
  have hseparate : c.plan.Separate := AgentPlan.separate_build c.graph c.launchConfigs
  refine ⟨hseparate.nodup_boundNames hbinds, ?_⟩
  obtain ⟨own, hown, hperm⟩ := hbinds
  exact ⟨own, hperm, hown.subset⟩

end AgentFlow
