import Mathlib.SetTheory.Cardinal.Arithmetic
import AgentFlow.Compiler
import AgentFlow.Proofs.Graph.Renaming
import AgentFlow.Proofs.Launch.Dedupe
import AgentFlow.Proofs.Plan.Parts

/-!
# Ids are only names

A graph that is compiled with its own launch records gives the same code under any renaming of its ids, and the same
launch records up to the renaming of the nodes that they list (`compile_renamed`). The renaming need only keep apart the
ids that the graph uses. It is then replaced by one that keeps all ids apart, and the records, the plan and the module
are followed under such a renaming one after the other.
-/

namespace AgentFlow

/-! ### Launch records -/

def LaunchSource.rename (f : String → String) (s : LaunchSource) : LaunchSource := { s with nodeId := s.nodeId.map f }

/-- The record with new ids for the nodes that launch the server. -/
def LaunchConfig.rename (f : String → String) (c : LaunchConfig) : LaunchConfig :=
  { c with sources := c.sources.map f }

/-- A record is the same up to the id of its node. -/
theorem LaunchSource.normalize_rename (f : String → String) (s : LaunchSource) :
    (s.rename f).normalize = s.normalize.rename f := by
  have hsources : (s.nodeId.map f).toList = s.nodeId.toList.map f := by cases s.nodeId <;> rfl
  simp only [normalize, LaunchConfig.rename, ← hsources]
  rfl

theorem toolNames_rename (f : String → String) (ns : List Node) :
    toolNames (ns.map (Node.rename f)) = toolNames ns := by
  simp only [toolNames, List.map_map]
  rfl

section Injective

variable {f : String → String} (hf : Function.Injective f)
include hf

namespace LaunchConfig

/-- No id is listed twice, before and after the renaming. -/
theorem addSources_rename (c : LaunchConfig) (ids : List String) :
    (c.rename f).addSources (ids.map f) = (c.addSources ids).rename f := by
  -- an id is added if and only if its renaming is
  have hstep : ∀ (sources : List String) (id : String),
      (if (sources.map f).contains (f id) then sources.map f else sources.map f ++ [f id]) =
        (if sources.contains id then sources else sources ++ [id]).map f := by
    intro sources id
    rw [contains_map_of_injective hf]
    by_cases hold : sources.contains id = true
    · rw [if_pos hold, if_pos hold]
    · rw [if_neg hold, if_neg hold, List.map_append]
      rfl
  simp only [addSources, rename, List.foldl_map]
  rw [List.foldl_hom (List.map f) hstep]

/-- The key by which records are joined has no ids. -/
theorem absorb_rename (kept : List LaunchConfig) (c : LaunchConfig) :
    absorb (kept.map (rename f)) (c.rename f) = (absorb kept c).map (rename f) := by
  induction kept with
  | nil => rfl
  | cons k ks ih =>
    have hkeys : (k.rename f).launchKey = (c.rename f).launchKey ↔ k.launchKey = c.launchKey := Iff.rfl
    rw [List.map_cons, absorb, absorb]
    by_cases hsame : k.launchKey = c.launchKey
    · rw [if_pos (hkeys.mpr hsame), if_pos hsame, List.map_cons, ← addSources_rename hf]
      rfl
    · rw [if_neg (fun h => hsame (hkeys.mp h)), if_neg hsame, List.map_cons, ih]

/-- Joining records and renaming may be done in either order. -/
theorem dedupe_rename (configs : List LaunchConfig) :
    dedupe (configs.map (rename f)) = (dedupe configs).map (rename f) := by
  calc dedupe (configs.map (rename f))
      = configs.foldl (fun kept c => absorb kept (c.rename f)) (List.map (rename f) []) := List.foldl_map
    _ = (dedupe configs).map (rename f) := List.foldl_hom (List.map (rename f)) (absorb_rename hf)

end LaunchConfig

namespace Graph

/-- A node inherits from the same server or client. -/
theorem inheritedSource_rename (g : Graph) (n : Node) :
    (g.rename f).inheritedSource (n.rename f) = (g.inheritedSource n).rename f := by
  have hkind : (n.rename f).kind = n.kind := rfl
  have hserver : ((g.rename f).backingServer (n.rename f)).filter (fun server => server.id != (n.rename f).id) =
      ((g.backingServer n).filter fun server => server.id != n.id).map (Node.rename f) := by
    rw [backingServer_rename hf, Option.filter_map]
    simp only [Function.comp_def, Node.rename, bne, hf.beq_eq]
  simp only [inheritedSource, hserver, owningClient_rename hf, hkind]
  -- what is inherited does not depend on ids, and the node's own id is kept
  cases (g.backingServer n).filter fun server => server.id != n.id <;> cases n.kind <;> cases g.owningClient n <;> rfl

theorem toolFilter_rename (g : Graph) (n : Node) : (g.rename f).toolFilter (n.rename f) = g.toolFilter n := by
  have hnear : toolNames ((g.rename f).neighborsOf (n.rename f).id [.protocolTool]) =
      toolNames (g.neighborsOf n.id [.protocolTool]) :=
    neighborsOf_rename hf g n.id [.protocolTool] ▸ toolNames_rename f _
  unfold toolFilter
  rw [hnear]
  rfl

theorem launchConfig_rename (g : Graph) (credential : Option String) (n : Node) :
    (g.rename f).launchConfig credential (n.rename f) = (g.launchConfig credential n).rename f := by
  rw [launchConfig, launchConfig, inheritedSource_rename hf, toolFilter_rename hf, ← LaunchSource.normalize_rename]
  rfl

/-- The launch records of the renamed graph are the renamed ones, in the same order. -/
theorem launchConfigs_rename (g : Graph) (credential : Option String) :
    (g.rename f).launchConfigs credential = (g.launchConfigs credential).map (LaunchConfig.rename f) := by
  have hnodes : ((g.rename f).nodes.filter fun n => n.kind.isProtocol) =
      (g.nodes.filter fun n => n.kind.isProtocol).map (Node.rename f) := List.filter_map
  have hconfigs : (g.rename f).launchConfig credential ∘ Node.rename f =
      LaunchConfig.rename f ∘ g.launchConfig credential := funext (launchConfig_rename hf g credential)
  rw [launchConfigs, hnodes, List.map_map, hconfigs, ← List.map_map]
  exact LaunchConfig.dedupe_rename hf _

end Graph

end Injective

/-! ### Plans -/

def ToolPlan.rename (f : String → String) (t : ToolPlan) : ToolPlan := { t with nodeId := f t.nodeId }

def ToolsetPlan.rename (f : String → String) (t : ToolsetPlan) : ToolsetPlan := { t with config := t.config.rename f }

def AgentPlan.rename (f : String → String) (p : AgentPlan) : AgentPlan :=
  { p with tools := p.tools.map (ToolPlan.rename f), toolsets := p.toolsets.map (ToolsetPlan.rename f) }

theorem Capabilities.ofGraph_rename (f : String → String) (g : Graph) : ofGraph (g.rename f) = ofGraph g := by
  simp only [ofGraph, mentions, Graph.hasProtocol, Graph.rename, List.any_map]
  rfl

theorem Plan.toolLabels_rename (f : String → String) (ns : List Node) :
    toolLabels (ns.map (Node.rename f)) = toolLabels ns := by
  simp only [toolLabels, List.mapIdx_eq_zipIdx_map, List.zipIdx_map, List.map_map]
  rfl

theorem Plan.toolsetLabels_rename (f : String → String) (cs : List LaunchConfig) :
    toolsetLabels (cs.map (LaunchConfig.rename f)) = toolsetLabels cs := by
  simp only [toolsetLabels, List.mapIdx_eq_zipIdx_map, List.zipIdx_map, List.map_map]
  rfl

section Injective

variable {f : String → String} (hf : Function.Injective f)
include hf

/-- The renamed agent reaches the renamed nodes. -/
theorem Plan.bound_rename (links : Option AgentLinks) (c : LaunchConfig) :
    bound (links.map (AgentLinks.rename f)) (c.rename f) = bound links c := by
  cases links with
  | none => rfl
  | some l =>
    simp only [bound, Option.map_some, LaunchConfig.rename, List.isEmpty_map, List.any_map, Function.comp_def,
      AgentLinks.reachesProtocol_rename hf]

/-- The tools that are looked up by the ids of nodes have the same identifiers. -/
theorem ToolPlan.idents_rename (ns : List Node) (ts : List ToolPlan) :
    ((ns.map (Node.rename f)).filterMap fun n =>
        ((ts.map (ToolPlan.rename f)).find? fun t => t.nodeId == n.id).map (·.ident)) =
      ns.filterMap fun n => (ts.find? fun t => t.nodeId == n.id).map (·.ident) := by
  rw [List.filterMap_map]
  congr 1
  funext n
  simp only [Function.comp_apply, List.find?_map, Function.comp_def, Option.map_map, ToolPlan.rename, Node.rename,
    hf.beq_eq]

/-- A plan is made along the wiring, so the ids in it are renamed and nothing else changes. -/
theorem AgentPlan.build_rename (g : Graph) (configs : List LaunchConfig) :
    build (g.rename f) (configs.map (LaunchConfig.rename f)) = (build g configs).rename f := by
  have hlinks : ((g.firstOfKind .agent).map (Node.rename f)).map (g.rename f).agentLinks =
      ((g.firstOfKind .agent).map g.agentLinks).map (AgentLinks.rename f) := by
    -- without an agent there are no links to follow
    cases g.firstOfKind .agent with
    | none => rfl
    | some a => exact congrArg some (Graph.agentLinks_rename hf g a)
  have hbound : (configs.map (LaunchConfig.rename f)).filter
        (Plan.bound (((g.firstOfKind .agent).map g.agentLinks).map (AgentLinks.rename f))) =
      (configs.filter (Plan.bound ((g.firstOfKind .agent).map g.agentLinks))).map (LaunchConfig.rename f) := by
    rw [List.filter_map]
    exact congrArg (fun p => (configs.filter p).map _) (funext (Plan.bound_rename hf _))
  have htools : ∀ (ns : List Node) (idents : List String),
      (ns.map (Node.rename f)).zipWith Plan.planTool idents =
        (ns.zipWith Plan.planTool idents).map (ToolPlan.rename f) := by
    intro ns idents
    rw [List.zipWith_map_left, List.map_zipWith]
    rfl
  have htoolsets : ∀ (idents : List String) (cs : List LaunchConfig),
      idents.zipWith ToolsetPlan.mk (cs.map (LaunchConfig.rename f)) =
        (idents.zipWith ToolsetPlan.mk cs).map (ToolsetPlan.rename f) := by
    intro idents cs
    rw [List.zipWith_map_right, List.map_zipWith]
    rfl
  unfold build
  simp only [Graph.firstOfKind_rename, Graph.ofKind_rename, hlinks, hbound, htools, htoolsets, Plan.toolLabels_rename,
    Plan.toolsetLabels_rename, Capabilities.ofGraph_rename]
  cases g.firstOfKind .agent with
  | none =>
    simp only [Option.map_none, rename, List.map_map]
    rfl
  | some a =>
    have hmodel :
        ((g.agentLinks a).rename f).model.bind Plan.modelName = (g.agentLinks a).model.bind Plan.modelName := by
      rw [AgentLinks.rename, Option.bind_map]
      rfl
    simp only [Option.map_some, rename, Graph.agentLinks_rename hf, hmodel]
    rw [AgentLinks.rename, ToolPlan.idents_rename hf]
    rfl

end Injective

/-! ### Modules -/

section Modules

variable (f : String → String) (p : AgentPlan)

namespace AgentPlan

theorem isEmpty_tools_rename : (p.rename f).tools.isEmpty = p.tools.isEmpty := List.isEmpty_map

theorem isEmpty_toolsets_rename : (p.rename f).toolsets.isEmpty = p.toolsets.isEmpty := List.isEmpty_map

theorem toolsetIdents_rename : (p.rename f).toolsetIdents = p.toolsetIdents := List.map_map

/-- What is declared for a tool does not name its node. -/
theorem tools_rename (decorators : List String) :
    (p.rename f).tools.map (fun t => Python.Decl.tool (t.function decorators)) =
      p.tools.map fun t => Python.Decl.tool (t.function decorators) := List.map_map

/-- What is made of a toolset does not name its nodes, if `decl` looks only at how the server is launched. -/
theorem toolsets_rename {α : Type} (decl : ToolsetPlan → α) (h : ∀ t, decl (t.rename f) = decl t) :
    (p.rename f).toolsets.map decl = p.toolsets.map decl := by
  have hsame : decl ∘ ToolsetPlan.rename f = decl := funext h
  rw [rename, List.map_map, hsame]

end AgentPlan

open AgentPlan

theorem Adk.module_rename : module (p.rename f) = module p := by
  have hagent : agent (p.rename f) = agent p := by
    rw [agent, toolsetIdents_rename]
    rfl
  have hmain : mainBody (p.rename f) = mainBody p := by
    rw [mainBody, toolsetIdents_rename]
    rfl
  have hprogram : program (p.rename f) = program p := by
    rw [program, isEmpty_toolsets_rename, hmain]
    rfl
  have htoolsets := toolsets_rename f p (fun t => Python.Decl.assign t.ident .protocol (toolset t)) fun _ => rfl
  rw [module, isEmpty_toolsets_rename, tools_rename, htoolsets, hagent, hprogram]
  rfl

theorem OpenAIAgents.module_rename : module (p.rename f) = module p := by
  have hagent : agent (p.rename f) = agent p := by
    rw [agent, isEmpty_toolsets_rename, toolsetIdents_rename]
    rfl
  have hmain : mainBody (p.rename f) = mainBody p := by
    rw [mainBody, isEmpty_toolsets_rename]
    rfl
  have hfilters : ((p.rename f).toolsets.any fun t => !t.config.toolFilter.isEmpty) =
      p.toolsets.any fun t => !t.config.toolFilter.isEmpty := List.any_map
  have htoolsets := toolsets_rename f p (fun t => Python.Decl.assign t.ident .protocol (server t)) fun _ => rfl
  rw [module, isEmpty_toolsets_rename, isEmpty_tools_rename, tools_rename, htoolsets, hfilters, hagent, hmain]
  rfl

theorem LangGraph.module_rename : module (p.rename f) = module p := by
  have hagent : agent (p.rename f) = agent p := by
    rw [agent, toolsetIdents_rename]
    rfl
  have hclient : client (p.rename f) = client p := by
    rw [client, toolsets_rename f p server fun _ => rfl]
    rfl
  have htoolsets := toolsets_rename f p (fun t => Python.Decl.assign t.ident .protocol (toolset t)) fun _ => rfl
  rw [module, isEmpty_toolsets_rename, isEmpty_tools_rename, tools_rename, htoolsets, hclient, hagent]
  rfl

theorem Custom.module_rename : module (p.rename f) = module p := by
  have hagent : agent (p.rename f) = agent p := by
    rw [agent, toolsetIdents_rename]
    rfl
  have htoolsets := toolsets_rename f p (fun t => Python.Decl.assign t.ident .protocol (server t)) fun _ => rfl
  rw [module, tools_rename, htoolsets, hagent]
  rfl

/-- No framework writes an id into its module. -/
theorem AgentPlan.moduleFor_rename (w : Framework) : (p.rename f).moduleFor w = p.moduleFor w := by
  cases w with
  | adk => exact Adk.module_rename f p
  | openAIAgents => exact OpenAIAgents.module_rename f p
  | langGraph => exact LangGraph.module_rename f p
  | customAgent => exact Custom.module_rename f p

end Modules

/-! ### Compiling -/

/-- The compiler of the renamed graph. -/
def Compiler.rename (f : String → String) (c : Compiler) : Compiler := { c with graph := c.graph.rename f }

/-- The same modules, with new ids in the launch records. -/
def CompiledAgent.rename (f : String → String) (a : CompiledAgent) : CompiledAgent :=
  { a with configs := a.configs.map (LaunchConfig.rename f) }

namespace Compiler

variable {f : String → String} (hf : Function.Injective f) (c : Compiler) (hown : c.configs = none)
include hf hown

theorem launchConfigs_rename : (c.rename f).launchConfigs = c.launchConfigs.map (LaunchConfig.rename f) := by
  simp only [launchConfigs, rename, hown, Graph.launchConfigs_rename hf, List.isEmpty_map]
  by_cases hwanted : c.protocol = true
  · by_cases hnone : (c.graph.launchConfigs c.credential).isEmpty = true
    · -- no node stands for the built-in record
      simp only [hwanted, hnone, if_true]
      rfl
    · simp only [hwanted, hnone, if_true]
      rfl
  · simp only [hwanted]
    rfl

theorem plan_rename : (c.rename f).plan = c.plan.rename f := by
  rw [plan, launchConfigs_rename hf c hown]
  exact AgentPlan.build_rename hf c.graph c.launchConfigs

theorem compile_rename : (c.rename f).compile = c.compile.rename f := by
  have hplan := plan_rename hf c hown
  have hmodule : (c.rename f).module = c.module := by
    rw [module, hplan]
    exact AgentPlan.moduleFor_rename f c.plan c.framework
  have hlisted : (c.plan.rename f).toolsets.map (·.config) =
      (c.plan.toolsets.map (·.config)).map (LaunchConfig.rename f) := by
    simp only [AgentPlan.rename, List.map_map]
    rfl
  simp only [compile, hmodule, hplan, hlisted]
  rfl

end Compiler

/-- The ids that a graph uses: those of its nodes and those that its edges lead to. -/
def Graph.ids (g : Graph) : List String := g.nodes.map (·.id) ++ g.edges.flatMap fun e => [e.source, e.target]

/-- Only what becomes of the ids in use matters. -/
theorem Graph.rename_congr {f f' : String → String} {g : Graph} (h : ∀ id ∈ g.ids, f id = f' id) :
    g.rename f = g.rename f' := by
  have hnodes : ∀ n ∈ g.nodes, n.rename f = n.rename f' := by
    intro n hn
    have hid : f n.id = f' n.id := h n.id (List.mem_append_left _ (List.mem_map_of_mem hn))
    rw [Node.rename, Node.rename, hid]
  have hedges : ∀ e ∈ g.edges, e.rename f = e.rename f' := by
    intro e he
    have hends : ∀ id ∈ [e.source, e.target], f id = f' id := fun id hid =>
      h id (List.mem_append_right _ (List.mem_flatMap_of_mem he hid))
    rw [Edge.rename, Edge.rename, hends e.source (by simp), hends e.target (by simp)]
  rw [rename, rename, List.map_congr_left hnodes, List.map_congr_left hedges]

/-- The launch records of a compiled agent list ids of nodes. -/
theorem Compiler.mem_ids_of_mem_sources {c : Compiler} (hown : c.configs = none) {d : LaunchConfig} {id : String}
    (hd : d ∈ c.compile.configs) (hid : id ∈ d.sources) : id ∈ c.graph.ids := by
  have hlaunched : d ∈ c.launchConfigs := by
    have hbound : d ∈ Plan.boundConfigs c.graph c.launchConfigs :=
      AgentPlan.map_config_toolsets c.graph c.launchConfigs ▸ hd
    exact (List.mem_filter.mp hbound).1
  have hdrawn : d ∈ c.graph.launchConfigs c.credential := by
    simp only [launchConfigs, hown] at hlaunched
    -- the built-in record lists no node, and without tool servers there is no record
    split_ifs at hlaunched with hwanted hnone
    · obtain rfl := List.mem_singleton.mp hlaunched
      cases hid
    · exact hlaunched
    · cases hlaunched
  obtain ⟨e, he, -, hid⟩ := (LaunchConfig.mem_sources_dedupe _ d.launchKey id).mpr ⟨d, hdrawn, rfl, hid⟩
  obtain ⟨n, hn, rfl⟩ := List.mem_map.mp he
  rw [Graph.sources_launchConfig, List.mem_singleton] at hid
  exact hid ▸ List.mem_append_left _ (List.mem_map_of_mem (List.mem_filter.mp hn).1)

/-- A renaming that keeps the ids of a list apart agrees with one that keeps all ids apart. -/
theorem exists_injective_extension {ids : List String} {f : String → String} (hf : Set.InjOn f {id | id ∈ ids}) :
    ∃ f' : String → String, Function.Injective f' ∧ ∀ id ∈ ids, f' id = f id := by
  have hfinite : Cardinal.mk {id | id ∈ ids} < Cardinal.mk String :=
    (Cardinal.lt_aleph0_iff_set_finite.mpr ids.finite_toSet).trans_le (Cardinal.aleph0_le_mk String)
  obtain ⟨e, he⟩ := Cardinal.extend_function_of_lt ⟨_, hf.injective⟩ hfinite ⟨Equiv.refl String⟩
  exact ⟨e, e.injective, fun id hid => he ⟨id, hid⟩⟩

/-- **Ids are only names.** A graph compiles to the same modules, for every framework and with or without tool servers,
when its nodes and the ends of its edges get new ids and no two of its ids become one; its launch records differ only in
the ids of the nodes they list. -/
theorem compile_renamed (c : Compiler) (hown : c.configs = none) {f : String → String}
    (hf : Set.InjOn f {id | id ∈ c.graph.ids}) :
    (c.rename f).compile = c.compile.rename f := by
  obtain ⟨f', hinjective, hagree⟩ := exists_injective_extension hf
  have hgraph : c.rename f = c.rename f' := by
    rw [Compiler.rename, Compiler.rename, Graph.rename_congr fun id hid => (hagree id hid).symm]
  -- the records list ids in use only, so the two renamings give the same ones
  have hrecords : c.compile.configs.map (LaunchConfig.rename f) = c.compile.configs.map (LaunchConfig.rename f') := by
    refine List.map_congr_left fun d hd => ?_
    have hsources : d.sources.map f = d.sources.map f' :=
      List.map_congr_left fun id hid => (hagree id (Compiler.mem_ids_of_mem_sources hown hd hid)).symm
    rw [LaunchConfig.rename, LaunchConfig.rename, hsources]
  rw [hgraph, Compiler.compile_rename hinjective c hown, CompiledAgent.rename, CompiledAgent.rename, hrecords]

/-- An agent with a tool and two clients of one tool server, and an edge that leads nowhere. -/
def sharedServerTeam : Compiler where
  graph :=
    { nodes := [{ id := "a", kind := .agent, label := "Support" }, { id := "t", kind := .tool, label := "Search" },
        { id := "c", kind := .protocolClient, label := "Files" },
        { id := "d", kind := .protocolClient, label := "Disk" }]
      edges := [⟨"1", "a", "t"⟩, ⟨"2", "c", "a"⟩, ⟨"3", "gone", "d"⟩] }
  framework := .langGraph
  protocol := true

/-- New ids in another order; ids that the team does not use all become one. -/
def shuffledId (id : String) : String :=
  if id = "a" then "z" else if id = "t" then "m" else if id = "c" then "k" else if id = "d" then "b" else "a"

theorem compile_renamed_sharedServerTeam :
    sharedServerTeam.configs = none ∧ Set.InjOn shuffledId {id | id ∈ sharedServerTeam.graph.ids} ∧
      (sharedServerTeam.rename shuffledId).compile.code = sharedServerTeam.compile.code ∧
      sharedServerTeam.compile.configs.map (·.sources) = [["c", "d"]] ∧
      (sharedServerTeam.rename shuffledId).compile.configs.map (·.sources) = [["k", "b"]] := by
  have hapart : ∀ id ∈ sharedServerTeam.graph.ids, ∀ other ∈ sharedServerTeam.graph.ids,
      shuffledId id = shuffledId other → id = other := by decide
  have hinjective : Set.InjOn shuffledId {id | id ∈ sharedServerTeam.graph.ids} :=
    fun id hid other hother => hapart id hid other hother
  have hlisted : sharedServerTeam.compile.configs.map (·.sources) = [["c", "d"]] := by decide
  have hrenamed : (sharedServerTeam.rename shuffledId).compile = sharedServerTeam.compile.rename shuffledId :=
    compile_renamed sharedServerTeam rfl hinjective
  have hsources : (sharedServerTeam.rename shuffledId).compile.configs.map (·.sources) =
      (sharedServerTeam.compile.configs.map (·.sources)).map (List.map shuffledId) := by
    rw [hrenamed, CompiledAgent.rename, List.map_map, List.map_map]
    rfl
  refine ⟨rfl, hinjective, by rw [hrenamed, CompiledAgent.rename], hlisted, ?_⟩
  rw [hsources, hlisted]
  decide

end AgentFlow
