import Mathlib.Data.List.Forall2
import Mathlib.Data.List.Zip
import AgentFlow.Plan
import AgentFlow.Proofs.Graph.Neighbors
import AgentFlow.Proofs.Naming.Fresh

/-!
# The parts of a plan

What the tools, toolsets and bound tools of a plan are, one by one. There is one tool for each tool node and one toolset
for each launch record that goes with the agent, in order; their identifiers all differ. The bound tools are those of
the tool nodes wired to the agent, each once.
-/

namespace AgentFlow

/-- The wiring of the first agent. -/
def Graph.firstLinks (g : Graph) : Option AgentLinks := (g.firstOfKind .agent).map g.agentLinks

namespace Plan

/-- The identifiers of the tools of a graph, and the names in use after them. -/
def toolIdents (g : Graph) : List String × Names := startNames.allocateAll (toolLabels (g.ofKind .tool))

/-- The launch records that go with the first agent. -/
def boundConfigs (g : Graph) (configs : List LaunchConfig) : List LaunchConfig := configs.filter (bound g.firstLinks)

/-- The identifiers of the toolsets. -/
def toolsetIdents (g : Graph) (configs : List LaunchConfig) : List String :=
  ((toolIdents g).2.allocateAll (toolsetLabels (boundConfigs g configs))).1

theorem length_toolIdents (g : Graph) : (toolIdents g).1.length = (g.ofKind .tool).length := by
  simp [toolIdents, toolLabels]

theorem map_fst_zip_toolIdents (g : Graph) : ((g.ofKind .tool).zip (toolIdents g).1).map Prod.fst = g.ofKind .tool :=
  List.map_fst_zip (Nat.le_of_eq (length_toolIdents g).symm)

theorem length_toolsetIdents (g : Graph) (configs : List LaunchConfig) :
    (toolsetIdents g configs).length = (boundConfigs g configs).length := by
  simp [toolsetIdents, toolsetLabels]

/-- Toolsets are named after the tools, so no identifier is given to both. -/
theorem nodup_idents (g : Graph) (configs : List LaunchConfig) :
    ((toolIdents g).1 ++ toolsetIdents g configs).Nodup := by
  refine List.nodup_append.mpr ⟨Names.nodup_allocateAll _ _, Names.nodup_allocateAll _ _, ?_⟩
  rintro ident htool other htoolset rfl
  have htaken : (toolIdents g).2.isTaken ident = true := Names.isTaken_allocateAll _ |>.mpr (.inl htool)
  rw [Names.isTaken_of_mem_allocateAll _ htoolset] at htaken
  cases htaken

end Plan

namespace AgentPlan

variable (g : Graph) (configs : List LaunchConfig)

/-! ### Tools and toolsets -/

theorem tools_build : (build g configs).tools =
    ((g.ofKind .tool).zip (Plan.toolIdents g).1).map fun e => Plan.planTool e.1 e.2 := by
  unfold build
  dsimp only
  split <;> exact (List.map_uncurry_zip_eq_zipWith ..).symm

theorem toolsets_build : (build g configs).toolsets =
    ((Plan.toolsetIdents g configs).zip (Plan.boundConfigs g configs)).map fun e => ⟨e.1, e.2⟩ := by
  unfold build
  dsimp only
  split <;> exact (List.map_uncurry_zip_eq_zipWith ..).symm

theorem map_ident_tools : (build g configs).tools.map (·.ident) = (Plan.toolIdents g).1 := by
  rw [tools_build, List.map_map]
  exact List.map_snd_zip (Nat.le_of_eq (Plan.length_toolIdents g))

theorem map_nodeId_tools : (build g configs).tools.map (·.nodeId) = (g.ofKind .tool).map (·.id) := by
  rw [tools_build, List.map_map, ← congrArg (List.map (·.id)) (Plan.map_fst_zip_toolIdents g), List.map_map]
  rfl

theorem toolsetIdents_build : (build g configs).toolsetIdents = Plan.toolsetIdents g configs := by
  rw [toolsetIdents, toolsets_build, List.map_map]
  exact List.map_fst_zip (Nat.le_of_eq (Plan.length_toolsetIdents g configs))

theorem map_config_toolsets : (build g configs).toolsets.map (·.config) = Plan.boundConfigs g configs := by
  rw [toolsets_build, List.map_map]
  exact List.map_snd_zip (Nat.le_of_eq (Plan.length_toolsetIdents g configs).symm)

/-! ### Bound tools -/

theorem boundTools_of_none (h : g.firstOfKind .agent = none) :
    (build g configs).boundTools = (build g configs).tools.map (·.ident) := by
  simp only [build, h]

theorem boundTools_of_some {a : Node} (h : g.firstOfKind .agent = some a) :
    (build g configs).boundTools = (g.agentLinks a).tools.filterMap fun n =>
      ((build g configs).tools.find? fun t => t.nodeId == n.id).map (·.ident) := by
  simp only [build, h]

variable {g}

/-- A tool node that its id means is the first tool node with this id. -/
theorem find?_toolNode {n : Node} (hn : g.node? n.id = some n) (hkind : n.kind = .tool) :
    (g.ofKind .tool).find? (fun m => m.id == n.id) = some n := by
  obtain ⟨hid, before, after, hnodes, hbefore⟩ := List.find?_eq_some_iff_append.mp hn
  rw [Graph.ofKind, List.find?_filter, List.find?_eq_some_iff_append]
  refine ⟨by simp [hkind], before, after, hnodes, fun m hm => ?_⟩
  have hother := hbefore m hm
  simp only [Bool.not_eq_true', beq_eq_false_iff_ne] at hother ⊢
  simp [hother]

/-- The tool that is looked up for a wired tool node is the one planned for it. -/
theorem planned_of_toolNode {n : Node} (hn : g.node? n.id = some n) (hkind : n.kind = .tool) :
    ∃ ident, (n, ident) ∈ (g.ofKind .tool).zip (Plan.toolIdents g).1 ∧
      (build g configs).tools.find? (fun t => t.nodeId == n.id) = some (Plan.planTool n ident) := by
  have hfirst := find?_toolNode hn hkind
  rw [← Plan.map_fst_zip_toolIdents g, List.find?_map] at hfirst
  obtain ⟨⟨m, ident⟩, hfind, rfl⟩ := Option.map_eq_some_iff.mp hfirst
  refine ⟨ident, List.mem_of_find?_eq_some hfind, ?_⟩
  rw [tools_build, List.find?_map]
  exact congrArg (Option.map _) hfind

/-- The bound tools are the identifiers planned for the tool nodes wired to the first agent, in order; all identifiers
if there is no agent. -/
structure BindsWired (g : Graph) (p : AgentPlan) : Prop where
  /-- One tool is planned for each tool node. -/
  planned : p.tools.map (·.nodeId) = (g.ofKind .tool).map (·.id)
  unwired : g.firstOfKind .agent = none → p.boundTools = p.tools.map (·.ident)
  wired : ∀ a, g.firstOfKind .agent = some a →
    List.Forall₂ (fun n ident => (n, ident) ∈ (g.ofKind .tool).zip (p.tools.map (·.ident)))
      (g.agentLinks a).tools p.boundTools

/-- One tool is bound for each wired tool node, in order. -/
theorem forall₂_boundTools {a : Node} (h : g.firstOfKind .agent = some a) :
    List.Forall₂ (fun n ident => (n, ident) ∈ (g.ofKind .tool).zip (Plan.toolIdents g).1)
      (g.agentLinks a).tools (build g configs).boundTools := by
  have hwired : ∀ n ∈ (g.agentLinks a).tools, g.node? n.id = some n ∧ n.kind = .tool := by
    intro n hn
    obtain ⟨hmem, hkind⟩ := Graph.mem_neighborsOf.mp hn
    exact ⟨Graph.node?_of_mem_neighbors hmem, by simpa using hkind⟩
  rw [boundTools_of_some g configs h]
  -- the induction is on the wired tools, for each of which a tool is planned
  generalize (g.agentLinks a).tools = ns at hwired
  induction ns with
  | nil => exact .nil
  | cons n ns ih =>
    obtain ⟨⟨hn, hkind⟩, hns⟩ := List.forall_mem_cons.mp hwired
    obtain ⟨ident, hmem, hfind⟩ := planned_of_toolNode configs hn hkind
    have hident : ((build g configs).tools.find? fun t => t.nodeId == n.id).map (·.ident) = some ident := by
      rw [hfind]
      rfl
    simp only [List.filterMap_cons, hident]
    exact .cons hmem (ih hns)

theorem bindsWired_build (g : Graph) (configs : List LaunchConfig) : (build g configs).BindsWired g where
  planned := map_nodeId_tools g configs
  unwired := boundTools_of_none g configs
  wired a h := by
    rw [map_ident_tools]
    exact forall₂_boundTools configs h

/-- Only planned tools are bound. -/
theorem boundTools_subset (g : Graph) (configs : List LaunchConfig) :
    (build g configs).boundTools ⊆ (build g configs).tools.map (·.ident) := by
  cases h : g.firstOfKind .agent with
  | none => exact boundTools_of_none g configs h ▸ List.Subset.refl _
  | some a =>
    intro ident hident
    rw [boundTools_of_some g configs h] at hident
    obtain ⟨n, -, hn⟩ := List.mem_filterMap.mp hident
    obtain ⟨t, ht, rfl⟩ := Option.map_eq_some_iff.mp hn
    exact List.mem_map_of_mem (List.mem_of_find?_eq_some ht)

theorem nodup_boundTools (g : Graph) (configs : List LaunchConfig) : (build g configs).boundTools.Nodup := by
  have hidents : ((build g configs).tools.map (·.ident)).Nodup := by
    rw [map_ident_tools]
    exact (List.nodup_append.mp (Plan.nodup_idents g configs)).1
  cases h : g.firstOfKind .agent with
  | none => rwa [boundTools_of_none g configs h]
  | some a =>
    -- different ids have different tools, and different tools have different identifiers
    have hids : ((g.agentLinks a).tools.map (·.id)).Nodup := g.nodup_neighborsOf a.id [.tool]
    have hbound := boundTools_of_some g configs h
    rw [← Function.comp_def (fun id => ((build g configs).tools.find? fun t => t.nodeId == id).map (·.ident)) Node.id,
      ← List.filterMap_map] at hbound
    rw [hbound]
    refine hids.filterMap fun id id' ident hid hid' => ?_
    obtain ⟨t, ht, rfl⟩ := Option.map_eq_some_iff.mp hid
    obtain ⟨t', ht', hsame⟩ := Option.map_eq_some_iff.mp hid'
    have htt : t' = t := List.inj_on_of_nodup_map hidents (List.mem_of_find?_eq_some ht')
      (List.mem_of_find?_eq_some ht) hsame
    have hnode : t.nodeId = id := by simpa using List.find?_some ht
    have hnode' : t'.nodeId = id' := by simpa using List.find?_some ht'
    rw [← hnode, ← hnode', htt]

/-- Bound tools and toolsets have different identifiers. -/
theorem nodup_bound (g : Graph) (configs : List LaunchConfig) :
    ((build g configs).boundTools ++ (build g configs).toolsetIdents).Nodup := by
  obtain ⟨-, htoolsets, hdisjoint⟩ := List.nodup_append.mp (Plan.nodup_idents g configs)
  rw [← map_ident_tools g configs, ← toolsetIdents_build] at hdisjoint
  rw [← toolsetIdents_build] at htoolsets
  exact List.nodup_append.mpr ⟨nodup_boundTools g configs, htoolsets,
    fun ident hident => hdisjoint ident (boundTools_subset g configs hident)⟩

end AgentPlan

end AgentFlow
