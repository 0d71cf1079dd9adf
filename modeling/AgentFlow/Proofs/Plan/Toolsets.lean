import AgentFlow.Compiler
import AgentFlow.Proofs.Graph.Reach
import AgentFlow.Proofs.Launch.Joining
import AgentFlow.Proofs.Plan.Parts

/-!
# The toolsets of an agent

A graph whose own protocol nodes are launched gives its agent one toolset for each server that some wired node launches
(`Compiler.LaunchesOwn.exists_toolset`). All of the toolset's data come from the node that leads, the one declared first
among all that launch the server, whether it is wired to the agent or not. So the data of a wired node may give way to
those of a node that is not wired, and a wired tool may be missing from the filter of its own toolset; the theorems here
say exactly when.
-/

namespace AgentFlow

namespace LaunchConfig

/-- What a tool server is launched with, and the tools it is restricted to. -/
def launchData (c : LaunchConfig) : String × List String × TextMap × String × String × List String :=
  (c.command, c.args, c.env, c.package, c.credential, c.toolFilter)

/-- The tool passes the filter; an empty filter lets all tools pass. -/
def Admits (c : LaunchConfig) (tool : String) : Prop := c.toolFilter = [] ∨ tool ∈ c.toolFilter

instance (c : LaunchConfig) (tool : String) : Decidable (c.Admits tool) := inferInstanceAs (Decidable (_ ∨ _))

end LaunchConfig

namespace Graph

/-- The protocol node `w` is wired to the agent. -/
def Wired (g : Graph) (agent w : Node) : Prop :=
  w ∈ g.protocolNodes ∧ (g.agentLinks agent).reachesProtocol w.id = true

instance (g : Graph) (agent w : Node) : Decidable (g.Wired agent w) := inferInstanceAs (Decidable (_ ∧ _))

instance (g : Graph) (credential : Option String) (n : Node) : Decidable (g.Leads credential n) :=
  inferInstanceAs (Decidable (_ = _))

/-- Of the nodes that launch one of the agent's servers, `n` is declared first. -/
def LeadsFor (g : Graph) (credential : Option String) (agent n : Node) : Prop :=
  g.Leads credential n ∧ ∃ w, g.Wired agent w ∧ g.sameLaunch credential w n = true

theorem launchData_joinedConfig (g : Graph) (credential : Option String) (n : Node) :
    (g.joinedConfig credential n).launchData = (g.launchConfig credential n).launchData := rfl

theorem admits_joinedConfig {g : Graph} {credential : Option String} {n : Node} {tool : String} :
    (g.joinedConfig credential n).Admits tool ↔ (g.launchConfig credential n).Admits tool := Iff.rfl

theorem Leads.sources_ne_nil {g : Graph} {credential : Option String} {n : Node} (h : g.Leads credential n) :
    (g.joinedConfig credential n).sources ≠ [] := by
  obtain ⟨rest, hgroup⟩ := h.group_eq
  simp [joinedConfig, hgroup]

/-! ### Wired tools -/

variable {g : Graph} {agent t : Node}

theorem mem_protocolTools (h : t ∈ (g.agentLinks agent).protocolTools) : t ∈ g.nodes ∧ t.kind = .protocolTool := by
  obtain ⟨hkind, ⟨c, -, hnext⟩, -⟩ := mem_reachThrough.mp h
  exact ⟨mem_of_mem_neighbors hnext, hkind⟩

/-- The tools of a protocol that an agent reaches are wired to it. -/
theorem wired_of_mem_protocolTools (h : t ∈ (g.agentLinks agent).protocolTools) : g.Wired agent t := by
  obtain ⟨hmem, hkind⟩ := mem_protocolTools h
  refine ⟨mem_protocolNodes.mpr ⟨hmem, by rw [hkind]; decide⟩, ?_⟩
  simp only [AgentLinks.reachesProtocol, List.any_append, Bool.or_eq_true, List.any_eq_true]
  exact .inl (.inr ⟨t, h, by simp⟩)

end Graph

/-! ### Toolsets by their leading nodes -/

/-- The compiler launches what the protocol nodes of its graph describe, for `agent`. -/
structure Compiler.LaunchesOwn (c : Compiler) (agent : Node) : Prop where
  protocol : c.protocol = true
  configs : c.configs = none
  ids : (c.graph.nodes.map (·.id)).Nodup
  agent : c.graph.firstOfKind .agent = some agent

section Toolsets

variable {c : Compiler} {agent : Node}

/-- A record goes with the agent if some node in its group is wired to it. -/
theorem bound_joinedConfig {n : Node} :
    Plan.bound (some (c.graph.agentLinks agent)) (c.graph.joinedConfig c.credential n) = true ↔
      c.graph.launchGroup c.credential n = [] ∨
        ∃ w, c.graph.Wired agent w ∧ c.graph.sameLaunch c.credential w n = true := by
  simp only [Plan.bound, Graph.joinedConfig, List.isEmpty_map, Bool.or_eq_true, List.isEmpty_iff, List.any_map,
    List.any_eq_true, Graph.mem_launchGroup, Graph.Wired, Function.comp]
  constructor
  · rintro (h | ⟨w, ⟨hw, hsame⟩, hreach⟩)
    · exact .inl h
    · exact .inr ⟨w, ⟨hw, hreach⟩, hsame⟩
  · rintro (h | ⟨w, ⟨hw, hreach⟩, hsame⟩)
    · exact .inl h
    · exact .inr ⟨w, ⟨hw, hsame⟩, hreach⟩

theorem Compiler.LaunchesOwn.launchConfigs_eq (h : c.LaunchesOwn agent) :
    c.launchConfigs =
      if (c.graph.launchConfigs c.credential).isEmpty then [.builtIn c.credential]
      else c.graph.launchConfigs c.credential := by
  simp only [Compiler.launchConfigs, h.protocol, h.configs, if_true]

theorem Compiler.LaunchesOwn.mem_launchConfigs (h : c.LaunchesOwn agent) {d : LaunchConfig} (hd : d.sources ≠ []) :
    d ∈ c.launchConfigs ↔ ∃ n, c.graph.Leads c.credential n ∧ d = c.graph.joinedConfig c.credential n := by
  rw [← Graph.mem_launchConfigs h.ids, h.launchConfigs_eq]
  split_ifs with hempty
  · -- no node stands for the built-in record
    have hbuiltIn : (LaunchConfig.builtIn c.credential).sources = [] := rfl
    have hother : d ≠ .builtIn c.credential := by
      rintro rfl
      exact hd hbuiltIn
    simp [hother, List.isEmpty_iff.mp hempty]
  · exact Iff.rfl

theorem Compiler.LaunchesOwn.mem_toolsets (h : c.LaunchesOwn agent) {d : LaunchConfig} :
    (∃ t ∈ c.plan.toolsets, t.config = d) ↔
      d ∈ c.launchConfigs ∧ Plan.bound (some (c.graph.agentLinks agent)) d = true := by
  have hlinks : c.graph.firstLinks = some (c.graph.agentLinks agent) := by simp [Graph.firstLinks, h.agent]
  have hconfigs : c.plan.toolsets.map (·.config) = Plan.boundConfigs c.graph c.launchConfigs :=
    AgentPlan.map_config_toolsets c.graph c.launchConfigs
  rw [← List.mem_map, hconfigs, Plan.boundConfigs, hlinks, List.mem_filter]

/-- A toolset that nodes stand for is that of a node that leads. -/
theorem Compiler.LaunchesOwn.exists_leadsFor (h : c.LaunchesOwn agent) {t : ToolsetPlan} (ht : t ∈ c.plan.toolsets)
    (hsources : t.config.sources ≠ []) :
    ∃ n, c.graph.LeadsFor c.credential agent n ∧ t.config = c.graph.joinedConfig c.credential n := by
  obtain ⟨hmem, hbound⟩ := h.mem_toolsets.mp ⟨t, ht, rfl⟩
  obtain ⟨n, hleads, hconfig⟩ := (h.mem_launchConfigs hsources).mp hmem
  rw [hconfig] at hbound hsources
  refine ⟨n, ⟨hleads, (bound_joinedConfig.mp hbound).resolve_left fun hnone => ?_⟩, hconfig⟩
  exact hsources (by simp [Graph.joinedConfig, hnone])

theorem Compiler.LaunchesOwn.exists_toolset (h : c.LaunchesOwn agent) {n : Node}
    (hn : c.graph.LeadsFor c.credential agent n) :
    ∃ t ∈ c.plan.toolsets, t.config = c.graph.joinedConfig c.credential n := by
  obtain ⟨hleads, hwired⟩ := hn
  have hsources := hleads.sources_ne_nil
  exact h.mem_toolsets.mpr ⟨(h.mem_launchConfigs hsources).mpr ⟨n, hleads, rfl⟩, bound_joinedConfig.mpr (.inr hwired)⟩

/-- With a protocol node in the graph, nodes stand for every toolset. -/
theorem Compiler.LaunchesOwn.sources_ne_nil (h : c.LaunchesOwn agent) {w : Node} (hw : w ∈ c.graph.protocolNodes)
    {t : ToolsetPlan} (ht : t ∈ c.plan.toolsets) : t.config.sources ≠ [] := by
  -- some node leads for `w`, so the graph has records and the built-in one is not used
  obtain ⟨m, hm, -⟩ := Graph.exists_leads c.credential hw
  have hsome : c.graph.joinedConfig c.credential m ∈ c.graph.launchConfigs c.credential :=
    (Graph.mem_launchConfigs h.ids).mpr ⟨m, hm, rfl⟩
  have hnonempty : (c.graph.launchConfigs c.credential).isEmpty = false := by
    cases hconfigs : c.graph.launchConfigs c.credential with
    | nil => simp [hconfigs] at hsome
    | cons d ds => rfl
  obtain ⟨hmem, -⟩ := h.mem_toolsets.mp ⟨t, ht, rfl⟩
  rw [h.launchConfigs_eq, hnonempty] at hmem
  obtain ⟨n, hn, hconfig⟩ := (Graph.mem_launchConfigs h.ids).mp hmem
  rw [hconfig]
  exact hn.sources_ne_nil

end Toolsets

/-! ### Whose data a toolset carries -/

/-- **A toolset carries the data of the node that leads.** All toolsets carry data of wired nodes exactly if every node
that leads launches with the data of some wired node. -/
theorem toolsets_carry_leaders {c : Compiler} {agent : Node} (h : c.LaunchesOwn agent) :
    (∀ t ∈ c.plan.toolsets, t.config.sources ≠ [] → ∃ n, c.graph.LeadsFor c.credential agent n ∧
        t.config.launchData = (c.graph.launchConfig c.credential n).launchData) ∧
      ((∀ t ∈ c.plan.toolsets, t.config.sources ≠ [] → ∃ w, c.graph.Wired agent w ∧
          t.config.launchData = (c.graph.launchConfig c.credential w).launchData) ↔
        ∀ n, c.graph.LeadsFor c.credential agent n → ∃ w, c.graph.Wired agent w ∧
          (c.graph.launchConfig c.credential n).launchData = (c.graph.launchConfig c.credential w).launchData) := by
  have hcarries : ∀ t ∈ c.plan.toolsets, t.config.sources ≠ [] → ∃ n, c.graph.LeadsFor c.credential agent n ∧
      t.config.launchData = (c.graph.launchConfig c.credential n).launchData := by
    intro t ht hsources
    obtain ⟨n, hn, hconfig⟩ := h.exists_leadsFor ht hsources
    exact ⟨n, hn, by rw [hconfig, Graph.launchData_joinedConfig]⟩
  refine ⟨hcarries, ?_, ?_⟩
  · -- every node that leads has a toolset, which carries its data
    intro hwired n hn
    obtain ⟨t, ht, hconfig⟩ := h.exists_toolset hn
    obtain ⟨w, hw, hdata⟩ := hwired t ht (hconfig ▸ hn.1.sources_ne_nil)
    exact ⟨w, hw, by rw [← hdata, hconfig, Graph.launchData_joinedConfig]⟩
  · intro hleaders t ht hsources
    obtain ⟨n, hn, hdata⟩ := hcarries t ht hsources
    obtain ⟨w, hw, hsame⟩ := hleaders n hn
    exact ⟨w, hw, hdata.trans hsame⟩

def helper : Node := { id := "a", kind := .agent, label := "Helper" }

def keyedClient : Node := { id := "main", kind := .protocolClient, label := "Main", credential := some "own-key" }

def spareClient : Node := { id := "spare", kind := .protocolClient, label := "Spare" }

/-- The helper with its client and the spare client, declared in the given order; a key for servers without one comes
from outside. -/
def twoClients (clients : List Node) : Compiler where
  graph := { nodes := helper :: clients, edges := [⟨"1", "a", "main"⟩] }
  framework := .adk
  protocol := true
  credential := some "outside"

theorem launchesOwn_twoClients (clients : List Node) (hids : ((helper :: clients).map (·.id)).Nodup) :
    (twoClients clients).LaunchesOwn helper := ⟨rfl, rfl, hids, rfl⟩

theorem toolsets_carry_leaders_keyedFirst :
    (twoClients [keyedClient, spareClient]).LaunchesOwn helper ∧
      ∀ t ∈ (twoClients [keyedClient, spareClient]).plan.toolsets, t.config.sources ≠ [] →
        ∃ w, (twoClients [keyedClient, spareClient]).graph.Wired helper w ∧
          t.config.launchData =
            ((twoClients [keyedClient, spareClient]).graph.launchConfig (some "outside") w).launchData := by
  have h : (twoClients [keyedClient, spareClient]).LaunchesOwn helper := launchesOwn_twoClients _ (by decide)
  have hleads : ∀ n ∈ (twoClients [keyedClient, spareClient]).graph.protocolNodes,
      (twoClients [keyedClient, spareClient]).graph.Leads (some "outside") n → n = keyedClient := by decide
  refine ⟨h, (toolsets_carry_leaders h).2.mpr ?_⟩
  rintro n ⟨hn, -⟩
  obtain rfl := hleads n hn.mem hn
  exact ⟨keyedClient, by decide, rfl⟩

/-- With the spare client declared first, the toolset carries the key from outside, which is no wired node's. -/
theorem spareFirst_key :
    (twoClients [spareClient, keyedClient]).LaunchesOwn helper ∧
      (∃ t ∈ (twoClients [spareClient, keyedClient]).plan.toolsets, t.config.sources ≠ [] ∧
        t.config.credential = "outside") ∧
      ∀ w, (twoClients [spareClient, keyedClient]).graph.Wired helper w →
        ((twoClients [spareClient, keyedClient]).graph.launchConfig (some "outside") w).credential = "own-key" := by
  refine ⟨launchesOwn_twoClients _ (by decide), by decide, ?_⟩
  rintro w ⟨hw, hreach⟩
  revert w
  decide

/-! ### Which tools a toolset admits -/

section Admission

variable {g : Graph} {credential : Option String} {n t : Node}

/-- The filter of `n` leaves room for the tool `t`: `n` is the tool, a server, or a client next to the tool. -/
def Graph.Covers (g : Graph) (n t : Node) : Prop :=
  n = t ∨ n.kind = .protocolServer ∨ n.kind = .protocolClient ∧ t ∈ g.neighbors n.id

theorem mem_toolNames {ns : List Node} (ht : t ∈ ns) (hlabel : Text.strip t.label ≠ "") :
    Text.strip t.label ∈ toolNames ns :=
  List.mem_filter.mpr ⟨List.mem_map_of_mem ht, by simpa using hlabel⟩

/-- A node whose filter leaves room for a tool admits it. -/
theorem Graph.Covers.admits (h : g.Covers n t) (hkind : t.kind = .protocolTool) (hlabel : Text.strip t.label ≠ "") :
    (g.launchConfig credential n).Admits (Text.strip t.label) := by
  rw [LaunchConfig.Admits, Graph.toolFilter_launchConfig]
  rcases h with rfl | hserver | ⟨hclient, hnext⟩
  · have hself : g.toolFilter n = toolNames [n] := by simp [Graph.toolFilter, hkind]
    rw [hself]
    exact .inr (mem_toolNames List.mem_cons_self hlabel)
  · exact .inl (by simp [Graph.toolFilter, hserver])
  · have hnear : g.toolFilter n = toolNames (g.neighborsOf n.id [.protocolTool]) := by simp [Graph.toolFilter, hclient]
    rw [hnear]
    exact .inr (mem_toolNames (Graph.mem_neighborsOf.mpr ⟨hnext, by simp [hkind]⟩) hlabel)

/-- Some node leads for a wired node, and its toolset names the wired node. -/
theorem Compiler.LaunchesOwn.exists_own_toolset {c : Compiler} {agent w : Node} (h : c.LaunchesOwn agent)
    (hw : c.graph.Wired agent w) :
    ∃ n, c.graph.LeadsFor c.credential agent n ∧ c.graph.sameLaunch c.credential n w = true ∧
      ∃ s ∈ c.plan.toolsets, s.config = c.graph.joinedConfig c.credential n ∧ w.id ∈ s.config.sources := by
  obtain ⟨n, hleads, hsame⟩ := Graph.exists_leads c.credential hw.1
  have hback : c.graph.sameLaunch c.credential w n = true :=
    Graph.sameLaunch_iff.mpr (Graph.sameLaunch_iff.mp hsame).symm
  have hn : c.graph.LeadsFor c.credential agent n := ⟨hleads, w, hw, hback⟩
  obtain ⟨s, hs, hconfig⟩ := h.exists_toolset hn
  have hgroup : w ∈ c.graph.launchGroup c.credential n := Graph.mem_launchGroup.mpr ⟨hw.1, hback⟩
  refine ⟨n, hn, hsame, s, hs, hconfig, ?_⟩
  rw [hconfig]
  exact List.mem_map_of_mem hgroup

end Admission

/-- **A wired tool is admitted exactly if some node that leads admits it.** The tool always has a toolset that names it
as a source, but its filter is that of the node that leads: it admits the tool if that node is the tool itself, a
server, or a client next to the tool. -/
theorem wired_tool_admitted_iff {c : Compiler} {agent t : Node} (h : c.LaunchesOwn agent)
    (ht : t ∈ (c.graph.agentLinks agent).protocolTools) (hlabel : Text.strip t.label ≠ "") :
    ((∃ s ∈ c.plan.toolsets, s.config.Admits (Text.strip t.label)) ↔
        ∃ n, c.graph.LeadsFor c.credential agent n ∧
          (c.graph.launchConfig c.credential n).Admits (Text.strip t.label)) ∧
      ∃ n, c.graph.LeadsFor c.credential agent n ∧ c.graph.sameLaunch c.credential n t = true ∧
        ∃ s ∈ c.plan.toolsets, t.id ∈ s.config.sources ∧ s.config.toolFilter = c.graph.toolFilter n ∧
          (c.graph.Covers n t → s.config.Admits (Text.strip t.label)) := by
  have hwired : c.graph.Wired agent t := Graph.wired_of_mem_protocolTools ht
  have hkind : t.kind = .protocolTool := (Graph.mem_protocolTools ht).2
  refine ⟨⟨?_, ?_⟩, ?_⟩
  · rintro ⟨s, hs, hadmits⟩
    obtain ⟨n, hn, hconfig⟩ := h.exists_leadsFor hs (h.sources_ne_nil hwired.1 hs)
    rw [hconfig] at hadmits
    exact ⟨n, hn, Graph.admits_joinedConfig.mp hadmits⟩
  · rintro ⟨n, hn, hadmits⟩
    obtain ⟨s, hs, hconfig⟩ := h.exists_toolset hn
    refine ⟨s, hs, ?_⟩
    rw [hconfig]
    exact Graph.admits_joinedConfig.mpr hadmits
  · -- the toolset of the tool's own server
    obtain ⟨n, hn, hsame, s, hs, hconfig, hsource⟩ := h.exists_own_toolset hwired
    refine ⟨n, hn, hsame, s, hs, hsource, by rw [hconfig]; rfl, fun hcovers => ?_⟩
    rw [hconfig]
    exact Graph.admits_joinedConfig.mpr (hcovers.admits hkind hlabel)

def filesClient : Node := { id := "c", kind := .protocolClient, label := "Files" }

def alphaTool : Node := { id := "t1", kind := .protocolTool, label := "alpha" }

def betaTool : Node := { id := "t2", kind := .protocolTool, label := "beta" }

/-- The helper with the client and its two tools, declared in the given order. -/
def filesTeam (nodes : List Node) : Compiler where
  graph := { nodes := helper :: nodes, edges := [⟨"1", "a", "c"⟩, ⟨"2", "c", "t1"⟩, ⟨"3", "c", "t2"⟩] }
  framework := .adk
  protocol := true

theorem launchesOwn_filesTeam (nodes : List Node) (hids : ((helper :: nodes).map (·.id)).Nodup) :
    (filesTeam nodes).LaunchesOwn helper := ⟨rfl, rfl, hids, rfl⟩

theorem wired_tool_admitted_clientFirst :
    (filesTeam [filesClient, alphaTool, betaTool]).LaunchesOwn helper ∧
      betaTool ∈ ((filesTeam [filesClient, alphaTool, betaTool]).graph.agentLinks helper).protocolTools ∧
      Text.strip betaTool.label ≠ "" ∧
      ∃ s ∈ (filesTeam [filesClient, alphaTool, betaTool]).plan.toolsets,
        s.config.Admits (Text.strip betaTool.label) := by
  have h : (filesTeam [filesClient, alphaTool, betaTool]).LaunchesOwn helper := launchesOwn_filesTeam _ (by decide)
  have ht : betaTool ∈ ((filesTeam [filesClient, alphaTool, betaTool]).graph.agentLinks helper).protocolTools := by
    decide
  have hleads : (filesTeam [filesClient, alphaTool, betaTool]).graph.LeadsFor none helper filesClient :=
    ⟨by decide, filesClient, by decide, by decide⟩
  exact ⟨h, ht, by decide, (wired_tool_admitted_iff h ht (by decide)).1.mpr ⟨filesClient, hleads, by decide⟩⟩

/-- With the tools declared first, the filter of the only toolset is that of the first tool, and the second is lost. -/
theorem toolsFirst_loses_tool :
    (filesTeam [alphaTool, betaTool, filesClient]).LaunchesOwn helper ∧
      betaTool ∈ ((filesTeam [alphaTool, betaTool, filesClient]).graph.agentLinks helper).protocolTools ∧
      Text.strip betaTool.label ≠ "" ∧
      ∀ s ∈ (filesTeam [alphaTool, betaTool, filesClient]).plan.toolsets,
        ¬s.config.Admits (Text.strip betaTool.label) :=
  ⟨launchesOwn_filesTeam _ (by decide), by decide, by decide, by decide⟩

end AgentFlow
