import Mathlib.Data.List.Forall2
import Mathlib.Logic.Relation
import AgentFlow.Compiler
import AgentFlow.Proofs.Graph.Neighbors

/-!
# Compiling does not see how edges are drawn

`Redraw` lists what may be done to the edges of a graph without joining other nodes: edges may be turned round and get
other ids, a pair that is joined may be joined again, and edges that join nothing may be put anywhere. A redrawn graph
has the same nodes and every node has the same neighbors in the same order; nothing else of the edges is ever looked
at, so the graph compiles to the same modules.
-/

namespace AgentFlow

/-! ### Redrawing -/

/-- `e'` joins what `e` joins, in either direction. -/
def Edge.SamePair (e e' : Edge) : Prop :=
  e'.source = e.source ∧ e'.target = e.target ∨ e'.source = e.target ∧ e'.target = e.source

/-- A change of the edges between `nodes` that joins no others. -/
inductive Redraw (nodes : List Node) : List Edge → List Edge → Prop
  /-- Some edges are turned round, and any edge may get another id. -/
  | turn {es es' : List Edge} (h : List.Forall₂ Edge.SamePair es es') : Redraw nodes es es'
  /-- What an edge joins is joined once more by a later one. -/
  | again {before after : List Edge} {e e' : Edge} (he : e ∈ before) (h : e.SamePair e') :
    Redraw nodes (before ++ after) (before ++ e' :: after)
  /-- An edge from a node to itself, or with an end that is no node. -/
  | stray {before after : List Edge} {e : Edge}
    (h : e.source = e.target ∨ (∀ n ∈ nodes, n.id ≠ e.source) ∨ ∀ n ∈ nodes, n.id ≠ e.target) :
    Redraw nodes (before ++ after) (before ++ e :: after)

namespace Edge.SamePair

variable {g : Graph} {e e' : Edge}

/-- Whether an edge joins two nodes does not depend on its direction. -/
theorem joins_eq (h : e.SamePair e') : g.joins e' = g.joins e := by
  rw [Bool.eq_iff_iff, Graph.joins_iff, Graph.joins_iff]
  rcases h with ⟨hs, ht⟩ | ⟨hs, ht⟩
  · rw [hs, ht]
  · -- the two ends trade places
    rw [hs, ht, ne_comm, and_comm (a := g.hasId e.target = true)]

theorem otherEnd_eq (h : e.SamePair e') (hj : g.joins e = true) (id : String) : e'.otherEnd id = e.otherEnd id := by
  have hne : e.source ≠ e.target := (Graph.joins_iff.mp hj).1
  rcases h with ⟨hs, ht⟩ | ⟨hs, ht⟩
  · simp only [Edge.otherEnd, hs, ht]
  · -- at most one of the two ends is `id`, so the order of the two questions does not matter
    by_cases hid : e.source = id
    · have hother : e.target ≠ id := fun h => hne (hid.trans h.symm)
      simp [Edge.otherEnd, hs, ht, hid, hother]
    · simp [Edge.otherEnd, hs, ht, hid]

/-- Seen from any node, both edges lead to the same place. -/
theorem otherEnds_eq (h : e.SamePair e') (id : String) : g.otherEnds [e'] id = g.otherEnds [e] id := by
  cases hj : g.joins e with
  | false => simp [Graph.otherEnds, hj, h.joins_eq]
  | true =>
    have hj' : g.joins e' = true := h.joins_eq.trans hj
    rw [Graph.otherEnds_singleton hj, Graph.otherEnds_singleton hj', h.otherEnd_eq hj]

end Edge.SamePair

namespace Graph

variable {g : Graph} {es es' : List Edge} {id : String}

theorem otherEnds_cons (g : Graph) (e : Edge) (es : List Edge) (id : String) :
    g.otherEnds (e :: es) id = g.otherEnds [e] id ++ g.otherEnds es id :=
  g.otherEnds_append [e] es id

/-- Turning edges round changes no end. -/
theorem otherEnds_of_turn (h : List.Forall₂ Edge.SamePair es es') : g.otherEnds es' id = g.otherEnds es id := by
  induction h with
  | nil => rfl
  | @cons e e' _ _ hpair _ ih => rw [otherEnds_cons g e', otherEnds_cons g e, hpair.otherEnds_eq, ih]

/-- Where one of the edges leads, all of them together do. -/
theorem otherEnds_subset {e : Edge} (he : e ∈ es) : g.otherEnds [e] id ⊆ g.otherEnds es id := by
  intro other h
  simp only [otherEnds, List.mem_filterMap, List.mem_filter, List.mem_singleton] at h ⊢
  obtain ⟨e', ⟨rfl, hj⟩, ho⟩ := h
  exact ⟨e', ⟨he, hj⟩, ho⟩

/-- What was met before does not show when it is met again. -/
theorem eraseDups_again {xs ys zs : List String} (h : ys ⊆ xs) :
    (xs ++ (ys ++ zs)).eraseDups = (xs ++ zs).eraseDups := by
  have hnone : ys.removeAll xs = [] := by
    simpa [List.removeAll] using fun y hy => h hy
  have hsplit : (ys ++ zs).removeAll xs = ys.removeAll xs ++ zs.removeAll xs := List.filter_append ..
  rw [List.eraseDups_append, List.eraseDups_append, hsplit, hnone, List.nil_append]

/-- A loop joins nothing, and neither does an edge that leads to no node. -/
theorem not_joins_of_stray {e : Edge}
    (h : e.source = e.target ∨ (∀ n ∈ g.nodes, n.id ≠ e.source) ∨ ∀ n ∈ g.nodes, n.id ≠ e.target) :
    g.joins e = false := by
  rw [← Bool.not_eq_true, joins_iff, hasId_iff, hasId_iff]
  rintro ⟨hne, ⟨n, hn, hs⟩, m, hm, ht⟩
  rcases h with h | h | h
  · exact hne h
  · exact h n hn hs
  · exact h m hm ht

/-- A change of the edges shows in no list of ends, once each end counts once. -/
theorem eraseDups_otherEnds_of_redraw (h : Redraw g.nodes es es') (id : String) :
    (g.otherEnds es' id).eraseDups = (g.otherEnds es id).eraseDups := by
  cases h with
  | turn h => rw [otherEnds_of_turn h]
  | again he h =>
    -- the other end of the new edge was met already
    rw [otherEnds_append, otherEnds_append, otherEnds_cons, h.otherEnds_eq]
    exact eraseDups_again (otherEnds_subset he)
  | stray h =>
    -- the new edge has no other end
    rw [otherEnds_append, otherEnds_append, otherEnds_cons]
    simp [otherEnds, not_joins_of_stray h]

/-! ### Wiring -/

/-- The graphs have the same nodes, and every id has the same neighbors in the same order. -/
structure SameWiring (g g' : Graph) : Prop where
  nodes : g'.nodes = g.nodes
  neighbors : ∀ id, g'.neighbors id = g.neighbors id

/-- Any number of changes, made or undone, leaves the wiring as it is. -/
theorem sameWiring_of_redrawn (h : Relation.EqvGen (Redraw g.nodes) g.edges es) :
    g.SameWiring { g with edges := es } := by
  have hends : ∀ es es', Relation.EqvGen (Redraw g.nodes) es es' →
      ∀ id, (g.otherEnds es' id).eraseDups = (g.otherEnds es id).eraseDups := by
    intro es es' h
    induction h with
    | rel _ _ h => exact eraseDups_otherEnds_of_redraw h
    | refl _ => exact fun _ => rfl
    | symm _ _ _ ih => exact fun id => (ih id).symm
    | trans _ _ _ _ _ ih ih' => exact fun id => (ih' id).trans (ih id)
  refine ⟨rfl, fun id => ?_⟩
  have hsame : ({ g with edges := es } : Graph).adjacency.ends id = g.adjacency.ends id := by
    rw [ends_adjacency, ends_adjacency]
    exact hends _ _ h id
  simp only [neighbors, hsame]
  rfl

namespace SameWiring

variable {g' : Graph} (h : g.SameWiring g')
include h

theorem node? (id : String) : g'.node? id = g.node? id := by simp only [Graph.node?, h.nodes]

theorem neighborsOf (id : String) (wanted : List NodeKind) : g'.neighborsOf id wanted = g.neighborsOf id wanted := by
  simp only [Graph.neighborsOf, h.neighbors]

theorem primary (id : String) (kind : NodeKind) : g'.primary id kind = g.primary id kind := by
  simp only [Graph.primary, h.neighborsOf]

/-- The walk goes the same way, since each of its steps asks for neighbors only. -/
theorem passThrough (via : List NodeKind) (visited : List String) (ns : List Node) :
    g'.passThrough via visited ns = g.passThrough via visited ns := by
  induction ns generalizing visited with
  | nil => rfl
  | cons n ns ih => simp only [Graph.passThrough, h.neighbors, ih]

theorem reachThrough (id : String) (via : List NodeKind) (last : NodeKind) :
    g'.reachThrough id via last = g.reachThrough id via last := by
  simp only [Graph.reachThrough, h.neighbors, h.passThrough]

theorem agentLinks (agent : Node) : g'.agentLinks agent = g.agentLinks agent := by
  simp only [Graph.agentLinks, h.primary, h.neighborsOf, h.reachThrough]

theorem backingServer (n : Node) : g'.backingServer n = g.backingServer n := by
  simp only [Graph.backingServer, Graph.owningClient, h.primary, h.node?]

theorem launchConfig (credential : Option String) (n : Node) :
    g'.launchConfig credential n = g.launchConfig credential n := by
  simp only [Graph.launchConfig, Graph.inheritedSource, Graph.toolFilter, Graph.owningClient, h.primary,
    h.neighborsOf, h.backingServer]

theorem launchConfigs (credential : Option String) : g'.launchConfigs credential = g.launchConfigs credential := by
  have hfun : g'.launchConfig credential = g.launchConfig credential := funext (h.launchConfig credential)
  simp only [Graph.launchConfigs, h.nodes, hfun]

/-- The plan of an agent reads the wiring and the nodes, and nothing else of the graph. -/
theorem build (configs : List LaunchConfig) : AgentPlan.build g' configs = AgentPlan.build g configs := by
  have hlinks : g'.agentLinks = g.agentLinks := funext h.agentLinks
  have hasked : Capabilities.ofGraph g' = Capabilities.ofGraph g := by
    simp only [Capabilities.ofGraph, Capabilities.mentions, Graph.hasProtocol, h.nodes]
  simp only [AgentPlan.build, Graph.firstOfKind, Graph.ofKind, h.nodes, hlinks, hasked]

end SameWiring

end Graph

/-! ### Compiling -/

/-- **Edges have no direction and count once.** A graph compiles to the same modules, with the same launch records, for
every framework and however tool servers are launched, when its edges are redrawn. -/
theorem compile_redrawn (c : Compiler) {es : List Edge}
    (h : Relation.EqvGen (Redraw c.graph.nodes) c.graph.edges es) :
    ({ c with graph := { c.graph with edges := es } } : Compiler).compile = c.compile := by
  have hwiring : c.graph.SameWiring { c.graph with edges := es } := Graph.sameWiring_of_redrawn h
  have hplan : ({ c with graph := { c.graph with edges := es } } : Compiler).plan = c.plan := by
    simp only [Compiler.plan, Compiler.launchConfigs, hwiring.launchConfigs, hwiring.build]
  simp only [Compiler.compile, Compiler.module, hplan]

/-- An agent with a tool and the client of a tool server. -/
def smallTeam : Graph where
  nodes := [{ id := "a", kind := .agent, label := "Support" }, { id := "t", kind := .tool, label := "Search" },
    { id := "c", kind := .protocolClient, label := "Files" }]
  edges := [⟨"1", "a", "t"⟩, ⟨"2", "c", "a"⟩]

/-- Its first edge is turned round and has another id; a loop and an edge that leads nowhere are put in, and the first
pair is joined again. -/
def smallTeamEdges : List Edge :=
  [⟨"loop", "a", "a"⟩, ⟨"9", "t", "a"⟩, ⟨"gone", "x", "a"⟩, ⟨"2", "c", "a"⟩, ⟨"again", "a", "t"⟩]

theorem compile_redrawn_smallTeam :
    Relation.EqvGen (Redraw smallTeam.nodes) smallTeam.edges smallTeamEdges ∧
      (Compiler.ofGraph { smallTeam with edges := smallTeamEdges } .langGraph).compile =
        (Compiler.ofGraph smallTeam .langGraph).compile := by
  have hturn : Redraw smallTeam.nodes smallTeam.edges [⟨"9", "t", "a"⟩, ⟨"2", "c", "a"⟩] :=
    .turn (.cons (.inr ⟨rfl, rfl⟩) (.cons (.inl ⟨rfl, rfl⟩) .nil))
  have hagain : Redraw smallTeam.nodes ([⟨"9", "t", "a"⟩, ⟨"2", "c", "a"⟩] ++ [])
      ([⟨"9", "t", "a"⟩, ⟨"2", "c", "a"⟩] ++ [⟨"again", "a", "t"⟩]) :=
    .again List.mem_cons_self (.inr ⟨rfl, rfl⟩)
  have hgone : Redraw smallTeam.nodes ([⟨"9", "t", "a"⟩] ++ [⟨"2", "c", "a"⟩, ⟨"again", "a", "t"⟩])
      ([⟨"9", "t", "a"⟩] ++ ⟨"gone", "x", "a"⟩ :: [⟨"2", "c", "a"⟩, ⟨"again", "a", "t"⟩]) :=
    .stray (.inr (.inl (by decide)))
  have hloop : Redraw smallTeam.nodes ([] ++ smallTeamEdges.tail) ([] ++ ⟨"loop", "a", "a"⟩ :: smallTeamEdges.tail) :=
    .stray (.inl rfl)
  -- one change after the other leads to the new edges
  have hredrawn : Relation.EqvGen (Redraw smallTeam.nodes) smallTeam.edges smallTeamEdges :=
    (((Relation.EqvGen.rel _ _ hturn).trans _ _ _ (.rel _ _ hagain)).trans _ _ _ (.rel _ _ hgone)).trans _ _ _
      (.rel _ _ hloop)
  exact ⟨hredrawn, compile_redrawn (Compiler.ofGraph smallTeam .langGraph) hredrawn⟩

end AgentFlow
