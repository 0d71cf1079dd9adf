import Mathlib.Data.List.Basic
import Mathlib.Logic.Function.Basic
import AgentFlow.Graph.Wiring

/-!
# Renamed graphs

`Graph.rename f` gives every node another id and moves both ends of every edge along. Wiring asks about ids only
whether two of them are equal, so under an injective `f` every answer about the renamed graph is the renamed answer:
its links (`adjacency_rename`), its neighbors (`neighbors_rename`), and all that an agent is wired to
(`agentLinks_rename`).
-/

namespace AgentFlow

/-- A renaming that keeps ids apart takes an id into a list only if it was there. -/
theorem contains_map_of_injective {f : String → String} (hf : Function.Injective f) (ids : List String) (id : String) :
    (ids.map f).contains (f id) = ids.contains id := by
  rw [Bool.eq_iff_iff, List.contains_iff_mem, List.contains_iff_mem]
  exact List.mem_map_of_injective hf

/-! ### Renaming -/

/-- The node under the new id. -/
def Node.rename (f : String → String) (n : Node) : Node := { n with id := f n.id }

/-- The edge between the new ids. -/
def Edge.rename (f : String → String) (e : Edge) : Edge := { e with source := f e.source, target := f e.target }

/-- The graph with new ids for its nodes; edges that lead nowhere are moved too. -/
def Graph.rename (f : String → String) (g : Graph) : Graph where
  nodes := g.nodes.map (Node.rename f)
  edges := g.edges.map (Edge.rename f)

def Adjacency.rename (f : String → String) (adj : Adjacency) : Adjacency :=
  { adj with links := adj.links.map (Prod.map f f) }

def Graph.Walk.rename (f : String → String) (w : Graph.Walk) : Graph.Walk where
  visited := w.visited.map f
  found := w.found.map (Node.rename f)

def AgentLinks.rename (f : String → String) (l : AgentLinks) : AgentLinks where
  model := l.model.map (Node.rename f)
  tools := l.tools.map (Node.rename f)
  clients := l.clients.map (Node.rename f)
  protocolTools := l.protocolTools.map (Node.rename f)
  servers := l.servers.map (Node.rename f)

section Kinds

variable (f : String → String) (g : Graph)

/-- A new id does not change the kind of a node. -/
theorem Graph.ofKind_rename (k : NodeKind) : (g.rename f).ofKind k = (g.ofKind k).map (Node.rename f) := by
  rw [ofKind, ofKind, rename, List.filter_map]
  rfl

theorem Graph.firstOfKind_rename (k : NodeKind) :
    (g.rename f).firstOfKind k = (g.firstOfKind k).map (Node.rename f) := by
  rw [firstOfKind, firstOfKind, rename, List.find?_map]
  rfl

end Kinds

variable {f : String → String} (hf : Function.Injective f)
include hf

/-! ### Links -/

namespace Graph

theorem hasId_rename (g : Graph) (id : String) : (g.rename f).hasId (f id) = g.hasId id := by
  simp only [hasId, rename, List.any_map, Function.comp_def, Node.rename, hf.beq_eq]

/-- The new id means the same node. -/
theorem node?_rename (g : Graph) (id : String) : (g.rename f).node? (f id) = (g.node? id).map (Node.rename f) := by
  simp only [node?, rename, List.find?_map, Function.comp_def, Node.rename, hf.beq_eq]

theorem joins_rename (g : Graph) (e : Edge) : (g.rename f).joins (e.rename f) = g.joins e := by
  simp only [joins, Edge.rename, hasId_rename hf, bne, hf.beq_eq]

end Graph

namespace Adjacency

theorem linked_rename (adj : Adjacency) (a b : String) : (adj.rename f).linked (f a) (f b) = adj.linked a b := by
  simp only [linked, rename, List.any_map, Function.comp_def, Prod.map_fst, Prod.map_snd, hf.beq_eq]

/-- An edge is linked, ignored or skipped as it was. -/
theorem add_rename (g : Graph) (adj : Adjacency) (e : Edge) :
    add (g.rename f) (adj.rename f) (e.rename f) = (add g adj e).rename f := by
  unfold add
  rw [Graph.joins_rename hf]
  have hlinked : (adj.rename f).linked (e.rename f).source (e.rename f).target = adj.linked e.source e.target :=
    linked_rename hf adj e.source e.target
  rw [hlinked]
  -- an edge that joins two nodes is linked once, any other is skipped
  by_cases hjoins : g.joins e = true
  · by_cases hold : adj.linked e.source e.target = true
    · simp only [hjoins, hold, if_true]
    · simp [hjoins, hold, rename, Edge.rename]
  · simp only [hjoins, rename, Edge.rename]
    rfl

theorem ends_rename (adj : Adjacency) (id : String) : (adj.rename f).ends (f id) = (adj.ends id).map f := by
  simp only [ends, rename, List.filterMap_map, List.map_filterMap]
  congr 1
  funext l
  simp only [Function.comp_apply, Prod.map_fst, Prod.map_snd, hf.beq_eq]
  -- the id is the first end of the link, the second, or none
  by_cases hfirst : (l.1 == id) = true
  · simp [hfirst]
  · by_cases hsecond : (l.2 == id) = true <;> simp [hfirst, hsecond]

end Adjacency

namespace Graph

/-- The index of the renamed graph is the renamed index. -/
theorem adjacency_rename (g : Graph) : (g.rename f).adjacency = g.adjacency.rename f := by
  have hstep : ∀ (adj : Adjacency) (e : Edge),
      Adjacency.add (g.rename f) (adj.rename f) (e.rename f) = (Adjacency.add g adj e).rename f :=
    Adjacency.add_rename hf g
  calc (g.rename f).adjacency
      = g.edges.foldl (fun adj e => Adjacency.add (g.rename f) adj (e.rename f)) (Adjacency.rename f {}) :=
        List.foldl_map
    _ = g.adjacency.rename f := List.foldl_hom (Adjacency.rename f) hstep

/-! ### Neighbors -/

/-- The renamed node has the renamed neighbors, in the same order. -/
theorem neighbors_rename (g : Graph) (id : String) :
    (g.rename f).neighbors (f id) = (g.neighbors id).map (Node.rename f) := by
  rw [neighbors, neighbors, adjacency_rename hf, Adjacency.ends_rename hf, List.filterMap_map, List.map_filterMap]
  congr 1
  funext other
  exact node?_rename hf g other

theorem neighborsOf_rename (g : Graph) (id : String) (wanted : List NodeKind) :
    (g.rename f).neighborsOf (f id) wanted = (g.neighborsOf id wanted).map (Node.rename f) := by
  rw [neighborsOf, neighborsOf, neighbors_rename hf, List.filter_map]
  rfl

theorem primary_rename (g : Graph) (id : String) (kind : NodeKind) :
    (g.rename f).primary (f id) kind = (g.primary id kind).map (Node.rename f) := by
  rw [primary, primary, neighborsOf_rename hf, List.head?_map]

/-! ### Walks -/

/-- The first step of a walk passes the renamed nodes. -/
theorem passThrough_rename (g : Graph) (via : List NodeKind) (visited : List String) (ns : List Node) :
    (g.rename f).passThrough via (visited.map f) (ns.map (Node.rename f)) =
      ((g.passThrough via visited ns).1.map f, (g.passThrough via visited ns).2.map (Node.rename f)) := by
  induction ns generalizing visited with
  | nil => rfl
  | cons n ns ih =>
    have hmet : (visited.map f).contains (n.rename f).id = visited.contains n.id :=
      contains_map_of_injective hf visited n.id
    have hnext : (g.rename f).neighbors (n.rename f).id = (g.neighbors n.id).map (Node.rename f) :=
      neighbors_rename hf g n.id
    have hrest : (g.rename f).passThrough via (visited.map f ++ [(n.rename f).id]) (ns.map (Node.rename f)) = _ :=
      List.map_append (f := f) ▸ ih (visited ++ [n.id])
    have hkind : (n.rename f).kind = n.kind := rfl
    rw [List.map_cons, passThrough, passThrough, hmet, hnext, hrest, ih visited, hkind]
    -- the node is passed, or the walk does not go through it
    by_cases hpass : (!visited.contains n.id && via.contains n.kind) = true
    · simp only [if_pos hpass, List.map_append]
    · simp only [if_neg hpass]

/-- The second step finds the renamed nodes. -/
theorem arrive_rename (last : NodeKind) (w : Walk) (n : Node) :
    (w.rename f).arrive last (n.rename f) = (w.arrive last n).rename f := by
  have hmet : (w.rename f).visited.contains (n.rename f).id = w.visited.contains n.id :=
    contains_map_of_injective hf w.visited n.id
  have hkind : (n.rename f).kind = n.kind := rfl
  rw [Walk.arrive, Walk.arrive, hmet, hkind]
  by_cases hold : w.visited.contains n.id = true
  · rw [if_pos hold, if_pos hold]
  · by_cases hlast : (n.kind == last) = true
    · rw [if_neg hold, if_neg hold, if_pos hlast, if_pos hlast]
      simp [Walk.rename, Node.rename]
    · rw [if_neg hold, if_neg hold, if_neg hlast, if_neg hlast]

/-- A walk goes the same way under new ids. -/
theorem reachThrough_rename (g : Graph) (id : String) (via : List NodeKind) (last : NodeKind) :
    (g.rename f).reachThrough (f id) via last = (g.reachThrough id via last).map (Node.rename f) := by
  have hpass : (g.rename f).passThrough via [f id] ((g.rename f).neighbors (f id)) = _ :=
    neighbors_rename hf g id ▸ passThrough_rename hf g via [id] (g.neighbors id)
  unfold reachThrough
  rw [hpass]
  set reached := g.passThrough via [id] (g.neighbors id)
  have hwalk : (reached.2.map (Node.rename f)).foldl (Walk.arrive last) (Walk.rename f { visited := reached.1 }) =
      (reached.2.foldl (Walk.arrive last) { visited := reached.1 }).rename f := by
    rw [List.foldl_map]
    exact List.foldl_hom (Walk.rename f) (arrive_rename hf last)
  exact congrArg Walk.found hwalk

theorem agentLinks_rename (g : Graph) (agent : Node) :
    (g.rename f).agentLinks (agent.rename f) = (g.agentLinks agent).rename f := by
  have hid : (agent.rename f).id = f agent.id := rfl
  simp only [agentLinks, AgentLinks.rename, hid, primary_rename hf, neighborsOf_rename hf, reachThrough_rename hf]

theorem owningClient_rename (g : Graph) (tool : Node) :
    (g.rename f).owningClient (tool.rename f) = (g.owningClient tool).map (Node.rename f) :=
  primary_rename hf g tool.id .protocolClient

/-- The server behind a node is found in the same way. -/
theorem backingServer_rename (g : Graph) (n : Node) :
    (g.rename f).backingServer (n.rename f) = (g.backingServer n).map (Node.rename f) := by
  have hid : (n.rename f).id = f n.id := rfl
  have hkind : (n.rename f).kind = n.kind := rfl
  unfold backingServer
  rw [hkind, hid]
  cases n.kind with
  | protocolServer => exact node?_rename hf g n.id
  | protocolClient => exact primary_rename hf g n.id .protocolServer
  | protocolTool =>
    -- a server of its own, or else that of its client
    simp only [primary_rename hf, owningClient_rename hf]
    cases g.primary n.id .protocolServer with
    | some server => rfl
    | none =>
      cases g.owningClient n with
      | some client => exact primary_rename hf g client.id .protocolServer
      | none => rfl
  | agent => rfl
  | tool => rfl
  | model => rfl
  | input => rfl

end Graph

theorem AgentLinks.reachesProtocol_rename (l : AgentLinks) (id : String) :
    (l.rename f).reachesProtocol (f id) = l.reachesProtocol id := by
  simp only [reachesProtocol, rename, ← List.map_append, List.any_map, Function.comp_def, Node.rename, hf.beq_eq]

end AgentFlow
