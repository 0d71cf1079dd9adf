import Mathlib.Data.List.Nodup
import Mathlib.Data.List.Induction
import Mathlib.Tactic.SplitIfs
import AgentFlow.Graph.Adjacency

/-!
# Neighbors by edges

The adjacency of a graph is built link by link. Here its answers are read off the edges: the ids linked to `id` are the
other ends of the edges at `id` that join two nodes, in the order of the edges and each at its first one
(`ends_adjacency`). So every neighbor is listed once, and it is the first node declared with its id; and being neighbors
is a relation of two different nodes that does not depend on which of them is asked (`neighbors_by_edges`).
-/

namespace AgentFlow

/-- A last element stays if it is new. -/
theorem eraseDups_concat {α : Type} [DecidableEq α] (xs : List α) (x : α) :
    (xs ++ [x]).eraseDups = if x ∈ xs then xs.eraseDups else xs.eraseDups ++ [x] := by
  rw [List.eraseDups_append]
  split_ifs with h <;> simp [List.removeAll, h, List.eraseDups_cons]

theorem nodup_eraseDups {α : Type} [DecidableEq α] (xs : List α) : xs.eraseDups.Nodup := by
  induction xs using List.reverseRecOn with
  | nil => exact List.nodup_nil
  | append_singleton xs x ih =>
    rw [eraseDups_concat]
    split_ifs with h
    · exact ih
    · have hnew : x ∉ xs.eraseDups := by rwa [List.mem_eraseDups]
      exact List.nodup_append_comm.mp (List.nodup_cons.mpr ⟨hnew, ih⟩)

/-! ### Edges and links -/

theorem Graph.hasId_iff {g : Graph} {id : String} : g.hasId id = true ↔ ∃ n ∈ g.nodes, n.id = id := by
  simp [Graph.hasId]

theorem Graph.joins_iff {g : Graph} {e : Edge} :
    g.joins e = true ↔ e.source ≠ e.target ∧ g.hasId e.source = true ∧ g.hasId e.target = true := by
  simp [Graph.joins, and_assoc]

/-- The other end of an edge is its target, or its source. -/
theorem Edge.otherEnd_eq_some {e : Edge} {id other : String} (h : e.otherEnd id = some other) :
    e.source = id ∧ e.target = other ∨ e.target = id ∧ e.source = other := by
  unfold Edge.otherEnd at h
  split_ifs at h with hs ht
  · exact .inl ⟨hs, Option.some.inj h⟩
  · exact .inr ⟨ht, Option.some.inj h⟩

namespace Adjacency

variable {g : Graph} {adj : Adjacency} {e : Edge} {a b id other : String}

/-- The ends at an id are those of the links on either side. -/
theorem mem_ends : b ∈ adj.ends a ↔ (a, b) ∈ adj.links ∨ (b, a) ∈ adj.links := by
  simp only [ends, List.mem_filterMap, beq_iff_eq]
  constructor
  · rintro ⟨⟨x, y⟩, hl, h⟩
    split_ifs at h with hx hy
    · obtain rfl := Option.some.inj h
      exact .inl (hx ▸ hl)
    · obtain rfl := Option.some.inj h
      exact .inr (hy ▸ hl)
  · rintro (hl | hl)
    · exact ⟨(a, b), hl, by simp⟩
    · refine ⟨(b, a), hl, ?_⟩
      -- a link from an id to itself is found by its first end
      by_cases hba : b = a <;> simp [hba]

theorem mem_ends_comm : b ∈ adj.ends a ↔ a ∈ adj.ends b := by
  rw [mem_ends, mem_ends, or_comm]

/-- Two ids are linked exactly if one of them is an end at the other. -/
theorem linked_iff : adj.linked a b = true ↔ b ∈ adj.ends a := by
  rw [mem_ends]
  simp only [linked, List.any_eq_true, Bool.or_eq_true, Bool.and_eq_true, beq_iff_eq]
  constructor
  · rintro ⟨⟨x, y⟩, hl, ⟨rfl, rfl⟩ | ⟨rfl, rfl⟩⟩
    · exact .inl hl
    · exact .inr hl
  · rintro (hl | hl)
    · exact ⟨(a, b), hl, .inl ⟨rfl, rfl⟩⟩
    · exact ⟨(b, a), hl, .inr ⟨rfl, rfl⟩⟩

/-- Seen from either end, an edge adds nothing exactly if its ends are linked already. -/
theorem mem_ends_of_otherEnd (h : e.otherEnd id = some other) :
    other ∈ adj.ends id ↔ adj.linked e.source e.target = true := by
  rw [linked_iff]
  rcases e.otherEnd_eq_some h with ⟨rfl, rfl⟩ | ⟨rfl, rfl⟩
  · exact Iff.rfl
  · exact mem_ends_comm

/-! ### One more edge -/

theorem ends_add_of_not_joins (h : g.joins e = false) : (add g adj e).ends id = adj.ends id := by
  simp [add, h, ends]

/-- An edge adds its other end, unless its ends are linked already. -/
theorem ends_add_of_joins (h : g.joins e = true) :
    (add g adj e).ends id =
      if adj.linked e.source e.target then adj.ends id else adj.ends id ++ (e.otherEnd id).toList := by
  rw [add, if_pos h]
  split_ifs with hl
  · rfl
  · simp only [ends, List.filterMap_append, List.append_cancel_left_eq, Edge.otherEnd, beq_iff_eq]
    by_cases hs : e.source = id
    · simp [hs]
    · by_cases ht : e.target = id <;> simp [hs, ht]

end Adjacency

/-! ### All edges -/

namespace Graph

/-- The other ends of the edges at `id` that join two nodes. -/
def otherEnds (g : Graph) (es : List Edge) (id : String) : List String :=
  (es.filter g.joins).filterMap fun e => e.otherEnd id

theorem otherEnds_append (g : Graph) (es es' : List Edge) (id : String) :
    g.otherEnds (es ++ es') id = g.otherEnds es id ++ g.otherEnds es' id := by
  simp [otherEnds]

theorem otherEnds_singleton {g : Graph} {e : Edge} (h : g.joins e = true) (id : String) :
    g.otherEnds [e] id = (e.otherEnd id).toList := by
  cases ho : e.otherEnd id <;> simp [otherEnds, h, ho]

/-- Looking up links as edges come in leaves the first of equal ends. -/
theorem ends_foldl_add (g : Graph) (es : List Edge) (id : String) :
    (es.foldl (Adjacency.add g) {}).ends id = (g.otherEnds es id).eraseDups := by
  -- on the last edge, which is the one that is added last
  induction es using List.reverseRecOn with
  | nil => rfl
  | append_singleton es e ih =>
    rw [List.foldl_append, List.foldl_cons, List.foldl_nil, otherEnds_append]
    cases hj : g.joins e with
    | false =>
      rw [Adjacency.ends_add_of_not_joins hj, ih]
      simp [otherEnds, hj]
    | true =>
      rw [Adjacency.ends_add_of_joins hj, otherEnds_singleton hj]
      cases ho : e.otherEnd id with
      | none => simp [ih]
      | some other =>
        -- the index asks whether the ends are linked, and the list whether the end is there
        have hmem := (List.mem_eraseDups).symm.trans (ih ▸ Adjacency.mem_ends_of_otherEnd ho)
        simp only [Option.toList_some, eraseDups_concat, ih]
        split_ifs with h1 h2 h2
        · rfl
        · exact absurd (hmem.mpr h1) h2
        · exact absurd (hmem.mp h2) h1
        · rfl

/-- The ids linked to `id` are the other ends of the edges at `id`, each at its first edge. -/
theorem ends_adjacency (g : Graph) (id : String) : g.adjacency.ends id = (g.otherEnds g.edges id).eraseDups :=
  ends_foldl_add g g.edges id

/-- An edge that joins two nodes ends at a node. -/
theorem hasId_of_mem_otherEnds {g : Graph} {es : List Edge} {id other : String} (h : other ∈ g.otherEnds es id) :
    g.hasId other = true := by
  obtain ⟨e, he, ho⟩ := List.mem_filterMap.mp h
  obtain ⟨-, hs, ht⟩ := joins_iff.mp (List.mem_filter.mp he).2
  rcases e.otherEnd_eq_some ho with ⟨-, rfl⟩ | ⟨-, rfl⟩
  · exact ht
  · exact hs

/-! ### Nodes -/

variable {g : Graph} {id : String} {n : Node}

theorem id_of_node? (h : g.node? id = some n) : n.id = id := by simpa using List.find?_some h

theorem mem_of_node? (h : g.node? id = some n) : n ∈ g.nodes := List.mem_of_find?_eq_some h

theorem node?_of_hasId (h : g.hasId id = true) : ∃ n, g.node? id = some n := by
  obtain ⟨n, hn, hid⟩ := hasId_iff.mp h
  exact Option.isSome_iff_exists.mp (List.find?_isSome.mpr ⟨n, hn, by simpa using hid⟩)

/-- A neighbor is what its id means. -/
theorem node?_of_mem_neighbors (h : n ∈ g.neighbors id) : g.node? n.id = some n := by
  obtain ⟨other, -, hn⟩ := List.mem_filterMap.mp h
  rwa [id_of_node? hn]

theorem mem_of_mem_neighbors (h : n ∈ g.neighbors id) : n ∈ g.nodes := mem_of_node? (node?_of_mem_neighbors h)

/-- No linked id is without a node. -/
theorem map_id_neighbors (g : Graph) (id : String) : (g.neighbors id).map (·.id) = g.adjacency.ends id := by
  have hknown : ∀ other ∈ g.adjacency.ends id, g.hasId other = true := by
    intro other h
    rw [ends_adjacency, List.mem_eraseDups] at h
    exact hasId_of_mem_otherEnds h
  unfold neighbors
  -- only that the linked ids have nodes matters
  generalize g.adjacency.ends id = others at hknown
  induction others with
  | nil => rfl
  | cons other others ih =>
    obtain ⟨hfirst, hrest⟩ := List.forall_mem_cons.mp hknown
    obtain ⟨n, hn⟩ := node?_of_hasId hfirst
    rw [List.filterMap_cons_some hn, List.map_cons, ih hrest, id_of_node? hn]

theorem nodup_neighbors (g : Graph) (id : String) : ((g.neighbors id).map (·.id)).Nodup := by
  rw [map_id_neighbors, ends_adjacency]
  exact nodup_eraseDups _

theorem nodup_neighborsOf (g : Graph) (id : String) (wanted : List NodeKind) :
    ((g.neighborsOf id wanted).map (·.id)).Nodup :=
  (g.nodup_neighbors id).sublist (List.filter_sublist.map _)

theorem mem_neighborsOf {wanted : List NodeKind} :
    n ∈ g.neighborsOf id wanted ↔ n ∈ g.neighbors id ∧ n.kind ∈ wanted := by
  simp [neighborsOf]

/-! ### Being neighbors -/

/-- A node is a neighbor exactly if its id is linked and means the node. -/
theorem mem_neighbors : n ∈ g.neighbors id ↔ n.id ∈ (g.neighbors id).map (·.id) ∧ g.node? n.id = some n := by
  constructor
  · intro h
    exact ⟨List.mem_map_of_mem h, node?_of_mem_neighbors h⟩
  · rintro ⟨hid, hnode⟩
    rw [map_id_neighbors] at hid
    exact List.mem_filterMap.mpr ⟨n.id, hid, hnode⟩

/-- The neighbors are the nodes that the linked ids mean. -/
theorem map_some_neighbors (g : Graph) (id : String) :
    (g.neighbors id).map some = (g.otherEnds g.edges id).eraseDups.map g.node? := by
  rw [← ends_adjacency, ← map_id_neighbors, List.map_map]
  refine List.map_congr_left fun n hn => ?_
  exact (node?_of_mem_neighbors hn).symm

/-- Neighbors are so of each other. -/
theorem neighbors_symm (g : Graph) (a b : String) :
    b ∈ (g.neighbors a).map (·.id) ↔ a ∈ (g.neighbors b).map (·.id) := by
  rw [map_id_neighbors, map_id_neighbors]
  exact Adjacency.mem_ends_comm

/-- No node is a neighbor of itself. -/
theorem neighbors_irrefl (g : Graph) (a : String) : a ∉ (g.neighbors a).map (·.id) := by
  rw [map_id_neighbors, ends_adjacency, List.mem_eraseDups]
  intro h
  obtain ⟨e, he, hother⟩ := List.mem_filterMap.mp h
  have hends : e.source ≠ e.target := (joins_iff.mp (List.mem_filter.mp he).2).1
  rcases e.otherEnd_eq_some hother with ⟨hs, ht⟩ | ⟨ht, hs⟩
  · exact hends (hs.trans ht.symm)
  · exact hends (hs.trans ht.symm)

theorem id_ne_of_mem_neighbors (h : n ∈ g.neighbors id) : n.id ≠ id := by
  rintro rfl
  exact g.neighbors_irrefl n.id (List.mem_map_of_mem h)

/-- `n` is the only node with its id. -/
structure OwnsId (g : Graph) (n : Node) : Prop where
  mem : n ∈ g.nodes
  only : ∀ m ∈ g.nodes, m.id = n.id → m = n

theorem OwnsId.node? (h : g.OwnsId n) : g.node? n.id = some n := by
  obtain ⟨m, hm⟩ := node?_of_hasId (hasId_iff.mpr ⟨n, h.mem, rfl⟩)
  rw [hm, h.only m (mem_of_node? hm) (id_of_node? hm)]

/-- **Neighbors are the other ends of edges.** The neighbors of an id are the nodes at the other ends of the edges
between two different nodes, each at its first edge and as first declared. Being neighbors is symmetric and irreflexive,
and two nodes with ids of their own find each other among the neighbors of their kinds. -/
theorem neighbors_by_edges (g : Graph) :
    (∀ id, (g.neighbors id).map some =
        ((g.edges.filter fun e => e.source ≠ e.target ∧ e.source ∈ g.nodes.map (·.id) ∧
            e.target ∈ g.nodes.map (·.id)).filterMap fun e => e.otherEnd id).eraseDups.map g.node? ∧
      ((g.neighbors id).map (·.id)).Nodup) ∧
    (∀ a b, b ∈ (g.neighbors a).map (·.id) ↔ a ∈ (g.neighbors b).map (·.id)) ∧
    (∀ a, a ∉ (g.neighbors a).map (·.id)) ∧
    ∀ a b, g.OwnsId a → g.OwnsId b → (b ∈ g.neighborsOf a.id [b.kind] ↔ a ∈ g.neighborsOf b.id [a.kind]) := by
  refine ⟨fun id => ⟨?_, g.nodup_neighbors id⟩, g.neighbors_symm, g.neighbors_irrefl, ?_⟩
  · have hjoins : (fun e : Edge => decide (e.source ≠ e.target ∧ e.source ∈ g.nodes.map (·.id) ∧
        e.target ∈ g.nodes.map (·.id))) = g.joins := by
      funext e
      rw [Bool.eq_iff_iff, joins_iff, hasId_iff, hasId_iff, decide_eq_true_eq, List.mem_map, List.mem_map]
    rw [map_some_neighbors, hjoins]
    rfl
  · intro a b ha hb
    have hkind : ∀ n : Node, n.kind ∈ [n.kind] := fun n => List.mem_cons_self
    rw [mem_neighborsOf, mem_neighborsOf, mem_neighbors, mem_neighbors, neighbors_symm, ha.node?, hb.node?]
    simp only [hkind, and_true]

def agentAndTool : Graph where
  nodes := [{ id := "a", kind := .agent }, { id := "t", kind := .tool }]
  edges := [⟨"1", "t", "a"⟩, ⟨"2", "a", "a"⟩, ⟨"3", "a", "t"⟩, ⟨"4", "a", "gone"⟩]

theorem neighbors_by_edges_agentAndTool :
    agentAndTool.OwnsId { id := "a", kind := .agent } ∧ agentAndTool.OwnsId { id := "t", kind := .tool } ∧
      { id := "t", kind := .tool } ∈ agentAndTool.neighborsOf "a" [.tool] ∧
      { id := "a", kind := .agent } ∈ agentAndTool.neighborsOf "t" [.agent] := by
  have ha : agentAndTool.OwnsId { id := "a", kind := .agent } := ⟨by decide, by decide⟩
  have ht : agentAndTool.OwnsId { id := "t", kind := .tool } := ⟨by decide, by decide⟩
  have hfound : ({ id := "t", kind := .tool } : Node) ∈ agentAndTool.neighborsOf "a" [.tool] := by decide
  exact ⟨ha, ht, hfound, ((neighbors_by_edges agentAndTool).2.2.2 _ _ ha ht).mp hfound⟩

end Graph

end AgentFlow
