import AgentFlow.Graph.Wiring
import AgentFlow.Proofs.Graph.Neighbors

/-!
# Walks of two steps

A walk of two steps goes from a node through its neighbors of some kinds to their neighbors, and marks what it has met
on the way. Here its outcome is said without the marks: `passThrough_eq` for the first step, `found_foldl_arrive` for
the second. Together they give the nodes two edges away in the order of the edges, each at its first occurrence, without
the start and without the nodes in between (`reachThrough_eq`).
-/

namespace AgentFlow

namespace Graph

/-! ### The first step -/

/-- Nodes that were not met before and have different ids are passed through exactly if they are of the right kinds. -/
theorem passThrough_eq (g : Graph) (via : List NodeKind) {visited : List String} {ns : List Node}
    (hnew : ∀ n ∈ ns, n.id ∉ visited) (hids : (ns.map (·.id)).Nodup) :
    g.passThrough via visited ns =
      (visited ++ (ns.filter fun n => via.contains n.kind).map (·.id),
        (ns.filter fun n => via.contains n.kind).flatMap fun n => g.neighbors n.id) := by
  induction ns generalizing visited with
  | nil => simp [passThrough]
  | cons n ns ih =>
    obtain ⟨hfirst, hrest⟩ := List.forall_mem_cons.mp hnew
    rw [List.map_cons, List.nodup_cons] at hids
    -- the node is passed and marked, which does not concern the others
    by_cases hkind : n.kind ∈ via
    · have hnext : ∀ m ∈ ns, m.id ∉ visited ++ [n.id] := by
        intro m hm hmet
        rcases List.mem_append.mp hmet with h | h
        · exact hrest m hm h
        · exact hids.1 (List.mem_singleton.mp h ▸ List.mem_map_of_mem hm)
      simp [passThrough, hfirst, hkind, ih hnext hids.2]
    · simp [passThrough, hkind, ih hrest hids.2]

/-- The first step passes the neighbors of the right kinds and goes on to theirs. -/
theorem passThrough_neighbors (g : Graph) (id : String) (via : List NodeKind) :
    g.passThrough via [id] (g.neighbors id) =
      (id :: (g.neighborsOf id via).map (·.id), (g.neighborsOf id via).flatMap fun n => g.neighbors n.id) := by
  have hnew : ∀ n ∈ g.neighbors id, n.id ∉ [id] := by
    intro n hn h
    exact id_ne_of_mem_neighbors hn (List.mem_singleton.mp h)
  exact g.passThrough_eq via hnew (g.nodup_neighbors id)

/-! ### The second step -/

/-- A node is found if it is of the last kind and was not met before. -/
theorem Walk.arrive_eq (last : NodeKind) (w : Walk) (n : Node) :
    w.arrive last n =
      if n.kind = last ∧ n.id ∉ w.visited then ⟨w.visited ++ [n.id], w.found ++ [n]⟩ else w := by
  unfold Walk.arrive
  by_cases hmet : n.id ∈ w.visited
  · simp [hmet]
  · by_cases hkind : n.kind = last <;> simp [hmet, hkind]

/-- What the second step comes upon among `ns`, if `visited` was met before. -/
def arrivals (visited : List String) (last : NodeKind) (ns : List Node) : List Node :=
  ns.filter fun n => n.kind = last ∧ n.id ∉ visited

theorem arrivals_concat (visited : List String) (last : NodeKind) (ns : List Node) (n : Node) :
    arrivals visited last (ns ++ [n]) =
      if n.kind = last ∧ n.id ∉ visited then arrivals visited last ns ++ [n] else arrivals visited last ns := by
  unfold arrivals
  rw [List.filter_append]
  by_cases h : n.kind = last ∧ n.id ∉ visited
  · rw [if_pos h]
    simp [h.1, h.2]
  · rw [if_neg h]
    simpa using h

/-- The nodes found are those come upon, each at its first occurrence, and they are marked as met. -/
theorem foldl_arrive (visited : List String) (last : NodeKind) {ns : List Node}
    (hsame : ∀ n ∈ ns, ∀ m ∈ ns, n.id = m.id → n = m) :
    ns.foldl (Walk.arrive last) { visited := visited } =
      ⟨visited ++ (arrivals visited last ns).eraseDups.map (·.id), (arrivals visited last ns).eraseDups⟩ := by
  induction ns using List.reverseRecOn with
  | nil => simp [arrivals]
  | append_singleton ns n ih =>
    have hold : ∀ m ∈ ns, ∀ k ∈ ns, m.id = k.id → m = k := fun m hm k hk =>
      hsame m (List.mem_append_left _ hm) k (List.mem_append_left _ hk)
    -- an id that the second step marks stands for one node, so marks and nodes found agree
    have hmarked : n.id ∈ (arrivals visited last ns).eraseDups.map (·.id) ↔ n ∈ arrivals visited last ns := by
      constructor
      · intro h
        obtain ⟨m, hm, hid⟩ := List.mem_map.mp h
        rw [List.mem_eraseDups] at hm
        have hmem : m ∈ ns := (List.mem_filter.mp hm).1
        rwa [← hsame m (List.mem_append_left _ hmem) n (by simp) hid]
      · intro h
        exact List.mem_map_of_mem (List.mem_eraseDups.mpr h)
    rw [List.foldl_append, ih hold, List.foldl_cons, List.foldl_nil, Walk.arrive_eq, arrivals_concat]
    -- the kind and the first step decide, and then whether the node was found before
    by_cases h : n.kind = last ∧ n.id ∉ visited
    · rw [if_pos h, eraseDups_concat]
      by_cases hfound : n ∈ arrivals visited last ns
      · rw [if_pos hfound, if_neg]
        exact fun hnew => hnew.2 (List.mem_append_right _ (hmarked.mpr hfound))
      · rw [if_neg hfound, if_pos]
        · simp
        · refine ⟨h.1, fun hmet => ?_⟩
          rcases List.mem_append.mp hmet with hv | hm
          · exact h.2 hv
          · exact hfound (hmarked.mp hm)
    · rw [if_neg h, if_neg]
      exact fun hnew => h ⟨hnew.1, fun hv => hnew.2 (List.mem_append_left _ hv)⟩

/-! ### Both steps -/

section Both

variable {g : Graph} {id : String} {via : List NodeKind} {last : NodeKind} {n m : Node}

theorem eq_of_node? (hn : g.node? n.id = some n) (hm : g.node? m.id = some m) (hid : n.id = m.id) : n = m := by
  rw [hid, hm] at hn
  exact (Option.some.inj hn).symm

/-- Since ids mean one node, it does not matter whether the node or its id is looked for. -/
theorem id_mem_neighborsOf (hn : g.node? n.id = some n) :
    n.id ∈ (g.neighborsOf id via).map (·.id) ↔ n ∈ g.neighborsOf id via := by
  constructor
  · intro h
    obtain ⟨m, hm, hid⟩ := List.mem_map.mp h
    have hmeans : g.node? m.id = some m := node?_of_mem_neighbors (mem_neighborsOf.mp hm).1
    rwa [← eq_of_node? hmeans hn hid]
  · intro h
    exact List.mem_map_of_mem h

/-- The nodes of kind `last` behind the neighbors of the kinds `via`, each at its first occurrence, without `id` and
without these neighbors. -/
theorem reachThrough_eq (g : Graph) (id : String) (via : List NodeKind) (last : NodeKind) :
    g.reachThrough id via last =
      (((g.neighborsOf id via).flatMap fun c => g.neighborsOf c.id [last]).filter fun n =>
        n.id ≠ id ∧ n ∉ g.neighborsOf id via).eraseDups := by
  set reach := (g.neighborsOf id via).flatMap fun c => g.neighbors c.id with hreach
  have hmeans : ∀ n ∈ reach, g.node? n.id = some n := by
    intro n hn
    obtain ⟨c, -, hn⟩ := List.mem_flatMap.mp hn
    exact node?_of_mem_neighbors hn
  -- both steps, with what the first one met
  have hfound : g.reachThrough id via last =
      (arrivals (id :: (g.neighborsOf id via).map (·.id)) last reach).eraseDups := by
    rw [reachThrough, passThrough_neighbors]
    dsimp only
    rw [foldl_arrive _ last fun n hn m hm => eq_of_node? (hmeans n hn) (hmeans m hm)]
  have hlast : ((g.neighborsOf id via).flatMap fun c => g.neighborsOf c.id [last]) =
      reach.filter fun n => [last].contains n.kind := by
    rw [hreach, List.filter_flatMap]
    rfl
  rw [hfound, hlast, List.filter_filter]
  congr 1
  -- the marks of the first step are the id itself and the neighbors that were passed
  refine List.filter_congr fun n hn => ?_
  have hmark : n.id ∈ (g.neighborsOf id via).map (·.id) ↔ n ∈ g.neighborsOf id via := id_mem_neighborsOf (hmeans n hn)
  rw [Bool.eq_iff_iff, Bool.and_eq_true, decide_eq_true_eq, decide_eq_true_eq, List.contains_iff_mem, List.mem_singleton,
    List.mem_cons, not_or, hmark]
  exact and_comm

/-- Which nodes the walk finds. -/
theorem mem_reachThrough :
    n ∈ g.reachThrough id via last ↔ n.kind = last ∧ (∃ c ∈ g.neighborsOf id via, n ∈ g.neighbors c.id) ∧
      n.id ≠ id ∧ n ∉ g.neighborsOf id via := by
  rw [reachThrough_eq, List.mem_eraseDups, List.mem_filter, List.mem_flatMap, decide_eq_true_eq]
  simp only [mem_neighborsOf, List.mem_singleton]
  constructor
  · rintro ⟨⟨c, hc, hn, hkind⟩, hout⟩
    exact ⟨hkind, ⟨c, hc, hn⟩, hout⟩
  · rintro ⟨hkind, ⟨c, hc, hn⟩, hout⟩
    exact ⟨⟨c, hc, hn, hkind⟩, hout⟩

/-- The walk finds no id twice. -/
theorem nodup_reachThrough (g : Graph) (id : String) (via : List NodeKind) (last : NodeKind) :
    ((g.reachThrough id via last).map (·.id)).Nodup := by
  have hmeans : ∀ n ∈ g.reachThrough id via last, g.node? n.id = some n := by
    intro n hn
    obtain ⟨-, ⟨c, -, hnext⟩, -⟩ := mem_reachThrough.mp hn
    exact node?_of_mem_neighbors hnext
  refine List.Nodup.map_on (fun n hn m hm => eq_of_node? (hmeans n hn) (hmeans m hm)) ?_
  rw [reachThrough_eq]
  exact nodup_eraseDups _

end Both

/-- **A walk of two steps finds the nodes behind a node**: in the order of the edges and each id once, those of kind
`last` next to its neighbors of the kinds `via`, without the node itself and these neighbors. So a protocol tool drawn
next to an agent counts as one of the agent's protocol tools exactly if it is also drawn next to one of its clients. -/
theorem reach_first_occurrences (g : Graph) :
    (∀ id via last, g.reachThrough id via last =
        (((g.neighborsOf id via).flatMap fun c => g.neighborsOf c.id [last]).filter fun n =>
          n.id ≠ id ∧ n ∉ g.neighborsOf id via).eraseDups ∧
      ((g.reachThrough id via last).map (·.id)).Nodup) ∧
    ∀ agent t, t ∈ g.neighborsOf agent.id [.protocolTool] →
      (t ∈ (g.agentLinks agent).protocolTools ↔ ∃ c ∈ (g.agentLinks agent).clients, t ∈ g.neighbors c.id) := by
  refine ⟨fun id via last => ⟨g.reachThrough_eq id via last, g.nodup_reachThrough id via last⟩, ?_⟩
  intro agent t ht
  obtain ⟨hnext, hkind⟩ := mem_neighborsOf.mp ht
  rw [List.mem_singleton] at hkind
  have hclient : t ∉ g.neighborsOf agent.id [.protocolClient] := by
    rw [mem_neighborsOf, hkind]
    simp
  show t ∈ g.reachThrough agent.id [.protocolClient] .protocolTool ↔ ∃ c ∈ g.neighborsOf agent.id [.protocolClient], _
  rw [mem_reachThrough]
  exact ⟨fun h => h.2.1, fun h => ⟨hkind, h, id_ne_of_mem_neighbors hnext, hclient⟩⟩

/-- An agent with a client and two protocol tools, the second of which hangs on both. -/
def sharedTool : Graph where
  nodes := [{ id := "a", kind := .agent }, { id := "c", kind := .protocolClient }, { id := "t", kind := .protocolTool },
    { id := "u", kind := .protocolTool }]
  edges := [⟨"1", "c", "a"⟩, ⟨"2", "t", "c"⟩, ⟨"3", "a", "u"⟩, ⟨"4", "u", "c"⟩]

theorem reach_first_occurrences_sharedTool :
    { id := "u", kind := .protocolTool } ∈ sharedTool.neighborsOf "a" [.protocolTool] ∧
      { id := "u", kind := .protocolTool } ∈ (sharedTool.agentLinks { id := "a", kind := .agent }).protocolTools := by
  have hdirect : ({ id := "u", kind := .protocolTool } : Node) ∈ sharedTool.neighborsOf "a" [.protocolTool] := by decide
  refine ⟨hdirect, ((reach_first_occurrences sharedTool).2 { id := "a", kind := .agent } _ hdirect).mpr ?_⟩
  exact ⟨{ id := "c", kind := .protocolClient }, by decide, by decide⟩

end Graph

end AgentFlow
