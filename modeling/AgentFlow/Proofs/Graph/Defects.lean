import AgentFlow.Compiler
import AgentFlow.Proofs.Graph.Neighbors

/-!
# Defects and skipped edges

A graph is judged twice: its defects are listed for the strict compiler, and the adjacency leaves out the edges that
join nothing. The two agree edge by edge, since an edge has no defect exactly if it joins two nodes
(`edgeDefects_eq_nil_iff`). So a graph without defects is one whose ids are all different and whose edges all count, and
in it the ends of every edge are neighbors.
-/

namespace AgentFlow

/-- The edge that the defect is about. -/
def Defect.edge? : Defect → Option String
  | .repeatedId _ => none
  | .missingNode _ edgeId => some edgeId
  | .selfLoop edgeId _ => some edgeId

/-! ### Skipped edges -/

namespace Adjacency

variable {g : Graph}

/-- An edge is skipped if it does not join two nodes. -/
theorem skipped_add (adj : Adjacency) (e : Edge) :
    (add g adj e).skipped = adj.skipped ++ if g.joins e then [] else [e.id] := by
  unfold add
  split_ifs <;> simp

/-- Skipped edges are listed in their order. -/
theorem skipped_foldl_add (es : List Edge) (adj : Adjacency) :
    (es.foldl (add g) adj).skipped = adj.skipped ++ (es.filter fun e => !g.joins e).map (·.id) := by
  induction es generalizing adj with
  | nil => simp
  | cons e es ih =>
    rw [List.foldl_cons, ih, skipped_add, List.append_assoc]
    cases hjoins : g.joins e <;> simp [hjoins]

end Adjacency

namespace Graph

variable {g : Graph} {e : Edge} {d : Defect}

theorem skipped_adjacency (g : Graph) : g.adjacency.skipped = (g.edges.filter fun e => !g.joins e).map (·.id) :=
  Adjacency.skipped_foldl_add g.edges {}

/-! ### Defects of an edge -/

/-- An edge has a defect for each end that is no node, and one more if it is a loop. -/
theorem edgeDefects_eq (g : Graph) (e : Edge) :
    g.edgeDefects e = ([e.source, e.target].filter fun id => id ∉ g.nodes.map (·.id)).map (.missingNode · e.id) ++
      if e.source = e.target then [.selfLoop e.id e.source] else [] := by
  -- an end is reported exactly if no node has its id
  have hknown : ∀ id, (if g.hasId id then [] else [Defect.missingNode id e.id]) =
      ([id].filter fun id => id ∉ g.nodes.map (·.id)).map (.missingNode · e.id) := by
    intro id
    have hiff : g.hasId id = true ↔ id ∈ g.nodes.map (·.id) := by rw [hasId_iff, List.mem_map]
    by_cases hid : g.hasId id = true
    · rw [if_pos hid, List.filter_cons_of_neg (by simpa using hiff.mp hid)]
      rfl
    · rw [if_neg hid, List.filter_cons_of_pos (by simpa using fun n hn h => hid (hasId_iff.mpr ⟨n, hn, h⟩))]
      rfl
  rw [edgeDefects, hknown, hknown, ← List.map_append, ← List.filter_append]
  rfl

/-- An edge has no defect exactly if it joins two nodes. -/
theorem edgeDefects_eq_nil_iff : g.edgeDefects e = [] ↔ g.joins e = true := by
  rw [joins_iff, edgeDefects, List.append_eq_nil_iff, List.append_eq_nil_iff]
  constructor
  · rintro ⟨⟨hs, ht⟩, hloop⟩
    exact ⟨by simpa using hloop, by simpa using hs, by simpa using ht⟩
  · rintro ⟨hloop, hs, ht⟩
    exact ⟨⟨if_pos hs, if_pos ht⟩, if_neg hloop⟩

theorem edge?_of_mem_edgeDefects (h : d ∈ g.edgeDefects e) : d.edge? = some e.id := by
  rw [edgeDefects_eq, List.mem_append, List.mem_map] at h
  rcases h with ⟨id, -, rfl⟩ | hloop
  · rfl
  · split_ifs at hloop
    · rw [List.mem_singleton.mp hloop]
      rfl
    · exact absurd hloop List.not_mem_nil

/-- The skipped edges are those with a defect. -/
theorem skipped_eq (g : Graph) :
    g.adjacency.skipped = (g.edges.filter fun e => g.edgeDefects e ≠ []).map (·.id) := by
  have hsame : (fun e => !g.joins e) = fun e => decide (g.edgeDefects e ≠ []) := by
    funext e
    rw [Bool.eq_iff_iff, Bool.not_eq_true', decide_eq_true_eq, ne_eq, edgeDefects_eq_nil_iff, Bool.not_eq_true]
  rw [skipped_adjacency, hsame]

/-! ### Repeated ids -/

/-- The declarations of an id that an earlier node has. -/
def redeclared (ns : List Node) : List Node :=
  (ns.zipIdx.filter fun p => p.1.id ∈ (ns.take p.2).map (·.id)).map (·.1)

/-- A last element has all others before it. -/
theorem map_zipIdx_take_concat {α : Type} (xs : List α) (x : α) :
    ((xs ++ [x]).zipIdx.map fun p => ((xs ++ [x]).take p.2, p.1)) =
      (xs.zipIdx.map fun p => (xs.take p.2, p.1)) ++ [(xs, x)] := by
  have hearlier : (xs.zipIdx.map fun p => ((xs ++ [x]).take p.2, p.1)) = xs.zipIdx.map fun p => (xs.take p.2, p.1) := by
    refine List.map_congr_left fun p hp => ?_
    have hbound : p.2 ≤ xs.length := Nat.le_of_lt (by simpa using List.snd_lt_of_mem_zipIdx hp)
    rw [List.take_append_of_le_length hbound]
  rw [List.zipIdx_append, List.map_append, hearlier]
  simp

/-- A last node is a second declaration if its id came before. -/
theorem redeclared_concat (ns : List Node) (n : Node) :
    redeclared (ns ++ [n]) = redeclared ns ++ if n.id ∈ ns.map (·.id) then [n] else [] := by
  have hpairs : ∀ ms : List Node, redeclared ms =
      ((ms.zipIdx.map fun p => (ms.take p.2, p.1)).filter fun p => p.2.id ∈ p.1.map (·.id)).map (·.2) := by
    intro ms
    rw [List.filter_map, List.map_map]
    rfl
  rw [hpairs, hpairs, map_zipIdx_take_concat, List.filter_append, List.map_append]
  simp only [List.filter_cons, List.filter_nil, decide_eq_true_eq]
  split_ifs <;> rfl

theorem repeatedIds_concat (seen : List String) (ns : List Node) (n : Node) :
    repeatedIds seen (ns ++ [n]) =
      repeatedIds seen ns ++ if n.id ∈ seen ∨ n.id ∈ ns.map (·.id) then [.repeatedId n.id] else [] := by
  induction ns generalizing seen with
  | nil => simp [repeatedIds]
  | cons m ns ih =>
    -- the id of the first node has been seen by the time the last one is met
    rw [List.cons_append, repeatedIds, ih, repeatedIds, List.append_assoc]
    simp only [List.mem_cons, List.map_cons, or_left_comm, or_assoc]

/-- The pass that remembers ids reports each declaration but the first. -/
theorem repeatedIds_eq (ns : List Node) : repeatedIds [] ns = (redeclared ns).map fun n => .repeatedId n.id := by
  induction ns using List.reverseRecOn with
  | nil => rfl
  | append_singleton ns n ih =>
    rw [repeatedIds_concat, redeclared_concat, ih, List.map_append]
    simp only [List.not_mem_nil, false_or]
    split_ifs <;> rfl

/-- Nothing is reported exactly if the ids differ. -/
theorem repeatedIds_eq_nil_iff (ns : List Node) : repeatedIds [] ns = [] ↔ (ns.map (·.id)).Nodup := by
  induction ns using List.reverseRecOn with
  | nil => simp [repeatedIds]
  | append_singleton ns n ih =>
    rw [repeatedIds_concat, List.append_eq_nil_iff, ih, List.map_append, List.map_singleton, ← List.concat_eq_append,
      List.nodup_concat]
    simp [and_comm]

/-! ### The whole graph -/

theorem mem_defects_of_edge (he : e ∈ g.edges) (hd : d ∈ g.edgeDefects e) : d ∈ g.defects :=
  List.mem_append_right _ (List.mem_flatMap_of_mem he hd)

/-- A defect that is about an edge stands in the part of the report that an edge of this id makes. -/
theorem exists_edge_of_mem_defects {id : String} (hd : d ∈ g.defects) (hid : d.edge? = some id) :
    ∃ e ∈ g.edges, e.id = id ∧ d ∈ g.edgeDefects e := by
  rcases List.mem_append.mp hd with hnode | hedge
  · rw [repeatedIds_eq] at hnode
    obtain ⟨n, -, rfl⟩ := List.mem_map.mp hnode
    cases hid
  · obtain ⟨e, he, hde⟩ := List.mem_flatMap.mp hedge
    exact ⟨e, he, Option.some.inj ((edge?_of_mem_edgeDefects hde).symm.trans hid), hde⟩

/-- An id is skipped exactly if the report has a defect about it. -/
theorem mem_skipped_iff {id : String} : id ∈ g.adjacency.skipped ↔ ∃ d ∈ g.defects, d.edge? = some id := by
  rw [skipped_eq, List.mem_map]
  constructor
  · rintro ⟨e, he, rfl⟩
    obtain ⟨hmem, hne⟩ := List.mem_filter.mp he
    obtain ⟨d, hd⟩ := List.exists_mem_of_ne_nil _ (of_decide_eq_true hne)
    exact ⟨d, mem_defects_of_edge hmem hd, edge?_of_mem_edgeDefects hd⟩
  · rintro ⟨d, hd, hid⟩
    obtain ⟨e, he, heid, hde⟩ := exists_edge_of_mem_defects hd hid
    exact ⟨e, List.mem_filter.mpr ⟨he, decide_eq_true (List.ne_nil_of_mem hde)⟩, heid⟩

/-- Where no two edges share an id, the report tells which edges are meant. -/
theorem skipped_of_nodup (h : (g.edges.map (·.id)).Nodup) :
    g.adjacency.skipped = (g.edges.filter fun e => ∃ d ∈ g.defects, d.edge? = some e.id).map (·.id) := by
  rw [skipped_eq]
  refine congrArg _ (List.filter_congr fun e he => ?_)
  rw [decide_eq_decide]
  constructor
  · intro hne
    obtain ⟨d, hd⟩ := List.exists_mem_of_ne_nil _ hne
    exact ⟨d, mem_defects_of_edge he hd, edge?_of_mem_edgeDefects hd⟩
  · rintro ⟨d, hd, hid⟩
    obtain ⟨e', he', heid, hde⟩ := exists_edge_of_mem_defects hd hid
    -- the defect is about an edge of this id, and there is only one
    obtain rfl : e' = e := List.inj_on_of_nodup_map h he' he heid
    exact List.ne_nil_of_mem hde

/-- The report is empty exactly if the ids differ and nothing is skipped. -/
theorem defects_eq_nil_iff : g.defects = [] ↔ (g.nodes.map (·.id)).Nodup ∧ g.adjacency.skipped = [] := by
  rw [defects, List.append_eq_nil_iff, repeatedIds_eq_nil_iff, skipped_eq, List.map_eq_nil_iff, List.filter_eq_nil_iff,
    List.flatMap_eq_nil_iff]
  simp

/-- The ends of an edge that joins two nodes are neighbors of each other. -/
theorem neighbors_of_joins (he : e ∈ g.edges) (h : g.joins e = true) :
    (∃ t ∈ g.neighbors e.source, t.id = e.target) ∧ ∃ s ∈ g.neighbors e.target, s.id = e.source := by
  have htarget : e.target ∈ (g.neighbors e.source).map (·.id) := by
    rw [map_id_neighbors, ends_adjacency, List.mem_eraseDups]
    exact List.mem_filterMap.mpr ⟨e, List.mem_filter.mpr ⟨he, h⟩, by simp [Edge.otherEnd]⟩
  exact ⟨List.mem_map.mp htarget, List.mem_map.mp ((g.neighbors_symm _ _).mp htarget)⟩

end Graph

theorem Compiler.defects_of_compileStrict {c : Compiler} {a : CompiledAgent} (h : c.compileStrict = .ok a) :
    c.graph.defects = [] := by
  unfold compileStrict at h
  split_ifs at h with hempty
  exact List.isEmpty_iff.mp hempty

namespace Graph

/-- **The strict report and the lenient index agree.** The report is one defect for each declaration of an id that an
earlier node has, and then, edge by edge, one for each end that is no node and one for a loop. The index skips the edges
that have a part in the report, in the same order, so the report is empty exactly if the ids are all different and no
edge is skipped. If a graph is compiled strictly, every edge joins two different nodes that are neighbors of each
other. -/
theorem strict_agrees_with_lenient (g : Graph) :
    g.defects = (redeclared g.nodes).map (fun n => .repeatedId n.id) ++ g.edges.flatMap g.edgeDefects ∧
    (∀ e, g.edgeDefects e =
      ([e.source, e.target].filter fun id => id ∉ g.nodes.map (·.id)).map (.missingNode · e.id) ++
        if e.source = e.target then [.selfLoop e.id e.source] else []) ∧
    g.adjacency.skipped = (g.edges.filter fun e => g.edgeDefects e ≠ []).map (·.id) ∧
    (∀ id, id ∈ g.adjacency.skipped ↔ ∃ d ∈ g.defects, d.edge? = some id) ∧
    ((g.edges.map (·.id)).Nodup →
      g.adjacency.skipped = (g.edges.filter fun e => ∃ d ∈ g.defects, d.edge? = some e.id).map (·.id)) ∧
    (g.defects = [] ↔ (g.nodes.map (·.id)).Nodup ∧ g.adjacency.skipped = []) ∧
    ∀ (c : Compiler) (a : CompiledAgent), c.graph = g → c.compileStrict = .ok a → ∀ e ∈ g.edges,
      e.source ≠ e.target ∧
        (∃ t ∈ g.neighbors e.source, t.id = e.target) ∧ ∃ s ∈ g.neighbors e.target, s.id = e.source := by
  refine ⟨?_, g.edgeDefects_eq, g.skipped_eq, fun id => mem_skipped_iff, skipped_of_nodup, defects_eq_nil_iff, ?_⟩
  · rw [defects, repeatedIds_eq]
  · rintro c a rfl hstrict e he
    have hnone : c.graph.edgeDefects e = [] := by
      have hdefects := (List.append_eq_nil_iff.mp (Compiler.defects_of_compileStrict hstrict)).2
      exact List.flatMap_eq_nil_iff.mp hdefects e he
    have hjoins := edgeDefects_eq_nil_iff.mp hnone
    exact ⟨(joins_iff.mp hjoins).1, neighbors_of_joins he hjoins⟩

/-- A graph with all defects: an id declared twice, and edges of one id, one of them a loop at no node. -/
def tangled : Graph where
  nodes := [{ id := "a", kind := .agent }, { id := "t", kind := .tool }, { id := "a", kind := .model }]
  edges := [⟨"1", "a", "t"⟩, ⟨"2", "gone", "gone"⟩, ⟨"1", "t", "lost"⟩]

def joined : Graph where
  nodes := [{ id := "a", kind := .agent }, { id := "t", kind := .tool }]
  edges := [⟨"1", "a", "t"⟩]

theorem strict_agrees_with_lenient_tangled :
    tangled.defects = [.repeatedId "a", .missingNode "gone" "2", .missingNode "gone" "2", .selfLoop "2" "gone",
      .missingNode "lost" "1"] ∧
    tangled.adjacency.skipped = ["2", "1"] ∧
    (joined.edges.map (·.id)).Nodup ∧
    joined.adjacency.skipped = (joined.edges.filter fun e => ∃ d ∈ joined.defects, d.edge? = some e.id).map (·.id) ∧
    (∃ c a, Compiler.graph c = joined ∧ c.compileStrict = .ok a) ∧
    (∃ t ∈ joined.neighbors "a", t.id = "t") ∧ ∃ s ∈ joined.neighbors "t", s.id = "a" := by
  obtain ⟨hreport, -, hskipped, -⟩ := strict_agrees_with_lenient tangled
  obtain ⟨-, -, -, -, hnodup, -, hneighbors⟩ := strict_agrees_with_lenient joined
  have hstrict : (Compiler.ofGraph joined .adk).compileStrict = .ok (Compiler.ofGraph joined .adk).compile :=
    if_pos (by decide)
  refine ⟨?_, ?_, by decide, hnodup (by decide), ⟨_, _, rfl, hstrict⟩, ?_⟩
  · rw [hreport]
    decide
  · rw [hskipped]
    decide
  · exact (hneighbors _ _ rfl hstrict ⟨"1", "a", "t"⟩ (by decide)).2

end Graph

end AgentFlow
