import AgentFlow.Graph.Editor
import AgentFlow.Proofs.Graph.Defects

/-!
# From a document to a graph

Everything that is wrong with a document of the editor can be listed (`EditorFlow.faults`): its node ids first, then the
ends of its edges, then its node types, each in the order of the document. The passes over a document stop at the first
fault of this list, and a document without faults becomes a graph that keeps whatever was drawn. The ids of its nodes
differ, so a strict reading of the graph finds no repeated one.
-/

namespace AgentFlow

namespace NodeKind

/-- The names that a node type may be given by, those of older editors included. -/
def names : List (String × NodeKind) :=
  [("agent", .agent), ("tool", .tool), ("model", .model), ("llm", .model), ("protocol-client", .protocolClient),
   ("mcp-client", .protocolClient), ("protocol-server", .protocolServer), ("mcp-server", .protocolServer),
   ("protocol-tool", .protocolTool), ("mcp-tool", .protocolTool), ("input", .input)]

/-- A kind is found only by a name of it. -/
theorem mem_names_of_ofName? {s : String} {k : NodeKind} (h : ofName? s = some k) : (s, k) ∈ names := by
  unfold ofName? at h
  split at h
  next k' hfind =>
    obtain rfl := Option.some.inj h
    have hname : k'.name = s := by simpa using List.find?_some hfind
    rw [← hname]
    cases k' <;> simp [names, name]
  next =>
    -- the names that older editors use
    split_ifs at h with hllm hclient hserver htool
    all_goals
      obtain rfl := Option.some.inj h
      subst s
      simp [names]

theorem ofName?_of_mem_names {s : String} {k : NodeKind} (h : (s, k) ∈ names) : ofName? s = some k := by
  have hall : names.all (fun p => ofName? p.1 == some p.2) = true := by decide
  exact beq_iff_eq.mp (List.all_eq_true.mp hall (s, k) h)

/-- No kind is found exactly if the name is not listed. -/
theorem ofName?_eq_none_iff {s : String} : ofName? s = none ↔ s ∉ names.map (·.1) := by
  constructor
  · intro h hmem
    obtain ⟨p, hp, rfl⟩ := List.mem_map.mp hmem
    rw [ofName?_of_mem_names hp] at h
    cases h
  · intro h
    cases hkind : ofName? s with
    | none => rfl
    | some k => exact absurd (List.mem_map.mpr ⟨_, mem_names_of_ofName? hkind, rfl⟩) h

end NodeKind

/-! ### What is wrong with a document -/

namespace EditorFlow

/-- What is wrong with the id of a node that comes after others. -/
def idFault? (before : List EditorNode) (n : EditorNode) : Option EditorError :=
  if Text.blank n.id then some (.blankId n.type)
  else if n.id ∈ before.map (·.id) then some (.repeatedId n.id)
  else none

def idFaults (ns : List EditorNode) : List EditorError :=
  ns.zipIdx.filterMap fun p => idFault? (ns.take p.2) p.1

def endFaults (es : List Edge) : List EditorError :=
  (es.filter fun e => Text.blank e.source || Text.blank e.target).map fun e => .missingEndpoint e.id

def typeFaults (ns : List EditorNode) : List EditorError :=
  (ns.filter fun n => n.type ∉ NodeKind.names.map (·.1)).map fun n => .unknownKind n.id n.type

/-- All faults of a document. -/
def faults (flow : EditorFlow) : List EditorError :=
  idFaults flow.nodes ++ endFaults flow.edges ++ typeFaults flow.nodes

/-- A last node adds its own fault to those before it. -/
theorem idFaults_concat (ns : List EditorNode) (n : EditorNode) :
    idFaults (ns ++ [n]) = idFaults ns ++ (idFault? ns n).toList := by
  have hpairs : ∀ ms : List EditorNode,
      idFaults ms = (ms.zipIdx.map fun p => (ms.take p.2, p.1)).filterMap fun p => idFault? p.1 p.2 := by
    intro ms
    rw [List.filterMap_map]
    rfl
  rw [hpairs, hpairs, Graph.map_zipIdx_take_concat, List.filterMap_append, List.filterMap_cons, List.filterMap_nil]
  cases idFault? ns n <;> rfl

/-- The pass comes to the last node only if it found nothing before. -/
theorem idDefect?_concat (seen : List String) (ns : List EditorNode) (n : EditorNode) :
    idDefect? seen (ns ++ [n]) = (idDefect? seen ns).or
      (if Text.blank n.id then some (.blankId n.type)
        else if n.id ∈ seen ∨ n.id ∈ ns.map (·.id) then some (.repeatedId n.id) else none) := by
  induction ns generalizing seen with
  | nil => simp [idDefect?]
  | cons m ns ih =>
    -- the id of the first node counts as seen
    rw [List.cons_append, idDefect?, idDefect?, ih]
    simp only [List.mem_cons, List.map_cons, or_left_comm, or_assoc]
    split_ifs <;> simp

/-- The pass over the ids stops at the first fault. -/
theorem idDefect?_eq (ns : List EditorNode) : idDefect? [] ns = (idFaults ns).head? := by
  induction ns using List.reverseRecOn with
  | nil => rfl
  | append_singleton ns n ih =>
    rw [idDefect?_concat, idFaults_concat, List.head?_append, ih, Option.head?_toList]
    simp only [List.not_mem_nil, false_or]
    rfl

theorem edgeDefect?_eq (es : List Edge) : edgeDefect? es = (endFaults es).head? := by
  rw [edgeDefect?, endFaults, List.head?_map, List.head?_filter]

/-! ### Documents without faults -/

theorem idFault?_eq_none_iff {before : List EditorNode} {n : EditorNode} :
    idFault? before n = none ↔ Text.blank n.id = false ∧ n.id ∉ before.map (·.id) := by
  unfold idFault?
  split_ifs with hblank hmem <;> simp [*]

/-- The ids have no fault exactly if none is blank and no two are the same. -/
theorem idFaults_eq_nil_iff (ns : List EditorNode) :
    idFaults ns = [] ↔ (∀ n ∈ ns, Text.blank n.id = false) ∧ (ns.map (·.id)).Nodup := by
  induction ns using List.reverseRecOn with
  | nil => simp [idFaults]
  | append_singleton ns n ih =>
    rw [idFaults_concat, List.append_eq_nil_iff, ih, Option.toList_eq_nil_iff, idFault?_eq_none_iff,
      List.forall_mem_append, List.forall_mem_singleton, List.map_append, List.map_singleton, ← List.concat_eq_append,
      List.nodup_concat]
    tauto

theorem endFaults_eq_nil_iff (es : List Edge) :
    endFaults es = [] ↔ ∀ e ∈ es, Text.blank e.source = false ∧ Text.blank e.target = false := by
  rw [endFaults, List.map_eq_nil_iff, List.filter_eq_nil_iff]
  simp

theorem typeFaults_eq_nil_iff (ns : List EditorNode) :
    typeFaults ns = [] ↔ ∀ n ∈ ns, n.type ∈ NodeKind.names.map (·.1) := by
  rw [typeFaults, List.map_eq_nil_iff, List.filter_eq_nil_iff]
  simp only [decide_eq_true_eq, not_not]

/-- When a document has no faults. -/
theorem faults_eq_nil_iff (flow : EditorFlow) :
    flow.faults = [] ↔
      (∀ n ∈ flow.nodes, Text.blank n.id = false) ∧ (flow.nodes.map (·.id)).Nodup ∧
      (∀ e ∈ flow.edges, Text.blank e.source = false ∧ Text.blank e.target = false) ∧
      ∀ n ∈ flow.nodes, n.type ∈ NodeKind.names.map (·.1) := by
  rw [faults, List.append_eq_nil_iff, List.append_eq_nil_iff, idFaults_eq_nil_iff, endFaults_eq_nil_iff,
    typeFaults_eq_nil_iff, and_assoc, and_assoc]

end EditorFlow

/-! ### What is kept of a node -/

def EditorData.optionalTexts (d : EditorData) : List (Option String) :=
  [d.description, d.instruction, d.modelName, d.command, d.package, d.credential, d.profile]

def Node.optionalTexts (n : Node) : List (Option String) :=
  [n.description, n.instruction, n.modelName, n.command, n.package, n.credential, n.profile]

namespace EditorNode

/-- The node has what was drawn, but for optional texts that are blank. -/
structure StandsFor (d : EditorNode) (n : Node) : Prop where
  id : n.id = d.id
  kind : (d.type, n.kind) ∈ NodeKind.names
  label : n.label = d.data.label
  args : n.args = d.data.args
  env : n.env = d.data.env
  texts : List.Forall₂ (fun form text => ∀ s, text = some s ↔ form = some s ∧ Text.blank s = false)
    d.data.optionalTexts n.optionalTexts

theorem nonBlank_eq_some_iff (form : Option String) (s : String) :
    Text.nonBlank form = some s ↔ form = some s ∧ Text.blank s = false := by
  rw [Text.nonBlank, Option.filter_eq_some_iff, Bool.not_eq_true']

variable {d : EditorNode} {n : Node} {err : EditorError}

/-- A node that is made stands for what was drawn. -/
theorem standsFor_of_toNode (h : d.toNode = .ok n) : d.StandsFor n := by
  unfold toNode at h
  split at h
  next => cases h
  next kind hkind =>
    cases h
    refine ⟨rfl, NodeKind.mem_names_of_ofName? hkind, rfl, rfl, rfl, ?_⟩
    unfold EditorData.optionalTexts Node.optionalTexts
    -- one rule for all optional texts
    repeat' refine List.Forall₂.cons (nonBlank_eq_some_iff _) ?_
    exact List.Forall₂.nil

/-- A node is refused only for its type. -/
theorem toNode_eq_error_iff :
    d.toNode = .error err ↔ d.type ∉ NodeKind.names.map (·.1) ∧ err = .unknownKind d.id d.type := by
  rw [← NodeKind.ofName?_eq_none_iff]
  unfold toNode
  split
  next hkind => simp [hkind, eq_comm]
  next hkind => simp [hkind]

end EditorNode

namespace EditorFlow

section Types

variable {ns : List EditorNode} {n : EditorNode}

theorem mapM_toNode_of_error {err : EditorError} (h : n.toNode = .error err) :
    (n :: ns).mapM EditorNode.toNode = .error err := by
  rw [List.mapM_cons, h]
  rfl

theorem mapM_toNode_of_ok {m : Node} (h : n.toNode = .ok m) :
    (n :: ns).mapM EditorNode.toNode = (ns.mapM EditorNode.toNode).map (m :: ·) := by
  rw [List.mapM_cons, h]
  cases ns.mapM EditorNode.toNode <;> rfl

/-- The pass over the types stops at the first fault. -/
theorem mapM_toNode_eq_error_iff {err : EditorError} :
    ns.mapM EditorNode.toNode = .error err ↔ (typeFaults ns).head? = some err := by
  induction ns with
  | nil => simp [typeFaults, pure, Except.pure]
  | cons n ns ih =>
    cases hnode : n.toNode with
    | error err' =>
      -- the first node has a fault and nothing after it is looked at
      obtain ⟨htype, rfl⟩ := EditorNode.toNode_eq_error_iff.mp hnode
      rw [mapM_toNode_of_error hnode, typeFaults, List.filter_cons_of_pos (by simpa using htype)]
      simp
    | ok m =>
      have htype : n.type ∈ NodeKind.names.map (·.1) :=
        List.mem_map.mpr ⟨_, (EditorNode.standsFor_of_toNode hnode).kind, rfl⟩
      have hfaults : typeFaults (n :: ns) = typeFaults ns := by
        rw [typeFaults, List.filter_cons_of_neg (by simpa using htype)]
        rfl
      rw [mapM_toNode_of_ok hnode, hfaults, ← ih]
      cases ns.mapM EditorNode.toNode <;> simp [Except.map]

/-- Nodes are made one for one. -/
theorem forall₂_of_mapM_toNode {ms : List Node} (h : ns.mapM EditorNode.toNode = .ok ms) :
    List.Forall₂ EditorNode.StandsFor ns ms := by
  induction ns generalizing ms with
  | nil =>
    cases h
    exact List.Forall₂.nil
  | cons n ns ih =>
    cases hnode : n.toNode with
    | error err =>
      rw [mapM_toNode_of_error hnode] at h
      cases h
    | ok m =>
      rw [mapM_toNode_of_ok hnode] at h
      cases hrest : ns.mapM EditorNode.toNode with
      | error err =>
        rw [hrest] at h
        cases h
      | ok ms' =>
        rw [hrest] at h
        cases h
        exact List.Forall₂.cons (EditorNode.standsFor_of_toNode hnode) (ih hrest)

theorem map_id_of_forall₂ {ms : List Node} (h : List.Forall₂ EditorNode.StandsFor ns ms) :
    ms.map (·.id) = ns.map (·.id) := by
  induction h with
  | nil => rfl
  | cons hnode _ ih => rw [List.map_cons, List.map_cons, hnode.id, ih]

end Types

/-! ### What is kept of an edge -/

/-- An edge as it is called in the graph: by its own id, or else by its position. -/
def named (i : Nat) (e : Edge) : Edge := { e with id := if e.id = "" then "edge-" ++ toString i else e.id }

theorem named_ne_empty (i : Nat) (e : Edge) : (named i e).id ≠ "" := by
  unfold named
  split_ifs with h
  · simp
  · exact h

/-- Each edge is named by its own position. -/
theorem nameEdges_eq (k : Nat) (es : List Edge) : nameEdges k es = es.mapIdx fun i e => named (k + i) e := by
  induction es generalizing k with
  | nil => rfl
  | cons e es ih =>
    rw [nameEdges, List.mapIdx_cons, ih]
    refine congrArg₂ List.cons rfl (congrArg (List.mapIdx · es) ?_)
    funext i e'
    rw [Nat.add_right_comm, Nat.add_assoc]

/-! ### The whole document -/

variable {flow : EditorFlow} {g : Graph}

/-- The error is the first fault, in the order in which the passes are made. -/
theorem toGraph_eq_error_iff {err : EditorError} : flow.toGraph = .error err ↔ flow.faults.head? = some err := by
  rw [faults, List.head?_append, List.head?_append, ← idDefect?_eq, ← edgeDefect?_eq]
  unfold toGraph
  -- each pass is made only if those before it found nothing
  cases idDefect? [] flow.nodes with
  | some err' => simp
  | none =>
    cases edgeDefect? flow.edges with
    | some err' => simp
    | none =>
      rw [Option.none_or, Option.none_or, ← mapM_toNode_eq_error_iff]
      cases flow.nodes.mapM EditorNode.toNode <;> simp [bind, Except.bind, pure, Except.pure]

theorem exists_toGraph_eq_ok_iff : (∃ g, flow.toGraph = .ok g) ↔ flow.faults = [] := by
  rw [← List.head?_eq_none_iff]
  cases hgraph : flow.toGraph with
  | error err =>
    rw [toGraph_eq_error_iff.mp hgraph]
    simp
  | ok g =>
    cases hhead : flow.faults.head? with
    | none => simp
    | some err =>
      rw [toGraph_eq_error_iff.mpr hhead] at hgraph
      cases hgraph

/-- Nodes and edges of the graph are those of the document. -/
theorem parts_of_toGraph (h : flow.toGraph = .ok g) :
    List.Forall₂ EditorNode.StandsFor flow.nodes g.nodes ∧ g.edges = flow.edges.mapIdx named := by
  unfold toGraph at h
  split at h
  next => cases h
  next =>
    split at h
    next => cases h
    next =>
      cases hnodes : flow.nodes.mapM EditorNode.toNode with
      | error err =>
        rw [hnodes] at h
        cases h
      | ok ms =>
        rw [hnodes] at h
        cases h
        refine ⟨forall₂_of_mapM_toNode hnodes, ?_⟩
        simp only [nameEdges_eq, Nat.zero_add]

/-- The ids of the nodes are those of the document, which differ. -/
theorem repeatedId_not_mem_defects (h : flow.toGraph = .ok g) (id : String) : .repeatedId id ∉ g.defects := by
  have hids := map_id_of_forall₂ (parts_of_toGraph h).1
  have hnodup := (flow.faults_eq_nil_iff.mp (exists_toGraph_eq_ok_iff.mp ⟨g, h⟩)).2.1
  have hrepeated : Graph.repeatedIds [] g.nodes = [] := (Graph.repeatedIds_eq_nil_iff g.nodes).mpr (hids ▸ hnodup)
  rw [Graph.defects, hrepeated, List.nil_append]
  intro hmem
  obtain ⟨e, -, hdefect⟩ := List.mem_flatMap.mp hmem
  cases Graph.edge?_of_mem_edgeDefects hdefect

/-- **A document becomes the graph that was drawn, or its first fault is reported.** The faults of a document are listed
by node ids, ends of edges and node types, and the first of the list is what is reported. There is none exactly if no id
is blank or used twice, no end of an edge is blank and all types are names of kinds. The graph then has the nodes and
edges of the document in their order: ids, labels, ends, arguments and environments as drawn, optional texts as drawn
unless they are blank, and an id for every edge. No id is reported as declared twice. -/
theorem document_becomes_graph (flow : EditorFlow) :
    (∀ err, flow.toGraph = .error err ↔ flow.faults.head? = some err) ∧
    ((∃ g, flow.toGraph = .ok g) ↔
      (∀ n ∈ flow.nodes, Text.blank n.id = false) ∧ (flow.nodes.map (·.id)).Nodup ∧
      (∀ e ∈ flow.edges, Text.blank e.source = false ∧ Text.blank e.target = false) ∧
      ∀ n ∈ flow.nodes, n.type ∈ NodeKind.names.map (·.1)) ∧
    ∀ g, flow.toGraph = .ok g →
      List.Forall₂ EditorNode.StandsFor flow.nodes g.nodes ∧
      g.edges = flow.edges.mapIdx named ∧ (∀ e ∈ g.edges, e.id ≠ "") ∧
      ∀ id, .repeatedId id ∉ g.defects := by
  refine ⟨fun err => toGraph_eq_error_iff, exists_toGraph_eq_ok_iff.trans flow.faults_eq_nil_iff, fun g hgraph => ?_⟩
  obtain ⟨hnodes, hedges⟩ := parts_of_toGraph hgraph
  refine ⟨hnodes, hedges, fun e he => ?_, repeatedId_not_mem_defects hgraph⟩
  rw [hedges] at he
  obtain ⟨i, hi, rfl⟩ := List.mem_mapIdx.mp he
  exact named_ne_empty i _

/-- Blank texts are dropped and an edge without an id gets one. -/
def sketch : EditorFlow where
  nodes := [{ id := "1", type := "agent", data := { label := " Bot ", instruction := some "\t", description := some " d " } },
    { id := " 1", type := "mcp-client", data := { args := some (.line ""), credential := some "" } }]
  edges := [⟨"", "1", "gone"⟩, ⟨" ", "1", "1"⟩]

/-- Every pass would find a fault: a type, an end, and an id that comes after a node of unknown type. -/
def faulty : EditorFlow where
  nodes := [{ id := "1", type := "Agent" }, { id := "2", type := "tool" }, { id := "1", type := "tool" }]
  edges := [⟨"e", "1", " "⟩]

theorem document_becomes_graph_sketch :
    (∃ g, sketch.toGraph = .ok g ∧ List.Forall₂ EditorNode.StandsFor sketch.nodes g.nodes ∧
      g.edges = [⟨"edge-0", "1", "gone"⟩, ⟨" ", "1", "1"⟩] ∧ ∀ id, .repeatedId id ∉ g.defects) ∧
    faulty.faults = [.repeatedId "1", .missingEndpoint "e", .unknownKind "1" "Agent"] ∧
    faulty.toGraph = .error (.repeatedId "1") := by
  have hfaulty : faulty.faults = [.repeatedId "1", .missingEndpoint "e", .unknownKind "1" "Agent"] := by decide
  obtain ⟨-, hok, hgraph⟩ := document_becomes_graph sketch
  obtain ⟨g, hg⟩ := hok.mpr (by decide)
  obtain ⟨hnodes, hedges, -, hunique⟩ := hgraph g hg
  refine ⟨⟨g, hg, hnodes, ?_, hunique⟩, hfaulty, ?_⟩
  · rw [hedges]
    decide
  · rw [(document_becomes_graph faulty).1, hfaulty]
    rfl

end EditorFlow

end AgentFlow
