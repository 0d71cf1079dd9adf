import AgentFlow.CommandLine.Program
import AgentFlow.Launch.Codec
import AgentFlow.Proofs.Json.Records

/-!
# Stored graphs and launch records

A graph is stored as JSON, and so is a launch record. Absent fields are left out, launch arguments are a text or a
list, and variables are a map; ids may repeat and edges may lead nowhere. Reading the text gives back the same graph,
the same record. A program that is handed the text tries it as a document of the editor first: nodes of the editor have
a type, which a stored node has not, so one node is enough for the text to be taken for what it is.
-/

namespace AgentFlow

open Json (present)
open Json.Fields (get_given get_optional get_list)

/-! ### Nodes and edges -/

namespace Node

/-- The fields of a stored node. -/
def rows (n : Node) : List (String × Option Json) :=
  [("id", some (.str n.id)), ("kind", some (.str n.kind.name)), ("label", some (.str n.label)),
   ("description", n.description.map .str), ("instruction", n.instruction.map .str),
   ("modelName", n.modelName.map .str), ("protocolCommand", n.command.map .str), ("protocolArgs", n.args.map LaunchArgs.toJson),
   ("protocolEnv", n.env.map TextMap.toJson), ("protocolPackageRef", n.package.map .str),
   ("credential", n.credential.map .str), ("profileRef", n.profile.map .str)]

theorem toJson_eq (n : Node) : n.toJson = .obj (present n.rows) := by
  simp [toJson, rows, present, Json.member?_map, Json.member?_some]

theorem nodup_rows (n : Node) : (n.rows.map Prod.fst).Nodup := by
  show ["id", "kind", "label", "description", "instruction", "modelName", "protocolCommand", "protocolArgs",
    "protocolEnv", "protocolPackageRef", "credential", "profileRef"].Nodup
  decide

end Node

/-- A kind is read back from its name. -/
theorem NodeKind.ofJson?_name (k : NodeKind) : NodeKind.ofJson? (.str k.name) = some k := by
  cases k <;> decide

theorem LaunchArgs.optional?_toJson (args : LaunchArgs) :
    Json.optional? LaunchArgs.ofJson? args.toJson = some (some args) := by
  cases args with
  | line text => rfl
  | list items =>
    have hitems : LaunchArgs.ofJson? (.strs items) = some (.list items) := by
      show (Json.list? Json.str? (.strs items)).map LaunchArgs.list = _
      rw [Json.list?_strs, Option.map_some]
    show (LaunchArgs.ofJson? (.strs items)).map some = _
    rw [hitems, Option.map_some]

/-- A node is read back from its fields, each found by its name. -/
theorem Node.ofJson?_toJson (n : Node) : Node.ofJson? n.toJson = some n := by
  have hnames := n.nodup_rows
  have hfields : n.toJson.fields? 12 = some (.named (present n.rows)) := by rw [toJson_eq]; rfl
  -- the optional texts are read alike
  have htext : ∀ {name : String} {o : Option String}, (name, o.map .str) ∈ n.rows → ∀ position : Nat,
      (Json.Fields.named (present n.rows)).optText position [name] (.default none) = some o := by
    intro name o h position
    exact get_optional hnames h (fun s => rfl) position
  have henv : ∀ m : TextMap, Json.optional? TextMap.ofJson? m.toJson = some (some m) := by
    intro m
    show (TextMap.ofJson? m.toJson).map some = _
    rw [TextMap.ofJson?_toJson, Option.map_some]
  rw [ofJson?, hfields, Option.bind_some, ofFields?,
    get_given hnames (v := .str n.id) (by simp [rows]),
    get_given hnames (v := .str n.kind.name) (by simp [rows]), NodeKind.ofJson?_name,
    get_given hnames (v := .str n.label) (by simp [rows]),
    htext (o := n.description) (by simp [rows]), htext (o := n.instruction) (by simp [rows]),
    htext (o := n.modelName) (by simp [rows]), htext (o := n.command) (by simp [rows]),
    get_optional hnames (o := n.args) (by simp [rows]) LaunchArgs.optional?_toJson,
    get_optional hnames (o := n.env) (by simp [rows]) henv,
    htext (o := n.package) (by simp [rows]), htext (o := n.credential) (by simp [rows]),
    htext (o := n.profile) (by simp [rows])]
  rfl

/-- A node is stored without numbers. -/
theorem Node.numbers_toJson (n : Node) : n.toJson.numbers = [] := by
  rw [toJson_eq, Json.numbers]
  refine Json.memberNumbers_present ?_
  have hargs : ∀ args : LaunchArgs, args.toJson.numbers = [] := by
    intro args
    cases args with
    | line text => rfl
    | list items => exact Json.itemNumbers_map (fun _ => rfl) items
  simp [rows, Json.numbers, hargs, TextMap.numbers_toJson]

namespace Edge

def rows (e : Edge) : List (String × Option Json) :=
  [("id", some (.str e.id)), ("source", some (.str e.source)), ("target", some (.str e.target))]

theorem ofJson?_toJson (e : Edge) : ofJson? e.toJson = some e := by
  have hnames : (e.rows.map Prod.fst).Nodup := by
    show ["id", "source", "target"].Nodup
    decide
  have hfields : e.toJson.fields? 3 = some (.named (present e.rows)) := rfl
  rw [ofJson?, hfields, Option.bind_some, ofFields?, get_given hnames (v := .str e.id) (by simp [rows]),
    get_given hnames (v := .str e.source) (by simp [rows]), get_given hnames (v := .str e.target) (by simp [rows])]
  rfl

end Edge

/-! ### Graphs -/

namespace Graph

def rows (g : Graph) : List (String × Option Json) :=
  [("nodes", some (.arr (g.nodes.map Node.toJson))), ("edges", some (.arr (g.edges.map Edge.toJson)))]

theorem nodup_rows (g : Graph) : (g.rows.map Prod.fst).Nodup := by
  show ["nodes", "edges"].Nodup
  decide

theorem fields?_toJson (g : Graph) : g.toJson.fields? 2 = some (.named (present g.rows)) := rfl

/-- A graph is read back from its nodes and edges. -/
theorem ofJson?_toJson (g : Graph) : ofJson? g.toJson = some g := by
  have hnames := g.nodup_rows
  rw [ofJson?, fields?_toJson, Option.bind_some, ofFields?,
    get_given hnames (v := .arr (g.nodes.map Node.toJson)) (by simp [rows]), Json.list?_arr Node.ofJson?_toJson,
    get_given hnames (v := .arr (g.edges.map Edge.toJson)) (by simp [rows]), Json.list?_arr Edge.ofJson?_toJson]
  rfl

/-- Nothing in a graph is written as a number. -/
theorem spelled_toJson (g : Graph) : g.toJson.Spelled := by
  refine Json.spelled_of_numbers ?_
  show Json.memberNumbers (present g.rows) = []
  refine Json.memberNumbers_present ?_
  have hnodes := Json.itemNumbers_map Node.numbers_toJson g.nodes
  have hedges : Json.itemNumbers (g.edges.map Edge.toJson) = [] := Json.itemNumbers_map (fun _ => rfl) g.edges
  simp [rows, Json.numbers, hnodes, hedges]

theorem parse?_print (g : Graph) : parse? g.toJson.print = some g := by
  rw [parse?, Json.parse?_print g.spelled_toJson, Option.bind_some, ofJson?_toJson]

end Graph

/-! ### Launch records -/

namespace LaunchConfig

def rows (c : LaunchConfig) : List (String × Option Json) :=
  [("enabled", some (.bool c.enabled)), ("transport", some (.str c.transport.name)), ("command", some (.str c.command)),
   ("args", some (.strs c.args)), ("env", some c.env.toJson), ("packageRef", some (.str c.package)),
   ("credential", some (.str c.credential)), ("profileRef", c.profile.map .str), ("name", some (.str c.name)),
   ("toolFilter", if c.toolFilter.isEmpty then none else some (.strs c.toolFilter)),
   ("sourceNodes", if c.sources.isEmpty then none else some (.strs c.sources))]

theorem toJson_eq (c : LaunchConfig) : c.toJson = .obj (present c.rows) := by
  simp [toJson, rows, present, Json.member?_map, Json.member?_some, Json.member?_ite]

theorem nodup_rows (c : LaunchConfig) : (c.rows.map Prod.fst).Nodup := by
  show ["enabled", "transport", "command", "args", "env", "packageRef", "credential", "profileRef", "name",
    "toolFilter", "sourceNodes"].Nodup
  decide

/-- A launch record is read back, and an empty list is one that was left out. -/
theorem ofJson?_toJson (c : LaunchConfig) : ofJson? c.toJson = some c := by
  have hnames := c.nodup_rows
  have hfields : c.toJson.fields? 11 = some (.named (present c.rows)) := by rw [toJson_eq]; rfl
  have htransport : Json.word? Transport.ofName? (.str c.transport.name) = some c.transport := by
    cases c.transport
    decide
  have hprofile : ("profileRef", c.profile.map .str) ∈ c.rows := by simp [rows]
  rw [ofJson?, hfields, Option.bind_some, ofFields?,
    get_given hnames (v := .bool c.enabled) (by simp [rows]),
    get_given hnames (v := .str c.transport.name) (by simp [rows]), htransport,
    get_given hnames (v := .str c.command) (by simp [rows]),
    get_given hnames (v := .strs c.args) (by simp [rows]), Json.list?_strs,
    get_given hnames (v := c.env.toJson) (by simp [rows]), TextMap.ofJson?_toJson,
    get_given hnames (v := .str c.package) (by simp [rows]),
    get_given hnames (v := .str c.credential) (by simp [rows]), Json.Fields.optText,
    get_optional hnames hprofile (fun s => rfl),
    get_given hnames (v := .str c.name) (by simp [rows]),
    get_list hnames (by simp [rows]) (Json.list?_strs c.toolFilter),
    get_list hnames (by simp [rows]) (Json.list?_strs c.sources)]
  rfl

theorem spelled_toJson (c : LaunchConfig) : c.toJson.Spelled := by
  refine Json.spelled_of_numbers ?_
  rw [toJson_eq, Json.numbers]
  refine Json.memberNumbers_present ?_
  have hstrs : ∀ items : List String, (Json.strs items).numbers = [] := Json.itemNumbers_map fun _ => rfl
  have hlist : ∀ items : List String, ∀ v ∈ (if items.isEmpty then none else some (Json.strs items)),
      v.numbers = [] := by
    intro items v hv
    split_ifs at hv
    · cases hv
    · obtain rfl := Option.some.inj hv
      exact hstrs items
  simp only [rows, List.forall_mem_cons]
  refine ⟨by simp [Json.numbers], by simp [Json.numbers], by simp [Json.numbers], by simp [hstrs],
    by simp [TextMap.numbers_toJson], by simp [Json.numbers], by simp [Json.numbers], by simp [Json.numbers],
    by simp [Json.numbers], hlist c.toolFilter, hlist c.sources, by simp⟩

end LaunchConfig

/-! ### The editor's form is tried first -/

/-- A stored node is no node of the editor: it has no type. -/
theorem EditorNode.ofJson?_toJson (n : Node) : EditorNode.ofJson? n.toJson = none := by
  have hfields : n.toJson.fields? 3 = some (.named (present n.rows)) := by rw [Node.toJson_eq]; rfl
  have htype : ∀ r ∈ n.rows, r.1 ≠ "type" := by simp [Node.rows]
  rw [ofJson?, hfields, Option.bind_some, ofFields?, get_given n.nodup_rows (v := .str n.id) (by simp [Node.rows]),
    Json.Fields.get_unknown htype]
  rfl

/-- The edge is such as the editor saves: it has an id, and its ends are not blank. -/
structure Edge.Drawn (e : Edge) : Prop where
  named : e.id ≠ ""
  source : Text.blank e.source = false
  target : Text.blank e.target = false

namespace EditorFlow

/-- A graph with a node is not taken for a document of the editor. -/
theorem parse?_print_of_node (n : Node) (ns : List Node) (es : List Edge) :
    parse? (Graph.mk (n :: ns) es).toJson.print = none := by
  have hnodes : Json.list? EditorNode.ofJson? (.arr ((n :: ns).map Node.toJson)) = none := by
    rw [Json.list?, List.map_cons, List.mapM_cons, EditorNode.ofJson?_toJson]
    rfl
  rw [parse?, Json.parse?_print (Graph.spelled_toJson _), Option.bind_some, ofJson?, Graph.fields?_toJson,
    Option.bind_some, ofFields?,
    get_given (Graph.nodup_rows _) (v := .arr ((n :: ns).map Node.toJson)) (by simp [Graph.rows]), hnodes]
  rfl

/-- A graph without nodes is. -/
theorem parse?_print_of_edges (es : List Edge) : parse? (Graph.mk [] es).toJson.print = some ⟨[], es⟩ := by
  rw [parse?, Json.parse?_print (Graph.spelled_toJson _), Option.bind_some, ofJson?, Graph.fields?_toJson,
    Option.bind_some, ofFields?, get_given (Graph.nodup_rows _) (v := .arr []) (by simp [Graph.rows]),
    get_given (Graph.nodup_rows _) (v := .arr (es.map Edge.toJson)) (by simp [Graph.rows]),
    Json.list?_arr Edge.ofJson?_toJson]
  rfl

/-- No edge is renamed exactly if each has an id. -/
theorem nameEdges_eq_iff (i : Nat) (es : List Edge) : nameEdges i es = es ↔ ∀ e ∈ es, e.id ≠ "" := by
  induction es generalizing i with
  | nil => simp [nameEdges]
  | cons e es ih =>
    rw [nameEdges, List.cons.injEq, ih, List.forall_mem_cons]
    refine and_congr_left fun _ => ?_
    -- an empty id gives way to one that is not
    by_cases h : e.id = ""
    · have hne : "edge-" ++ toString i ≠ e.id := by simp [h]
      rw [if_pos h]
      constructor
      · intro he
        exact absurd (congrArg Edge.id he) hne
      · intro hn
        exact absurd h hn
    · simp [h]

theorem edgeDefect?_eq_none_iff (es : List Edge) :
    edgeDefect? es = none ↔ ∀ e ∈ es, Text.blank e.source = false ∧ Text.blank e.target = false := by
  rw [edgeDefect?, Option.map_eq_none_iff, List.find?_eq_none]
  simp

/-- A document without nodes is the graph of its edges if they are such as the editor saves. -/
theorem toGraph_edges_iff (es : List Edge) : toGraph ⟨[], es⟩ = .ok ⟨[], es⟩ ↔ ∀ e ∈ es, e.Drawn := by
  have hdrawn : (∀ e ∈ es, e.Drawn) ↔ edgeDefect? es = none ∧ nameEdges 0 es = es := by
    rw [edgeDefect?_eq_none_iff, nameEdges_eq_iff]
    constructor
    · intro h
      exact ⟨fun e he => ⟨(h e he).source, (h e he).target⟩, fun e he => (h e he).named⟩
    · rintro ⟨hends, hnamed⟩ e he
      exact ⟨hnamed e he, (hends e he).1, (hends e he).2⟩
  rw [hdrawn]
  cases hdefect : edgeDefect? es with
  | some defect => simp [toGraph, idDefect?, hdefect]
  | none =>
    have hgraph : toGraph ⟨[], es⟩ = .ok ⟨[], nameEdges 0 es⟩ := by
      simp only [toGraph, idDefect?, hdefect]
      rfl
    simp [hgraph]

end EditorFlow

/-- When a stored graph is loaded as it is. -/
theorem CommandLine.readGraph_print_iff (g : Graph) :
    readGraph g.toJson.print = .ok g ↔ g.nodes ≠ [] ∨ ∀ e ∈ g.edges, e.Drawn := by
  obtain ⟨nodes, edges⟩ := g
  cases nodes with
  | cons n ns =>
    -- the form of the editor is refused, and the graph is read as it was stored
    have hread : readGraph (Graph.mk (n :: ns) edges).toJson.print = .ok ⟨n :: ns, edges⟩ := by
      simp only [readGraph, EditorFlow.parse?_print_of_node, Graph.parse?_print]
    simp [hread]
  | nil =>
    -- the text is a document, and what becomes of it depends on the edges
    have hread : readGraph (Graph.mk [] edges).toJson.print = .ok ⟨[], edges⟩ ↔
        EditorFlow.toGraph ⟨[], edges⟩ = .ok ⟨[], edges⟩ := by
      simp only [readGraph, EditorFlow.parse?_print_of_edges]
      cases EditorFlow.toGraph ⟨[], edges⟩ <;> simp
    rw [hread, EditorFlow.toGraph_edges_iff]
    simp

/-- **What is stored is read back.** The text of a graph is read as the same graph, and the text of a launch record as
the same record, whatever they hold. A program that tries the editor's form first loads the graph as well if it has a
node; if it has none, it does so exactly if its edges are such as the editor saves, since the text is then a document
of the editor. -/
theorem stored_read_back (g : Graph) (c : LaunchConfig) :
    Graph.parse? g.toJson.print = some g ∧
      (Json.parse? c.toJson.print).bind LaunchConfig.ofJson? = some c ∧
      (CommandLine.readGraph g.toJson.print = .ok g ↔ g.nodes ≠ [] ∨ ∀ e ∈ g.edges, e.Drawn) := by
  refine ⟨g.parse?_print, ?_, CommandLine.readGraph_print_iff g⟩
  rw [Json.parse?_print c.spelled_toJson, Option.bind_some, c.ofJson?_toJson]

end AgentFlow
