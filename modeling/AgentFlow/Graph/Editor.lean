import AgentFlow.Graph.Codec

/-!
# Documents of the visual editor

The editor saves nodes with a type name and a bag of form values. `EditorFlow.toGraph` turns a document into a
graph: a document with a blank or repeated node id, an edge without an endpoint, or an unknown node type is
refused, in that order, and blank form values count as absent.
-/

namespace AgentFlow

/-- The form values of a node. -/
structure EditorData where
  label : String := ""
  description : Option String := none
  instruction : Option String := none
  modelName : Option String := none
  command : Option String := none
  args : Option LaunchArgs := none
  env : Option TextMap := none
  package : Option String := none
  credential : Option String := none
  profile : Option String := none
  deriving DecidableEq

/-- A node as drawn. -/
structure EditorNode where
  id : String
  type : String
  data : EditorData := {}
  deriving DecidableEq

/-- A document of the editor. -/
structure EditorFlow where
  nodes : List EditorNode
  edges : List Edge := []
  deriving DecidableEq

/-- Why a document is no graph. -/
inductive EditorError where
  | blankId (type : String)
  | repeatedId (id : String)
  | missingEndpoint (edgeId : String)
  | unknownKind (nodeId : String) (kind : String)
  deriving DecidableEq, Repr

namespace EditorError

def message : EditorError → String
  | .blankId type => "Invalid graph data: node of type '" ++ type ++ "' has no id"
  | .repeatedId id => "Invalid graph data: node id '" ++ id ++ "' is used more than once"
  | .missingEndpoint edgeId => "Invalid graph data: edge '" ++ edgeId ++ "' is missing an endpoint"
  | .unknownKind nodeId kind => "Node '" ++ nodeId ++ "' has an unknown kind: '" ++ kind ++ "'"

end EditorError

/-! ### Reading a document -/

namespace EditorData

def ofFields? (fs : Json.Fields) : Option EditorData := do
  let label ← fs.get 0 ["label"] (.default "") Json.str?
  let description ← fs.optText 1 ["description"] (.byName none)
  let instruction ← fs.optText 2 ["instruction"] (.byName none)
  let modelName ← fs.optText 3 ["model_name", "modelName"] (.byName none)
  let command ← fs.optText 4 ["mcp_command", "mcpCommand"] (.byName none)
  let args ← fs.get 5 ["mcp_args", "mcpArgs"] (.byName none) (Json.optional? LaunchArgs.ofJson?)
  let env ← fs.get 6 ["mcp_env", "mcpEnv"] (.byName none) (Json.optional? TextMap.ofJson?)
  let package ← fs.optText 7 ["smithery_mcp", "smitheryMcp"] (.byName none)
  let credential ← fs.optText 8 ["smithery_api_key", "smitheryApiKey"] (.byName none)
  let profile ← fs.optText 9 ["profile_id", "profileId"] (.byName none)
  some ⟨label, description, instruction, modelName, command, args, env, package, credential, profile⟩

def ofJson? (v : Json) : Option EditorData := (v.fields? 10).bind ofFields?

end EditorData

namespace EditorNode

def ofFields? (fs : Json.Fields) : Option EditorNode := do
  let id ← fs.get 0 ["id"] .refused Json.str?
  let type ← fs.get 1 ["type"] .refused Json.str?
  let data ← fs.get 2 ["data"] (.default {}) EditorData.ofJson?
  some ⟨id, type, data⟩

def ofJson? (v : Json) : Option EditorNode := (v.fields? 3).bind ofFields?

end EditorNode

namespace EditorFlow

def ofFields? (fs : Json.Fields) : Option EditorFlow := do
  let nodes ← fs.get 0 ["nodes"] .refused (Json.list? EditorNode.ofJson?)
  let edges ← fs.get 1 ["edges"] (.default []) (Json.list? Edge.ofJson?)
  some ⟨nodes, edges⟩

def ofJson? (v : Json) : Option EditorFlow := (v.fields? 2).bind ofFields?

/-- The document that a text holds. -/
def parse? (text : String) : Option EditorFlow := (Json.parse? text).bind ofJson?

/-! ### From a document to a graph -/

/-- The first blank or repeated id, given the ids seen before. -/
def idDefect? (seen : List String) : List EditorNode → Option EditorError
  | [] => none
  | n :: ns =>
    if Text.blank n.id then some (.blankId n.type)
    else if seen.contains n.id then some (.repeatedId n.id)
    else idDefect? (n.id :: seen) ns

/-- The first edge without an endpoint. -/
def edgeDefect? (edges : List Edge) : Option EditorError :=
  (edges.find? fun e => Text.blank e.source || Text.blank e.target).map fun e => .missingEndpoint e.id

end EditorFlow

/-- The node that a drawn node stands for. -/
def EditorNode.toNode (n : EditorNode) : Except EditorError Node :=
  match NodeKind.ofName? n.type with
  | none => .error (.unknownKind n.id n.type)
  | some kind =>
    .ok {
      id := n.id
      kind := kind
      label := n.data.label
      description := Text.nonBlank n.data.description
      instruction := Text.nonBlank n.data.instruction
      modelName := Text.nonBlank n.data.modelName
      command := Text.nonBlank n.data.command
      args := n.data.args
      env := n.data.env
      package := Text.nonBlank n.data.package
      credential := Text.nonBlank n.data.credential
      profile := Text.nonBlank n.data.profile }

namespace EditorFlow

/-- Edges with ids; an edge without one is called by its position. -/
def nameEdges : Nat → List Edge → List Edge
  | _, [] => []
  | i, e :: es => { e with id := if e.id = "" then "edge-" ++ toString i else e.id } :: nameEdges (i + 1) es

/-- The graph of a document. -/
def toGraph (flow : EditorFlow) : Except EditorError Graph :=
  match idDefect? [] flow.nodes with
  | some e => .error e
  | none =>
    match edgeDefect? flow.edges with
    | some e => .error e
    | none => do
      let nodes ← flow.nodes.mapM EditorNode.toNode
      pure ⟨nodes, nameEdges 0 flow.edges⟩

end EditorFlow

end AgentFlow
