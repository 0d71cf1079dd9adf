import AgentFlow.Graph.Basic

/-!
# Stored graphs

The JSON form of a graph. Absent texts are left out, and an absent label or edge id reads as the empty text.
-/

namespace AgentFlow

open Json (member? optional? list? word?)

def NodeKind.ofJson? : Json → Option NodeKind := word? NodeKind.ofName?

def LaunchArgs.toJson : LaunchArgs → Json
  | .line text => .str text
  | .list items => .strs items

def LaunchArgs.ofJson? : Json → Option LaunchArgs
  | .str text => some (.line text)
  | v => (list? Json.str? v).map .list

/-- A text that may be left out or null. -/
def Json.Fields.optText (fs : Json.Fields) (position : Nat) (names : List String)
    (absent : Json.Absent (Option String)) : Option (Option String) :=
  fs.get position names absent (optional? Json.str?)

namespace Node

def toJson (n : Node) : Json :=
  .obj ([("id", .str n.id), ("kind", .str n.kind.name), ("label", .str n.label)]
    ++ member? "description" .str n.description
    ++ member? "instruction" .str n.instruction
    ++ member? "modelName" .str n.modelName
    ++ member? "protocolCommand" .str n.command
    ++ member? "protocolArgs" LaunchArgs.toJson n.args
    ++ member? "protocolEnv" TextMap.toJson n.env
    ++ member? "protocolPackageRef" .str n.package
    ++ member? "credential" .str n.credential
    ++ member? "profileRef" .str n.profile)

def ofFields? (fs : Json.Fields) : Option Node := do
  let id ← fs.get 0 ["id"] .refused Json.str?
  let kind ← fs.get 1 ["kind"] .refused NodeKind.ofJson?
  let label ← fs.get 2 ["label"] (.default "") Json.str?
  let description ← fs.optText 3 ["description"] (.default none)
  let instruction ← fs.optText 4 ["instruction"] (.default none)
  let modelName ← fs.optText 5 ["modelName"] (.default none)
  let command ← fs.optText 6 ["protocolCommand"] (.default none)
  let args ← fs.get 7 ["protocolArgs"] (.default none) (optional? LaunchArgs.ofJson?)
  let env ← fs.get 8 ["protocolEnv"] (.default none) (optional? TextMap.ofJson?)
  let package ← fs.optText 9 ["protocolPackageRef"] (.default none)
  let credential ← fs.optText 10 ["credential"] (.default none)
  let profile ← fs.optText 11 ["profileRef"] (.default none)
  some ⟨id, kind, label, description, instruction, modelName, command, args, env, package, credential, profile⟩

def ofJson? (v : Json) : Option Node := (v.fields? 12).bind ofFields?

end Node

namespace Edge

def toJson (e : Edge) : Json := .obj [("id", .str e.id), ("source", .str e.source), ("target", .str e.target)]

def ofFields? (fs : Json.Fields) : Option Edge := do
  let id ← fs.get 0 ["id"] (.default "") Json.str?
  let source ← fs.get 1 ["source"] .refused Json.str?
  let target ← fs.get 2 ["target"] .refused Json.str?
  some ⟨id, source, target⟩

def ofJson? (v : Json) : Option Edge := (v.fields? 3).bind ofFields?

end Edge

namespace Graph

def toJson (g : Graph) : Json :=
  .obj [("nodes", .arr (g.nodes.map Node.toJson)), ("edges", .arr (g.edges.map Edge.toJson))]

def ofFields? (fs : Json.Fields) : Option Graph := do
  let nodes ← fs.get 0 ["nodes"] (.default []) (list? Node.ofJson?)
  let edges ← fs.get 1 ["edges"] (.default []) (list? Edge.ofJson?)
  some ⟨nodes, edges⟩

def ofJson? (v : Json) : Option Graph := (v.fields? 2).bind ofFields?

/-- The graph that a text holds. -/
def parse? (text : String) : Option Graph := (Json.parse? text).bind ofJson?

end Graph

end AgentFlow
