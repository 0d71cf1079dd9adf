import AgentFlow.TextMap
import AgentFlow.Text.Basic

/-!
# Agent graphs

An authored graph has nodes for agents, models, tools and tool servers, and edges that join them. The direction of
an edge only records how it was drawn. Ids may repeat and edges may lead nowhere: the first node declared with an
id is the one the id means.
-/

namespace AgentFlow

/-- The role of a node. A tool server is described by the three protocol kinds: its client, the server itself, and
the tools it offers. -/
inductive NodeKind where
  | agent
  | tool
  | model
  | protocolClient
  | protocolServer
  | protocolTool
  | input
  deriving DecidableEq, Repr

namespace NodeKind

def all : List NodeKind := [.agent, .tool, .model, .protocolClient, .protocolServer, .protocolTool, .input]

/-- The kinds that describe a tool server. -/
def protocol : List NodeKind := [.protocolClient, .protocolServer, .protocolTool]

def isProtocol (k : NodeKind) : Bool := protocol.contains k

/-- The name of a kind in a stored graph. -/
def name : NodeKind → String
  | .agent => "agent"
  | .tool => "tool"
  | .model => "model"
  | .protocolClient => "protocol-client"
  | .protocolServer => "protocol-server"
  | .protocolTool => "protocol-tool"
  | .input => "input"

/-- A kind by its name, or by a name that older editors write. -/
def ofName? (s : String) : Option NodeKind :=
  match all.find? fun k => k.name == s with
  | some k => some k
  | none =>
    if s = "llm" then some .model
    else if s = "mcp-client" then some .protocolClient
    else if s = "mcp-server" then some .protocolServer
    else if s = "mcp-tool" then some .protocolTool
    else none

end NodeKind

/-- Launch arguments as authored: a command line or a list. -/
inductive LaunchArgs where
  | line (text : String)
  | list (items : List String)
  deriving DecidableEq, Repr

/-- The arguments; a command line is split at blanks. -/
def LaunchArgs.toList : LaunchArgs → List String
  | .line text => (Text.words text.toList).map String.ofList
  | .list items => items

/-- A node of a graph. The fields after `modelName` describe how its tool server is launched. -/
structure Node where
  id : String
  kind : NodeKind
  label : String := ""
  description : Option String := none
  instruction : Option String := none
  modelName : Option String := none
  command : Option String := none
  args : Option LaunchArgs := none
  env : Option TextMap := none
  package : Option String := none
  credential : Option String := none
  profile : Option String := none
  deriving DecidableEq

/-- The texts of a node that an author wrote. -/
def Node.texts (n : Node) : List String := n.label :: n.description.toList ++ n.instruction.toList

/-- A connection of two nodes. -/
structure Edge where
  id : String := ""
  source : String
  target : String
  deriving DecidableEq, Repr

/-- The end of the edge away from node `id`, if the edge has an end there. -/
def Edge.otherEnd (e : Edge) (id : String) : Option String :=
  if e.source = id then some e.target
  else if e.target = id then some e.source
  else none

/-- An authored graph. -/
structure Graph where
  nodes : List Node := []
  edges : List Edge := []
  deriving DecidableEq

namespace Graph

/-- The node that an id means. -/
def node? (g : Graph) (id : String) : Option Node := g.nodes.find? fun n => n.id == id

/-- `id` is the id of a node. -/
def hasId (g : Graph) (id : String) : Bool := g.nodes.any fun n => n.id == id

/-- The nodes of a kind, in order. -/
def ofKind (g : Graph) (k : NodeKind) : List Node := g.nodes.filter fun n => n.kind == k

/-- The first node of a kind. -/
def firstOfKind (g : Graph) (k : NodeKind) : Option Node := g.nodes.find? fun n => n.kind == k

/-- Some node describes a tool server. -/
def hasProtocol (g : Graph) : Bool := g.nodes.any fun n => n.kind.isProtocol

end Graph

end AgentFlow
