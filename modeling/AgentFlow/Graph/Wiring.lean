import AgentFlow.Graph.Adjacency

/-!
# Wiring of agents and tool servers

What a node is wired to: the model, tools, clients and servers next to an agent, and the protocol tools behind its
clients; the client that owns a protocol tool and the server behind it. Nothing here can fail: what is not
there is missing from the answer.
-/

namespace AgentFlow

namespace Graph

/-- A walk of two steps: the nodes already met, and the nodes found at its end. -/
structure Walk where
  visited : List String
  found : List Node := []
  deriving DecidableEq

/-- The second step of a walk: a node of kind `last` that was not met before is found. -/
def Walk.arrive (last : NodeKind) (w : Walk) (n : Node) : Walk :=
  if w.visited.contains n.id then w
  else if n.kind == last then ⟨w.visited ++ [n.id], w.found ++ [n]⟩
  else w

/-- The first step of a walk: nodes of the kinds `via` are met, and what is next to them comes into reach. -/
def passThrough (g : Graph) (via : List NodeKind) : List String → List Node → List String × List Node
  | visited, [] => (visited, [])
  | visited, n :: ns =>
    if !visited.contains n.id && via.contains n.kind then
      let (visited, reach) := g.passThrough via (visited ++ [n.id]) ns
      (visited, g.neighbors n.id ++ reach)
    else g.passThrough via visited ns

/-- The nodes of kind `last` two edges away from `id`, by way of a node of the kinds `via`, each once and in the
order they are come upon. Neither `id` itself nor a node on the way counts. -/
def reachThrough (g : Graph) (id : String) (via : List NodeKind) (last : NodeKind) : List Node :=
  let (visited, reach) := g.passThrough via [id] (g.neighbors id)
  (reach.foldl (Walk.arrive last) { visited := visited }).found

/-- The client that owns a protocol tool. -/
def owningClient (g : Graph) (tool : Node) : Option Node := g.primary tool.id .protocolClient

/-- The server behind a protocol node: a server's own declaration, a client's server, and for a tool its own server
or its client's. -/
def backingServer (g : Graph) (n : Node) : Option Node :=
  match n.kind with
  | .protocolServer => g.node? n.id
  | .protocolClient => g.primary n.id .protocolServer
  | .protocolTool =>
    match g.primary n.id .protocolServer with
    | some server => some server
    | none => (g.owningClient n).bind fun client => g.primary client.id .protocolServer
  | _ => none

end Graph

/-- What an agent is wired to. -/
structure AgentLinks where
  model : Option Node
  tools : List Node
  clients : List Node
  /-- The protocol tools behind the clients. -/
  protocolTools : List Node
  servers : List Node
  deriving DecidableEq

/-- The protocol node `id` is wired to the agent. -/
def AgentLinks.reachesProtocol (l : AgentLinks) (id : String) : Bool :=
  (l.clients ++ l.protocolTools ++ l.servers).any fun n => n.id == id

/-- The wiring of an agent. -/
def Graph.agentLinks (g : Graph) (agent : Node) : AgentLinks where
  model := g.primary agent.id .model
  tools := g.neighborsOf agent.id [.tool]
  clients := g.neighborsOf agent.id [.protocolClient]
  protocolTools := g.reachThrough agent.id [.protocolClient] .protocolTool
  servers := g.neighborsOf agent.id [.protocolServer]

end AgentFlow
