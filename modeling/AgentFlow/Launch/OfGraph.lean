import AgentFlow.Launch.Basic
import AgentFlow.Graph.Wiring

/-!
# Launch records of a graph

Every protocol node gives one launch record. A tool takes missing fields from its client, and a tool or client from
the server behind it; a credential that is missing in all of them comes from outside. A client is restricted to the
tools drawn next to it, and a tool to itself. Records that launch the same server are joined.
-/

namespace AgentFlow

/-- The labels of nodes, without the blanks around them and without the empty ones. -/
def toolNames (ns : List Node) : List String := (ns.map fun n => Text.strip n.label).filter fun t => t != ""

namespace Graph

/-- The launch fields of a protocol node with what it takes from its client and server. -/
def inheritedSource (g : Graph) (n : Node) : LaunchSource :=
  let s := LaunchSource.ofNode n
  let s :=
    match n.kind with
    | .protocolTool =>
      match g.owningClient n with
      | some client => s.inherit client
      | none => s
    | _ => s
  match (g.backingServer n).filter fun server => server.id != n.id with
  | some server => s.inherit server
  | none => s

/-- The tools that the server of a protocol node is restricted to. -/
def toolFilter (g : Graph) (n : Node) : List String :=
  match n.kind with
  | .protocolClient => toolNames (g.neighborsOf n.id [.protocolTool])
  | .protocolTool => toolNames [n]
  | _ => []

/-- The launch record of a protocol node; `credential` is used if its wiring has none. -/
def launchConfig (g : Graph) (credential : Option String) (n : Node) : LaunchConfig :=
  let s := g.inheritedSource n
  LaunchSource.normalize { s with credential := s.credential.or credential, toolFilter := g.toolFilter n }

/-- The launch records of all protocol nodes, joined. -/
def launchConfigs (g : Graph) (credential : Option String) : List LaunchConfig :=
  LaunchConfig.dedupe ((g.nodes.filter fun n => n.kind.isProtocol).map (g.launchConfig credential))

end Graph

end AgentFlow
