import AgentFlow.Graph.Basic

/-!
# Who is joined to whom

The adjacency of a graph keeps one link for each pair of nodes that some edge joins, in the order of the first such
edge. An edge from a node to itself, or to an id that no node has, joins nothing; its id is listed as skipped.
-/

namespace AgentFlow

/-- The links of a graph, and the ids of the edges that make none. -/
structure Adjacency where
  links : List (String × String) := []
  skipped : List String := []
  deriving DecidableEq, Repr

/-- The edge joins two different nodes of the graph. -/
def Graph.joins (g : Graph) (e : Edge) : Bool := e.source != e.target && g.hasId e.source && g.hasId e.target

namespace Adjacency

/-- `a` and `b` are linked, in either order. -/
def linked (adj : Adjacency) (a b : String) : Bool :=
  adj.links.any fun l => (l.1 == a && l.2 == b) || (l.1 == b && l.2 == a)

/-- The adjacency with one more edge. -/
def add (g : Graph) (adj : Adjacency) (e : Edge) : Adjacency :=
  if g.joins e then
    if adj.linked e.source e.target then adj else { adj with links := adj.links ++ [(e.source, e.target)] }
  else { adj with skipped := adj.skipped ++ [e.id] }

/-- The ids linked to `id`, in the order of the links. -/
def ends (adj : Adjacency) (id : String) : List String :=
  adj.links.filterMap fun l => if l.1 == id then some l.2 else if l.2 == id then some l.1 else none

end Adjacency

namespace Graph

/-- The adjacency of a graph. -/
def adjacency (g : Graph) : Adjacency := g.edges.foldl (Adjacency.add g) {}

/-- The nodes joined to `id`, each once, in the order of their first edges. -/
def neighbors (g : Graph) (id : String) : List Node := (g.adjacency.ends id).filterMap g.node?

/-- The neighbors of `id` of the wanted kinds. -/
def neighborsOf (g : Graph) (id : String) (wanted : List NodeKind) : List Node :=
  (g.neighbors id).filter fun n => wanted.contains n.kind

/-- The first neighbor of a kind. -/
def primary (g : Graph) (id : String) (kind : NodeKind) : Option Node := (g.neighborsOf id [kind]).head?

end Graph

end AgentFlow
