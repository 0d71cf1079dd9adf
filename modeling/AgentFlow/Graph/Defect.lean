import AgentFlow.Graph.Basic

/-!
# Defects of a graph

What is wrong with the structure of a graph: repeated node ids, and edges that miss an endpoint or lead from a node
to itself. All of it is listed: the nodes first, in order, and then the edges.
-/

namespace AgentFlow

/-- A structural defect. -/
inductive Defect where
  | repeatedId (id : String)
  | missingNode (id : String) (edgeId : String)
  | selfLoop (edgeId : String) (id : String)
  deriving DecidableEq, Repr

def Defect.message : Defect → String
  | .repeatedId id => "Node id '" ++ id ++ "' is declared more than once"
  | .missingNode id edgeId => "Node '" ++ id ++ "' not found, which is required by edge '" ++ edgeId ++ "'"
  | .selfLoop edgeId id => "Edge '" ++ edgeId ++ "' connects node '" ++ id ++ "' to itself"

namespace Graph

/-- One defect for each id that is among `seen` or stands earlier in the list. -/
def repeatedIds (seen : List String) : List Node → List Defect
  | [] => []
  | n :: ns => (if seen.contains n.id then [.repeatedId n.id] else []) ++ repeatedIds (n.id :: seen) ns

/-- The defects of an edge: its source, its target, and then the loop. -/
def edgeDefects (g : Graph) (e : Edge) : List Defect :=
  (if g.hasId e.source then [] else [.missingNode e.source e.id])
    ++ (if g.hasId e.target then [] else [.missingNode e.target e.id])
    ++ (if e.source = e.target then [.selfLoop e.id e.source] else [])

/-- All defects of a graph. -/
def defects (g : Graph) : List Defect := repeatedIds [] g.nodes ++ g.edges.flatMap g.edgeDefects

end Graph

end AgentFlow
