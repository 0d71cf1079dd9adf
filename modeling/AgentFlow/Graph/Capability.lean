import AgentFlow.Graph.Basic

/-!
# Capabilities

What a graph asks for beyond an agent with tools: tool servers by its nodes, memory and events by words in the
texts of its nodes, in any case.
-/

namespace AgentFlow

/-- The special features a graph asks for. -/
structure Capabilities where
  protocol : Bool := false
  memory : Bool := false
  events : Bool := false
  deriving DecidableEq, Repr

namespace Capabilities

def memoryWords : List String := ["memory", "session", "history"]

def eventWords : List String := ["event", "stream", "callback", "webhook", "trigger"]

/-- Some text of the graph holds one of the words. -/
def mentions (g : Graph) (ws : List String) : Bool :=
  g.nodes.any fun n => n.texts.any fun t =>
    let low := Text.lowered t.toList
    ws.any fun w => Text.contains w low

/-- The capabilities that a graph asks for. -/
def ofGraph (g : Graph) : Capabilities where
  protocol := g.hasProtocol
  memory := mentions g memoryWords
  events := mentions g eventWords

/-- How many of the capabilities are asked for. -/
def count (c : Capabilities) : Nat := c.protocol.toNat + c.memory.toNat + c.events.toNat

end Capabilities

end AgentFlow
