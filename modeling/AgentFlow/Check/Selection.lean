import AgentFlow.Finding
import AgentFlow.Graph.Capability

/-!
# Which checks run

Every category but `other` can be switched off. A graph with more than one special capability switches off those it
does not ask for; form and security are always checked.
-/

namespace AgentFlow

/-- The categories that are checked. -/
structure Selection where
  form : Bool := true
  protocol : Bool := true
  events : Bool := true
  memory : Bool := true
  security : Bool := true
  deriving DecidableEq, Repr

namespace Selection

/-- The checks for a graph with these capabilities. -/
def ofCapabilities (c : Capabilities) : Selection :=
  if 1 < c.count then { protocol := c.protocol, events := c.events, memory := c.memory } else {}

def ofGraph (g : Graph) : Selection := ofCapabilities (.ofGraph g)

def enabled (s : Selection) : Category → Bool
  | .form => s.form
  | .protocol => s.protocol
  | .events => s.events
  | .memory => s.memory
  | .security => s.security
  | .other => true

/-- The stored names of the switches, in order. -/
def names : List String :=
  ["enableSyntaxChecks", "enableProtocolChecks", "enableEventHandlingChecks", "enableMemoryChecks",
   "enableSecurityChecks"]

def members (s : Selection) : List (String × Json) :=
  [("enableSyntaxChecks", .bool s.form), ("enableProtocolChecks", .bool s.protocol),
   ("enableEventHandlingChecks", .bool s.events), ("enableMemoryChecks", .bool s.memory),
   ("enableSecurityChecks", .bool s.security)]

def toJson (s : Selection) : Json := .obj s.members

def ofFields? (fs : Json.Fields) : Option Selection := do
  let form ← fs.get 0 ["enableSyntaxChecks"] (.default true) Json.bool?
  let protocol ← fs.get 1 ["enableProtocolChecks"] (.default true) Json.bool?
  let events ← fs.get 2 ["enableEventHandlingChecks"] (.default true) Json.bool?
  let memory ← fs.get 3 ["enableMemoryChecks"] (.default true) Json.bool?
  let security ← fs.get 4 ["enableSecurityChecks"] (.default true) Json.bool?
  some ⟨form, protocol, events, memory, security⟩

def ofJson? (v : Json) : Option Selection := (v.fields? 5).bind ofFields?

end Selection

end AgentFlow
