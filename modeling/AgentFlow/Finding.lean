import AgentFlow.Json.Fields
import AgentFlow.Graph.Codec

/-!
# Findings

A finding is a problem that a check reports about a piece of code. Two findings with the same id and message are the
same problem, wherever it stands.
-/

namespace AgentFlow

/-- What a finding is about. -/
inductive Category where
  /-- The form of the code: brackets, colons, indentation, imports. -/
  | form
  /-- Tool servers. -/
  | protocol
  /-- Event loops. -/
  | events
  /-- Conversation memory. -/
  | memory
  | security
  /-- The verification itself. -/
  | other
  deriving DecidableEq, Repr

namespace Category

def all : List Category := [.form, .protocol, .events, .memory, .security, .other]

def name : Category → String
  | .form => "syntax"
  | .protocol => "protocol"
  | .events => "event-handling"
  | .memory => "memory"
  | .security => "security"
  | .other => "other"

def ofName? (s : String) : Option Category := all.find? fun c => c.name == s

end Category

/-- How serious a finding is. -/
inductive Severity where
  | info
  | warning
  | error
  deriving DecidableEq, Repr

namespace Severity

def all : List Severity := [.info, .warning, .error]

/-- The stored name. -/
def name : Severity → String
  | .info => "info"
  | .warning => "warning"
  | .error => "error"

/-- The name in messages. -/
def title : Severity → String
  | .info => "Info"
  | .warning => "Warning"
  | .error => "Error"

def ofName? (s : String) : Option Severity := all.find? fun c => c.name == s

end Severity

/-- A problem in a piece of code. -/
structure Finding where
  id : String
  category : Category
  severity : Severity
  message : String
  /-- The line where it shows, counted from 1. -/
  line : Option Nat := none
  /-- A repair may be tried. -/
  fixable : Bool := false
  fixed : Bool := false
  fixDescription : Option String := none
  /-- Confidence in the repair, in percent. -/
  confidence : Option Nat := none
  deriving DecidableEq, Repr

namespace Finding

/-- What tells problems apart. -/
def signature (f : Finding) : String × String := (f.id, f.message)

/-- The finding marked as repaired. -/
def markFixed (f : Finding) (description : String) (confidence : Option Nat) : Finding :=
  { f with fixed := true, fixDescription := some description, confidence := confidence }

/-- The problem is still there and keeps the code from being valid. -/
def isBlocking (f : Finding) : Bool := !f.fixed && f.severity == .error

def toJson (f : Finding) : Json :=
  .obj ([("id", .str f.id), ("category", .str f.category.name), ("severity", .str f.severity.name),
      ("message", .str f.message)]
    ++ Json.member? "line" .nat f.line
    ++ [("autoFixable", .bool f.fixable), ("fixed", .bool f.fixed)]
    ++ Json.member? "fixDescription" .str f.fixDescription
    ++ Json.member? "confidenceScore" .nat f.confidence)

def ofFields? (fs : Json.Fields) : Option Finding := do
  let id ← fs.get 0 ["id"] .refused Json.str?
  let category ← fs.get 1 ["category"] .refused (Json.word? Category.ofName?)
  let severity ← fs.get 2 ["severity"] .refused (Json.word? Severity.ofName?)
  let message ← fs.get 3 ["message"] .refused Json.str?
  let line ← fs.get 4 ["line"] (.byName none) (Json.optional? (Json.unsigned? 64))
  let fixable ← fs.get 5 ["autoFixable"] .refused Json.bool?
  let fixed ← fs.get 6 ["fixed"] .refused Json.bool?
  let fixDescription ← fs.optText 7 ["fixDescription"] (.byName none)
  let confidence ← fs.get 8 ["confidenceScore"] (.byName none) (Json.optional? (Json.unsigned? 8))
  some ⟨id, category, severity, message, line, fixable, fixed, fixDescription, confidence⟩

def ofJson? (v : Json) : Option Finding := (v.fields? 9).bind ofFields?

end Finding

end AgentFlow
