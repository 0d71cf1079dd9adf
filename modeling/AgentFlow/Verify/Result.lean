import AgentFlow.Finding

/-!
# Results of a verification
-/

namespace AgentFlow

/-- Where the repairs of a result come from. -/
inductive Method where
  | pattern
  | model
  | hybrid
  deriving DecidableEq, Repr

namespace Method

def all : List Method := [.pattern, .model, .hybrid]

/-- The stored name. -/
def name : Method → String
  | .pattern => "pattern"
  | .model => "ai"
  | .hybrid => "hybrid"

/-- The name in reports. -/
def title : Method → String
  | .pattern => "Pattern"
  | .model => "Ai"
  | .hybrid => "Hybrid"

def ofName? (s : String) : Option Method := all.find? fun m => m.name == s

end Method

/-- Facts about a verification. -/
structure Metadata where
  fixesApplied : Nat
  /-- How long it took, in milliseconds. -/
  timeMs : Nat := 0
  method : Method
  /-- Confidence in the result, in percent. -/
  confidence : Nat
  /-- How often a repairer was asked. -/
  attempts : Nat
  deriving DecidableEq, Repr

/-- What a verification comes to. -/
structure VerificationResult where
  isValid : Bool
  findings : List Finding
  /-- The code after repairs, if there were any. -/
  fixedCode : Option String := none
  suggestions : List String
  metadata : Metadata
  /-- The code as given. -/
  givenCode : String := ""
  deriving DecidableEq, Repr

namespace Metadata

def toJson (m : Metadata) : Json :=
  .obj [("fixesApplied", .nat m.fixesApplied), ("verificationTimeMs", .nat m.timeMs),
    ("verificationMethod", .str m.method.name), ("confidence", .nat m.confidence), ("aiAttempts", .nat m.attempts)]

def ofFields? (fs : Json.Fields) : Option Metadata := do
  let fixesApplied ← fs.get 0 ["fixesApplied"] .refused (Json.unsigned? 64)
  let timeMs ← fs.get 1 ["verificationTimeMs"] .refused (Json.unsigned? 64)
  let method ← fs.get 2 ["verificationMethod"] .refused (Json.word? Method.ofName?)
  let confidence ← fs.get 3 ["confidence"] .refused (Json.unsigned? 8)
  let attempts ← fs.get 4 ["aiAttempts"] .refused (Json.unsigned? 32)
  some ⟨fixesApplied, timeMs, method, confidence, attempts⟩

def ofJson? (v : Json) : Option Metadata := (v.fields? 5).bind ofFields?

end Metadata

namespace VerificationResult

/-- The best code there is. -/
def code (r : VerificationResult) : String := r.fixedCode.getD r.givenCode

/-- The findings that keep the code from being valid. -/
def blocking (r : VerificationResult) : List Finding := r.findings.filter (·.isBlocking)

def toJson (r : VerificationResult) : Json :=
  .obj ([("isValid", .bool r.isValid), ("errors", .arr (r.findings.map Finding.toJson))]
    ++ Json.member? "fixedCode" .str r.fixedCode
    ++ [("suggestions", .strs r.suggestions), ("metadata", r.metadata.toJson)])

def ofFields? (fs : Json.Fields) : Option VerificationResult := do
  let isValid ← fs.get 0 ["isValid"] .refused Json.bool?
  let findings ← fs.get 1 ["errors"] .refused (Json.list? Finding.ofJson?)
  let fixedCode ← fs.optText 2 ["fixedCode"] (.byName none)
  let suggestions ← fs.get 3 ["suggestions"] .refused (Json.list? Json.str?)
  let metadata ← fs.get 4 ["metadata"] .refused Metadata.ofJson?
  some { isValid, findings, fixedCode, suggestions, metadata }

def ofJson? (v : Json) : Option VerificationResult := (v.fields? 5).bind ofFields?

end VerificationResult

end AgentFlow
