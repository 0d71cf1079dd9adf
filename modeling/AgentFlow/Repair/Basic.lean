import AgentFlow.Check.Detect
import AgentFlow.Json.Parser
import AgentFlow.Service.Error
import AgentFlow.Source

/-!
# Asking for repairs

What a repairer is asked and what it answers. A language model is asked in words and answers in words: `prompt` puts
the question, and `RepairResponse.parse` reads the answer, a JSON object with the code or else the bare code.
-/

namespace AgentFlow

/-- One question to a repairer. -/
structure RepairRequest where
  code : String
  /-- The findings to repair. -/
  findings : List Finding
  /-- The number of the attempt, counted from 1. -/
  attempt : Nat
  deriving DecidableEq, Repr

/-- The answer of a repairer. -/
structure RepairResponse where
  code : String
  /-- Its own confidence, in percent. -/
  confidence : Option Nat := none
  explanation : Option String := none
  deriving DecidableEq, Repr

namespace RepairRequest

def toJson (r : RepairRequest) : Json :=
  .obj [("code", .str r.code), ("errors", .arr (r.findings.map Finding.toJson)), ("attempt", .nat r.attempt)]

/-- A finding in the question. -/
def findingLine (f : Finding) : String :=
  "- [" ++ f.category.name ++ "/" ++ f.severity.title ++ "] " ++ f.message
    ++ (match f.line with
        | none => ""
        | some l => " (line " ++ toString l ++ ")")
    ++ "\n"

/-- The question in words. -/
def prompt (r : RepairRequest) : String :=
  "Problems found:\n" ++ String.join (r.findings.map findingLine)
    ++ (if 1 < r.attempt then
          "\nThis is attempt " ++ toString r.attempt ++ ". The previous fix was not good enough.\n"
        else "")
    ++ "\nCode:\n" ++ r.code

end RepairRequest

namespace RepairResponse

/-- The part from the first opening brace to the last closing one after it; empty if there is none. -/
def braced (cs : List Char) : List Char :=
  ((cs.dropWhile (· != '\x7b')).reverse.dropWhile (· != '\x7d')).reverse

/-- A confidence in percent, cut to the range and rounded, halves up. -/
def percent (f : Float) : Nat :=
  let f := if f < 0.0 then 0.0 else if 100.0 < f then 100.0 else f
  let whole := f.toUInt8
  if 0.5 ≤ f - whole.toFloat then whole.toNat + 1 else whole.toNat

/-- The answer that an object with a text `code` gives. -/
def ofJson? (v : Json) : Option RepairResponse :=
  ((v.get? "code").bind Json.str?).map fun code =>
    { code := Source.clean code
      confidence := ((v.get? "confidence").bind Json.float?).map percent
      explanation := (v.get? "explanation").bind Json.str? }

/-- The answer in a text: a JSON object, or else the bare code. -/
def parse (text : String) : Except ServiceError RepairResponse :=
  let trimmed := Text.trim text.toList
  match (Json.load? (String.ofList (braced trimmed))).bind ofJson? with
  | some r => .ok r
  | none =>
    let code := Source.clean (String.ofList trimmed)
    if code = "" then .error (.malformed "Reply contained no code") else .ok { code := code }

end RepairResponse

end AgentFlow
