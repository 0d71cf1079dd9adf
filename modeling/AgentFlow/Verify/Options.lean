import AgentFlow.Check.Selection
import AgentFlow.Service.Backoff

/-!
# Options of a verification

Which checks run, which repairs are tried and how often. A stored set of options is an object that also holds the
switches of the checks; values under other names must be loadable too, since they are read before they are known to
be strange.
-/

namespace AgentFlow

/-- Options of a verification. -/
structure VerifyOptions where
  checks : Selection := {}
  modelFixes : Bool := true
  patternFixes : Bool := true
  maxRetries : UInt32 := 2
  /-- The confidence, in percent, that a repair by a model needs. -/
  threshold : Nat := 70
  /-- What takes the place of placeholder credentials. -/
  credential : Option String := none
  backoff : Backoff := {}

namespace VerifyOptions

/-- The default options with the checks for a graph. -/
def ofGraph (g : Graph) : VerifyOptions := { checks := .ofGraph g }

/-- How many repairs are asked for at most. The sum has 32 bits, so the largest number of retries leaves no attempt. -/
def maxAttempts (o : VerifyOptions) : Nat := (1 + o.maxRetries).toNat

/-- The confidence that is asked for; never more than there can be. -/
def requiredConfidence (o : VerifyOptions) : Nat := min o.threshold 100

/-- Equal as far as their numbers are. -/
def same (a b : VerifyOptions) : Bool :=
  a.checks == b.checks && a.modelFixes == b.modelFixes && a.patternFixes == b.patternFixes
    && a.maxRetries == b.maxRetries && a.threshold == b.threshold && a.credential == b.credential
    && a.backoff.same b.backoff

def toJson (o : VerifyOptions) : Json :=
  .obj (o.checks.members
    ++ [("enableAIFixes", .bool o.modelFixes), ("enablePatternFixes", .bool o.patternFixes),
        ("maxAIRetries", .nat o.maxRetries), ("confidenceThreshold", .nat o.threshold)]
    ++ Json.member? "credential" .str o.credential
    ++ [("backoff", o.backoff.toJson)])

/-- The names of the options themselves. -/
def names : List String :=
  ["enableAIFixes", "enableAiFixes", "enablePatternFixes", "maxAIRetries", "maxAiRetries", "confidenceThreshold",
   "credential", "backoff"]

/-- The options of an object that may nest `depth` levels deep. -/
def ofJson? (depth : Nat) : Json → Option VerifyOptions
  | .obj members =>
    let fs := Json.Fields.named members
    let d : VerifyOptions := {}
    if (members.filter fun m => !names.contains m.1).all fun m => Json.loads (depth - 1) m.2 then do
      let checks ← Selection.ofFields? fs
      let modelFixes ← fs.get 0 ["enableAIFixes", "enableAiFixes"] (.default d.modelFixes) Json.bool?
      let patternFixes ← fs.get 0 ["enablePatternFixes"] (.default d.patternFixes) Json.bool?
      let maxRetries ← fs.get 0 ["maxAIRetries", "maxAiRetries"] (.default d.maxRetries) Json.count?
      let threshold ← fs.get 0 ["confidenceThreshold"] (.default d.threshold) (Json.unsigned? 8)
      let credential ← fs.get 0 ["credential"] (.default none) (Json.optional? Json.str?)
      let backoff ← fs.get 0 ["backoff"] (.default d.backoff) Backoff.ofJson?
      some ⟨checks, modelFixes, patternFixes, maxRetries, threshold, credential, backoff⟩
    else none
  | _ => none

end VerifyOptions

end AgentFlow
