import AgentFlow.PatternFix
import AgentFlow.Repair.Basic
import AgentFlow.Verify.Options
import AgentFlow.Verify.Result

/-!
# Verifying and repairing code

A verification detects problems, lets a repairer work on those that may be repaired, checks each answer and adopts
it if it helps, repairs the rest by pattern and reports what is left. It always comes to a result: if a repairer or a
listener breaks down, the result says so and carries the code as given.

The outside world is a `Surroundings`: a repairer with a state of its own, whose every answer also says whether the
verification was cancelled meanwhile; a listener that is told of the progress; random draws for the waits.
-/

namespace AgentFlow

/-! ### The outside world -/

/-- How a repair call ends. -/
inductive Outcome where
  | answered (r : RepairResponse)
  | failed (e : ServiceError)
  /-- The repairer breaks down. -/
  | broke (message : String)
  /-- No answer comes before the verification is cancelled. -/
  | hung
  deriving DecidableEq, Repr

/-- How a repair call ends, and whether the verification was cancelled by then. -/
structure Reply where
  outcome : Outcome
  cancels : Bool := false
  deriving DecidableEq, Repr

/-- What stage a verification is in. -/
inductive Stage where
  | detecting
  | fixing
  | patternFixing
  | done
  deriving DecidableEq, Repr

namespace Stage

def name : Stage → String
  | .detecting => "detecting"
  | .fixing => "fixing"
  | .patternFixing => "pattern-fixing"
  | .done => "done"

/-- The name in the report of a breakdown. -/
def word : Stage → String
  | .patternFixing => "patternfixing"
  | s => s.name

end Stage

/-- A report to the listener. -/
structure Progress where
  stage : Stage
  percent : Nat
  message : String
  deriving DecidableEq, Repr

/-- The outside world of a verification; the repairer has states of type `σ`. -/
structure Surroundings (σ : Type) where
  /-- Answers a repair request. -/
  repairer : Option (σ → RepairRequest → Reply × σ) := none
  /-- The verification is cancelled from the start. -/
  cancelled : Bool := false
  /-- The message with which the listener breaks down at a report, counted from 1. -/
  listener : Nat → Option String := fun _ => none
  /-- The random draw for a wait, counted from 0. -/
  draw : Nat → Float := fun _ => 0.0

/-! ### Judging repairs -/

/-- What each error that a repair introduces costs, in percent. -/
def introducedPenalty : Nat := 15

/-- Confidence in a repair, in percent: the share of the findings that it resolves, less a penalty for each error that
it introduces, and at most what the repairer itself reports. -/
def repairConfidence (resolved targeted introduced : Nat) (reported : Option Nat) : Nat :=
  if targeted = 0 then 0
  else
    let score := min (100 * resolved / targeted - introducedPenalty * introduced) 100
    match reported with
    | none => score
    | some r => min score (min r 100)

/-- The finding is among `others`, up to its place. -/
def Finding.among (f : Finding) (others : List Finding) : Bool := others.any fun g => g.signature == f.signature

/-- How many errors of `after` are not among `before`. -/
def introducedErrors (before after : List Finding) : Nat :=
  (after.filter fun f => f.severity == .error && !f.among before).length

/-! ### The state of a verification -/

/-- The state of a verification. -/
structure Run (σ : Type) where
  code : String
  findings : List Finding
  modelFixes : Nat := 0
  patternFixes : Nat := 0
  modelConfidence : Option Nat := none
  suggestions : List String := []
  /-- How the last repair call failed, if it did. -/
  failure : Option ServiceError := none
  /-- The state of the repairer. -/
  repairer : σ
  cancelled : Bool
  /-- The reports so far. -/
  reports : List Progress := []
  /-- The repair requests so far, each with the time waited before it. -/
  requests : List (RepairRequest × Nat) := []
  /-- The time waited so far, in milliseconds. -/
  waited : Nat := 0
  /-- The number of waits so far. -/
  waits : Nat := 0

/-- A verification that something outside broke off. -/
structure Broken (σ : Type) where
  run : Run σ
  message : String

namespace Run

variable {σ : Type}

/-- The findings that are not repaired. -/
def openFindings (r : Run σ) : List Finding := r.findings.filter fun f => !f.fixed

/-- The findings that a repair may be tried for. -/
def targets (r : Run σ) : List Finding := r.findings.filter fun f => !f.fixed && f.fixable

/-- The percentage of the last report. -/
def percent (r : Run σ) : Nat := (r.reports.getLast?.map (·.percent)).getD 0

/-- The stage of the last report. -/
def stage (r : Run σ) : Stage := (r.reports.getLast?.map (·.stage)).getD .detecting

/-- Tells the listener. The percentage never falls. -/
def report (world : Surroundings σ) (r : Run σ) (stage : Stage) (percent : Nat) (message : String) :
    Except (Broken σ) (Run σ) :=
  let r := { r with reports := r.reports ++ [⟨stage, min (max percent r.percent) 100, message⟩] }
  match world.listener r.reports.length with
  | some m => .error ⟨r, m⟩
  | none => .ok r

/-- A finding that `found` does not list any more is repaired. -/
def settle (found : List Finding) (description : String) (confidence : Option Nat) (f : Finding) : Finding :=
  if !f.fixed && !f.among found then f.markFixed description confidence else f

/-- How many findings are repaired once only `found` is left. -/
def resolvedBy (r : Run σ) (found : List Finding) : Nat := (r.openFindings.filter fun f => !f.among found).length

/-- Adopts new code with the findings about it. -/
def adopt (r : Run σ) (code : String) (found : List Finding) (description : String) (confidence : Option Nat) :
    Run σ :=
  let settled := r.findings.map (settle found description confidence)
  let known := settled.filter fun f => !f.fixed
  { r with code := code, findings := settled ++ found.filter fun f => !f.among known }

/-! ### Repairs by a repairer -/

/-- What follows after a repair call. -/
inductive Next where
  /-- Another attempt, if there is one left. -/
  | again
  /-- No more attempts. -/
  | enough
  /-- The verification was cancelled. -/
  | cancel
  deriving DecidableEq, Repr

/-- Judges the code of an answer and adopts it if it helps enough. -/
def judge (o : VerifyOptions) (r : Run σ) (targeted : List Finding) (answer : RepairResponse) : Run σ :=
  let candidate := Source.clean answer.code
  if Text.blank candidate || Text.strip candidate == Text.strip r.code then r
  else
    let found := detectAll o.checks candidate
    let resolved := (targeted.filter fun f => !f.among found).length
    let introduced := introducedErrors r.openFindings found
    let confidence := repairConfidence resolved targeted.length introduced answer.confidence
    if confidence < o.requiredConfidence then r
    else
      { r.adopt candidate found "Repaired by language model" (some confidence) with
        modelFixes := r.modelFixes + r.resolvedBy found
        modelConfidence := some confidence }

/-- After a failed call: waits for another one, if there is one left and it is worth it. -/
def afterFailure (world : Surroundings σ) (o : VerifyOptions) (attempt : Nat) (r : Run σ) (e : ServiceError) :
    Next × Run σ :=
  let r := { r with failure := some e }
  if e.isRetryable && decide (attempt < o.maxAttempts) then
    if r.cancelled then (.cancel, r)
    else
      let wait := o.backoff.wait (attempt - 1) e.hint (world.draw r.waits)
      (.again, { r with waited := r.waited + wait, waits := r.waits + 1 })
  else (.enough, r)

/-- The percentage reported with an attempt; the product has 32 bits. -/
def attemptPercent (o : VerifyOptions) (attempt : Nat) : Nat :=
  10 + (60 * UInt32.ofNat attempt).toNat / max o.maxAttempts 1

/-- One attempt: asks the repairer about the open findings that may be repaired. -/
def attempt (world : Surroundings σ) (repair : σ → RepairRequest → Reply × σ) (o : VerifyOptions) (n : Nat)
    (r : Run σ) : Except (Broken σ) (Next × Run σ) := do
  let targeted := r.targets
  if targeted.isEmpty then return (.enough, r)
  if r.cancelled then return (.cancel, r)
  let percent := attemptPercent o n
  let r ← r.report world .fixing percent "Requesting model repair"
  let request : RepairRequest := ⟨r.code, targeted, n⟩
  let (reply, state) := repair r.repairer request
  let r := { r with
    requests := r.requests ++ [(request, r.waited)]
    repairer := state
    cancelled := r.cancelled || reply.cancels }
  match reply.outcome with
  | .hung => return (.cancel, r)
  | .broke m => .error ⟨r, m⟩
  | .failed e => return r.afterFailure world o n e
  | .answered answer =>
    let r ← { r with failure := none }.report world .detecting (percent + 5) "Checking model repair"
    return (.again, r.judge o targeted answer)

/-- The attempts from number `n` on, `left` of them; the answer says whether the verification was cancelled. -/
def attempts (world : Surroundings σ) (repair : σ → RepairRequest → Reply × σ) (o : VerifyOptions) :
    Nat → Nat → Run σ → Except (Broken σ) (Bool × Run σ)
  | 0, _, r => .ok (false, r)
  | left + 1, n, r =>
    match r.attempt world repair o n with
    | .error b => .error b
    | .ok (.enough, r) => .ok (false, r)
    | .ok (.cancel, r) => .ok (true, r)
    | .ok (.again, r) => attempts world repair o left (n + 1) r

/-- Notes that the repairer failed to the end. -/
def noteFailure (r : Run σ) : Run σ :=
  match r.failure with
  | none => r
  | some e =>
    { r with
      findings := r.findings ++
        [{ id := "repair-service-unavailable", category := .other, severity := .info,
           message := "Repair service failed: " ++ e.message }]
      suggestions := r.suggestions ++ [e.userMessage] }

/-- Lets the repairer work; the answer says whether the verification was cancelled. -/
def repairWithModel (world : Surroundings σ) (o : VerifyOptions) (r : Run σ) : Except (Broken σ) (Bool × Run σ) :=
  match world.repairer with
  | none => .ok (false, r)
  | some repair =>
    if !o.modelFixes || r.targets.isEmpty then .ok (false, r)
    else
      match attempts world repair o o.maxAttempts 1 r with
      | .error b => .error b
      | .ok (true, r) => .ok (true, r)
      | .ok (false, r) => .ok (false, r.noteFailure)

/-! ### Repairs by pattern -/

/-- Repairs by pattern, unless that introduces errors. -/
def repairWithPatterns (o : VerifyOptions) (r : Run σ) : Run σ :=
  let fix := PatternFix.apply r.code r.targets o.credential
  if fix.applied.isEmpty || fix.code == r.code then r
  else
    let found := detectAll o.checks fix.code
    if 0 < introducedErrors r.openFindings found then r
    else
      { r.adopt fix.code found ("; ".intercalate fix.applied) (some 100) with
        patternFixes := r.patternFixes + r.resolvedBy found }

/-! ### The result -/

/-- A cancelled verification forgets its repairs. -/
def forget (o : VerifyOptions) (given : String) (r : Run σ) : Run σ :=
  { r with
    code := given
    findings := detectAll o.checks given
    modelFixes := 0
    modelConfidence := none
    suggestions := r.suggestions ++ ["Verification was cancelled before repairs finished."] }

/-- What the user may do about a finding. -/
def suggestion? (f : Finding) : Option String :=
  let table : List (List String × String) :=
    [(["placeholder-credential"], "Configure a tool-server credential so the placeholder key can be replaced."),
     (["placeholder-package"], "Set a package reference on the protocol node."),
     (["hardcoded-secret", "hardcoded-openai-key"],
      "Load credentials from environment variables instead of source."),
     (["unbalanced-brackets", "missing-colon"], "Fix the syntax error before running the agent."),
     (["missing-import"], "Add the missing import statement."),
     (["toolset-not-closed"], "Close tool-server connections when the agent finishes."),
     (["unbounded-history"], "Cap the stored conversation history."),
     (["dynamic-eval", "shell-injection"], "Avoid executing dynamically built code or shell commands.")]
  (table.find? fun e => e.1.contains f.id).map (·.2)

/-- Where the repairs come from. -/
def method (r : Run σ) : Method :=
  if 0 < r.modelFixes then if 0 < r.patternFixes then .hybrid else .model else .pattern

/-- Confidence in code with these findings, in percent. -/
def baseline (findings : List Finding) : Nat :=
  let blocking := (findings.filter (·.isBlocking)).length
  let warnings := (findings.filter fun f => !f.fixed && f.severity == .warning).length
  100 - 20 * blocking - 5 * warnings

/-- The result of a verification of `given`. -/
def result (given : String) (r : Run σ) : VerificationResult where
  isValid := !r.findings.any (·.isBlocking)
  findings := r.findings
  fixedCode := if r.code = given then none else some r.code
  suggestions := (r.suggestions ++ r.openFindings.filterMap suggestion?).eraseDups
  metadata :=
    { fixesApplied := r.modelFixes + r.patternFixes
      method := r.method
      confidence :=
        match r.modelConfidence with
        | none => baseline r.findings
        | some c => min c 100
      attempts := r.requests.length }
  givenCode := given

end Run

/-- The result of a verification that something outside broke off. -/
def Broken.result {σ : Type} (given : String) (b : Broken σ) : VerificationResult where
  isValid := false
  findings :=
    [{ id := "pipeline-failure", category := .other, severity := .error,
       message := "Verification stage '" ++ b.run.stage.word ++ "' panicked: " ++ b.message }]
  suggestions := ["Verification failed internally; review the code manually."]
  metadata := { fixesApplied := 0, method := .pattern, confidence := 0, attempts := 0 }
  givenCode := given

/-! ### The whole verification -/

section Verify

variable {σ : Type} (world : Surroundings σ) (o : VerifyOptions) (code : String) (state : σ)

/-- The verification, up to the last report. -/
def Run.steps : Except (Broken σ) (Run σ) := do
  let r : Run σ := { code := code, findings := [], repairer := state, cancelled := world.cancelled }
  let r ← r.report world .detecting 5 "Detecting problems"
  let r := { r with findings := detectAll o.checks code }
  let (cancelled, r) ← r.repairWithModel world o
  let r ←
    if cancelled then .ok (r.forget o code)
    else if o.patternFixes && !r.targets.isEmpty then
      (r.report world .patternFixing 80 "Applying pattern fixes").map (Run.repairWithPatterns o)
    else .ok r
  r.report world .done 100 "Verification finished"

/-- Verifies and repairs code: the result, and the state that all came to. -/
def verify : VerificationResult × Run σ :=
  match Run.steps world o code state with
  | .ok r => (r.result code, r)
  | .error b => (b.result code, b.run)

end Verify

end AgentFlow
