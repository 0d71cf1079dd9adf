import AgentFlow.Service.Backoff
import AgentFlow.Service.Http
import AgentFlow.Service.Limiter
import AgentFlow.TextMap

/-!
# Running an agent remotely

The execution service takes the files of a package, runs them and reports. A submission that fails for a passing
reason is repeated after a wait, up to a number of attempts; every submission goes through a limiter.
-/

namespace AgentFlow

/-- How the execution service is used. -/
structure ExecutionConfig where
  endpoint : String := "http://localhost:8080/execute"
  timeoutSecs : Nat := 120
  /-- Submissions of one run, the first one included. -/
  maxAttempts : Nat := 3
  backoff : Backoff := {}

namespace ExecutionConfig

def timeoutMs (c : ExecutionConfig) : Nat := 1000 * c.timeoutSecs

/-- Equal as far as their numbers are. -/
def same (a b : ExecutionConfig) : Bool :=
  a.endpoint == b.endpoint && a.timeoutSecs == b.timeoutSecs && a.maxAttempts == b.maxAttempts
    && a.backoff.same b.backoff

def toJson (c : ExecutionConfig) : Json :=
  .obj [("endpoint", .str c.endpoint), ("timeoutSecs", .nat c.timeoutSecs), ("maxAttempts", .nat c.maxAttempts),
    ("backoff", c.backoff.toJson)]

def ofFields? (fs : Json.Fields) : Option ExecutionConfig := do
  let d : ExecutionConfig := {}
  let endpoint ← fs.get 0 ["endpoint"] (.default d.endpoint) Json.str?
  let timeoutSecs ← fs.get 1 ["timeoutSecs"] (.default d.timeoutSecs) (Json.unsigned? 64)
  let maxAttempts ← fs.get 2 ["maxAttempts"] (.default d.maxAttempts) (Json.unsigned? 32)
  let backoff ← fs.get 3 ["backoff"] (.default d.backoff) Backoff.ofJson?
  some ⟨endpoint, timeoutSecs, maxAttempts, backoff⟩

def ofJson? (v : Json) : Option ExecutionConfig := (v.fields? 4).bind ofFields?

end ExecutionConfig

/-- How a run ended. -/
structure ExecutionDetails where
  status : String
  exitCode : Int
  deriving DecidableEq, Repr

/-- What the service reports about a run. -/
structure ExecutionReport where
  output : String := ""
  error : Option String := none
  details : ExecutionDetails
  memoryUsage : Option Float := none
  openUrl : Option String := none

namespace ExecutionDetails

def toJson (d : ExecutionDetails) : Json := .obj [("status", .str d.status), ("exitCode", .int d.exitCode)]

def ofFields? (fs : Json.Fields) : Option ExecutionDetails := do
  let status ← fs.get 0 ["status"] .refused Json.str?
  let exitCode ← fs.get 1 ["exitCode"] .refused (Json.signed? 32)
  some ⟨status, exitCode⟩

def ofJson? (v : Json) : Option ExecutionDetails := (v.fields? 2).bind ofFields?

end ExecutionDetails

namespace ExecutionReport

/-- The run went well. -/
def succeeded (r : ExecutionReport) : Bool := r.error.isNone && r.details.exitCode == 0

def toJson (r : ExecutionReport) : Json :=
  .obj ([("output", .str r.output)]
    ++ Json.member? "error" .str r.error
    ++ [("executionDetails", r.details.toJson)]
    ++ Json.member? "memoryUsage" .float r.memoryUsage
    ++ Json.member? "openUrl" .str r.openUrl)

def ofFields? (fs : Json.Fields) : Option ExecutionReport := do
  let output ← fs.get 0 ["output"] (.default "") Json.str?
  let error ← fs.get 1 ["error"] (.default none) (Json.optional? Json.str?)
  let details ← fs.get 2 ["executionDetails"] .refused ExecutionDetails.ofJson?
  let memoryUsage ← fs.get 3 ["memoryUsage"] (.default none) (Json.optional? Json.float?)
  let openUrl ← fs.get 4 ["openUrl"] (.default none) (Json.optional? Json.str?)
  some ⟨output, error, details, memoryUsage, openUrl⟩

def ofJson? (v : Json) : Option ExecutionReport := (v.fields? 5).bind ofFields?

/-- The report that a text holds. -/
def parse? (text : String) : Option ExecutionReport := (Json.parse? text).bind ofJson?

end ExecutionReport

namespace Execution

/-- The body of a submission. -/
def payload (files : TextMap) : Json := .obj [("files", files.toJson)]

/-- The report in what came back. -/
def read (c : ExecutionConfig) : Exchange → Except ServiceError ExecutionReport
  | .answer status body retryAfter complaint =>
    let text := Http.bodyText body
    if Http.isSuccess status then
      match ExecutionReport.parse? text with
      | none => .error (.malformed complaint)
      | some r => .ok r
    else .error (.ofExecutionStatus status text (Http.retryAfter? retryAfter))
  | .dropped reason => .error (.network reason)
  | .hung => .error (.timeout c.timeoutMs)

/-- What comes back from a submission, and whether the run was cancelled meanwhile: while the service is silent, or
after its answer and before the next submission. -/
structure Submission where
  exchange : Exchange
  cancels : Bool := false
  deriving DecidableEq, Repr

/-- The outside world of a run; the transport has states of type `τ`. -/
structure Surroundings (τ : Type) where
  bounds : LimiterConfig := {}
  transport : τ → HttpRequest → Submission × τ
  /-- The run is cancelled from the start. -/
  cancelled : Bool := false
  /-- The run is cancelled while it waits after submission `n`, counted from 0. -/
  cancelsWait : Nat → Bool := fun _ => false
  /-- The times of submission `n`, counted from 0: when it starts and when it ends. -/
  startedAt : Nat → Nat := fun _ => 0
  endedAt : Nat → Nat := fun _ => 0
  /-- The random draw for the wait after submission `n`. -/
  draw : Nat → Float := fun _ => 0.0

/-- The state of a run. -/
structure State (τ : Type) where
  limiter : Limiter := {}
  transport : τ
  /-- How the submissions ended, in order. -/
  outcomes : List (Except ServiceError ExecutionReport) := []
  /-- The waits between them, in milliseconds. -/
  waits : List Nat := []

variable {τ : Type}

/-- How a submission ends: a silence that cancelling breaks ends as cancelled. -/
def outcome (c : ExecutionConfig) (s : Submission) : Except ServiceError ExecutionReport :=
  match s.exchange with
  | .hung => if s.cancels then .error .cancelled else read c .hung
  | e => read c e

/-- Submission number `n`, if the limiter lets it through: how it ends, and whether the run was cancelled. -/
def submitOnce (c : ExecutionConfig) (world : Surroundings τ) (files : TextMap) (n : Nat) (s : State τ) :
    Option (Except ServiceError ExecutionReport × Bool × State τ) :=
  (s.limiter.start? world.bounds (world.startedAt n)).map fun started =>
    let (submission, t) := world.transport s.transport ⟨c.endpoint, none, payload files⟩
    let result := outcome c submission
    (result, submission.cancels,
      { s with
        limiter := started.2.complete world.bounds (world.endedAt n) result
        transport := t
        outcomes := s.outcomes ++ [result] })

/-- Submission number `n` and the ones after it, `left` more at most. -/
def submit (c : ExecutionConfig) (world : Surroundings τ) (files : TextMap) (left n : Nat) (s : State τ) :
    Except ServiceError ExecutionReport × State τ :=
  match submitOnce c world files n s with
  | none => (.error .circuitOpen, s)
  | some (.ok r, _, s) => (.ok r, s)
  | some (.error e, cancelled, s) =>
    match left with
    | 0 => (.error e, s)
    | left + 1 =>
      if e.isRetryable then
        if cancelled || world.cancelsWait n then (.error .cancelled, s)
        else
          let wait := c.backoff.wait n e.hint (world.draw n)
          submit c world files left (n + 1) { s with waits := s.waits ++ [wait] }
      else (.error e, s)

/-- Runs a package: the report or the failure, and the state that all came to. -/
def run (c : ExecutionConfig) (world : Surroundings τ) (files : TextMap) (s : State τ) :
    Except ServiceError ExecutionReport × State τ :=
  if world.cancelled then (.error .cancelled, s) else submit c world files (c.maxAttempts - 1) 0 s

end Execution

end AgentFlow
