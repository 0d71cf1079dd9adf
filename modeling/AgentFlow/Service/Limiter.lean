import AgentFlow.Json.Fields
import AgentFlow.Service.Error

/-!
# Limiting calls

A limiter lets a bounded number of calls run at once and stops calling a service that keeps failing: after enough
failures in a row its circuit opens, and once the reset time has passed a single trial call decides whether it
closes again. The operations below are the atomic steps; time is a number of milliseconds that the caller gives.
Failures are counted in 32 bits: one more than the largest count is zero.
-/

namespace AgentFlow

/-- The bounds of a limiter. -/
structure LimiterConfig where
  maxConcurrent : Nat := 3
  maxFailures : UInt32 := 5
  /-- How long the circuit stays open, in milliseconds. -/
  resetMs : Nat := 60000
  deriving DecidableEq, Repr

namespace LimiterConfig

def toJson (c : LimiterConfig) : Json :=
  .obj [("maxConcurrent", .nat c.maxConcurrent), ("maxConsecutiveFailures", .nat c.maxFailures),
    ("circuitResetMs", .nat c.resetMs)]

def ofFields? (fs : Json.Fields) : Option LimiterConfig := do
  let d : LimiterConfig := {}
  let maxConcurrent ← fs.get 0 ["maxConcurrent"] (.default d.maxConcurrent) (Json.unsigned? 64)
  let maxFailures ← fs.get 1 ["maxConsecutiveFailures"] (.default d.maxFailures) Json.count?
  let resetMs ← fs.get 2 ["circuitResetMs"] (.default d.resetMs) (Json.unsigned? 64)
  some ⟨maxConcurrent, maxFailures, resetMs⟩

def ofJson? (v : Json) : Option LimiterConfig := (v.fields? 3).bind ofFields?

end LimiterConfig

/-- Whether calls go through. -/
inductive Circuit where
  | closed
  | opened
  /-- A trial call is on its way. -/
  | halfOpen
  deriving DecidableEq, Repr

def Circuit.name : Circuit → String
  | .closed => "closed"
  | .opened => "open"
  | .halfOpen => "half-open"

/-- What a limiter remembers. -/
structure Limiter where
  /-- Calls on their way. -/
  active : Nat := 0
  /-- Failures since the last success. -/
  failures : UInt32 := 0
  circuit : Circuit := .closed
  lastFailure : Option Nat := none
  deriving DecidableEq, Repr

/-- The right to make one call. -/
structure Permit where
  /-- The call decides about an open circuit. -/
  trial : Bool
  deriving DecidableEq, Repr

namespace Limiter

variable (cfg : LimiterConfig)

/-- The reset time has passed since the last failure. -/
def resetElapsed (now : Nat) (l : Limiter) : Bool :=
  match l.lastFailure with
  | none => true
  | some t => decide (t + cfg.resetMs ≤ now)

/-- A call would be let through. -/
def canStart (now : Nat) (l : Limiter) : Bool :=
  decide (l.active < cfg.maxConcurrent)
    && (match l.circuit with
        | .closed => true
        | .opened => l.resetElapsed cfg now
        | .halfOpen => false)

/-- Lets a call through, if that is possible. -/
def start? (now : Nat) (l : Limiter) : Option (Permit × Limiter) :=
  if l.canStart cfg now then
    let trial := l.circuit == .opened
    some (⟨trial⟩, { l with active := l.active + 1, circuit := if trial then .halfOpen else l.circuit })
  else none

/-- A call is over. If it was a trial that decided nothing, another one may follow. -/
def release (trial : Bool) (l : Limiter) : Limiter :=
  { l with
    active := l.active - 1
    circuit := if trial && l.circuit == .halfOpen then .opened else l.circuit }

/-- The service answered. -/
def recordSuccess (l : Limiter) : Limiter := { l with failures := 0, circuit := .closed }

/-- The service failed. -/
def recordFailure (now : Nat) (l : Limiter) : Limiter :=
  { l with
    failures := l.failures + 1
    lastFailure := some now
    circuit :=
      if l.circuit = .halfOpen ∨ cfg.maxFailures ≤ l.failures + 1 then .opened else l.circuit }

/-! ### Ends of a call -/

/-- A call ends well. -/
def succeed (l : Limiter) : Limiter := recordSuccess (release false l)

/-- A call fails. -/
def fail (now : Nat) (l : Limiter) : Limiter := release false (recordFailure cfg now l)

/-- A call is given up. -/
def drop (p : Permit) (l : Limiter) : Limiter := release p.trial l

/-- A call ends as `result` says. -/
def complete (now : Nat) (result : Except ServiceError α) (l : Limiter) : Limiter :=
  match result with
  | .ok _ => succeed l
  | .error e => if e.countsAsFailure then l.fail cfg now else succeed l

end Limiter

end AgentFlow
