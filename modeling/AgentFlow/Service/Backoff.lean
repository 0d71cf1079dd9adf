import AgentFlow.Json.Double
import AgentFlow.Json.Fields

/-!
# Waiting between calls

The wait before another call grows by a factor each time, up to a bound, with up to a tenth more at random. It is
never shorter than what the service asks for, and a wait of any length is over after thirty years.
-/

namespace AgentFlow

/-- How long to wait. -/
structure Backoff where
  baseMs : Nat := 500
  maxMs : Nat := 8000
  multiplier : Float := 2.0
  /-- Waits up to a tenth longer, at random. -/
  jitter : Bool := true

namespace Backoff

/-- `r * a ^ n` by repeated squaring, for `n` of at most as many bits as there are steps. -/
def powerFrom : Nat → Float → Float → Nat → Float
  | 0, r, _, _ => r
  | steps + 1, r, a, n =>
    let r := if n % 2 = 1 then r * a else r
    if n / 2 = 0 then r else powerFrom steps r (a * a) (n / 2)

/-- `a ^ n`. -/
def power (a : Float) (n : Nat) : Float := powerFrom (n.log2 + 1) 1.0 a n

/-- The wait before retry `attempt`, counted from 0; `draw` is a random number from 0 to 1. -/
def delay (b : Backoff) (attempt : Nat) (draw : Float) : Nat :=
  let ms := Float.ofNat b.baseMs * power b.multiplier (min attempt (Nat.pow 2 31 - 1))
  let ms := if b.jitter then ms + draw * ms * 0.1 else ms
  min ms.toUInt64.toNat b.maxMs

/-- The wait before retry `attempt` when the service asks for `hint`. -/
def delayWithHint (b : Backoff) (attempt : Nat) (hint : Option Nat) (draw : Float) : Nat :=
  match hint with
  | none => b.delay attempt draw
  | some h => max h (b.delay attempt draw)

/-- The longest time that a wait takes, in milliseconds: thirty years of 365 days. -/
def longestWait : Nat := 30 * 365 * 24 * 60 * 60 * 1000

/-- The time that the wait before retry `attempt` takes when the service asks for `hint`. -/
def wait (b : Backoff) (attempt : Nat) (hint : Option Nat) (draw : Float) : Nat :=
  min (b.delayWithHint attempt hint draw) longestWait

/-- Equal as far as their numbers are. -/
def same (a b : Backoff) : Bool :=
  a.baseMs == b.baseMs && a.maxMs == b.maxMs && a.multiplier == b.multiplier && a.jitter == b.jitter

def toJson (b : Backoff) : Json :=
  .obj [("baseMs", .nat b.baseMs), ("maxMs", .nat b.maxMs), ("multiplier", .float b.multiplier),
    ("jitter", .bool b.jitter)]

def ofFields? (fs : Json.Fields) : Option Backoff := do
  let d : Backoff := {}
  let baseMs ← fs.get 0 ["baseMs"] (.default d.baseMs) (Json.unsigned? 64)
  let maxMs ← fs.get 1 ["maxMs"] (.default d.maxMs) (Json.unsigned? 64)
  let multiplier ← fs.get 2 ["multiplier"] (.default d.multiplier) Json.float?
  let jitter ← fs.get 3 ["jitter"] (.default d.jitter) Json.bool?
  some ⟨baseMs, maxMs, multiplier, jitter⟩

def ofJson? (v : Json) : Option Backoff := (v.fields? 4).bind ofFields?

end Backoff

end AgentFlow
