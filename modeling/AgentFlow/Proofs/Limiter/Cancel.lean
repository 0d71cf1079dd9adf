import AgentFlow.Execution
import AgentFlow.Proofs.Limiter.Trial

/-!
# Calls that are cancelled

A call that is cancelled tells nothing about the service, and neither does one whose permit is dropped. Dropping a
permit takes back what letting the call through did, and leaves the rest of the limiter alone. But a cancelled call is
ended like one that the service answered: its failures are forgotten and the circuit closes, also if the call was the
trial that an open circuit waited for. The two agree exactly if there was nothing to forget: no failure on record and a
closed circuit (`cancelled_neutral_iff`). Neither follows from the other. A closed circuit may have failures on record,
and since the count starts anew after the largest one, an open circuit may have none.
-/

namespace AgentFlow

namespace Traffic

variable {cfg : LimiterConfig}

/-! ### Two ways to end a call -/

/-- A call that is cancelled ends as its result says. -/
def Ending.cancelled : Ending := .complete (.error .cancelled)

/-- The limiter once call `i`, whose permit is `p`, was ended without interruption. -/
def limiterAfter (cfg : LimiterConfig) (s : Traffic) (i : Nat) (p : Permit) (e : Ending) : Limiter :=
  (runFrom cfg s (whole i p e)).limiter

/-- Without interruption a call ends by one operation of the limiter. -/
theorem limiterAfter_eq {s : Traffic} {i : Nat} {c : Call} (hi : s.calls[i]? = some c) (hstage : c.stage = .underWay)
    (e : Ending) : limiterAfter cfg s i c.permit e = e.apply cfg s.now c.permit s.limiter := by
  rw [limiterAfter, runFrom_whole hi hstage]

/-- Cancelling is recorded as a success. -/
theorem apply_cancelled (now : Nat) (p : Permit) (l : Limiter) :
    Ending.cancelled.apply cfg now p l = { l with active := l.active - 1, failures := 0, circuit := .closed } := rfl

/-- Dropping gives the slot back and opens a circuit that the call was to try. -/
theorem apply_drop (now : Nat) (p : Permit) (l : Limiter) :
    Ending.drop.apply cfg now p l =
      { l with
        active := l.active - 1
        circuit := if p.trial = true ∧ l.circuit = .halfOpen then .opened else l.circuit } := by
  simp [Ending.apply, Limiter.drop, Limiter.release]

theorem circuit_drop_eq_closed (now : Nat) (p : Permit) (l : Limiter) :
    (Ending.drop.apply cfg now p l).circuit = .closed ↔ l.circuit = .closed := by
  rw [apply_drop]
  by_cases htrial : p.trial = true ∧ l.circuit = .halfOpen
  · simp [htrial]
  · simp only [if_neg htrial]

/-! ### Cancelling beside dropping -/

/-- What cancelling a call does, beside dropping its permit. -/
structure CancelEffect (cfg : LimiterConfig) (s : Traffic) (i : Nat) (p : Permit) : Prop where
  /-- Either way the slot is given back, -/
  slot : (limiterAfter cfg s i p .cancelled).active + 1 = s.limiter.active ∧
    (limiterAfter cfg s i p .drop).active + 1 = s.limiter.active
  /-- and the time of the last failure stays. -/
  lastFailure : (limiterAfter cfg s i p .cancelled).lastFailure = s.limiter.lastFailure ∧
    (limiterAfter cfg s i p .drop).lastFailure = s.limiter.lastFailure
  /-- A dropped permit leaves the failures as they are and closes no circuit. -/
  dropped : (limiterAfter cfg s i p .drop).failures = s.limiter.failures ∧
    ((limiterAfter cfg s i p .drop).circuit = .closed ↔ s.limiter.circuit = .closed)
  /-- A cancelled call leaves no failure on record and the circuit closed, whatever they were. -/
  cancelled : (limiterAfter cfg s i p .cancelled).failures = 0 ∧ (limiterAfter cfg s i p .cancelled).circuit = .closed
  /-- So the two agree exactly if there was nothing to forget. -/
  neutral : limiterAfter cfg s i p .cancelled = limiterAfter cfg s i p .drop ↔
    s.limiter.failures = 0 ∧ s.limiter.circuit = .closed

/-- What cancelling does holds of every call under way, after any run. -/
theorem cancelEffect_run (cfg : LimiterConfig) (ms : List Move) {i : Nat} {c : Call}
    (hi : (run cfg ms).calls[i]? = some c) (hstage : c.stage = .underWay) :
    (run cfg ms).CancelEffect cfg i c.permit := by
  have hc : c ∈ (run cfg ms).calls := List.mem_of_getElem? hi
  have hslot : c.holdsSlot = true := by
    simp [Call.holdsSlot, (sound_run cfg ms c hc).releases_underWay hstage]
  -- a call under way holds a slot, so the one that is given back was counted
  have hback : (run cfg ms).limiter.active - 1 + 1 = (run cfg ms).limiter.active := by
    have hpos := (accounted_run cfg ms).active_pos hc hslot
    omega
  have hcancelled : limiterAfter cfg (run cfg ms) i c.permit .cancelled = _ := limiterAfter_eq hi hstage .cancelled
  have hdrop : limiterAfter cfg (run cfg ms) i c.permit .drop = _ := limiterAfter_eq hi hstage .drop
  have hclosed : (limiterAfter cfg (run cfg ms) i c.permit .drop).circuit = .closed ↔
      (run cfg ms).limiter.circuit = .closed := by
    rw [hdrop]
    exact circuit_drop_eq_closed _ _ _
  rw [apply_cancelled] at hcancelled
  rw [apply_drop] at hdrop
  refine ⟨?_, ?_, ?_, ?_, ?_⟩
  · rw [hcancelled, hdrop]
    exact ⟨hback, hback⟩
  · rw [hcancelled, hdrop]
    exact ⟨rfl, rfl⟩
  · exact ⟨by rw [hdrop], hclosed⟩
  · rw [hcancelled]
    exact ⟨rfl, rfl⟩
  · constructor
    · intro hsame
      refine ⟨?_, hclosed.mp ?_⟩
      · rw [hcancelled, hdrop] at hsame
        exact (congrArg Limiter.failures hsame).symm
      · rw [← hsame, hcancelled]
    · rintro ⟨hnone, hcircuit⟩
      rw [hcancelled, hdrop]
      simp [hcircuit, hnone]

/-- A limiter with a slot comes to hold a failure on record while a call is under way. -/
theorem exists_failure_on_record (hslot : 1 ≤ cfg.maxConcurrent) : ∃ t c, Leads cfg {} t ∧ t.calls[1]? = some c ∧
    c.stage = .underWay ∧ t.limiter.failures = 1 := by
  have hfree : (0 : Nat) < cfg.maxConcurrent := hslot
  have hfailed : Leads cfg {} _ := leads_failed rfl hfree
  -- the failure opens the circuit, so a trial follows, or it does not and another call does
  by_cases hopens : cfg.maxFailures ≤ ({} : Traffic).limiter.failures + 1
  · rw [if_pos hopens] at hfailed
    have htrial : Leads cfg
        { limiter := ⟨0, 1, .opened, some 0⟩, calls := [ordinary.ended .fail] } _ := leads_trial rfl rfl hfree
    exact ⟨_, trial, hfailed.trans htrial, rfl, rfl, rfl⟩
  · rw [if_neg hopens] at hfailed
    have hnext : Leads cfg
        { limiter := ⟨0, 1, .closed, some 0⟩, calls := [ordinary.ended .fail] } _ := leads_ordinary rfl hfree
    exact ⟨_, ordinary, hfailed.trans hnext, rfl, rfl, rfl⟩

end Traffic

/-! ### A run of the execution service that is cancelled -/

namespace Execution

open Traffic

variable {τ : Type} {client : ExecutionConfig} {world : Surroundings τ} {files : TextMap} {s : State τ}

/-- Letting a call through and giving up its permit changes nothing. -/
theorem drop_start? {cfg : LimiterConfig} {now : Nat} {l l' : Limiter} {p : Permit}
    (h : l.start? cfg now = some (p, l')) : l'.drop p = l := by
  rcases (start?_cases h).2 with ⟨hclosed, htrial, rfl⟩ | ⟨hopened, -, htrial, rfl⟩
  · simp [Limiter.drop, Limiter.release, htrial]
  · simp [Limiter.drop, Limiter.release, htrial, ← hopened]

/-- The limiter, which becomes `l`, lets the first submission of a run through with permit `p`, and the run is cancelled
before the service answers. -/
structure CancelledInFlight (client : ExecutionConfig) (world : Surroundings τ) (files : TextMap) (s : State τ)
    (p : Permit) (l : Limiter) : Prop where
  live : world.cancelled = false
  started : s.limiter.start? world.bounds (world.startedAt 0) = some (p, l)
  silent : (world.transport s.transport ⟨client.endpoint, none, payload files⟩).1 = ⟨.hung, true⟩

/-- The run ends as cancelled, and the limiter as after a success. -/
theorem CancelledInFlight.run_eq {p : Permit} {l : Limiter} (h : CancelledInFlight client world files s p l) :
    (run client world files s).1 = .error .cancelled ∧
      (run client world files s).2.limiter = { s.limiter with failures := 0, circuit := .closed } := by
  have hone : submitOnce client world files 0 s = some (.error .cancelled, true,
      { s with
        limiter := l.complete world.bounds (world.endedAt 0) (.error .cancelled : Except ServiceError ExecutionReport)
        transport := (world.transport s.transport ⟨client.endpoint, none, payload files⟩).2
        outcomes := s.outcomes ++ [.error .cancelled] }) := by
    simp [submitOnce, h.started, h.silent, outcome]
  have hlimiter : l.complete world.bounds (world.endedAt 0) (.error .cancelled : Except ServiceError ExecutionReport) =
      { s.limiter with failures := 0, circuit := .closed } := by
    rcases (start?_cases h.started).2 with ⟨-, -, rfl⟩ | ⟨-, -, -, rfl⟩ <;> rfl
  unfold run
  rw [h.live, if_neg Bool.false_ne_true]
  -- a cancellation is not retried, so it makes no difference whether an attempt is left
  cases client.maxAttempts - 1 with
  | zero =>
    rw [submit, hone]
    exact ⟨rfl, hlimiter⟩
  | succ left =>
    rw [submit, hone]
    exact ⟨rfl, hlimiter⟩

end Execution

namespace Traffic

/-- **A cancelled call is neutral exactly if no failure is on record and the circuit is closed**, and every limiter with
a slot comes to a state where that is not so. A run of the execution service that is cancelled on its way has the effect
of a dropped permit under the same condition. -/
theorem cancelled_neutral_iff (cfg : LimiterConfig) :
    (∀ ms i c, (run cfg ms).calls[i]? = some c → c.stage = .underWay → (run cfg ms).CancelEffect cfg i c.permit) ∧
    ((∃ ms i c, (∀ m ∈ ms, m.isDirect = false) ∧ (run cfg ms).calls[i]? = some c ∧ c.stage = .underWay ∧
        limiterAfter cfg (run cfg ms) i c.permit .cancelled ≠ limiterAfter cfg (run cfg ms) i c.permit .drop) ↔
      1 ≤ cfg.maxConcurrent) ∧
    ∀ (τ : Type) (client : ExecutionConfig) (world : Execution.Surroundings τ) (files : TextMap)
      (s : Execution.State τ) (p : Permit) (l : Limiter), Execution.CancelledInFlight client world files s p l →
      (Execution.run client world files s).1 = .error .cancelled ∧
      ((Execution.run client world files s).2.limiter = l.drop p ↔
        s.limiter.failures = 0 ∧ s.limiter.circuit = .closed) := by
  refine ⟨fun ms i c hi hstage => cancelEffect_run cfg ms hi hstage, ⟨?_, ?_⟩, ?_⟩
  · rintro ⟨ms, i, c, -, hi, hstage, -⟩
    have hactive := (cancelEffect_run cfg ms hi hstage).slot.1
    have hle := (accounted_run cfg ms).active_le
    omega
  · intro hslot
    obtain ⟨t, c, ⟨ms, hms, rfl⟩, hi, hstage, hone⟩ := exists_failure_on_record hslot
    refine ⟨ms, 1, c, hms, hi, hstage, fun hsame => ?_⟩
    have hnone := ((cancelEffect_run cfg ms hi hstage).neutral.mp hsame).1
    exact absurd (hnone.symm.trans hone) (by decide)
  · intro τ client world files s p l hcancelled
    obtain ⟨hresult, hlimiter⟩ := hcancelled.run_eq
    refine ⟨hresult, ?_⟩
    rw [hlimiter, Execution.drop_start? hcancelled.started]
    constructor
    · intro hsame
      exact ⟨(congrArg Limiter.failures hsame).symm, (congrArg Limiter.circuit hsame).symm⟩
    · rintro ⟨hnone, hclosed⟩
      rw [← hnone, ← hclosed]

/-- A failure opens the circuit, and the trial that follows is under way. -/
def trialUnderWay : List Move := [.start] ++ whole 0 ⟨false⟩ .fail ++ [.start]

theorem cancelled_neutral_iff_trialUnderWay :
    (run ⟨1, 1, 0⟩ trialUnderWay).calls[1]? = some trial ∧ trial.stage = .underWay ∧
      (run ⟨1, 1, 0⟩ trialUnderWay).CancelEffect ⟨1, 1, 0⟩ 1 ⟨true⟩ := by
  have hi : (run ⟨1, 1, 0⟩ trialUnderWay).calls[1]? = some trial := by decide
  exact ⟨hi, rfl, (cancelled_neutral_iff ⟨1, 1, 0⟩).1 trialUnderWay 1 trial hi rfl⟩

/-- Cancelling the trial closes the circuit, although the service has not answered since it failed. -/
theorem cancelled_trial_closes :
    limiterAfter ⟨1, 1, 0⟩ (run ⟨1, 1, 0⟩ trialUnderWay) 1 ⟨true⟩ .cancelled = ⟨0, 0, .closed, some 0⟩ ∧
      limiterAfter ⟨1, 1, 0⟩ (run ⟨1, 1, 0⟩ trialUnderWay) 1 ⟨true⟩ .drop = ⟨0, 1, .opened, some 0⟩ := by
  decide

end Traffic

end AgentFlow
