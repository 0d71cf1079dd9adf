import AgentFlow.Execution
import AgentFlow.Proofs.Limiter.Traffic

/-!
# The course of a run

A run submits its package, and again after a wait as long as the failure may pass and attempts are left. Its course is
cut here in two: submissions that are repeated (`Retries`), each made under a permit that it gives back and followed by
a wait, and the way the run comes to its end (`Stops`). Every run has such a course (`submit_path`), whatever the
limiter was, whatever comes back from the service and wherever it is cancelled; how often it submits, what becomes of
the permits and what it returns are read off it (`run_course`).
-/

namespace AgentFlow

/-! ### Permits -/

/-- A permit takes a slot. -/
theorem Limiter.active_start? {cfg : LimiterConfig} {now : Nat} {l held : Limiter} {p : Permit}
    (h : l.start? cfg now = some (p, held)) : held.active = l.active + 1 := by
  rcases (Traffic.start?_cases h).2 with ⟨-, -, rfl⟩ | ⟨-, -, -, rfl⟩
  · rfl
  · rfl

/-- However a request ends, its slot is given back. -/
theorem Limiter.active_complete {α : Type} (cfg : LimiterConfig) (now : Nat) (result : Except ServiceError α)
    (l : Limiter) : (l.complete cfg now result).active = l.active - 1 := by
  cases result with
  | ok a => rfl
  | error e =>
    rw [Limiter.complete]
    split <;> rfl

namespace Execution

variable {τ : Type} (c : ExecutionConfig) (world : Surroundings τ) (files : TextMap)

/-! ### Outcomes -/

/-- The service itself neither cancels a run nor refuses a permit. -/
theorem read_error {c : ExecutionConfig} {x : Exchange} {e : ServiceError} (h : read c x = .error e) :
    e ≠ .cancelled ∧ e ≠ .circuitOpen := by
  cases x with
  | answer status body retryAfter complaint =>
    simp only [read] at h
    -- a status of success with a report or without one, and any other status
    split at h
    · split at h
      · obtain rfl := Except.error.inj h
        exact ⟨by simp, by simp⟩
      · exact absurd h (by simp)
    · obtain rfl := Except.error.inj h
      unfold ServiceError.ofExecutionStatus
      dsimp only
      split_ifs <;> exact ⟨by simp, by simp⟩
  | dropped reason =>
    obtain rfl := Except.error.inj h
    exact ⟨by simp, by simp⟩
  | hung =>
    obtain rfl := Except.error.inj h
    exact ⟨by simp, by simp⟩

/-- Cancelling while the service is silent ends a submission; otherwise the exchange decides. -/
theorem outcome_cases (c : ExecutionConfig) (x : Submission) :
    x.cancels = true ∧ outcome c x = .error .cancelled ∨ outcome c x = read c x.exchange := by
  obtain ⟨exchange, cancels⟩ := x
  cases exchange with
  | answer status body retryAfter => exact .inr rfl
  | dropped => exact .inr rfl
  | hung =>
    -- only here is there time to cancel
    cases cancels with
    | false => exact .inr rfl
    | true => exact .inl ⟨rfl, rfl⟩

variable {c} in
/-- A submission is reported as cancelled only if it was. -/
theorem cancels_of_outcome {x : Submission} (h : outcome c x = .error .cancelled) : x.cancels = true := by
  rcases outcome_cases c x with ⟨hcancels, -⟩ | hread
  · exact hcancels
  · exact absurd rfl (read_error (hread.symm.trans h)).1

theorem outcome_ne_circuitOpen (x : Submission) : outcome c x ≠ .error .circuitOpen := by
  intro h
  rcases outcome_cases c x with ⟨-, hcancelled⟩ | hread
  · exact absurd (hcancelled.symm.trans h) (by simp)
  · exact absurd rfl (read_error (hread.symm.trans h)).2

/-- How long the service asks to wait before a submission is repeated. -/
def hint (x : Submission) : Option Nat :=
  match outcome c x with
  | .error e => e.hint
  | .ok _ => none

/-! ### Submissions and stops -/

/-- The run is cancelled during submission `n`, which brings `x`, or before it is repeated. -/
def CancelsAt (n : Nat) (x : Submission) : Prop := x.cancels = true ∨ world.cancelsWait n = true

instance (n : Nat) (x : Submission) : Decidable (CancelsAt world n x) := inferInstanceAs (Decidable (_ ∨ _))

/-- Submission number `n` leads from `s` to `s'`, and `x` is what comes back from it. -/
structure Submits (n : Nat) (s : State τ) (x : Submission) (s' : State τ) : Prop where
  posted : world.transport s.transport ⟨c.endpoint, none, payload files⟩ = (x, s'.transport)
  /-- The limiter lets it through, and the permit is completed with the outcome, -/
  permit : ∃ p held, s.limiter.start? world.bounds (world.startedAt n) = some (p, held) ∧
    held.active = s.limiter.active + 1 ∧
    s'.limiter = held.complete world.bounds (world.endedAt n) (outcome c x)
  /-- which gives its slot back. -/
  released : s'.limiter.active = s.limiter.active
  outcomes : s'.outcomes = s.outcomes ++ [outcome c x]
  waits : s'.waits = s.waits

/-- The state after the wait that follows submission `n`, which failed with `e`. -/
def rested (n : Nat) (e : ServiceError) (s : State τ) : State τ :=
  { s with waits := s.waits ++ [c.backoff.wait n e.hint (world.draw n)] }

@[simp] theorem limiter_rested (n : Nat) (e : ServiceError) (s : State τ) :
    (rested c world n e s).limiter = s.limiter := rfl

@[simp] theorem transport_rested (n : Nat) (e : ServiceError) (s : State τ) :
    (rested c world n e s).transport = s.transport := rfl

@[simp] theorem outcomes_rested (n : Nat) (e : ServiceError) (s : State τ) :
    (rested c world n e s).outcomes = s.outcomes := rfl

@[simp] theorem waits_rested (n : Nat) (e : ServiceError) (s : State τ) :
    (rested c world n e s).waits = s.waits ++ [c.backoff.wait n e.hint (world.draw n)] := rfl

/-- The submissions from number `n` on that are repeated: each fails in a way that may pass, with the run not cancelled,
and is followed by a wait. -/
inductive Retries : Nat → State τ → List Submission → State τ → Prop
  | none (n : Nat) (s : State τ) : Retries n s [] s
  | again {n : Nat} {s s₁ s' : State τ} {x : Submission} {xs : List Submission} {e : ServiceError}
      (made : Submits c world files n s x s₁) (failed : outcome c x = .error e) (passing : e.isRetryable = true)
      (live : ¬CancelsAt world n x) (rest : Retries (n + 1) (rested c world n e s₁) xs s') : Retries n s (x :: xs) s'

/-- Submission `n` decides the run: it succeeds, it fails for good, or it is the last attempt. -/
def Settles (n : Nat) (x : Submission) : Prop :=
  ∀ e, outcome c x = .error e → e.isRetryable = true → n + 1 = max 1 c.maxAttempts

/-- How a run ends that has `n` submissions behind it: with which last submission, if any, and with which result. -/
inductive Stops : Nat → State τ → Option Submission → Except ServiceError ExecutionReport → State τ → Prop
  | cancelled (s : State τ) (before : world.cancelled = true) : Stops 0 s none (.error .cancelled) s
  | refused {n : Nat} {s : State τ} (shut : s.limiter.start? world.bounds (world.startedAt n) = none) :
      Stops n s none (.error .circuitOpen) s
  | settled {n : Nat} {s s' : State τ} {x : Submission} (made : Submits c world files n s x s')
      (settles : Settles c n x) : Stops n s (some x) (outcome c x) s'
  /-- The run is cancelled before the submission is repeated. -/
  | interrupted {n : Nat} {s s' : State τ} {x : Submission} {e : ServiceError} (made : Submits c world files n s x s')
      (failed : outcome c x = .error e) (passing : e.isRetryable = true) (left : n + 1 < max 1 c.maxAttempts)
      (cancels : CancelsAt world n x) : Stops n s (some x) (.error .cancelled) s'

/-! ### One submission -/

/-- A submission is refused by the limiter, or it is made. -/
theorem submitOnce_cases (n : Nat) (s : State τ) :
    s.limiter.start? world.bounds (world.startedAt n) = none ∧ submitOnce c world files n s = none ∨
      ∃ x s', Submits c world files n s x s' ∧ submitOnce c world files n s = some (outcome c x, x.cancels, s') := by
  cases hstart : s.limiter.start? world.bounds (world.startedAt n) with
  | none => exact .inl ⟨rfl, by simp [submitOnce, hstart]⟩
  | some started =>
    obtain ⟨p, held⟩ := started
    set sent := world.transport s.transport ⟨c.endpoint, none, payload files⟩ with hsent
    have hone : submitOnce c world files n s = some (outcome c sent.1, sent.1.cancels,
        { s with
          limiter := held.complete world.bounds (world.endedAt n) (outcome c sent.1)
          transport := sent.2
          outcomes := s.outcomes ++ [outcome c sent.1] }) := by
      rw [submitOnce, hstart]
      rfl
    have hheld : held.active = s.limiter.active + 1 := Limiter.active_start? hstart
    -- the slot that the permit took is the one that its completion gives back
    have hreleased : (held.complete world.bounds (world.endedAt n) (outcome c sent.1)).active = s.limiter.active := by
      rw [Limiter.active_complete, hheld]
      omega
    refine .inr ⟨sent.1, _, ?_, hone⟩
    exact ⟨hsent.symm, ⟨p, held, hstart, hheld, rfl⟩, hreleased, rfl, rfl⟩

variable {c world files}

/-! What `submit` makes of one submission, with `left` attempts after it. -/

section Submit

variable {left n : Nat} {s s₁ : State τ} {x : Submission} {e : ServiceError}

theorem submit_refused (h : submitOnce c world files n s = none) :
    submit c world files left n s = (.error .circuitOpen, s) := by
  rw [submit, h]

/-- A success, a failure for good and the last attempt end the run with their outcome. -/
theorem submit_settled (h : submitOnce c world files n s = some (outcome c x, x.cancels, s₁))
    (hfinal : ∀ e, outcome c x = .error e → e.isRetryable = true → left = 0) :
    submit c world files left n s = (outcome c x, s₁) := by
  rw [submit, h]
  cases hout : outcome c x with
  | ok r => rfl
  | error e =>
    cases left with
    | zero => rfl
    | succ left =>
      have hterminal : ¬e.isRetryable = true := fun hretry => absurd (hfinal e hout hretry) (Nat.succ_ne_zero left)
      simp only [if_neg hterminal]

/-- A cancellation takes the place of the next attempt. -/
theorem submit_interrupted (h : submitOnce c world files n s = some (outcome c x, x.cancels, s₁))
    (hfailed : outcome c x = .error e) (hpassing : e.isRetryable = true) (hcancels : CancelsAt world n x) :
    submit c world files (left + 1) n s = (.error .cancelled, s₁) := by
  have hstop : (x.cancels || world.cancelsWait n) = true := by rwa [Bool.or_eq_true]
  rw [submit, h, hfailed]
  simp only [hpassing, hstop, if_true]

/-- A failure that may pass leads to a wait and the next attempt. -/
theorem submit_again (h : submitOnce c world files n s = some (outcome c x, x.cancels, s₁))
    (hfailed : outcome c x = .error e) (hpassing : e.isRetryable = true) (hlive : ¬CancelsAt world n x) :
    submit c world files (left + 1) n s = submit c world files left (n + 1) (rested c world n e s₁) := by
  have hgoes : ¬(x.cancels || world.cancelsWait n) = true := by rwa [Bool.or_eq_true]
  rw [submit, h, hfailed]
  simp only [hpassing, if_neg hgoes, if_true]
  rfl

end Submit

/-! ### All submissions -/

variable (c world files) in
/-- Submissions that are repeated, and then a stop. -/
theorem submit_path (left n : Nat) (s : State τ) (hlast : n + left + 1 = max 1 c.maxAttempts) :
    ∃ xs mid last, Retries c world files n s xs mid ∧
      Stops c world files (n + xs.length) mid last (submit c world files left n s).1 (submit c world files left n s).2 ∧
      xs.length ≤ left := by
  -- on the attempts that are left; their number and that of the next submission add up
  induction left generalizing n s with
  | zero =>
    -- the last attempt settles the run, whatever comes back
    rcases submitOnce_cases c world files n s with ⟨hshut, hone⟩ | ⟨x, s₁, hmade, hone⟩
    · refine ⟨[], s, none, .none n s, ?_, Nat.le_refl 0⟩
      rw [submit_refused hone]
      exact .refused hshut
    · refine ⟨[], s, some x, .none n s, ?_, Nat.le_refl 0⟩
      rw [submit_settled hone fun _ _ _ => rfl]
      exact .settled hmade fun _ _ _ => hlast
  | succ left ih =>
    rcases submitOnce_cases c world files n s with ⟨hshut, hone⟩ | ⟨x, s₁, hmade, hone⟩
    · refine ⟨[], s, none, .none n s, ?_, Nat.zero_le _⟩
      rw [submit_refused hone]
      exact .refused hshut
    · -- the failure may pass, so an attempt that is left is used, or it settles the run
      by_cases hretry : ∃ e, outcome c x = .error e ∧ e.isRetryable = true
      · obtain ⟨e, hfailed, hpassing⟩ := hretry
        by_cases hcancels : CancelsAt world n x
        · have hleft : n + 1 < max 1 c.maxAttempts := by omega
          refine ⟨[], s, some x, .none n s, ?_, Nat.zero_le _⟩
          rw [submit_interrupted hone hfailed hpassing hcancels]
          exact .interrupted hmade hfailed hpassing hleft hcancels
        · obtain ⟨xs, mid, last, hrest, hstops, hlen⟩ := ih (n + 1) (rested c world n e s₁) (by omega)
          refine ⟨x :: xs, mid, last, .again hmade hfailed hpassing hcancels hrest, ?_, Nat.succ_le_succ hlen⟩
          rw [submit_again hone hfailed hpassing hcancels, List.length_cons, Nat.add_comm xs.length 1, ← Nat.add_assoc]
          exact hstops
      · have hfinal : ∀ e, outcome c x = .error e → ¬e.isRetryable = true := fun e hout h => hretry ⟨e, hout, h⟩
        refine ⟨[], s, some x, .none n s, ?_, Nat.zero_le _⟩
        rw [submit_settled hone fun e hout h => absurd h (hfinal e hout)]
        exact .settled hmade fun e hout h => absurd h (hfinal e hout)

/-! ### What follows from the path -/

/-- What comes back from the first `k` submissions over the transport `t`, and the transport after them. -/
def posts (c : ExecutionConfig) (world : Surroundings τ) (files : TextMap) : Nat → τ → List Submission × τ
  | 0, t => ([], t)
  | k + 1, t =>
    let sent := world.transport t ⟨c.endpoint, none, payload files⟩
    let rest := posts c world files k sent.2
    (sent.1 :: rest.1, rest.2)

/-- The run from `s` to `s'` that repeated the submissions `xs`, stopped with `last` and returned `result`. -/
structure Course (c : ExecutionConfig) (world : Surroundings τ) (files : TextMap) (s : State τ) (xs : List Submission)
    (last : Option Submission) (result : Except ServiceError ExecutionReport) (s' : State τ) : Prop where
  /-- The submissions follow each other, with a permit for each of them and a wait between two, and then the run
  stops. -/
  path : ∃ mid, Retries c world files 0 s xs mid ∧ Stops c world files xs.length mid last result s'
  /-- Nothing else goes over the transport, -/
  posted : posts c world files (xs ++ last.toList).length s.transport = (xs ++ last.toList, s'.transport)
  outcomes : s'.outcomes = s.outcomes ++ (xs ++ last.toList).map (outcome c)
  /-- not more often than there are attempts, -/
  bounded : (xs ++ last.toList).length ≤ max 1 c.maxAttempts
  /-- and never for a run that was cancelled before. -/
  idle : world.cancelled = true → xs = [] ∧ last = none
  /-- No slot of the limiter stays taken. -/
  balanced : s'.limiter.active = s.limiter.active
  /-- Every submission but the last failed in a way that may pass, and the run was not cancelled then; -/
  repeated : ∀ i x, xs[i]? = some x → ¬CancelsAt world i x ∧ ∃ e, outcome c x = .error e ∧ e.isRetryable = true
  /-- each of them is followed by a wait. -/
  waits : s'.waits = s.waits ++ (xs.zipIdx).map fun x => c.backoff.wait x.2 (hint c x.1) (world.draw x.2)
  /-- The result is the last outcome, or says that the run was cancelled or that the limiter let nothing through. -/
  answer : (∃ x, last = some x ∧ result = outcome c x) ∨ result = .error .cancelled ∨ result = .error .circuitOpen
  cancelled : result = .error .cancelled → world.cancelled = true ∨ ∃ x, last = some x ∧ CancelsAt world xs.length x
  refused : result = .error .circuitOpen →
    last = none ∧ s'.limiter.start? world.bounds (world.startedAt xs.length) = none

namespace Retries

variable {n : Nat} {s s' : State τ} {xs : List Submission}

/-- What is repeated failed in a way that may pass. -/
theorem repeated (h : Retries c world files n s xs s') (i : Nat) (x : Submission) (hx : xs[i]? = some x) :
    ¬CancelsAt world (n + i) x ∧ ∃ e, outcome c x = .error e ∧ e.isRetryable = true := by
  induction h generalizing i with
  | none n s => simp at hx
  | again made failed passing live rest ih =>
    -- the first of them, or one of those after the wait
    cases i with
    | zero =>
      obtain rfl := Option.some.inj hx
      exact ⟨live, _, failed, passing⟩
    | succ i =>
      have hrest := ih i hx
      rwa [Nat.add_assoc, Nat.add_comm 1 i] at hrest

theorem active_eq (h : Retries c world files n s xs s') : s'.limiter.active = s.limiter.active := by
  induction h with
  | none n s => rfl
  | again made failed passing live rest ih => rw [ih, limiter_rested, made.released]

theorem outcomes (h : Retries c world files n s xs s') : s'.outcomes = s.outcomes ++ xs.map (outcome c) := by
  induction h with
  | none n s => simp
  | again made failed passing live rest ih =>
    rw [ih, outcomes_rested, made.outcomes, List.append_assoc, List.singleton_append, List.map_cons]

theorem waits (h : Retries c world files n s xs s') :
    s'.waits = s.waits ++ (xs.zipIdx n).map fun x => c.backoff.wait x.2 (hint c x.1) (world.draw x.2) := by
  induction h with
  | none n s => simp
  | @again n s s₁ s' x xs e made failed passing live rest ih =>
    have hhint : hint c x = e.hint := by rw [hint, failed]
    rw [ih, waits_rested, made.waits, List.append_assoc, List.singleton_append, List.zipIdx_cons, List.map_cons, hhint]

/-- The submissions after those that are repeated go over the transport that these leave. -/
theorem posts_append (h : Retries c world files n s xs s') (k : Nat) : posts c world files (xs.length + k) s.transport =
    (xs ++ (posts c world files k s'.transport).1, (posts c world files k s'.transport).2) := by
  induction h with
  | none n s => simp
  | again made failed passing live rest ih =>
    rw [List.length_cons, Nat.add_right_comm, posts, made.posted]
    rw [transport_rested] at ih
    simp only [ih, List.cons_append]

end Retries

namespace Stops

variable {n : Nat} {s s' : State τ} {last : Option Submission} {result : Except ServiceError ExecutionReport}

theorem active_eq (h : Stops c world files n s last result s') : s'.limiter.active = s.limiter.active := by
  cases h with
  | cancelled _ before => rfl
  | refused shut => rfl
  | settled made settles => exact made.released
  | interrupted made failed passing left cancels => exact made.released

theorem outcomes (h : Stops c world files n s last result s') :
    s'.outcomes = s.outcomes ++ last.toList.map (outcome c) := by
  cases h with
  | cancelled _ before => simp
  | refused shut => simp
  | settled made settles => simpa using made.outcomes
  | interrupted made failed passing left cancels => simpa using made.outcomes

theorem waits (h : Stops c world files n s last result s') : s'.waits = s.waits := by
  cases h with
  | cancelled _ before => rfl
  | refused shut => rfl
  | settled made settles => exact made.waits
  | interrupted made failed passing left cancels => exact made.waits

theorem posted (h : Stops c world files n s last result s') :
    posts c world files last.toList.length s.transport = (last.toList, s'.transport) := by
  cases h with
  | cancelled _ before => rfl
  | refused shut => rfl
  | settled made settles => simp [posts, made.posted]
  | interrupted made failed passing left cancels => simp [posts, made.posted]

theorem answer (h : Stops c world files n s last result s') :
    (∃ x, last = some x ∧ result = outcome c x) ∨ result = .error .cancelled ∨ result = .error .circuitOpen := by
  cases h with
  | cancelled _ before => exact .inr (.inl rfl)
  | refused shut => exact .inr (.inr rfl)
  | settled made settles => exact .inl ⟨_, rfl, rfl⟩
  | interrupted made failed passing left cancels => exact .inr (.inl rfl)

theorem cancels (h : Stops c world files n s last result s') (hresult : result = .error .cancelled) :
    world.cancelled = true ∨ ∃ x, last = some x ∧ CancelsAt world n x := by
  cases h with
  | cancelled _ before => exact .inl before
  | refused shut => exact absurd hresult (by simp)
  | settled made settles => exact .inr ⟨_, rfl, .inl (cancels_of_outcome hresult)⟩
  | interrupted made failed passing left cancels => exact .inr ⟨_, rfl, cancels⟩

theorem shut (h : Stops c world files n s last result s') (hresult : result = .error .circuitOpen) :
    last = none ∧ s'.limiter.start? world.bounds (world.startedAt n) = none := by
  cases h with
  | cancelled _ before => exact absurd hresult (by simp)
  | refused shut => exact ⟨rfl, shut⟩
  | settled made settles => exact absurd hresult (outcome_ne_circuitOpen c _)
  | interrupted made failed passing left cancels => exact absurd hresult (by simp)

end Stops

/-- **A run keeps to its course.** From every limiter, whatever comes back from the service and wherever it is
cancelled, a run makes at most as many submissions as it has attempts, or one if it has none, each under a permit that
it gives back. It repeats a submission only after a failure that may pass, and after a wait; a success, any other
failure and a cancellation end it. It returns the last outcome, unless it is cancelled or the limiter refuses the next
submission. -/
theorem run_course (c : ExecutionConfig) (world : Surroundings τ) (files : TextMap) (s : State τ) :
    ∃ xs last, Course c world files s xs last (run c world files s).1 (run c world files s).2 := by
  obtain ⟨xs, mid, last, hretries, hstops, hlen, hidle⟩ : ∃ xs mid last, Retries c world files 0 s xs mid ∧
      Stops c world files xs.length mid last (run c world files s).1 (run c world files s).2 ∧
      xs.length ≤ c.maxAttempts - 1 ∧ (world.cancelled = true → xs = [] ∧ last = none) := by
    unfold run
    -- a run that was cancelled before makes no submission
    split_ifs with hbefore
    · exact ⟨[], s, none, .none 0 s, .cancelled s hbefore, Nat.zero_le _, fun _ => ⟨rfl, rfl⟩⟩
    · obtain ⟨xs, mid, last, hretries, hstops, hlen⟩ := submit_path c world files (c.maxAttempts - 1) 0 s (by omega)
      rw [Nat.zero_add] at hstops
      exact ⟨xs, mid, last, hretries, hstops, hlen, fun h => absurd h hbefore⟩
  refine ⟨xs, last, ⟨mid, hretries, hstops⟩, ?_, ?_, ?_, hidle, hstops.active_eq.trans hretries.active_eq,
    ?_, hstops.waits.trans hretries.waits, hstops.answer, hstops.cancels, hstops.shut⟩
  · rw [List.length_append, hretries.posts_append, hstops.posted]
  · rw [hstops.outcomes, hretries.outcomes, List.map_append, List.append_assoc]
  · have hone : last.toList.length ≤ 1 := by cases last <;> simp
    rw [List.length_append]
    omega
  · intro i x hx
    have hrepeated := hretries.repeated i x hx
    rwa [Nat.zero_add] at hrepeated

end Execution

end AgentFlow
