import AgentFlow.Proofs.Verify.Budget

/-!
# Cancelled verifications

Whether a verification is cancelled is looked at inside the attempts only: before a call, while one is under way and
before a wait (`Run.Notices`). A verification that notices returns the code as given, with nothing repaired. One that
does not notice is the same as if nobody had cancelled it (`Surroundings.undisturbed`): both go through the same states
up to the flag itself (`Run.unaware`), so what was repaired stays repaired. Cancelled from the start, a verification
notices exactly if there is a repairer to be asked, something to ask it for and an attempt to do so in.
-/

namespace AgentFlow

variable {σ : Type}

/-- Only the largest number of retries leaves no attempt. -/
theorem VerifyOptions.maxAttempts_eq_zero_iff (o : VerifyOptions) : o.maxAttempts = 0 ↔ o.maxRetries = 4294967295 := by
  have hlt := o.maxRetries.toNat_lt
  rw [maxAttempts, UInt32.toNat_add, ← UInt32.toNat_inj]
  show (1 + o.maxRetries.toNat) % 4294967296 = 0 ↔ o.maxRetries.toNat = 4294967295
  omega

/-- The reply without a word about cancelling. -/
def Reply.undisturbed (reply : Reply) : Reply := { reply with cancels := false }

/-- The repairer with the same answers, but nobody cancels meanwhile. -/
def undisturbedRepair (repair : σ → RepairRequest → Reply × σ) (s : σ) (q : RepairRequest) : Reply × σ :=
  ((repair s q).1.undisturbed, (repair s q).2)

/-- The same world, in which nobody cancels. -/
def Surroundings.undisturbed (world : Surroundings σ) : Surroundings σ :=
  { world with repairer := world.repairer.map undisturbedRepair, cancelled := false }

/-- The result leaves the code as given and counts nothing as repaired. -/
structure VerificationResult.Untouched (result : VerificationResult) (given : String) : Prop where
  fixedCode : result.fixedCode = none
  code : result.code = given
  findings : ∀ f ∈ result.findings, f.fixed = false
  fixesApplied : result.metadata.fixesApplied = 0

namespace Run

/-! ### Noticing -/

/-- Attempt `n` notices that the verification is cancelled. -/
inductive Notices (repair : σ → RepairRequest → Reply × σ) (o : VerifyOptions) (n : Nat) (r : Run σ) : Prop
  /-- It was cancelled before the call. -/
  | before (ht : r.targets ≠ []) (hc : r.cancelled = true)
  /-- It is cancelled before an answer comes. -/
  | during (h : r.Calls) (ho : outcome repair n r = .hung)
  /-- It is cancelled before the wait for another attempt. -/
  | waiting (h : r.Calls) (e : ServiceError) (ho : outcome repair n r = .failed e) (hretry : e.isRetryable = true)
    (hn : n < o.maxAttempts) (hc : (repair r.repairer (r.request n)).1.cancels = true)

section Attempts

variable {world : Surroundings σ} {repair : σ → RepairRequest → Reply × σ} {o : VerifyOptions} {n : Nat} {r : Run σ}

/-- Nothing is noticed if there is nothing to repair. -/
theorem Notices.targets (h : Notices repair o n r) : r.targets ≠ [] := by
  cases h with
  | before ht => exact ht
  | during hcalls => exact hcalls.targets
  | waiting hcalls => exact hcalls.targets

theorem cancelled_called (h : r.Calls) :
    (r.called repair o n).cancelled = (repair r.repairer (r.request n)).1.cancels := by
  show (r.cancelled || (repair r.repairer (r.request n)).1.cancels) = _
  rw [h.cancelled, Bool.false_or]

theorem afterFailure_of_retry {e : ServiceError} (hretry : e.isRetryable = true) (hn : n < o.maxAttempts) :
    r.afterFailure world o n e =
      if r.cancelled then (.cancel, r.withFailure (some e))
      else (.again, (r.withFailure (some e)).slept (o.backoff.wait (n - 1) e.hint (world.draw r.waits))) := by
  simp only [afterFailure, hretry, hn, decide_true, Bool.and_self, if_true]
  rfl

theorem afterFailure_of_last {e : ServiceError} (h : ¬ (e.isRetryable = true ∧ n < o.maxAttempts)) :
    r.afterFailure world o n e = (.enough, r.withFailure (some e)) := by
  have hcond : (e.isRetryable && decide (n < o.maxAttempts)) = false := by
    rw [← Bool.not_eq_true]
    simpa using h
  simp only [afterFailure, hcond, Bool.false_eq_true, if_false]
  rfl

/-- An attempt that notices ends the attempts, unless something outside breaks down in it. -/
theorem Notices.attempt_eq (world : Surroundings σ) (h : Notices repair o n r) :
    (∃ r', r.attempt world repair o n = .ok (.cancel, r')) ∨ ∃ b, r.attempt world repair o n = .error b := by
  have hspec := attempt_spec world repair o n r
  generalize r.attempt world repair o n = x at hspec
  cases hspec with
  | idle ht => exact absurd ht h.targets
  | stopped => exact .inl ⟨_, rfl⟩
  | unheard => exact .inr ⟨_, rfl⟩
  | hung => exact .inl ⟨_, rfl⟩
  | broke => exact .inr ⟨_, rfl⟩
  | failed hcalls _ e ho =>
    cases h with
    | before _ hc => rw [hcalls.cancelled] at hc; cases hc
    | during _ ho' => rw [ho] at ho'; cases ho'
    | waiting _ e' ho' hretry hn hc =>
      -- there would be another attempt, but it is cancelled before the wait
      obtain rfl : e = e' := Outcome.failed.inj (ho.symm.trans ho')
      rw [afterFailure_of_retry hretry hn, cancelled_called hcalls, hc, if_pos rfl]
      exact .inl ⟨_, rfl⟩
  | unchecked => exact .inr ⟨_, rfl⟩
  | judged hcalls _ _ answer ho =>
    cases h with
    | before _ hc => rw [hcalls.cancelled] at hc; cases hc
    | during _ ho' => rw [ho] at ho'; cases ho'
    | waiting _ e' ho' => rw [ho] at ho'; cases ho'

/-- The attempts from the start on are those from a run on that they lead to. -/
theorem Attempted.attempts_eq {start : Run σ} {k left : Nat} (h : Attempted world repair o start k r) :
    attempts world repair o (left + k) 1 start = attempts world repair o left (k + 1) r := by
  induction h generalizing left with
  | start => rfl
  | @again m _ _ _ hr ih =>
    have hleft : left + (m + 1) = left + 1 + m := by omega
    rw [hleft, ih, attempts, hr]

/-- Attempts repair nothing by pattern. -/
theorem patternFixes_attempt {next : Next} {r' : Run σ} (h : r.attempt world repair o n = .ok (next, r')) :
    r'.patternFixes = r.patternFixes := by
  have hspec := attempt_spec world repair o n r
  rw [h] at hspec
  generalize hx : (Except.ok (next, r') : Except (Broken σ) (Next × Run σ)) = x at hspec
  have hrun : ∀ {next' r''}, x = .ok (next', r'') → r' = r'' := by
    rintro next' r'' rfl
    exact (Prod.mk.inj (Except.ok.inj hx)).2
  cases hspec with
  | idle => rw [hrun rfl]
  | stopped => rw [hrun rfl]
  | unheard => cases hx
  | hung => rw [hrun rfl]; rfl
  | broke => cases hx
  | failed _ _ e =>
    rcases afterFailure_cases world o n (r.called repair o n) e with ⟨_, -, heq⟩ | ⟨-, ms, heq⟩ <;>
      rw [heq] at hrun <;> rw [hrun rfl] <;> rfl
  | unchecked => cases hx
  | judged _ _ _ answer =>
    rw [hrun rfl]
    simp only [judge, adopt]
    split_ifs <;> rfl

theorem patternFixes_attempts {left n : Nat} {r : Run σ} {c : Bool × Run σ}
    (h : attempts world repair o left n r = .ok c) : c.2.patternFixes = r.patternFixes := by
  induction left generalizing n r with
  | zero => rw [← Except.ok.inj h]
  | succ left ih =>
    rw [attempts] at h
    split at h
    next => cases h
    next r' hr => rw [← Except.ok.inj h]; exact patternFixes_attempt hr
    next r' hr => rw [← Except.ok.inj h]; exact patternFixes_attempt hr
    next r' hr => rw [ih h]; exact patternFixes_attempt hr

end Attempts

/-! ### Asking the repairer -/

/-- The repairer is there, it may be asked, and there is something to ask for. -/
structure Asks (world : Surroundings σ) (o : VerifyOptions) (repair : σ → RepairRequest → Reply × σ) (r : Run σ) :
    Prop where
  repairer : world.repairer = some repair
  modelFixes : o.modelFixes = true
  targets : r.targets ≠ []

/-- A run after the attempts, with a note if the repairer failed to the end. -/
def noted : Bool × Run σ → Bool × Run σ
  | (true, r) => (true, r)
  | (false, r) => (false, r.noteFailure)

section Asks

variable {world : Surroundings σ} {o : VerifyOptions} {repair : σ → RepairRequest → Reply × σ} {r : Run σ}

theorem Asks.repairWithModel_eq (h : r.Asks world o repair) :
    r.repairWithModel world o = (attempts world repair o o.maxAttempts 1 r).map noted := by
  have hon : (!o.modelFixes || r.targets.isEmpty) = false := by
    simp [h.modelFixes, h.targets]
  simp only [repairWithModel, h.repairer, hon, Bool.false_eq_true, if_false]
  cases attempts world repair o o.maxAttempts 1 r with
  | error b => rfl
  | ok c =>
    obtain ⟨cancelled, r'⟩ := c
    cases cancelled <;> rfl

theorem repairWithModel_of_not_asks (h : ¬ ∃ repair, r.Asks world o repair) :
    r.repairWithModel world o = .ok (false, r) := by
  unfold repairWithModel
  split
  · rfl
  next repair hw =>
    refine if_pos ?_
    by_contra hoff
    obtain ⟨hon, ht⟩ : o.modelFixes = true ∧ r.targets ≠ [] := by simpa using hoff
    exact h ⟨repair, hw, hon, ht⟩

end Asks

/-! ### Not noticing -/

section Report

variable {world : Surroundings σ} {r : Run σ} {stage : Stage} {percent : Nat} {message : String}

theorem report_of_heard (h : world.listener (r.reports.length + 1) = none) :
    r.report world stage percent message = .ok (r.told stage percent message) := by
  simp only [report, List.length_append, List.length_singleton, h]
  rfl

theorem report_of_unheard {m : String} (h : world.listener (r.reports.length + 1) = some m) :
    r.report world stage percent message = .error ⟨r.told stage percent message, m⟩ := by
  simp only [report, List.length_append, List.length_singleton, h]
  rfl

end Report

/-- What follows after the call of attempt `n` has ended. -/
def follow (world : Surroundings σ) (o : VerifyOptions) (n : Nat) (targeted : List Finding) (r : Run σ) :
    Outcome → Except (Broken σ) (Next × Run σ)
  | .hung => .ok (.cancel, r)
  | .broke m => .error ⟨r, m⟩
  | .failed e => .ok (r.afterFailure world o n e)
  | .answered answer =>
    ((r.withFailure none).report world .detecting (attemptPercent o n + 5) "Checking model repair").bind fun r' =>
      .ok (.again, r'.judge o targeted answer)

section Attempt

variable {world : Surroundings σ} {repair : σ → RepairRequest → Reply × σ} {o : VerifyOptions} {n : Nat} {r : Run σ}

theorem attempt_of_idle (h : r.targets = []) : r.attempt world repair o n = .ok (.enough, r) := by
  simp only [attempt, h, List.isEmpty_nil, if_true]
  rfl

theorem attempt_of_unheard (h : r.Calls) {m : String} (hl : world.listener (r.reports.length + 1) = some m) :
    r.attempt world repair o n = .error ⟨r.told .fixing (attemptPercent o n) "Requesting model repair", m⟩ := by
  simp only [attempt, List.isEmpty_iff, h.targets, h.cancelled, report_of_unheard hl, if_false, Bool.false_eq_true]
  rfl

theorem attempt_of_heard (h : r.Calls) (hl : world.listener (r.reports.length + 1) = none) :
    r.attempt world repair o n = (r.called repair o n).follow world o n r.targets (outcome repair n r) := by
  simp only [attempt, List.isEmpty_iff, h.targets, h.cancelled, report_of_heard hl, if_false, Bool.false_eq_true, bind,
    Except.bind]
  split
  next ho => exact congrArg (follow world o n r.targets (r.called repair o n)) (Eq.symm ho)
  next m ho => exact congrArg (follow world o n r.targets (r.called repair o n)) (Eq.symm ho)
  next e ho => exact congrArg (follow world o n r.targets (r.called repair o n)) (Eq.symm ho)
  next answer ho => exact congrArg (follow world o n r.targets (r.called repair o n)) (Eq.symm ho)

end Attempt

/-- The run as it is when nobody has cancelled it. -/
def unaware (r : Run σ) : Run σ := { r with cancelled := false }

/-- What a part of a verification comes to when nobody cancels it; `g` does this for what the part hands on. -/
def regardless {α : Type} (g : α → α) : Except (Broken σ) α → Except (Broken σ) α
  | .ok a => .ok (g a)
  | .error b => .error ⟨b.run.unaware, b.message⟩

theorem regardless_bind {α β : Type} {g : α → α} {h : β → β} {x : Except (Broken σ) α}
    {f f' : α → Except (Broken σ) β} (hf : ∀ a, f' (g a) = regardless h (f a)) :
    (regardless g x).bind f' = regardless h (x.bind f) := by
  cases x with
  | ok a => exact hf a
  | error b => rfl

section Undisturbed

variable (world : Surroundings σ) (repair : σ → RepairRequest → Reply × σ) (o : VerifyOptions) (r : Run σ)

/-- Reports are the same whether anybody cancels or not. -/
theorem report_unaware (stage : Stage) (percent : Nat) (message : String) :
    r.unaware.report world.undisturbed stage percent message =
      regardless unaware (r.report world stage percent message) := by
  cases hl : world.listener (r.reports.length + 1) with
  | none =>
    have hu : world.undisturbed.listener (r.unaware.reports.length + 1) = none := hl
    rw [report_of_heard hl, report_of_heard hu]
    rfl
  | some m =>
    have hu : world.undisturbed.listener (r.unaware.reports.length + 1) = some m := hl
    rw [report_of_unheard hl, report_of_unheard hu]
    rfl

theorem judge_unaware (targeted : List Finding) (answer : RepairResponse) :
    r.unaware.judge o targeted answer = (r.judge o targeted answer).unaware := by
  unfold judge
  dsimp only
  rw [apply_ite unaware, apply_ite unaware]
  rfl

theorem repairWithPatterns_unaware : r.unaware.repairWithPatterns o = (r.repairWithPatterns o).unaware := by
  unfold repairWithPatterns
  dsimp only
  rw [apply_ite unaware, apply_ite unaware]
  rfl

theorem noteFailure_unaware : r.unaware.noteFailure = r.noteFailure.unaware := by
  unfold noteFailure unaware
  dsimp only
  split <;> rfl

theorem afterFailure_unaware {n : Nat} {e : ServiceError}
    (h : ¬ (e.isRetryable = true ∧ n < o.maxAttempts ∧ r.cancelled = true)) :
    r.unaware.afterFailure world.undisturbed o n e = Prod.map id unaware (r.afterFailure world o n e) := by
  by_cases hretry : e.isRetryable = true ∧ n < o.maxAttempts
  · obtain ⟨hworth, hn⟩ := hretry
    have hc : r.cancelled = false := by
      rw [← Bool.not_eq_true]
      exact fun hc => h ⟨hworth, hn, hc⟩
    have hu : r.unaware.cancelled = false := rfl
    rw [afterFailure_of_retry hworth hn, afterFailure_of_retry hworth hn, hc, hu, if_neg (by simp), if_neg (by simp)]
    rfl
  · rw [afterFailure_of_last hretry, afterFailure_of_last hretry]
    rfl

theorem follow_unaware {n : Nat} {targeted : List Finding} {outcome : Outcome}
    (h : ∀ e, outcome = .failed e → ¬ (e.isRetryable = true ∧ n < o.maxAttempts ∧ r.cancelled = true)) :
    r.unaware.follow world.undisturbed o n targeted outcome =
      regardless (Prod.map id unaware) (r.follow world o n targeted outcome) := by
  cases outcome with
  | hung => rfl
  | broke m => rfl
  | failed e => exact congrArg Except.ok (afterFailure_unaware world o r (h e rfl))
  | answered answer =>
    have hflag : r.unaware.withFailure none = (r.withFailure none).unaware := rfl
    simp only [follow]
    rw [hflag, report_unaware]
    refine regardless_bind fun r' => ?_
    rw [judge_unaware]
    rfl

/-- An attempt that does not notice goes the same way when nobody cancels. -/
theorem attempt_unaware {n : Nat} (h : ¬ Notices repair o n r) :
    r.unaware.attempt world.undisturbed (undisturbedRepair repair) o n =
      regardless (Prod.map id unaware) (r.attempt world repair o n) := by
  by_cases ht : r.targets = []
  · have hu : r.unaware.targets = [] := ht
    rw [attempt_of_idle ht, attempt_of_idle hu]
    rfl
  have hcalls : r.Calls := ⟨ht, by
    rw [← Bool.not_eq_true]
    exact fun hc => h (.before ht hc)⟩
  have hcalls' : r.unaware.Calls := ⟨ht, rfl⟩
  cases hl : world.listener (r.reports.length + 1) with
  | some m =>
    have hl' : world.undisturbed.listener (r.unaware.reports.length + 1) = some m := hl
    rw [attempt_of_unheard hcalls hl, attempt_of_unheard hcalls' hl']
    rfl
  | none =>
    have hl' : world.undisturbed.listener (r.unaware.reports.length + 1) = none := hl
    rw [attempt_of_heard hcalls hl, attempt_of_heard hcalls' hl']
    have hcalled : r.unaware.called (undisturbedRepair repair) o n = (r.called repair o n).unaware := rfl
    rw [hcalled]
    refine follow_unaware world o (r.called repair o n) ?_
    -- a cancellation that counts after the failure is one that the attempt notices
    rintro e ho ⟨hretry, hn, hc⟩
    rw [cancelled_called hcalls] at hc
    exact h (.waiting hcalls e ho hretry hn hc)

end Undisturbed

/-! ### The attempts, and what comes after them -/

section Verification

variable {world : Surroundings σ} {repair : σ → RepairRequest → Reply × σ} {o : VerifyOptions} {start : Run σ}

/-- The induction is on how many attempts are left. -/
theorem attempts_unaware
    (h : ∀ k r, Attempted world repair o start k r → k < o.maxAttempts → ¬ Notices repair o (k + 1) r)
    {left n : Nat} {r : Run σ} (ha : Attempted world repair o start n r) (hmax : n + left ≤ o.maxAttempts) :
    attempts world.undisturbed (undisturbedRepair repair) o left (n + 1) r.unaware =
      regardless (Prod.map id unaware) (attempts world repair o left (n + 1) r) := by
  induction left generalizing n r with
  | zero => rfl
  | succ left ih =>
    have hsame := attempt_unaware world repair o r (h n r ha (by omega))
    rw [attempts, attempts, hsame]
    cases hr : r.attempt world repair o (n + 1) with
    | error b => rfl
    | ok c =>
      obtain ⟨next, r'⟩ := c
      cases next with
      | again => exact ih (ha.again hr) (by omega)
      | enough => rfl
      | cancel => rfl

/-- What is not noticed does not matter to the repairer. -/
theorem repairWithModel_unaware
    (h : ∀ repair, start.Asks world o repair →
      ∀ k r, Attempted world repair o start k r → k < o.maxAttempts → ¬ Notices repair o (k + 1) r) :
    start.unaware.repairWithModel world.undisturbed o =
      regardless (Prod.map id unaware) (start.repairWithModel world o) := by
  by_cases hasks : ∃ repair, start.Asks world o repair
  · obtain ⟨repair, hasks⟩ := hasks
    have hasks' : start.unaware.Asks world.undisturbed o (undisturbedRepair repair) :=
      ⟨congrArg (Option.map undisturbedRepair) hasks.repairer, hasks.modelFixes, hasks.targets⟩
    have hsame := attempts_unaware (h repair hasks) .start (Nat.zero_add o.maxAttempts).le
    rw [hasks.repairWithModel_eq, hasks'.repairWithModel_eq, hsame]
    cases attempts world repair o o.maxAttempts 1 start with
    | error b => rfl
    | ok c =>
      obtain ⟨cancelled, r⟩ := c
      cases cancelled with
      | true => rfl
      | false => exact congrArg (fun r' => Except.ok (false, r')) (noteFailure_unaware r)
  · have hasks' : ¬ ∃ repair, start.unaware.Asks world.undisturbed o repair := by
      rintro ⟨_, hw, hon, ht⟩
      obtain ⟨repair, hrepair, -⟩ := Option.map_eq_some_iff.mp hw
      exact hasks ⟨repair, hrepair, hon, ht⟩
    rw [repairWithModel_of_not_asks hasks, repairWithModel_of_not_asks hasks']
    rfl

theorem concluded_unaware (given : String) (cancelled : Bool) (r : Run σ) :
    concluded world.undisturbed o given cancelled r.unaware =
      regardless unaware (concluded world o given cancelled r) := by
  unfold concluded
  rw [apply_ite (regardless unaware), apply_ite (regardless unaware)]
  congr 2
  rw [report_unaware]
  cases r.report world .patternFixing 80 "Applying pattern fixes" with
  | error b => rfl
  | ok r' => exact congrArg Except.ok (repairWithPatterns_unaware o r')

/-- A verification that does not notice goes the same way when nobody cancels. -/
theorem steps_unaware {code : String} {state : σ}
    (h : ∀ repair, (begun world o code state).Asks world o repair →
      ∀ k r, Attempted world repair o (begun world o code state) k r → k < o.maxAttempts →
        ¬ Notices repair o (k + 1) r) :
    steps world.undisturbed o code state = regardless unaware (steps world o code state) := by
  have hfresh : fresh world.undisturbed code state = (fresh world code state).unaware := rfl
  have hbegun : begun world.undisturbed o code state = (begun world o code state).unaware := rfl
  rcases steps_cases world o code state with ⟨m, hl, hm⟩ | ⟨hl, hsteps⟩
  · rcases steps_cases world.undisturbed o code state with ⟨m', hl', hm'⟩ | ⟨hl', -⟩
    · obtain rfl : m = m' := Option.some.inj (hl.symm.trans hl')
      rw [hm, hm', hfresh]
      rfl
    · exact absurd (hl.symm.trans hl') (by simp)
  · rcases steps_cases world.undisturbed o code state with ⟨m', hl', -⟩ | ⟨-, hsteps'⟩
    · exact absurd (hl.symm.trans hl') (by simp)
    · rw [hsteps, hsteps', hbegun, repairWithModel_unaware h]
      refine regardless_bind fun c => ?_
      show (concluded world.undisturbed o code c.1 c.2.unaware).bind _ = _
      rw [concluded_unaware]
      refine regardless_bind fun r => ?_
      exact report_unaware world r .done 100 "Verification finished"

/-- Attempts that notice come to an end as cancelled, unless something outside breaks down. -/
theorem attempts_of_notices {k : Nat} {r : Run σ} (ha : Attempted world repair o start k r) (hk : k < o.maxAttempts)
    (h : Notices repair o (k + 1) r) :
    (∃ r', attempts world repair o o.maxAttempts 1 start = .ok (true, r')) ∨
      ∃ b, attempts world repair o o.maxAttempts 1 start = .error b := by
  obtain ⟨left, hleft⟩ : ∃ left, o.maxAttempts = left + 1 + k := ⟨o.maxAttempts - 1 - k, by omega⟩
  have hfrom : attempts world repair o (left + 1 + k) 1 start = attempts world repair o (left + 1) (k + 1) r :=
    ha.attempts_eq
  rw [← hleft] at hfrom
  rw [hfrom, attempts]
  rcases h.attempt_eq world with ⟨r', hr'⟩ | ⟨b, hb⟩
  · rw [hr']
    exact .inl ⟨r', rfl⟩
  · rw [hb]
    exact .inr ⟨b, rfl⟩

/-- An attempt that ends the attempts as cancelled has noticed. -/
theorem notices_of_attempt {n : Nat} {r r' : Run σ} (h : r.attempt world repair o n = .ok (.cancel, r')) :
    Notices repair o n r := by
  have hspec := attempt_spec world repair o n r
  rw [h] at hspec
  generalize hx : (Except.ok (Next.cancel, r') : Except (Broken σ) (Next × Run σ)) = x at hspec
  cases hspec with
  | idle => cases hx
  | stopped ht hc => exact .before ht hc
  | unheard => cases hx
  | hung hcalls _ ho => exact .during hcalls ho
  | broke => cases hx
  | failed hcalls _ e ho =>
    by_cases hretry : e.isRetryable = true ∧ n < o.maxAttempts
    · rw [afterFailure_of_retry hretry.1 hretry.2, cancelled_called hcalls] at hx
      split_ifs at hx with hc
      · exact .waiting hcalls e ho hretry.1 hretry.2 hc
      · cases hx
    · rw [afterFailure_of_last hretry] at hx
      cases hx
  | unchecked => cases hx
  | judged => cases hx

/-- The induction is on how many attempts are left. -/
theorem exists_notices_of_attempts {left n : Nat} {r r' : Run σ} (ha : Attempted world repair o start n r)
    (hmax : n + left ≤ o.maxAttempts) (h : attempts world repair o left (n + 1) r = .ok (true, r')) :
    ∃ k r'', Attempted world repair o start k r'' ∧ k < o.maxAttempts ∧ Notices repair o (k + 1) r'' := by
  induction left generalizing n r with
  | zero => cases h
  | succ left ih =>
    rw [attempts] at h
    split at h
    next => cases h
    next => cases h
    next r₁ hr₁ => exact ⟨n, r, ha, by omega, notices_of_attempt hr₁⟩
    next r₁ hr₁ => exact ih (ha.again hr₁) (by omega) h

/-- What was forgotten is not counted. -/
theorem untouched_forget {r : Run σ} (given : String) (h : r.patternFixes = 0) :
    ((r.forget o given).result given).Untouched given where
  fixedCode := if_pos rfl
  code := code_result given _
  findings f hf := (Detect.reported_of_mem_detectAll hf).fixed
  fixesApplied := by
    show 0 + r.patternFixes = 0
    rw [h]

end Verification

end Run

theorem Broken.untouched (b : Broken σ) (given : String) : (b.result given).Untouched given where
  fixedCode := rfl
  code := rfl
  findings f hf := by rw [List.mem_singleton.mp hf]
  fixesApplied := rfl

/-! ### The result -/

section Result

variable (world : Surroundings σ) (o : VerifyOptions) (code : String) (state : σ)

/-- The verification notices that it is cancelled, in one of its attempts. -/
def CancelNoticed : Prop :=
  ∃ repair k r, (Run.begun world o code state).Asks world o repair ∧ k < o.maxAttempts ∧
    Run.Attempted world repair o (Run.begun world o code state) k r ∧ Run.Notices repair o (k + 1) r

theorem verify_of_broken {b : Broken σ} (h : Run.steps world o code state = .error b) :
    verify world o code state = (b.result code, b.run) := by
  simp only [verify, h]

/-- If the cancellation is noticed, the repairs are forgotten. -/
theorem untouched_of_noticed (h : CancelNoticed world o code state) :
    (verify world o code state).1.Untouched code := by
  obtain ⟨repair, k, r, hasks, hk, ha, hnotices⟩ := h
  cases hs : Run.steps world o code state with
  | error b =>
    rw [verify_of_broken world o code state hs]
    exact b.untouched code
  | ok r' =>
    rw [verify_of_steps hs]
    rcases Run.steps_cases world o code state with ⟨m, -, hm⟩ | ⟨-, hsteps⟩
    · rw [hm] at hs
      cases hs
    rw [hsteps, hasks.repairWithModel_eq] at hs
    rcases Run.attempts_of_notices ha hk hnotices with ⟨r₁, hr₁⟩ | ⟨b, hb⟩
    · rw [hr₁] at hs
      obtain ⟨rfl, -⟩ := Run.report_eq_ok hs
      have hnone : r₁.patternFixes = 0 := Run.patternFixes_attempts hr₁
      obtain ⟨hfixed, hcode, hfindings, hcount⟩ := Run.untouched_forget (o := o) code hnone
      exact ⟨hfixed, hcode, hfindings, hcount⟩
    · rw [hb] at hs
      cases hs

theorem verify_undisturbed (h : ¬ CancelNoticed world o code state) :
    (verify world o code state).1 = (verify world.undisturbed o code state).1 := by
  have hsame : Run.steps world.undisturbed o code state = Run.regardless Run.unaware (Run.steps world o code state) :=
    Run.steps_unaware fun repair hasks k r ha hk hnotices => h ⟨repair, k, r, hasks, hk, ha, hnotices⟩
  cases hs : Run.steps world o code state with
  | ok r =>
    rw [hs] at hsame
    rw [verify_of_steps hs, verify_of_steps hsame]
    rfl
  | error b =>
    rw [hs] at hsame
    rw [verify_of_broken world o code state hs, verify_of_broken world.undisturbed o code state hsame]
    rfl

/-- Cancelled from the start, a verification notices at its first attempt, if there is one. -/
theorem cancelNoticed_iff_of_cancelled (h : world.cancelled = true) :
    CancelNoticed world o code state ↔
      world.repairer.isSome = true ∧ o.modelFixes = true ∧ 0 < o.maxAttempts ∧
        ∃ f ∈ detectAll o.checks code, f.fixable = true := by
  have htargets : (Run.begun world o code state).targets ≠ [] ↔ ∃ f ∈ detectAll o.checks code, f.fixable = true := by
    constructor
    · intro ht
      obtain ⟨f, hf⟩ := List.exists_mem_of_ne_nil _ ht
      obtain ⟨hmem, hfix⟩ := List.mem_filter.mp hf
      exact ⟨f, hmem, (Bool.and_eq_true_iff.mp hfix).2⟩
    · rintro ⟨f, hf, hfix⟩
      have hopen : f.fixed = false := (Detect.reported_of_mem_detectAll hf).fixed
      exact List.ne_nil_of_mem (List.mem_filter.mpr ⟨hf, by simp [hopen, hfix]⟩)
  constructor
  · rintro ⟨repair, k, r, hasks, hk, -⟩
    exact ⟨by simp [hasks.repairer], hasks.modelFixes, Nat.zero_lt_of_lt hk, htargets.mp hasks.targets⟩
  · rintro ⟨hw, hon, hroom, hf⟩
    obtain ⟨repair, hw⟩ := Option.isSome_iff_exists.mp hw
    have ht := htargets.mpr hf
    -- the first attempt looks before its call
    exact ⟨repair, 0, _, ⟨hw, hon, ht⟩, hroom, .start, .before ht h⟩

/-- **A cancellation counts exactly if it is noticed.** If an attempt notices that the verification is cancelled, the
result has the code as given, no finding marked as repaired and no repair counted, also if something breaks down later.
If none does, the result is the one that comes without any cancellation. Cancelled from the start, a verification
notices exactly if a repairer is there and may be asked, there is an attempt, and the detectors report something that
may be repaired. There is no attempt exactly if the number of retries is the largest of 32 bits. -/
theorem verify_cancelled :
    (CancelNoticed world o code state → (verify world o code state).1.Untouched code) ∧
    (¬ CancelNoticed world o code state →
      (verify world o code state).1 = (verify world.undisturbed o code state).1) ∧
    (world.cancelled = true → (CancelNoticed world o code state ↔
      world.repairer.isSome = true ∧ o.modelFixes = true ∧ 0 < o.maxAttempts ∧
        ∃ f ∈ detectAll o.checks code, f.fixable = true)) ∧
    (o.maxAttempts = 0 ↔ o.maxRetries = 4294967295) :=
  ⟨untouched_of_noticed world o code state, verify_undisturbed world o code state,
    cancelNoticed_iff_of_cancelled world o code state, o.maxAttempts_eq_zero_iff⟩

/-- A world without a repairer, in which the verification is cancelled before it starts. -/
def cancelledEarly : Surroundings Nat where
  cancelled := true

/-- Cancelled verifications that repair code all the same: one cancelled from the start that has no repairer, and one
whose repairer answers when the verification has been cancelled. -/
theorem cancelled_yet_repaired :
    (verify cancelledEarly {} "def f()\n    pass\n" 0).1.fixedCode = some "def f():\n    pass\n" ∧
      (verify cancelledEarly {} "def f()\n    pass\n" 0).1.metadata.fixesApplied = 1 ∧
      (verify lateRepairer {} "def f()\n    pass\n" 1).2.cancelled = true ∧
      (verify lateRepairer {} "def f()\n    pass\n" 1).1.fixedCode = some "def f():\n    pass\n" := by
  decide +kernel

end Result

end AgentFlow
