import Mathlib.Logic.Relation
import Mathlib.Order.Nat
import Mathlib.Tactic.SplitIfs
import AgentFlow.Verify.Run

/-!
# The steps of a verification

`Attempt` says once what an attempt can come to, with the reply that leads there. `Step` lists what a verification
can do to its state, one thing at a time, with the bounds that hold when it does. Every state that a verification
comes to, whether it completes or breaks off, is reached by such steps (`steps_reaches`), so what each step keeps holds
at the end of every verification. What depends on the attempts that lead to a state is carried over one attempt at a
time (`repairWithModel_rule`) and from there to the end (`steps_rule`).
-/

namespace AgentFlow.Run

variable {σ : Type}

/-! ### Parts of an attempt -/

/-- The run after one more report. -/
def told (r : Run σ) (stage : Stage) (percent : Nat) (message : String) : Run σ :=
  { r with reports := r.reports ++ [⟨stage, min (max percent r.percent) 100, message⟩] }

/-- What the repairer is asked at attempt `n`. -/
def request (r : Run σ) (n : Nat) : RepairRequest := ⟨r.code, r.targets, n⟩

/-- The run after the repairer was asked at attempt `n`. -/
def asked (repair : σ → RepairRequest → Reply × σ) (n : Nat) (r : Run σ) : Run σ :=
  { r with
    requests := r.requests ++ [(r.request n, r.waited)]
    repairer := (repair r.repairer (r.request n)).2
    cancelled := r.cancelled || (repair r.repairer (r.request n)).1.cancels }

/-- The run with the last call counted as failed, or not. -/
def withFailure (e : Option ServiceError) (r : Run σ) : Run σ := { r with failure := e }

/-- The run after a wait. -/
def slept (ms : Nat) (r : Run σ) : Run σ := { r with waited := r.waited + ms, waits := r.waits + 1 }

/-- The run after the call of attempt `n` was announced and made. -/
def called (repair : σ → RepairRequest → Reply × σ) (o : VerifyOptions) (n : Nat) (r : Run σ) : Run σ :=
  (r.told .fixing (attemptPercent o n) "Requesting model repair").asked repair n

/-- The run after the call of attempt `n` was answered, before the answer is judged. -/
def answered (repair : σ → RepairRequest → Reply × σ) (o : VerifyOptions) (n : Nat) (r : Run σ) : Run σ :=
  ((r.called repair o n).withFailure none).told .detecting (attemptPercent o n + 5) "Checking model repair"

section Report

variable {world : Surroundings σ} {r r' : Run σ} {b : Broken σ} {stage : Stage} {percent : Nat} {message : String}

/-- A report that succeeds is heard. -/
theorem report_eq_ok (h : r.report world stage percent message = .ok r') :
    r' = r.told stage percent message ∧ world.listener (r.reports.length + 1) = none := by
  simp only [report, List.length_append, List.length_singleton] at h
  split at h
  next => simp at h
  next hl => exact ⟨(Except.ok.inj h).symm, hl⟩

theorem report_eq_error (h : r.report world stage percent message = .error b) :
    b.run = r.told stage percent message ∧ world.listener (r.reports.length + 1) = some b.message := by
  simp only [report, List.length_append, List.length_singleton] at h
  split at h
  next m hm => rw [← Except.error.inj h]; exact ⟨rfl, hm⟩
  next => simp at h

end Report

/-- After a failure the attempts end, or a wait follows. -/
theorem afterFailure_cases (world : Surroundings σ) (o : VerifyOptions) (n : Nat) (r : Run σ) (e : ServiceError) :
    (∃ next, next ≠ .again ∧ r.afterFailure world o n e = (next, r.withFailure (some e))) ∨
    (n < o.maxAttempts ∧ ∃ ms, r.afterFailure world o n e = (.again, (r.withFailure (some e)).slept ms)) := by
  unfold afterFailure
  dsimp only
  split_ifs with hretry hc
  · exact .inl ⟨.cancel, by simp, rfl⟩
  · have hn : n < o.maxAttempts := by simp at hretry; exact hretry.2
    exact .inr ⟨hn, _, rfl⟩
  · exact .inl ⟨.enough, by simp, rfl⟩

/-! ### What an attempt comes to -/

section Attempt

variable (world : Surroundings σ) (repair : σ → RepairRequest → Reply × σ) (o : VerifyOptions) (n : Nat) (r : Run σ)

/-- A call is due: something is left to repair and nobody has cancelled. -/
structure Calls : Prop where
  targets : r.targets ≠ []
  cancelled : r.cancelled = false

/-- How the call of attempt `n` ends. -/
def outcome : Outcome := (repair r.repairer (r.request n)).1.outcome

/-- What attempt `n` comes to, with the reply that leads there. -/
inductive Attempt : Except (Broken σ) (Next × Run σ) → Prop
  /-- Nothing is left to repair. -/
  | idle (h : r.targets = []) : Attempt (.ok (.enough, r))
  /-- The verification was cancelled before the call. -/
  | stopped (h : r.targets ≠ []) (hc : r.cancelled = true) : Attempt (.ok (.cancel, r))
  /-- The listener breaks down before the call. -/
  | unheard (h : r.Calls) (m : String) (hl : world.listener (r.reports.length + 1) = some m) :
    Attempt (.error ⟨r.told .fixing (attemptPercent o n) "Requesting model repair", m⟩)
  | hung (h : r.Calls) (hl : world.listener (r.reports.length + 1) = none) (ho : outcome repair n r = .hung) :
    Attempt (.ok (.cancel, r.called repair o n))
  | broke (h : r.Calls) (m : String) (ho : outcome repair n r = .broke m) :
    Attempt (.error ⟨r.called repair o n, m⟩)
  | failed (h : r.Calls) (hl : world.listener (r.reports.length + 1) = none) (e : ServiceError)
    (ho : outcome repair n r = .failed e) : Attempt (.ok ((r.called repair o n).afterFailure world o n e))
  /-- The listener breaks down after the answer came. -/
  | unchecked (h : r.Calls) (m : String) (answer : RepairResponse) (ho : outcome repair n r = .answered answer)
    (hl : world.listener (r.reports.length + 2) = some m) : Attempt (.error ⟨r.answered repair o n, m⟩)
  | judged (h : r.Calls) (hl : world.listener (r.reports.length + 1) = none)
    (hl' : world.listener (r.reports.length + 2) = none) (answer : RepairResponse)
    (ho : outcome repair n r = .answered answer) :
    Attempt (.ok (.again, (r.answered repair o n).judge o r.targets answer))

/-- Every attempt comes to one of these. -/
theorem attempt_spec : Attempt world repair o n r (r.attempt world repair o n) := by
  unfold attempt
  by_cases ht : r.targets = []
  · simpa [ht, pure, Except.pure] using Attempt.idle ht
  by_cases hc : r.cancelled = true
  · simpa [ht, hc, pure, Except.pure] using Attempt.stopped ht hc
  have hcalls : r.Calls := ⟨ht, by simpa using hc⟩
  simp only [List.isEmpty_iff, ht, hc, if_false, Bool.false_eq_true]
  cases hrep : r.report world .fixing (attemptPercent o n) "Requesting model repair" with
  | error b =>
    obtain ⟨br, m⟩ := b
    obtain ⟨rfl, hl⟩ := report_eq_error hrep
    exact .unheard hcalls m hl
  | ok r₁ =>
    obtain ⟨rfl, hl⟩ := report_eq_ok hrep
    simp only [bind, Except.bind]
    -- a report changes nothing that the call sees
    split
    next ho => exact .hung hcalls hl ho
    next m ho => exact .broke hcalls m ho
    next e ho => exact .failed hcalls hl e ho
    next answer ho =>
      split
      next b hb =>
        obtain ⟨br, m⟩ := b
        obtain ⟨rfl, hl'⟩ := report_eq_error hb
        exact .unchecked hcalls m answer ho (by simpa [told] using hl')
      next r₂ hr₂ =>
        obtain ⟨rfl, hl'⟩ := report_eq_ok hr₂
        exact .judged hcalls hl (by simpa [told] using hl') answer ho

end Attempt

/-! ### Steps -/

/-- One thing that a verification of `given` does to its state. -/
inductive Step (o : VerifyOptions) (given : String) : Run σ → Run σ → Prop
  | tell (r : Run σ) (stage : Stage) (percent : Nat) (message : String) :
    Step o given r (r.told stage percent message)
  | ask (r : Run σ) (repair : σ → RepairRequest → Reply × σ) (h : r.Calls)
    (room : r.requests.length < o.maxAttempts) : Step o given r (r.asked repair (r.requests.length + 1))
  | setFailure (r : Run σ) (e : Option ServiceError) : Step o given r (r.withFailure e)
  | sleep (r : Run σ) (ms : Nat) (due : r.waits < r.requests.length) (room : r.requests.length < o.maxAttempts) :
    Step o given r (r.slept ms)
  | judge (r : Run σ) (answer : RepairResponse) : Step o given r (r.judge o r.targets answer)
  | note (r : Run σ) : Step o given r r.noteFailure
  | patterns (r : Run σ) : Step o given r (r.repairWithPatterns o)
  | forget (r : Run σ) : Step o given r (r.forget o given)

/-- The second state is reached from the first in any number of steps. -/
def Reaches (o : VerifyOptions) (given : String) : Run σ → Run σ → Prop := Relation.ReflTransGen (Step o given)

/-- A property that every step keeps holds of all that is reached. -/
theorem Reaches.keeps {o : VerifyOptions} {given : String} {P : Run σ → Prop}
    (hstep : ∀ r r' : Run σ, Step o given r r' → P r → P r') {r r' : Run σ} (h : Reaches o given r r') (hr : P r) :
    P r' := by
  induction h with
  | refl => exact hr
  | tail _ hs ih => exact hstep _ _ hs ih

/-- The run that a verification, or a part of it, ends with. -/
def ending : Except (Broken σ) (Run σ) → Run σ
  | .ok r => r
  | .error b => b.run

@[simp] theorem ending_ok (r : Run σ) : ending (.ok r) = r := rfl

@[simp] theorem ending_error (b : Broken σ) : ending (.error b) = b.run := rfl

section Reaches

variable {world : Surroundings σ} {repair : σ → RepairRequest → Reply × σ} {o : VerifyOptions} {given : String}

/-- The run is about to make attempt `n + 1`: `n` requests were sent, and no more waits followed them. -/
structure Before (n : Nat) (r : Run σ) : Prop where
  requests : r.requests.length = n
  waits : r.waits ≤ n

theorem reaches_called {n : Nat} {r : Run σ} (hn : r.Before n) (hmax : n < o.maxAttempts) (h : r.Calls) :
    Reaches o given r (r.called repair o (n + 1)) := by
  obtain ⟨rfl, -⟩ := hn
  have htold : Reaches o given r
      (r.told .fixing (attemptPercent o (r.requests.length + 1)) "Requesting model repair") := .single (.tell ..)
  exact htold.tail (.ask _ repair ⟨h.targets, h.cancelled⟩ hmax)

theorem reaches_answered {n : Nat} {r : Run σ} (hn : r.Before n) (hmax : n < o.maxAttempts) (h : r.Calls) :
    Reaches o given r (r.answered repair o (n + 1)) :=
  ((reaches_called hn hmax h).tail (.setFailure _ none)).tail (.tell ..)

@[simp] theorem requests_called (n : Nat) (r : Run σ) :
    (r.called repair o n).requests = r.requests ++ [(r.request n, r.waited)] := rfl

theorem targets_answered (n : Nat) (r : Run σ) : (r.answered repair o n).targets = r.targets := rfl

/-- The runs have made the same reports, requests and waits. -/
structure SameLog (r r' : Run σ) : Prop where
  reports : r'.reports = r.reports
  requests : r'.requests = r.requests
  waits : r'.waits = r.waits

theorem sameLog_judge (o : VerifyOptions) (r : Run σ) (targeted : List Finding) (answer : RepairResponse) :
    SameLog r (r.judge o targeted answer) := by
  simp only [judge, adopt]
  split_ifs <;> exact ⟨rfl, rfl, rfl⟩

/-- One attempt: its run is reached by steps, and if another is to follow the run is ready for that. -/
theorem Attempt.reaches {n : Nat} {r : Run σ} {x : Except (Broken σ) (Next × Run σ)}
    (h : Attempt world repair o (n + 1) r x) (hn : r.Before n) (hmax : n < o.maxAttempts) :
    Reaches o given r (ending (x.map (·.2))) ∧ ∀ r', x = .ok (.again, r') → r'.Before (n + 1) := by
  have hlen : (r.called repair o (n + 1)).requests.length = n + 1 := by simp [hn.requests]
  cases h with
  | idle => exact ⟨.refl, by simp⟩
  | stopped => exact ⟨.refl, by simp⟩
  | unheard => exact ⟨.single (.tell ..), by simp⟩
  | hung h => exact ⟨reaches_called hn hmax h, by simp⟩
  | broke h => exact ⟨reaches_called hn hmax h, by simp⟩
  | failed h _ e =>
    have hfail : Reaches o given r ((r.called repair o (n + 1)).withFailure (some e)) :=
      (reaches_called hn hmax h).tail (.setFailure _ _)
    rcases afterFailure_cases world o (n + 1) (r.called repair o (n + 1)) e with
      ⟨next, hnext, heq⟩ | ⟨hroom, ms, heq⟩ <;> rw [heq]
    · exact ⟨hfail, by simp [hnext]⟩
    · -- the waits so far are no more than the attempts before this one
      have hdue : r.waits < (r.called repair o (n + 1)).requests.length := by
        rw [hlen]; exact Nat.lt_succ_of_le hn.waits
      refine ⟨hfail.tail (.sleep _ ms hdue (by rw [← hlen] at hroom; exact hroom)), ?_⟩
      rintro r' ⟨⟩
      exact ⟨hlen, Nat.succ_le_succ hn.waits⟩
  | unchecked h => exact ⟨reaches_answered hn hmax h, by simp⟩
  | judged h _ _ answer =>
    have hjudge : Step o given (r.answered repair o (n + 1)) _ := .judge _ answer
    rw [targets_answered] at hjudge
    simp only [Except.map, ending_ok]
    refine ⟨(reaches_answered hn hmax h).tail hjudge, fun r' hr' => ?_⟩
    rw [← (Prod.mk.inj (Except.ok.inj hr')).2]
    obtain ⟨-, hreq, hwaits⟩ := sameLog_judge o (r.answered repair o (n + 1)) r.targets answer
    exact ⟨by rw [hreq]; exact hlen, by rw [hwaits]; exact hn.waits.trans n.le_succ⟩

end Reaches

/-! ### All attempts -/

section Attempted

variable (world : Surroundings σ) (repair : σ → RepairRequest → Reply × σ) (o : VerifyOptions) (start : Run σ)

/-- The run that `start` has become after a number of attempts, each of which called for another. -/
inductive Attempted : Nat → Run σ → Prop
  | start : Attempted 0 start
  | again {n : Nat} {r r' : Run σ} (h : Attempted n r) (hr : r.attempt world repair o (n + 1) = .ok (.again, r')) :
    Attempted (n + 1) r'

/-- Attempt `n + 1` of the repairer is due, on a run that `start` has become. -/
structure Due (n : Nat) (r : Run σ) : Prop where
  repairer : world.repairer = some repair
  attempted : Attempted world repair o start n r
  before : r.Before n
  room : n < o.maxAttempts

variable {world repair o start}

/-- The attempts before lead to one run only. -/
theorem Attempted.unique {n : Nat} {r r' : Run σ} (h : Attempted world repair o start n r)
    (h' : Attempted world repair o start n r') : r = r' := by
  induction h generalizing r' with
  | start => cases h'; rfl
  | again _ hr ih =>
    cases h' with
    | again h₀ hr' =>
      obtain rfl := ih h₀
      rw [hr] at hr'
      exact (Prod.mk.inj (Except.ok.inj hr')).2

/-- Whatever goes over from the run before each attempt to what the attempt comes to holds of what all attempts come to.
The induction is on how many are left. -/
theorem attempts_rule {Q : Except (Broken σ) (Run σ) → Prop} (hw : world.repairer = some repair)
    (hattempt : ∀ {n r x}, Due world repair o start n r → Q (.ok r) → Attempt world repair o (n + 1) r x →
      Q (x.map (·.2)))
    {left n : Nat} {r : Run σ} (ha : Attempted world repair o start n r) (hn : r.Before n) (hr : Q (.ok r))
    (hmax : n + left ≤ o.maxAttempts) : Q ((attempts world repair o left (n + 1) r).map (·.2)) := by
  induction left generalizing n r with
  | zero => exact hr
  | succ left ih =>
    have hroom : n < o.maxAttempts := by omega
    have hspec := attempt_spec world repair o (n + 1) r
    have hend := hattempt ⟨hw, ha, hn, hroom⟩ hr hspec
    have hready : Reaches o "" r _ ∧ _ := hspec.reaches hn hroom
    rw [attempts]
    split
    next b hb => rw [hb] at hend; exact hend
    next r' hr' => rw [hr'] at hend; exact hend
    next r' hr' => rw [hr'] at hend; exact hend
    next r' hr' =>
      rw [hr'] at hend
      exact ih (ha.again hr') (hready.2 r' hr') hend (by omega)

/-- The same for all that the repairer does. It may not be asked at all, and at the end a failure is noted. -/
theorem repairWithModel_rule {Q : Except (Broken σ) (Run σ) → Prop} (hbefore : start.Before 0) (hstart : Q (.ok start))
    (hattempt : ∀ {repair n r x}, Due world repair o start n r → Q (.ok r) → Attempt world repair o (n + 1) r x →
      Q (x.map (·.2)))
    (hnote : ∀ {r}, Q (.ok r) → Q (.ok r.noteFailure)) : Q ((start.repairWithModel world o).map (·.2)) := by
  unfold repairWithModel
  split
  · exact hstart
  next repair hw =>
    have hend : Q ((attempts world repair o o.maxAttempts 1 start).map (·.2)) :=
      attempts_rule hw hattempt .start hbefore hstart (Nat.zero_add _).le
    split
    · exact hstart
    · split
      next b hb => rw [hb] at hend; exact hend
      next r' hr' => rw [hr'] at hend; exact hend
      next r' hr' => rw [hr'] at hend; exact hnote hend

theorem repairWithModel_reaches {given : String} (hbefore : start.Before 0) :
    Reaches o given start (ending ((start.repairWithModel world o).map (·.2))) := by
  refine repairWithModel_rule (Q := fun x => Reaches o given start (ending x)) hbefore .refl ?_ ?_
  · exact fun hdue hreach hspec => hreach.trans (hspec.reaches hdue.before hdue.room).1
  · exact fun hreach => hreach.tail (.note _)

end Attempted

/-! ### The whole verification -/

section Steps

variable (world : Surroundings σ) (o : VerifyOptions) (code : String) (state : σ)

/-- The run of a verification before the first look at the code. -/
def fresh : Run σ :=
  told { code := code, findings := [], repairer := state, cancelled := world.cancelled } .detecting 5
    "Detecting problems"

/-- The run of a verification after the first look at the code. -/
def begun : Run σ := { fresh world code state with findings := detectAll o.checks code }

/-- The run after the attempts, with its repairs forgotten if it was cancelled and the rest repaired by pattern
otherwise. -/
def concluded (cancelled : Bool) (r : Run σ) : Except (Broken σ) (Run σ) :=
  if cancelled then .ok (r.forget o code)
  else if o.patternFixes && !r.targets.isEmpty then
    (r.report world .patternFixing 80 "Applying pattern fixes").map (repairWithPatterns o)
  else .ok r

/-- The last report. -/
def closed (r : Run σ) : Except (Broken σ) (Run σ) := r.report world .done 100 "Verification finished"

/-- A verification breaks off at its first report or goes through its three parts. -/
theorem steps_cases :
    (∃ m, world.listener 1 = some m ∧ steps world o code state = .error ⟨fresh world code state, m⟩) ∨
    world.listener 1 = none ∧ steps world o code state =
      ((begun world o code state).repairWithModel world o).bind fun c =>
        (concluded world o code c.1 c.2).bind (closed world) := by
  cases hr : report world { code := code, findings := [], repairer := state, cancelled := world.cancelled } .detecting 5
      "Detecting problems" with
  | error b =>
    obtain ⟨br, m⟩ := b
    obtain ⟨rfl, hl⟩ := report_eq_error hr
    exact .inl ⟨m, hl, by unfold steps; dsimp only; rw [hr]; rfl⟩
  | ok r =>
    obtain ⟨rfl, hl⟩ := report_eq_ok hr
    refine .inr ⟨hl, ?_⟩
    unfold steps
    dsimp only
    rw [hr]
    change Except.bind ((begun world o code state).repairWithModel world o) _ = _
    congr 1
    funext ⟨cancelled, r⟩
    unfold concluded
    dsimp only
    split_ifs <;> rfl

variable {world o code state}

/-- Whatever holds of what the repairer comes to, and is kept by forgetting, repairing by pattern and reporting, holds
of what the verification comes to. -/
theorem steps_rule {Q : Except (Broken σ) (Run σ) → Prop}
    (hfresh : ∀ {m}, world.listener 1 = some m → Q (.error ⟨fresh world code state, m⟩))
    (hmodel : world.listener 1 = none → Q (((begun world o code state).repairWithModel world o).map (·.2)))
    (hforget : ∀ {r}, Q (.ok r) → Q (.ok (r.forget o code)))
    (hpatterns : ∀ {r}, Q (.ok r) → Q (.ok (r.repairWithPatterns o)))
    (hreport : ∀ {r} stage percent message, Q (.ok r) → Q (r.report world stage percent message)) :
    Q (steps world o code state) := by
  rcases steps_cases world o code state with ⟨m, hl, hm⟩ | ⟨hl, h⟩
  · rw [hm]
    exact hfresh hl
  have hend := hmodel hl
  rw [h]
  cases hc : (begun world o code state).repairWithModel world o with
  | error b => rw [hc] at hend; exact hend
  | ok c =>
    obtain ⟨cancelled, r⟩ := c
    rw [hc] at hend
    have hr : Q (.ok r) := hend
    show Q ((concluded world o code cancelled r).bind (closed world))
    unfold concluded
    split_ifs
    · exact hreport .done 100 "Verification finished" (hforget hr)
    · -- the report before the repairs by pattern may break off
      have htold := hreport .patternFixing 80 "Applying pattern fixes" hr
      cases hp : r.report world .patternFixing 80 "Applying pattern fixes" with
      | error b => rw [hp] at htold; exact htold
      | ok r' => rw [hp] at htold; exact hreport .done 100 "Verification finished" (hpatterns htold)
    · exact hreport .done 100 "Verification finished" hr

/-- A verification that completes goes through all its parts. -/
theorem steps_eq_ok {r : Run σ} (h : steps world o code state = .ok r) :
    ∃ cancelled r₁ r₂, (begun world o code state).repairWithModel world o = .ok (cancelled, r₁) ∧
      concluded world o code cancelled r₁ = .ok r₂ ∧ r = r₂.told .done 100 "Verification finished" := by
  rcases steps_cases world o code state with ⟨m, -, hm⟩ | ⟨-, hsteps⟩
  · rw [hm] at h
    cases h
  rw [hsteps] at h
  cases hc : (begun world o code state).repairWithModel world o with
  | error b => rw [hc] at h; cases h
  | ok c =>
    rw [hc] at h
    cases hr : concluded world o code c.1 c.2 with
    | error b => simp only [Except.bind, hr] at h; cases h
    | ok r₂ =>
      simp only [Except.bind, hr] at h
      exact ⟨c.1, c.2, r₂, rfl, hr, (report_eq_ok h).1⟩

theorem report_reaches (r : Run σ) (stage : Stage) (percent : Nat) (message : String) :
    Reaches o code r (ending (r.report world stage percent message)) := by
  cases hr : r.report world stage percent message with
  | ok r' =>
    obtain ⟨rfl, -⟩ := report_eq_ok hr
    exact .single (.tell ..)
  | error b =>
    rw [ending_error, (report_eq_error hr).1]
    exact .single (.tell ..)

variable (world o code state)

/-- Whether it completes or not, a verification that gets past its first report is reached by steps. -/
theorem steps_reaches :
    (∃ m, steps world o code state = .error ⟨fresh world code state, m⟩) ∨
    Reaches o code (begun world o code state) (ending (steps world o code state)) := by
  rcases steps_cases world o code state with ⟨m, -, hm⟩ | ⟨hl, -⟩
  · exact .inl ⟨m, hm⟩
  refine .inr (steps_rule (Q := fun x => Reaches o code (begun world o code state) (ending x)) ?_ ?_ ?_ ?_ ?_)
  · intro m hm
    rw [hl] at hm
    cases hm
  · exact fun _ => repairWithModel_reaches ⟨rfl, Nat.le_refl 0⟩
  · exact fun h => h.tail (.forget _)
  · exact fun h => h.tail (.patterns _)
  · exact fun stage percent message h => h.trans (report_reaches _ stage percent message)

end Steps

end Run

/-! ### Verifications that complete -/

/-- Nothing outside breaks down: neither the listener nor the repairer. -/
structure Surroundings.Quiet {σ : Type} (world : Surroundings σ) : Prop where
  listener : ∀ n, world.listener n = none
  repairer : ∀ repair, world.repairer = some repair → ∀ s q m, (repair s q).1.outcome ≠ .broke m

section Completes

variable {σ : Type} (world : Surroundings σ) (o : VerifyOptions) (code : String) (state : σ)

/-- The verification comes to its end without a breakdown. -/
def Completes : Prop := ∃ r, Run.steps world o code state = .ok r

variable {world o code state}

theorem Surroundings.Quiet.report_eq (hq : world.Quiet) (r : Run σ) (stage : Stage) (percent : Nat)
    (message : String) : r.report world stage percent message = .ok (r.told stage percent message) := by
  simp only [Run.report, hq.listener]
  rfl

theorem Surroundings.Quiet.attempt_ok (hq : world.Quiet) {repair : σ → RepairRequest → Reply × σ}
    (hrep : world.repairer = some repair) {n : Nat} {r : Run σ} {x : Except (Broken σ) (Run.Next × Run σ)}
    (h : Run.Attempt world repair o n r x) : ∃ c, x = .ok c := by
  cases h with
  | unheard _ _ hl => simp [hq.listener] at hl
  | broke _ m ho => exact absurd ho (hq.repairer repair hrep _ _ m)
  | unchecked _ _ _ _ hl => simp [hq.listener] at hl
  | _ => exact ⟨_, rfl⟩

theorem Surroundings.Quiet.completes (hq : world.Quiet) : Completes world o code state := by
  refine Run.steps_rule (Q := fun x => ∃ r, x = .ok r) (fun hm => ?_) (fun _ => ?_) (fun _ => ⟨_, rfl⟩)
    (fun _ => ⟨_, rfl⟩) (fun _ _ _ _ => ⟨_, hq.report_eq ..⟩)
  · simp [hq.listener] at hm
  · refine Run.repairWithModel_rule (Q := fun x => ∃ r, x = .ok r) ⟨rfl, Nat.le_refl 0⟩ ⟨_, rfl⟩ ?_ fun _ => ⟨_, rfl⟩
    intro repair n r x hdue _ hspec
    obtain ⟨c, rfl⟩ := hq.attempt_ok hdue.repairer hspec
    exact ⟨c.2, rfl⟩

end Completes

end AgentFlow
