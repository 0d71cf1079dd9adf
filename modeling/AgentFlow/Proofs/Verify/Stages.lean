import AgentFlow.Proofs.Verify.Budget

/-!
# The reports of a verification

A verification tells its listener what stage it is in. The stages follow one course: it detects, then the repairer
works in rounds, then there may be repairs by pattern, and then it is done (`OnCourse`). Reports come from four places,
so the course is followed along the attempts (`Attempt.inRounds`); that the percentages never fall is kept by every
step (`Step.rising`). A verification that breaks off has gone a part of such a course.
-/

namespace AgentFlow

variable {σ : Type} {o : VerifyOptions}

/-! ### Courses -/

/-- Any number of rounds: a call, and a look at its answer if there is one. -/
inductive Rounds : List Stage → Prop
  | none : Rounds []
  | unanswered {stages : List Stage} (h : Rounds stages) : Rounds (stages ++ [.fixing])
  | answered {stages : List Stage} (h : Rounds stages) : Rounds (stages ++ [.fixing, .detecting])

/-- The reports of a verification from its start to its end. -/
structure OnCourse (o : VerifyOptions) (reports : List Progress) : Prop where
  stages : ∃ rounds patterns, Rounds rounds ∧ (patterns = [] ∨ patterns = [Stage.patternFixing]) ∧
    reports.map (·.stage) = .detecting :: (rounds ++ patterns ++ [.done])
  calls : (reports.map (·.stage)).count .fixing ≤ 1 + o.maxRetries
  rises : (reports.map (·.percent)).Pairwise (· ≤ ·)
  bounded : ∀ p ∈ reports, p.percent ≤ 100
  done : ∃ p, reports.getLast? = some p ∧ p.stage = .done ∧ p.percent = 100

namespace Run

/-! ### Percentages -/

/-- The percentages of the reports never fall, and none is above 100. -/
structure Rising (r : Run σ) : Prop where
  rises : (r.reports.map (·.percent)).Pairwise (· ≤ ·)
  bounded : ∀ p ∈ r.reports, p.percent ≤ 100

/-- The last percentage is the highest. -/
theorem Rising.le_percent {r : Run σ} (h : r.Rising) {p : Progress} (hp : p ∈ r.reports) : p.percent ≤ r.percent := by
  rcases List.eq_nil_or_concat r.reports with hnil | ⟨earlier, last, hlast⟩
  · rw [hnil] at hp
    cases hp
  · rw [List.concat_eq_append] at hlast
    have hpercent : r.percent = last.percent := by rw [percent, hlast, List.getLast?_concat]; rfl
    have hrises := h.rises
    rw [hlast, List.map_append, List.pairwise_append] at hrises
    rw [hpercent]
    rw [hlast] at hp
    rcases List.mem_append.mp hp with hp | hp
    · exact hrises.2.2 _ (List.mem_map_of_mem hp) _ List.mem_cons_self
    · rw [List.mem_singleton.mp hp]

/-- One more report does not fall below the others. -/
theorem Rising.told {r : Run σ} (h : r.Rising) (stage : Stage) (percent : Nat) (message : String) :
    (r.told stage percent message).Rising := by
  refine ⟨?_, ?_⟩
  · simp only [Run.told, List.map_append, List.pairwise_append]
    refine ⟨h.rises, List.pairwise_singleton _ _, fun a ha b hb => ?_⟩
    obtain ⟨p, hp, rfl⟩ := List.mem_map.mp ha
    obtain rfl := List.mem_singleton.mp hb
    have hlast := h.le_percent hp
    have hbound := h.bounded p hp
    show p.percent ≤ min (max percent r.percent) 100
    omega
  · intro p hp
    rcases List.mem_append.mp hp with hp | hp
    · exact h.bounded p hp
    · rw [List.mem_singleton.mp hp]
      exact Nat.min_le_right _ _

theorem Rising.of_reports {r r' : Run σ} (h : r.Rising) (hr : r'.reports = r.reports) : r'.Rising :=
  ⟨hr ▸ h.rises, hr ▸ h.bounded⟩

theorem Step.rising {given : String} {r r' : Run σ} (h : Step o given r r') (hr : r.Rising) : r'.Rising := by
  cases h with
  | tell stage percent message => exact hr.told stage percent message
  | ask => exact hr.of_reports rfl
  | setFailure => exact hr.of_reports rfl
  | sleep => exact hr.of_reports rfl
  | judge answer => exact hr.of_reports (sameLog_judge o r r.targets answer).reports
  | note => exact hr.of_reports (sameLog_noteFailure r).reports
  | patterns => exact hr.of_reports (sameLog_repairWithPatterns o r).reports
  | forget => exact hr.of_reports rfl

theorem rising_steps (world : Surroundings σ) (o : VerifyOptions) (code : String) (state : σ) :
    (ending (steps world o code state)).Rising := by
  have hfresh : (fresh world code state).Rising := Rising.told ⟨List.Pairwise.nil, by simp⟩ _ _ _
  rcases steps_reaches world o code state with ⟨m, hm⟩ | hreach
  · rw [hm]
    exact hfresh
  · exact hreach.keeps (fun _ _ hs => hs.rising) (hfresh.of_reports rfl)

/-! ### Stages -/

/-- The run is in its rounds, and `n` calls were announced. -/
def InRounds (n : Nat) (r : Run σ) : Prop :=
  ∃ rounds, Rounds rounds ∧ rounds.count .fixing = n ∧ r.reports.map (·.stage) = .detecting :: rounds

section Rounds

variable {world : Surroundings σ} {repair : σ → RepairRequest → Reply × σ} {n : Nat} {r r' : Run σ}

theorem InRounds.of_reports (h : r.InRounds n) (hr : r'.reports = r.reports) : r'.InRounds n := by
  obtain ⟨rounds, hrounds, hcount, hstages⟩ := h
  exact ⟨rounds, hrounds, hcount, hr ▸ hstages⟩

/-- A call was announced, and there was no answer to look at. -/
theorem InRounds.announced (h : r.InRounds n) {percent : Nat} {message : String}
    (hr : r'.reports = (r.told .fixing percent message).reports) : r'.InRounds (n + 1) := by
  obtain ⟨rounds, hrounds, rfl, hstages⟩ := h
  refine ⟨_, hrounds.unanswered, by simp, ?_⟩
  simp only [hr, told, List.map_append, hstages]
  rfl

/-- A call was announced and answered. -/
theorem InRounds.answered (h : r.InRounds n) : (r.answered repair o (n + 1)).InRounds (n + 1) := by
  obtain ⟨rounds, hrounds, rfl, hstages⟩ := h
  refine ⟨_, hrounds.answered, by simp, ?_⟩
  simp only [Run.answered, called, asked, withFailure, told, List.map_append, hstages, List.append_assoc]
  rfl

/-- As many calls were announced as requests were sent. -/
theorem InRounds.counted (h : r.InRounds n) (hr : r'.reports = r.reports) (hn : r'.requests.length = n) :
    r'.InRounds r'.requests.length :=
  hn ▸ h.of_reports hr

/-- One attempt: as many calls are announced as requests are sent, unless it breaks off in between. -/
theorem Attempt.inRounds {x : Except (Broken σ) (Next × Run σ)} (h : Attempt world repair o (n + 1) r x)
    (hn : r.requests.length = n) (hr : r.InRounds n) :
    (∀ c, x = .ok c → c.2.InRounds c.2.requests.length) ∧ ∀ b, x = .error b → b.run.InRounds (n + 1) := by
  have hcalled : (r.called repair o (n + 1)).InRounds (n + 1) := hr.announced rfl
  have hlen : (r.called repair o (n + 1)).requests.length = n + 1 := by simp [hn]
  cases h with
  | idle =>
    refine ⟨fun c hc => ?_, by simp⟩
    rw [← Except.ok.inj hc]
    exact hr.counted rfl hn
  | stopped =>
    refine ⟨fun c hc => ?_, by simp⟩
    rw [← Except.ok.inj hc]
    exact hr.counted rfl hn
  | unheard =>
    -- the call is announced, but not made
    refine ⟨by simp, fun b hb => ?_⟩
    rw [← Except.error.inj hb]
    exact hr.announced rfl
  | hung =>
    refine ⟨fun c hc => ?_, by simp⟩
    rw [← Except.ok.inj hc]
    exact hcalled.counted rfl hlen
  | broke =>
    refine ⟨by simp, fun b hb => ?_⟩
    rw [← Except.error.inj hb]
    exact hcalled
  | failed _ _ e =>
    refine ⟨fun c hc => ?_, by simp⟩
    rcases afterFailure_cases world o (n + 1) (r.called repair o (n + 1)) e with ⟨next, -, heq⟩ | ⟨-, ms, heq⟩ <;>
      rw [heq] at hc <;> rw [← Except.ok.inj hc] <;> exact hcalled.counted rfl hlen
  | unchecked =>
    refine ⟨by simp, fun b hb => ?_⟩
    rw [← Except.error.inj hb]
    exact hr.answered
  | judged _ _ _ answer =>
    refine ⟨fun c hc => ?_, by simp⟩
    obtain ⟨hreports, hrequests, -⟩ := sameLog_judge o (r.answered repair o (n + 1)) r.targets answer
    rw [← Except.ok.inj hc]
    exact hr.answered.counted hreports ((congrArg List.length hrequests).trans hlen)

/-- A part of a verification that comes to a run in its rounds. -/
def StaysInRounds (o : VerifyOptions) (x : Except (Broken σ) (Run σ)) : Prop :=
  (∀ r, x = .ok r → r.InRounds r.requests.length) ∧
    ∀ b, x = .error b → ∃ m, m ≤ o.maxAttempts ∧ b.run.InRounds m

theorem staysInRounds_ok (h : r.InRounds r.requests.length) : StaysInRounds o (.ok r) :=
  ⟨fun _ hr => Except.ok.inj hr ▸ h, by simp⟩

theorem Attempt.staysInRounds {x : Except (Broken σ) (Next × Run σ)} (h : Attempt world repair o (n + 1) r x)
    (hn : r.requests.length = n) (hroom : n < o.maxAttempts) (hr : r.InRounds n) : StaysInRounds o (x.map (·.2)) := by
  obtain ⟨hok, herror⟩ := h.inRounds hn hr
  cases x with
  | ok c => exact staysInRounds_ok (hok c rfl)
  | error b => exact ⟨by simp [Except.map], fun b' hb => ⟨n + 1, hroom, Except.error.inj hb ▸ herror b rfl⟩⟩

/-- The repairer keeps to its rounds. -/
theorem repairWithModel_inRounds (hbefore : r.Before 0) (hr : r.InRounds 0) :
    StaysInRounds o ((r.repairWithModel world o).map (·.2)) := by
  refine repairWithModel_rule hbefore (staysInRounds_ok (hr.counted rfl hbefore.requests)) ?_ ?_
  · intro repair n r x hdue hr hspec
    have hn := hdue.before.requests
    exact hspec.staysInRounds hn hdue.room (hn ▸ hr.1 r rfl)
  · intro r hr
    obtain ⟨hreports, hrequests, -⟩ := sameLog_noteFailure r
    exact staysInRounds_ok (hrequests ▸ (hr.1 r rfl).of_reports hreports)

end Rounds

/-! ### The end of the course -/

/-- The run has all its reports but the last, and `n` calls were announced. -/
def Closing (n : Nat) (r : Run σ) : Prop :=
  ∃ rounds patterns, Rounds rounds ∧ rounds.count .fixing = n ∧ (patterns = [] ∨ patterns = [Stage.patternFixing]) ∧
    r.reports.map (·.stage) = .detecting :: (rounds ++ patterns)

section Closing

variable {world : Surroundings σ} {n : Nat} {r r' : Run σ}

theorem InRounds.closing (h : r.InRounds n) : r.Closing n := by
  obtain ⟨rounds, hrounds, hcount, hstages⟩ := h
  exact ⟨rounds, [], hrounds, hcount, .inl rfl, by rw [hstages, List.append_nil]⟩

theorem InRounds.closing_patterns (h : r.InRounds n) (percent : Nat) (message : String) :
    (r.told .patternFixing percent message).Closing n := by
  obtain ⟨rounds, hrounds, hcount, hstages⟩ := h
  refine ⟨rounds, [.patternFixing], hrounds, hcount, .inr rfl, ?_⟩
  simp only [told, List.map_append, hstages]
  rfl

theorem Closing.of_reports (h : r.Closing n) (hr : r'.reports = r.reports) : r'.Closing n := by
  obtain ⟨rounds, patterns, hrounds, hcount, hpatterns, hstages⟩ := h
  exact ⟨rounds, patterns, hrounds, hcount, hpatterns, hr ▸ hstages⟩

/-- The run with its last report. -/
def finished (r : Run σ) : Run σ := r.told .done 100 "Verification finished"

theorem Closing.count_finished (h : r.Closing n) : (r.finished.reports.map (·.stage)).count .fixing = n := by
  obtain ⟨rounds, patterns, -, hcount, hpatterns, hstages⟩ := h
  have hnone : patterns.count .fixing = 0 := by
    rcases hpatterns with rfl | rfl <;> rfl
  simp only [finished, told, List.map_append, hstages, List.count_append, List.count_cons, hcount, hnone]
  rfl

/-- With its last report a run is on course. -/
theorem Closing.onCourse (h : r.Closing n) (hn : n ≤ 1 + o.maxRetries) (hr : r.finished.Rising) :
    OnCourse o r.finished.reports := by
  refine ⟨?_, h.count_finished.trans_le hn, hr.rises, hr.bounded, ?_⟩
  · obtain ⟨rounds, patterns, hrounds, -, hpatterns, hstages⟩ := h
    refine ⟨rounds, patterns, hrounds, hpatterns, ?_⟩
    simp only [finished, told, List.map_append, hstages]
    rfl
  · refine ⟨_, List.getLast?_concat, rfl, ?_⟩
    show min (max 100 r.percent) 100 = 100
    omega

/-- Up to the last report, with the repairs forgotten, made by pattern or left as they are. -/
theorem concluded_closing {given : String} {cancelled : Bool} (h : r.InRounds n) :
    (∀ r', concluded world o given cancelled r = .ok r' → r'.Closing n ∧ r'.requests = r.requests) ∧
      ∀ b, concluded world o given cancelled r = .error b → b.run.Closing n := by
  unfold concluded
  split_ifs
  · refine ⟨fun r' hr' => ?_, by simp⟩
    rw [← Except.ok.inj hr']
    exact ⟨h.closing.of_reports rfl, rfl⟩
  · cases hr : r.report world .patternFixing 80 "Applying pattern fixes" with
    | ok r₁ =>
      obtain ⟨rfl, -⟩ := report_eq_ok hr
      refine ⟨fun r' hr' => ?_, by simp [Except.map]⟩
      obtain ⟨hreports, hrequests, -⟩ :=
        sameLog_repairWithPatterns o (r.told .patternFixing 80 "Applying pattern fixes")
      rw [← Except.ok.inj hr']
      exact ⟨(h.closing_patterns ..).of_reports hreports, hrequests⟩
    | error b =>
      refine ⟨by simp [Except.map], fun b' hb' => ?_⟩
      rw [← Except.error.inj hb', (report_eq_error hr).1]
      exact h.closing_patterns ..
  · refine ⟨fun r' hr' => ?_, by simp⟩
    rw [← Except.ok.inj hr']
    exact ⟨h.closing, rfl⟩

end Closing

section Steps

variable (world : Surroundings σ) (o : VerifyOptions) (code : String) (state : σ)

/-- The run at the end of a verification lacks the last report or has it; if the verification completes, it has it, and
as many calls were announced as requests were sent. -/
def Finishes (x : Except (Broken σ) (Run σ)) : Prop :=
  ∃ (r₀ : Run σ) (n : Nat), r₀.Closing n ∧ n ≤ 1 + o.maxRetries ∧
    (ending x = r₀ ∨ ending x = r₀.finished) ∧ ∀ r, x = .ok r → r = r₀.finished ∧ n = r.requests.length

theorem finishes_steps : Finishes o (steps world o code state) := by
  have hbegun : (begun world o code state).InRounds 0 := ⟨[], .none, rfl, rfl⟩
  rcases steps_cases world o code state with ⟨m, -, hm⟩ | ⟨-, hsteps⟩
  · have hfresh : (fresh world code state).InRounds 0 := hbegun.of_reports rfl
    rw [hm]
    exact ⟨_, 0, hfresh.closing, Nat.zero_le _, .inl rfl, by simp⟩
  have hmodel : StaysInRounds o (((begun world o code state).repairWithModel world o).map (·.2)) :=
    repairWithModel_inRounds ⟨rfl, Nat.le_refl 0⟩ hbegun
  have hreach : Reaches o code (begun world o code state)
      (ending (((begun world o code state).repairWithModel world o).map (·.2))) :=
    repairWithModel_reaches ⟨rfl, Nat.le_refl 0⟩
  rw [hsteps]
  cases hc : (begun world o code state).repairWithModel world o with
  | error b =>
    -- the repairer or the listener breaks down in the rounds
    rw [hc] at hmodel
    obtain ⟨n, hn, hrounds⟩ := hmodel.2 b rfl
    exact ⟨_, n, hrounds.closing, hn.trans o.maxAttempts_le, .inl rfl, by simp [Except.bind]⟩
  | ok c =>
    rw [hc] at hreach hmodel
    have hbounded : c.2.Bounded o := hreach.keeps (fun _ _ hs => hs.bounded) ⟨Nat.zero_le _, Nat.zero_le _⟩
    have hcalls : c.2.requests.length ≤ 1 + o.maxRetries := hbounded.requests.trans o.maxAttempts_le
    have hclosing : (∀ r', concluded world o code c.1 c.2 = .ok r' → _) ∧ _ := concluded_closing (hmodel.1 c.2 rfl)
    simp only [Except.bind]
    cases hr : concluded world o code c.1 c.2 with
    | error b => exact ⟨_, _, hclosing.2 b hr, hcalls, .inl rfl, by simp⟩
    | ok r₀ =>
      obtain ⟨hr₀, hrequests⟩ := hclosing.1 r₀ hr
      refine ⟨r₀, _, hr₀, hcalls, .inr ?_, fun r hlast => ?_⟩
      · -- the last report is made, whether the listener breaks down at it or not
        show ending (closed world r₀) = r₀.finished
        cases hlast : closed world r₀ with
        | ok r => exact (report_eq_ok hlast).1
        | error b => exact (report_eq_error hlast).1
      · obtain ⟨rfl, -⟩ := report_eq_ok hlast
        exact ⟨rfl, congrArg List.length hrequests.symm⟩

end Steps

end Run

/-! ### The whole verification -/

/-- **The reports follow the course of the verification.** Whatever the repairer and the listener do and whenever it is
cancelled, the reports of a verification that completes go from the first detection over rounds of calls, each with a
look at the answer or without, and at most one repair by pattern to the end; as many calls are announced as requests are
counted, at most `1 + maxRetries`; and the percentages never fall and end at 100. The reports of a verification that
breaks off are the first ones of such a course. -/
theorem verify_on_course (world : Surroundings σ) (o : VerifyOptions) (code : String) (state : σ) :
    ∃ rest, OnCourse o ((verify world o code state).2.reports ++ rest) ∧
      (Completes world o code state → rest = [] ∧
        ((verify world o code state).2.reports.map (·.stage)).count .fixing =
          (verify world o code state).1.metadata.attempts) := by
  obtain ⟨r₀, n, hclosing, hn, hend, hdone⟩ := Run.finishes_steps world o code state
  have hrising := Run.rising_steps world o code state
  rw [run_verify]
  rcases hend with hend | hend
  · -- the last report is missing
    rw [hend] at hrising
    have hcourse : OnCourse o r₀.finished.reports := hclosing.onCourse hn (hrising.told ..)
    rw [hend]
    refine ⟨_, hcourse, fun ⟨r, hr⟩ => ?_⟩
    rw [hr, Run.ending_ok, (hdone r hr).1] at hend
    exact absurd (congrArg (fun r : Run σ => r.reports.length) hend) (by simp [Run.finished, Run.told])
  · rw [hend] at hrising ⊢
    refine ⟨[], by rw [List.append_nil]; exact hclosing.onCourse hn hrising, fun ⟨r, hr⟩ => ⟨rfl, ?_⟩⟩
    rw [hclosing.count_finished, (hdone r hr).2, verify_of_steps hr]
    rfl

end AgentFlow
