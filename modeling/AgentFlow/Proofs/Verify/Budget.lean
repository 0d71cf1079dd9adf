import AgentFlow.Proofs.Verify.Truth

/-!
# What a verification asks for

A verification sends a bounded number of requests and waits a bounded number of times, however the repairer behaves.
Requests are only ever added: the one of attempt `k + 1` is that of the run after `k` attempts (`Attempted`), so it
carries the code adopted by then and the findings still open. A verification completes exactly if nothing outside broke
down on the way (`completes_iff_intact`); if something did, the result is the code as given with one finding that says
so.
-/

namespace AgentFlow

variable {σ : Type}

/-- There is at most one attempt more than there are retries; the sum may not fit 32 bits. -/
theorem VerifyOptions.maxAttempts_le (o : VerifyOptions) : o.maxAttempts ≤ 1 + o.maxRetries := by
  rw [maxAttempts, UInt32.toNat_add]
  exact Nat.mod_le _ _

namespace Run

/-! ### The log of a run -/

theorem sameLog_noteFailure (r : Run σ) : SameLog r r.noteFailure := by
  unfold noteFailure
  split <;> exact ⟨rfl, rfl, rfl⟩

theorem sameLog_repairWithPatterns (o : VerifyOptions) (r : Run σ) : SameLog r (r.repairWithPatterns o) := by
  simp only [repairWithPatterns, adopt]
  split_ifs <;> exact ⟨rfl, rfl, rfl⟩

/-- The run has kept within the bounds of its options. -/
structure Bounded (o : VerifyOptions) (r : Run σ) : Prop where
  requests : r.requests.length ≤ o.maxAttempts
  waits : r.waits ≤ o.maxRetries

theorem Bounded.of_sameLog {o : VerifyOptions} {r r' : Run σ} (h : r.Bounded o) (hs : SameLog r r') : r'.Bounded o :=
  ⟨hs.requests ▸ h.requests, hs.waits ▸ h.waits⟩

/-- No step leaves the bounds. -/
theorem Step.bounded {o : VerifyOptions} {given : String} {r r' : Run σ} (h : Step o given r r')
    (hr : r.Bounded o) : r'.Bounded o := by
  cases h with
  | tell => exact ⟨hr.requests, hr.waits⟩
  | ask repair hcalls room =>
    refine ⟨?_, hr.waits⟩
    simp only [asked, List.length_append, List.length_singleton]
    exact room
  | setFailure => exact ⟨hr.requests, hr.waits⟩
  | sleep ms due room =>
    -- a wait follows a request, and there is room for another one
    refine ⟨hr.requests, ?_⟩
    have hmax := o.maxAttempts_le
    simp only [slept]
    omega
  | judge answer => exact hr.of_sameLog (sameLog_judge o r r.targets answer)
  | note => exact hr.of_sameLog (sameLog_noteFailure r)
  | patterns => exact hr.of_sameLog (sameLog_repairWithPatterns o r)
  | forget => exact ⟨hr.requests, hr.waits⟩

/-- So a verification stays within them, whether it completes or not. -/
theorem bounded_steps (world : Surroundings σ) (o : VerifyOptions) (code : String) (state : σ) :
    (ending (steps world o code state)).Bounded o := by
  rcases steps_reaches world o code state with ⟨m, hm⟩ | hreach
  · rw [hm]
    exact ⟨Nat.zero_le _, Nat.zero_le _⟩
  · exact hreach.keeps (fun _ _ hs => hs.bounded) ⟨Nat.zero_le _, Nat.zero_le _⟩

section Attempted

variable {world : Surroundings σ} {repair : σ → RepairRequest → Reply × σ} {o : VerifyOptions} {start : Run σ}

theorem Attempted.reaches {given : String} {n : Nat} {r : Run σ} (h : Attempted world repair o start n r)
    (hstart : start.Before 0) (hn : n ≤ o.maxAttempts) : Reaches o given start r ∧ r.Before n := by
  induction h with
  | start => exact ⟨.refl, hstart⟩
  | again _ hr ih =>
    obtain ⟨hreach, hbefore⟩ := ih (by omega)
    have hstep : Reaches o given _ _ ∧ _ := (attempt_spec world repair o _ _).reaches hbefore (by omega)
    rw [hr] at hstep
    exact ⟨hreach.trans hstep.1, hstep.2 _ rfl⟩

end Attempted

/-! ### Where requests come from -/

section Requests

variable (world : Surroundings σ) (o : VerifyOptions) (start : Run σ)

/-- Every request of `r` is that of the run after the attempts before it, which had something left to repair. -/
def Sent (r : Run σ) : Prop :=
  ∀ k q w, r.requests[k]? = some (q, w) → ∃ repair r', world.repairer = some repair ∧
    Attempted world repair o start k r' ∧ q = r'.request (k + 1) ∧ r'.targets ≠ []

variable {world o start} {repair : σ → RepairRequest → Reply × σ}

theorem Sent.of_requests {r r' : Run σ} (h : Sent world o start r) (hr : r'.requests = r.requests) :
    Sent world o start r' := by
  unfold Sent
  rw [hr]
  exact h

theorem Sent.append {n w : Nat} {r r' : Run σ} (h : Sent world o start r) (hw : world.repairer = some repair)
    (ha : Attempted world repair o start n r) (hn : r.requests.length = n) (ht : r.targets ≠ [])
    (hr : r'.requests = r.requests ++ [(r.request (n + 1), w)]) : Sent world o start r' := by
  intro k q w hk
  rw [hr] at hk
  rcases Nat.lt_trichotomy k n with hlt | rfl | hgt
  · rw [List.getElem?_append_left (hn ▸ hlt)] at hk
    exact h k q w hk
  · -- the request just added
    rw [List.getElem?_append_right hn.le, hn, Nat.sub_self] at hk
    obtain rfl := (Prod.mk.inj (Option.some.inj hk)).1
    exact ⟨repair, r, hw, ha, rfl, ht⟩
  · rw [List.getElem?_eq_none (by simp; omega)] at hk
    cases hk

/-- An attempt sends one request at most: its own. -/
theorem Attempt.sent {n : Nat} {r : Run σ} {x : Except (Broken σ) (Next × Run σ)}
    (h : Attempt world repair o (n + 1) r x) (hdue : Due world repair o start n r) (hs : Sent world o start r) :
    Sent world o start (ending (x.map (·.2))) := by
  obtain ⟨hw, ha, ⟨hn, -⟩, -⟩ := hdue
  cases h with
  | idle => exact hs
  | stopped => exact hs
  | unheard => exact hs.of_requests rfl
  | hung h => exact hs.append hw ha hn h.targets rfl
  | broke h => exact hs.append hw ha hn h.targets rfl
  | failed h _ e =>
    rcases afterFailure_cases world o (n + 1) (r.called repair o (n + 1)) e with ⟨next, -, heq⟩ | ⟨-, ms, heq⟩ <;>
      rw [heq] <;> exact hs.append hw ha hn h.targets rfl
  | unchecked h => exact hs.append hw ha hn h.targets rfl
  | judged h _ _ answer =>
    have hlog := sameLog_judge o (r.answered repair o (n + 1)) r.targets answer
    simp only [Except.map, ending_ok]
    exact hs.append hw ha hn h.targets hlog.requests

theorem repairWithModel_sent (hbefore : start.Before 0) :
    Sent world o start (ending ((start.repairWithModel world o).map (·.2))) := by
  refine repairWithModel_rule (Q := fun x => Sent world o start (ending x)) hbefore ?_ ?_ ?_
  · intro k q w hk
    rw [ending_ok, List.length_eq_zero_iff.mp hbefore.requests] at hk
    cases hk
  · exact fun hdue hs hspec => hspec.sent hdue hs
  · exact fun hs => hs.of_requests (sameLog_noteFailure _).requests

theorem requests_report (r : Run σ) (stage : Stage) (percent : Nat) (message : String) :
    (ending (r.report world stage percent message)).requests = r.requests := by
  cases hr : r.report world stage percent message with
  | ok r' => rw [(report_eq_ok hr).1]; rfl
  | error b => rw [ending_error, (report_eq_error hr).1]; rfl

end Requests

theorem sent_steps (world : Surroundings σ) (o : VerifyOptions) (code : String) (state : σ) :
    Sent world o (begun world o code state) (ending (steps world o code state)) := by
  refine steps_rule (Q := fun x => Sent world o (begun world o code state) (ending x)) ?_ ?_ ?_ ?_ ?_
  · intro m _ k q w hk
    cases hk
  · exact fun _ => repairWithModel_sent ⟨rfl, Nat.le_refl 0⟩
  · exact fun hs => hs.of_requests rfl
  · exact fun hs => hs.of_requests (sameLog_repairWithPatterns o _).requests
  · exact fun stage percent message hs => hs.of_requests (requests_report _ stage percent message)

/-! ### Breakdowns -/

section Intact

variable (world : Surroundings σ) (o : VerifyOptions) (start : Run σ)

/-- Nothing outside broke down on the way to `r`: not the listener at a report, nor the repairer at a call. -/
structure Intact (r : Run σ) : Prop where
  heard : ∀ k < r.reports.length, world.listener (k + 1) = none
  served : ∀ repair, world.repairer = some repair → ∀ k < r.requests.length, ∀ r',
    Attempted world repair o start k r' → ∀ m, outcome repair (k + 1) r' ≠ .broke m

/-- A part of a verification breaks off exactly if something outside broke down. -/
def Telling (x : Except (Broken σ) (Run σ)) : Prop :=
  (∀ r, x = .ok r → Intact world o start r) ∧ ∀ b, x = .error b → ¬ Intact world o start b.run

variable {world o start} {repair : σ → RepairRequest → Reply × σ}

theorem telling_ok {r : Run σ} (h : Intact world o start r) : Telling world o start (.ok r) :=
  ⟨fun _ hr => Except.ok.inj hr ▸ h, by simp⟩

theorem telling_error {b : Broken σ} (h : ¬ Intact world o start b.run) : Telling world o start (.error b) :=
  ⟨by simp, fun _ hb => Except.error.inj hb ▸ h⟩

theorem Intact.of_sameLog {r r' : Run σ} (h : Intact world o start r) (hs : SameLog r r') :
    Intact world o start r' :=
  ⟨by rw [hs.reports]; exact h.heard, by rw [hs.requests]; exact h.served⟩

theorem Intact.told {r : Run σ} (h : Intact world o start r) {stage : Stage} {percent : Nat} {message : String}
    (hl : world.listener (r.reports.length + 1) = none) : Intact world o start (r.told stage percent message) := by
  refine ⟨fun k hk => ?_, h.served⟩
  simp only [Run.told, List.length_append, List.length_singleton] at hk
  rcases Nat.lt_succ_iff_lt_or_eq.mp hk with hlt | rfl
  · exact h.heard k hlt
  · exact hl

theorem not_intact_told {r : Run σ} {stage : Stage} {percent : Nat} {message m : String}
    (hl : world.listener (r.reports.length + 1) = some m) :
    ¬ Intact world o start (r.told stage percent message) := by
  intro h
  have hnone := h.heard r.reports.length (by simp [Run.told])
  rw [hl] at hnone
  cases hnone

theorem Intact.report {r : Run σ} (h : Intact world o start r) (stage : Stage) (percent : Nat) (message : String) :
    Telling world o start (r.report world stage percent message) := by
  cases hr : r.report world stage percent message with
  | ok r' =>
    obtain ⟨rfl, hl⟩ := report_eq_ok hr
    exact telling_ok (h.told hl)
  | error b =>
    obtain ⟨br, m⟩ := b
    obtain ⟨rfl, hl⟩ := report_eq_error hr
    exact telling_error (not_intact_told hl)

/-- A call that does not break down leaves all intact. -/
theorem Intact.called {n : Nat} {r : Run σ} (h : Intact world o start r) (ha : Attempted world repair o start n r)
    (hn : r.requests.length = n) (hw : world.repairer = some repair)
    (hl : world.listener (r.reports.length + 1) = none) (ho : ∀ m, outcome repair (n + 1) r ≠ .broke m) :
    Intact world o start (r.called repair o (n + 1)) := by
  have htold : Intact world o start (r.told .fixing (attemptPercent o (n + 1)) "Requesting model repair") := h.told hl
  refine ⟨htold.heard, fun repair' hw' k hk r' ha' => ?_⟩
  obtain rfl : repair = repair' := Option.some.inj (hw.symm.trans hw')
  rw [requests_called, List.length_append, List.length_singleton] at hk
  rcases Nat.lt_succ_iff_lt_or_eq.mp hk with hlt | rfl
  · exact h.served repair hw k hlt r' ha'
  · -- the call just made
    rw [hn] at ha' ⊢
    rw [ha'.unique ha]
    exact ho

/-- An attempt breaks off exactly if something outside breaks down in it. -/
theorem Attempt.telling {n : Nat} {r : Run σ} {x : Except (Broken σ) (Next × Run σ)}
    (h : Attempt world repair o (n + 1) r x) (hdue : Due world repair o start n r) (hr : Intact world o start r) :
    Telling world o start (x.map (·.2)) := by
  obtain ⟨hw, ha, ⟨hn, -⟩, -⟩ := hdue
  have hlen : ((r.called repair o (n + 1)).withFailure none).reports.length = r.reports.length + 1 :=
    List.length_append
  cases h with
  | idle => exact telling_ok hr
  | stopped => exact telling_ok hr
  | unheard _ m hl => exact telling_error (not_intact_told hl)
  | hung _ hl ho => exact telling_ok (hr.called ha hn hw hl (by simp [ho]))
  | broke h m ho =>
    -- the breakdown of the call is on record
    refine telling_error fun hb => hb.served repair hw n ?_ r ha m ho
    simp [hn]
  | failed _ hl e ho =>
    have hcalled := hr.called ha hn hw hl (by simp [ho])
    rcases afterFailure_cases world o (n + 1) (r.called repair o (n + 1)) e with ⟨next, -, heq⟩ | ⟨-, ms, heq⟩ <;>
      rw [heq] <;> exact telling_ok ⟨hcalled.heard, hcalled.served⟩
  | unchecked _ m answer ho hl =>
    exact telling_error (not_intact_told (m := m) (by rw [hlen]; exact hl))
  | judged _ hl hl' answer ho =>
    have hcalled := hr.called ha hn hw hl (by simp [ho])
    have hcleared : Intact world o start ((r.called repair o (n + 1)).withFailure none) :=
      ⟨hcalled.heard, hcalled.served⟩
    have hanswered : Intact world o start (r.answered repair o (n + 1)) :=
      hcleared.told (by rw [hlen]; exact hl')
    simp only [Except.map]
    exact telling_ok (hanswered.of_sameLog (sameLog_judge o _ r.targets answer))

theorem repairWithModel_telling (hbefore : start.Before 0) (hstart : Intact world o start start) :
    Telling world o start ((start.repairWithModel world o).map (·.2)) := by
  refine repairWithModel_rule hbefore (telling_ok hstart) ?_ ?_
  · exact fun hdue hr hspec => hspec.telling hdue (hr.1 _ rfl)
  · exact fun hr => telling_ok ((hr.1 _ rfl).of_sameLog (sameLog_noteFailure _))

end Intact

theorem telling_steps (world : Surroundings σ) (o : VerifyOptions) (code : String) (state : σ) :
    Telling world o (begun world o code state) (steps world o code state) := by
  refine steps_rule ?_ ?_ ?_ ?_ ?_
  · exact fun hl => telling_error (not_intact_told hl)
  · intro hl
    refine repairWithModel_telling ⟨rfl, Nat.le_refl 0⟩ ⟨fun k hk => ?_, fun _ _ k hk => absurd hk k.not_lt_zero⟩
    obtain rfl := Nat.lt_one_iff.mp hk
    exact hl
  · exact fun hr => telling_ok ((hr.1 _ rfl).of_sameLog ⟨rfl, rfl, rfl⟩)
  · exact fun hr => telling_ok ((hr.1 _ rfl).of_sameLog (sameLog_repairWithPatterns o _))
  · exact fun stage percent message hr => (hr.1 _ rfl).report stage percent message

end Run

/-! ### The whole verification -/

section Verify

variable (world : Surroundings σ) (o : VerifyOptions) (code : String) (state : σ)

theorem run_verify : (verify world o code state).2 = Run.ending (Run.steps world o code state) := by
  unfold verify
  split
  next r hr => rw [hr]; rfl
  next b hb => rw [hb]; rfl

/-- A verification completes exactly if nothing outside breaks down on the way. -/
theorem completes_iff_intact :
    Completes world o code state ↔
      Run.Intact world o (Run.begun world o code state) (verify world o code state).2 := by
  have htelling := Run.telling_steps world o code state
  rw [run_verify]
  cases hs : Run.steps world o code state with
  | ok r => exact ⟨fun _ => htelling.1 r hs, fun _ => ⟨r, hs⟩⟩
  | error b =>
    refine ⟨fun ⟨r, hr⟩ => ?_, fun h => absurd h (htelling.2 b hs)⟩
    rw [hs] at hr
    cases hr

/-- A verification that breaks off returns the code as given and one finding that says so. -/
theorem verify_of_not_completes (h : ¬ Completes world o code state) :
    (verify world o code state).1.fixedCode = none ∧ (verify world o code state).1.code = code ∧
      ∃ f : Finding, (verify world o code state).1.findings = [f] ∧ f.category = .other ∧ f.severity = .error ∧
        f.fixable = false := by
  unfold verify
  split
  next r hr => exact absurd ⟨r, hr⟩ h
  next b _ => exact ⟨rfl, rfl, _, rfl, rfl, rfl, rfl⟩

/-- **A verification stays within its budget and asks for what is open.** Whatever the repairer and the listener do, it
comes to a result after at most `1 + maxRetries` requests and `maxRetries` waits. Request `k + 1` has that number and
carries the code and the open repairable findings of the run after `k` attempts: at least one finding, and exactly those
that the detectors report about that code as repairable. Nothing is asked about code without repairable findings. If
anything outside breaks down, the result is the code as given with one finding. -/
theorem verify_within_budget :
    ∃ result run, verify world o code state = (result, run) ∧
      run.requests.length ≤ 1 + o.maxRetries ∧ run.waits ≤ o.maxRetries ∧
      (∀ k q w, run.requests[k]? = some (q, w) → ∃ repair r, world.repairer = some repair ∧
        Run.Attempted world repair o (Run.begun world o code state) k r ∧
        q.attempt = k + 1 ∧ q.code = r.code ∧
        q.findings = r.findings.filter (fun f => !f.fixed && f.fixable) ∧ q.findings ≠ [] ∧
        signatures q.findings = signatures ((detectAll o.checks q.code).filter (·.fixable))) ∧
      ((∀ f ∈ detectAll o.checks code, f.fixable = false) → run.requests = []) ∧
      (¬ Run.Intact world o (Run.begun world o code state) run →
        result.fixedCode = none ∧ result.code = code ∧
          ∃ f : Finding, result.findings = [f] ∧ f.category = .other ∧ f.severity = .error ∧ f.fixable = false) := by
  refine ⟨(verify world o code state).1, (verify world o code state).2, rfl, ?_⟩
  have hbounded := Run.bounded_steps world o code state
  have hsent := Run.sent_steps world o code state
  rw [← run_verify] at hbounded hsent
  refine ⟨hbounded.requests.trans o.maxAttempts_le, hbounded.waits, ?_, ?_, ?_⟩
  · intro k q w hk
    obtain ⟨repair, r, hw, ha, rfl, ht⟩ := hsent k q w hk
    have hlt : k < (verify world o code state).2.requests.length := (List.getElem?_eq_some_iff.mp hk).1
    have hmax : k ≤ o.maxAttempts := hlt.le.trans hbounded.requests
    have hreach : Run.Reaches o code _ r ∧ _ := ha.reaches ⟨rfl, Nat.le_refl 0⟩ hmax
    have htruth : r.Truthful o := hreach.1.truthful (Run.truthful_of_detectAll rfl)
    exact ⟨repair, r, hw, ha, rfl, rfl, rfl, ht, htruth.signatures_targets⟩
  · intro hnone
    -- the first request would be that of the run as it began
    cases hreq : (verify world o code state).2.requests with
    | nil => rfl
    | cons x xs =>
      obtain ⟨repair, r, -, ha, -, ht⟩ := hsent 0 x.1 x.2 (by rw [hreq]; rfl)
      obtain rfl := ha.unique .start
      refine absurd (List.filter_eq_nil_iff.mpr fun f hf => ?_) ht
      simp [hnone f hf]
  · intro hbroken
    exact verify_of_not_completes world o code state (mt (completes_iff_intact world o code state).mp hbroken)

end Verify

end AgentFlow
