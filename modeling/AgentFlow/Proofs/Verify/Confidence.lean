import Mathlib.Data.Set.Card
import AgentFlow.Proofs.Verify.Truth

/-!
# What the required confidence guarantees

An answer is adopted only if the confidence in it reaches what the options require. Unfolding how confidence is
reckoned gives a floor under the share of the targets that an adopted answer resolves, and a ceiling over the errors
that it introduces. From a requirement of 86 on, that ceiling is zero. The report is about the current code
(`Run.Truthful`), so the errors of each code are errors of the code before it, and a whole verification adds none to
those of the code as given.
-/

namespace AgentFlow

/-! ### Reckoning confidence -/

/-- The signatures of errors. -/
def errorSignatures (fs : List Finding) : Set (String × String) :=
  {s | ∃ f ∈ fs, f.severity = .error ∧ f.signature = s}

/-- What it takes to reach a confidence of at least one percent. -/
theorem repairConfidence_bounds {required resolved targeted introduced : Nat} {reported : Option Nat}
    (hpos : 1 ≤ required) (hle : resolved ≤ targeted)
    (h : required ≤ repairConfidence resolved targeted introduced reported) :
    required * targeted ≤ 100 * resolved ∧ 0 < resolved ∧ introduced ≤ (100 - required) / 15 := by
  unfold repairConfidence at h
  split_ifs at h with hzero
  · omega
  have hscore : required ≤ 100 * resolved / targeted - introducedPenalty * introduced := by
    cases reported with
    | none => exact h.trans (Nat.min_le_left _ _)
    | some c => exact (h.trans (Nat.min_le_left _ _)).trans (Nat.min_le_left _ _)
  -- not more than all targets are resolved
  have hshare : 100 * resolved / targeted ≤ 100 := by
    refine Nat.div_le_of_le_mul ?_
    rw [Nat.mul_comm targeted]
    exact Nat.mul_le_mul_left 100 hle
  have hfloor : required * targeted ≤ 100 * resolved :=
    calc required * targeted ≤ 100 * resolved / targeted * targeted :=
        Nat.mul_le_mul_right _ (hscore.trans (Nat.sub_le _ _))
      _ ≤ 100 * resolved := Nat.div_mul_le_self _ _
  refine ⟨hfloor, ?_, ?_⟩
  · have hproduct : 0 < required * targeted := Nat.mul_pos hpos (Nat.pos_of_ne_zero hzero)
    omega
  · unfold introducedPenalty at hscore
    rw [Nat.le_div_iff_mul_le (by decide)]
    omega

/-- Counting findings, one may count a signature twice, but none is left out. -/
theorem encard_introduced_le (before after : List Finding) :
    (errorSignatures after \ signatures before).encard ≤ introducedErrors before after := by
  classical
  have hsub : errorSignatures after \ signatures before ⊆
      ((after.filter fun f => f.severity == .error && !f.among before).map Finding.signature).toFinset := by
    rintro s ⟨⟨f, hf, hsev, rfl⟩, hnot⟩
    simp only [List.coe_toFinset, Set.mem_ofPred_eq, List.mem_map]
    refine ⟨f, List.mem_filter.mpr ⟨hf, ?_⟩, rfl⟩
    have hamong : f.among before = false := by
      rw [← Bool.not_eq_true, Finding.among_iff]
      exact hnot
    simp [hsev, hamong]
  refine (Set.encard_le_encard hsub).trans ?_
  rw [Set.encard_coe_eq_coe_finsetCard]
  refine Nat.cast_le.mpr ((List.toFinset_card_le _).trans ?_)
  rw [List.length_map, introducedErrors]

theorem errorSignatures_subset_of_introduced {before after : List Finding} (h : introducedErrors before after = 0) :
    errorSignatures after ⊆ signatures before := by
  have hcard := encard_introduced_le before after
  rw [h, Nat.cast_zero, nonpos_iff_eq_zero, Set.encard_eq_zero] at hcard
  exact Set.sdiff_eq_empty.mp hcard

namespace Run

variable {σ : Type} {o : VerifyOptions}

/-! ### Adopting answers -/

/-- An answer is adopted only if its confidence is high enough. -/
theorem judge_cases (o : VerifyOptions) (r : Run σ) (targeted : List Finding) (answer : RepairResponse) :
    r.judge o targeted answer = r ∨
    ∃ found, found = detectAll o.checks (r.judge o targeted answer).code ∧
      o.requiredConfidence ≤ repairConfidence (targeted.filter fun f => !f.among found).length targeted.length
        (introducedErrors r.openFindings found) answer.confidence := by
  simp only [judge, adopt]
  split_ifs with hsame hlow
  · exact .inl rfl
  · exact .inl rfl
  · exact .inr ⟨_, rfl, not_lt.mp hlow⟩

theorem repairWithPatterns_cases (o : VerifyOptions) (r : Run σ) :
    r.repairWithPatterns o = r ∨
    introducedErrors r.openFindings (detectAll o.checks (r.repairWithPatterns o).code) = 0 := by
  simp only [repairWithPatterns, adopt]
  split_ifs with hsame hnew
  · exact .inl rfl
  · exact .inl rfl
  · exact .inr (Nat.eq_zero_of_not_pos hnew)

theorem judge_bounds {r : Run σ} {targeted : List Finding} {answer : RepairResponse}
    (hpos : 1 ≤ o.requiredConfidence) (h : (r.judge o targeted answer).code ≠ r.code) :
    o.requiredConfidence * targeted.length ≤ 100 *
        (targeted.filter fun f => !f.among (detectAll o.checks (r.judge o targeted answer).code)).length ∧
      0 < (targeted.filter fun f => !f.among (detectAll o.checks (r.judge o targeted answer).code)).length ∧
      introducedErrors r.openFindings (detectAll o.checks (r.judge o targeted answer).code) ≤
        (100 - o.requiredConfidence) / 15 := by
  rcases judge_cases o r targeted answer with heq | ⟨found, rfl, hconf⟩
  · rw [heq] at h
    exact absurd rfl h
  · exact repairConfidence_bounds hpos (List.length_filter_le _ _) hconf

theorem openFindings_answered (repair : σ → RepairRequest → Reply × σ) (n : Nat) (r : Run σ) :
    (r.answered repair o n).openFindings = r.openFindings := rfl

/-- Only an answer that is adopted changes the code in an attempt. -/
theorem judged_of_attempt {world : Surroundings σ} {repair : σ → RepairRequest → Reply × σ} {n : Nat}
    {r r' : Run σ} {next : Next} (h : r.attempt world repair o n = .ok (next, r')) (hcode : r'.code ≠ r.code) :
    ∃ answer, r' = (r.answered repair o n).judge o r.targets answer := by
  have hspec := attempt_spec world repair o n r
  generalize r.attempt world repair o n = x at h hspec
  cases hspec with
  | idle => exact absurd (congrArg Run.code (Prod.mk.inj (Except.ok.inj h)).2).symm hcode
  | stopped => exact absurd (congrArg Run.code (Prod.mk.inj (Except.ok.inj h)).2).symm hcode
  | unheard => cases h
  | hung => exact absurd (congrArg Run.code (Prod.mk.inj (Except.ok.inj h)).2).symm hcode
  | broke => cases h
  | failed _ _ e =>
    refine absurd ?_ hcode
    rcases afterFailure_cases world o n (r.called repair o n) e with ⟨_, -, heq⟩ | ⟨-, ms, heq⟩ <;>
      rw [heq] at h <;> exact (congrArg Run.code (Prod.mk.inj (Except.ok.inj h)).2).symm
  | unchecked => cases h
  | judged _ _ _ answer => exact ⟨answer, (Prod.mk.inj (Except.ok.inj h)).2.symm⟩

/-! ### Errors along a run -/

/-- Code whose errors are all open already has no errors that the current code lacks. -/
theorem Truthful.errorSignatures_subset {r : Run σ} (h : r.Truthful o) {code : String}
    (hnew : introducedErrors r.openFindings (detectAll o.checks code) = 0) :
    errorSignatures (detectAll o.checks code) ⊆ errorSignatures (detectAll o.checks r.code) := by
  rintro s ⟨f, hf, hsev, rfl⟩
  obtain ⟨g, hg, hs⟩ := errorSignatures_subset_of_introduced hnew ⟨f, hf, hsev, rfl⟩
  obtain ⟨hmem, hfixed⟩ := List.mem_filter.mp hg
  have hgsev : g.severity = .error :=
    ((Detect.reported_of_mem_detectAll hf).traits_eq (h.known g hmem) hs).1.trans hsev
  have hopen : g.IsOpen := (h.known g hmem).isOpen (by simpa using hfixed) (.inl (by simp [hgsev]))
  obtain ⟨f', hf', hs', hsev', -⟩ := h.exists_reported hmem hopen
  exact ⟨f', hf', hsev' ▸ hgsev, hs'.trans hs⟩

/-- The report is about the current code, which has no errors that `given` lacks. -/
structure Harmless (o : VerifyOptions) (given : String) (r : Run σ) : Prop where
  truthful : r.Truthful o
  errors : errorSignatures (detectAll o.checks r.code) ⊆ errorSignatures (detectAll o.checks given)

/-- No step adds an error, from a requirement of 86 on. -/
theorem Step.harmless {given : String} (hT : 86 ≤ o.requiredConfidence) {r r' : Run σ} (h : Step o given r r')
    (hr : r.Harmless o given) : r'.Harmless o given := by
  refine ⟨h.truthful hr.truthful, ?_⟩
  cases h with
  | tell => exact hr.errors
  | ask => exact hr.errors
  | setFailure => exact hr.errors
  | sleep => exact hr.errors
  | judge answer =>
    by_cases hcode : (r.judge o r.targets answer).code = r.code
    · rw [hcode]; exact hr.errors
    · obtain ⟨-, -, hnew⟩ := judge_bounds (by omega) hcode
      -- a single introduced error would cost more than is left above 86
      have hzero : (100 - o.requiredConfidence) / 15 = 0 := Nat.div_eq_of_lt (by omega)
      rw [hzero, Nat.le_zero] at hnew
      exact (hr.truthful.errorSignatures_subset hnew).trans hr.errors
  | note =>
    have hcode : r.noteFailure.code = r.code := by unfold noteFailure; split <;> rfl
    rw [hcode]; exact hr.errors
  | patterns =>
    rcases repairWithPatterns_cases o r with heq | hnew
    · rw [heq]; exact hr.errors
    · exact (hr.truthful.errorSignatures_subset hnew).trans hr.errors
  | forget => exact subset_rfl

end Run

theorem harmless_of_steps {σ : Type} {world : Surroundings σ} {o : VerifyOptions} {code : String} {state : σ}
    {r : Run σ} (hT : 86 ≤ o.requiredConfidence) (h : Run.steps world o code state = .ok r) : r.Harmless o code := by
  rcases Run.steps_reaches world o code state with ⟨m, hm⟩ | hreach
  · rw [hm] at h; cases h
  · rw [h] at hreach
    exact hreach.keeps (fun _ _ hs => hs.harmless hT) ⟨Run.truthful_of_detectAll rfl, subset_rfl⟩

/-- **The required confidence bounds what repairs may cost.** An attempt that changes the code resolves at least the
required share of its targets, so one of them at least, and introduces no more errors than the rest to a hundred pays
for; repairs by pattern introduce none. From a requirement of 86 on no verification that completes adds an error to
those of the code as given, and valid code stays valid. -/
theorem verify_confidence {o : VerifyOptions} (hpos : 1 ≤ o.requiredConfidence) {σ : Type} (world : Surroundings σ) :
    (∀ repair n (r r' : Run σ) next, r.attempt world repair o n = .ok (next, r') → r'.code ≠ r.code →
      o.requiredConfidence * r.targets.length ≤
          100 * (r.targets.filter fun f => !f.among (detectAll o.checks r'.code)).length ∧
        0 < (r.targets.filter fun f => !f.among (detectAll o.checks r'.code)).length ∧
        (errorSignatures (detectAll o.checks r'.code) \ signatures r.openFindings).encard ≤
          ((100 - o.requiredConfidence) / 15 : Nat)) ∧
    (∀ r : Run σ, (r.repairWithPatterns o).code ≠ r.code →
      errorSignatures (detectAll o.checks (r.repairWithPatterns o).code) ⊆ signatures r.openFindings) ∧
    (86 ≤ o.requiredConfidence → ∀ code state, Completes world o code state →
      errorSignatures (detectAll o.checks (verify world o code state).1.code) ⊆
          errorSignatures (detectAll o.checks code) ∧
        ((∀ f ∈ detectAll o.checks code, f.severity ≠ .error) → (verify world o code state).1.isValid = true)) := by
  refine ⟨?_, ?_, ?_⟩
  · intro repair n r r' next h hcode
    obtain ⟨answer, hr'⟩ := Run.judged_of_attempt h hcode
    rw [hr'] at hcode ⊢
    obtain ⟨hshare, hsome, hnew⟩ := Run.judge_bounds hpos hcode
    rw [Run.openFindings_answered] at hnew
    exact ⟨hshare, hsome, (encard_introduced_le _ _).trans (Nat.cast_le.mpr hnew)⟩
  · intro r hcode
    rcases Run.repairWithPatterns_cases o r with heq | hnew
    · rw [heq] at hcode
      exact absurd rfl hcode
    · exact errorSignatures_subset_of_introduced hnew
  · rintro hT code state ⟨r, hr⟩
    have hharmless := harmless_of_steps hT hr
    rw [verify_of_steps hr]
    simp only [Run.code_result]
    refine ⟨hharmless.errors, fun hvalid => ?_⟩
    have hnone : ¬ ∃ f ∈ r.findings, f.isBlocking = true := by
      rw [hharmless.truthful.blocking_iff]
      rintro ⟨f, hf, hsev⟩
      obtain ⟨g, hg, hgsev, -⟩ := hharmless.errors ⟨f, hf, hsev, rfl⟩
      exact hvalid g hg hgsev
    simpa [Run.result] using hnone

/-- Options that ask for nearly full confidence. -/
def strict : VerifyOptions := { threshold := 90 }

/-- A run about to answer for a header without its colon. -/
def colonMissing : Run Nat := Run.begun lateRepairer strict "def f()\n    pass\n" 1

/-- An answer is adopted, a repair by pattern is too, and valid code is verified. -/
theorem verify_confidence_strict :
    1 ≤ strict.requiredConfidence ∧ 86 ≤ strict.requiredConfidence ∧
    (∃ r', colonMissing.attempt lateRepairer lateRepair strict 1 = .ok (.again, r') ∧ r'.code ≠ colonMissing.code ∧
      0 < (colonMissing.targets.filter fun f => !f.among (detectAll strict.checks r'.code)).length ∧
      (errorSignatures (detectAll strict.checks r'.code) \ signatures colonMissing.openFindings).encard ≤ (0 : Nat)) ∧
    ((colonMissing.repairWithPatterns strict).code ≠ colonMissing.code ∧
      errorSignatures (detectAll strict.checks (colonMissing.repairWithPatterns strict).code) ⊆
        signatures colonMissing.openFindings) ∧
    Completes lateRepairer strict "pass\n" 0 ∧ (verify lateRepairer strict "pass\n" 0).1.isValid = true := by
  obtain ⟨hattempt, hpatterns, hverify⟩ := verify_confidence (o := strict) (by decide) lateRepairer
  refine ⟨by decide, by decide, ?_, ?_, quiet_lateRepairer.completes, ?_⟩
  · have hcode : (colonMissing.attempt lateRepairer lateRepair strict 1).toOption.map (fun c => (c.1, c.2.code)) =
        some (.again, "def f():\n    pass\n") := by decide +kernel
    cases hr : colonMissing.attempt lateRepairer lateRepair strict 1 with
    | error b => rw [hr] at hcode; cases hcode
    | ok c =>
      obtain ⟨next, r'⟩ := c
      rw [hr] at hcode
      obtain ⟨rfl, hnew⟩ := Prod.mk.inj (Option.some.inj hcode)
      have hne : r'.code ≠ colonMissing.code := by
        rw [hnew]
        decide +kernel
      exact ⟨r', rfl, hne, (hattempt lateRepair 1 colonMissing r' .again hr hne).2⟩
  · have hne : (colonMissing.repairWithPatterns strict).code ≠ colonMissing.code := by decide +kernel
    exact ⟨hne, hpatterns colonMissing hne⟩
  · have hvalid : ∀ f ∈ detectAll strict.checks "pass\n", f.severity ≠ .error := by decide +kernel
    exact (hverify (by decide) "pass\n" 0 quiet_lateRepairer.completes).2 hvalid

end AgentFlow
