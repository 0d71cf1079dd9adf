import AgentFlow.Proofs.PatternFix
import AgentFlow.Proofs.Verify.Confidence
import AgentFlow.Proofs.Verify.Standing

/-!
# Verifying the code of a result again

Without a repairer, a verification of the code that an earlier one returned leaves it as it is. If the earlier one did
not change the code, it is the same verification. If it adopted the repairs by pattern, they introduced no error, so
what asks for a repair now, a tab apart, asked for it then; and what asked for it then is cured. A tab is only a
warning, but repairs bring no tab into code without one.
-/

namespace AgentFlow

variable {σ : Type} {o : VerifyOptions}

/-- No repairer takes part in the verification. -/
def Unaided (world : Surroundings σ) (o : VerifyOptions) : Prop := world.repairer = none ∨ o.modelFixes = false

/-- What a verification may try a repair for at its start. -/
def firstTargets (o : VerifyOptions) (code : String) : List Finding :=
  (detectAll o.checks code).filter fun f => !f.fixed && f.fixable

/-- The repairs by pattern that a verification tries. -/
def mending (o : VerifyOptions) (code : String) : PatternFix :=
  PatternFix.apply code (firstTargets o code) o.credential

/-- The repairs by pattern make the second code of the first one, and a verification adopts it. -/
structure Mends (o : VerifyOptions) (code mended : String) : Prop where
  code_eq : (mending o code).code = mended
  applied : (mending o code).applied ≠ []
  harmless : introducedErrors (detectAll o.checks code) (detectAll o.checks mended) = 0

/-! ### Repairs of mended code -/

/-- What asks for a repair by pattern may be repaired, and is an error unless it is a tab. -/
theorem traits_of_asking :
    ∀ t ∈ Detect.traits, t.1 ∈ PatternFix.asking → t.2.2 = true ∧ (t.1 ≠ "tab-indentation" → t.2.1 = .error) := by
  decide

theorem asks_firstTargets {code : String} {f : Finding} (hf : f ∈ detectAll o.checks code)
    (hid : f.id ∈ PatternFix.asking) : PatternFix.asks (firstTargets o code) f.id = true := by
  have hreported := Detect.reported_of_mem_detectAll hf
  have hfixable := (traits_of_asking _ hreported.traits hid).1
  refine PatternFix.asks_iff.mpr ⟨f, List.mem_filter.mpr ⟨hf, ?_⟩, hreported.fixed, rfl⟩
  rw [hreported.fixed, Bool.not_false, Bool.true_and]
  exact hfixable

theorem exists_of_asks_firstTargets {code id : String} (h : PatternFix.asks (firstTargets o code) id = true) :
    ∃ f ∈ detectAll o.checks code, f.id = id := by
  obtain ⟨f, hf, -, hid⟩ := PatternFix.asks_iff.mp h
  exact ⟨f, (List.mem_filter.mp hf).1, hid⟩

namespace Mends

variable {code mended : String}

/-- An error that asks for a repair of the mended code asked for it before, since no error is new. -/
theorem asks_before (h : Mends o code mended) {id : String} (hid : id ∈ PatternFix.asking)
    (htab : id ≠ "tab-indentation") (hasks : PatternFix.asks (firstTargets o mended) id = true) :
    PatternFix.asks (firstTargets o code) id = true := by
  obtain ⟨f, hf, rfl⟩ := exists_of_asks_firstTargets hasks
  have herror := (traits_of_asking _ (Detect.reported_of_mem_detectAll hf).traits hid).2 htab
  obtain ⟨g, hg, hs⟩ := errorSignatures_subset_of_introduced h.harmless ⟨f, hf, herror, rfl⟩
  have hsame : g.id = f.id := Finding.id_eq hs
  exact hsame ▸ asks_firstTargets hg (hsame ▸ hid)

theorem not_asks (h : Mends o code mended) (hcredential : Text.nonBlank o.credential = none) {id : String}
    (hid : id ∈ PatternFix.cured) (hbefore : PatternFix.asks (firstTargets o code) id = true) :
    PatternFix.asks (firstTargets o mended) id = false := by
  rw [← Bool.not_eq_true]
  intro hasks
  obtain ⟨f, hf, hfid⟩ := exists_of_asks_firstTargets hasks
  rw [← h.code_eq] at hf
  exact PatternFix.id_ne_of_asks hid hcredential hbefore code o.checks f hf hfid

/-- Repairs bring no tab into code without one, and blank code is not mended. -/
theorem not_asks_tab (h : Mends o code mended) (hcredential : Text.nonBlank o.credential = none) :
    PatternFix.asks (firstTargets o mended) "tab-indentation" = false := by
  by_cases hbefore : PatternFix.asks (firstTargets o code) "tab-indentation" = true
  · exact h.not_asks hcredential (by decide) hbefore
  rw [← Bool.not_eq_true]
  intro hasks
  obtain ⟨f, hf, hid⟩ := exists_of_asks_firstTargets hasks
  obtain ⟨c, hc, hgrounds, -⟩ := Detect.grounded_of_mem_detectAll hf
  have hform : o.checks.enabled .form = true := PatternFix.category_of_tab hgrounds hid ▸ hc
  -- blank code is left as it is, but this code was mended
  have hcode : code.toList.all Text.isBlank = false := by
    rw [← Bool.not_eq_true]
    intro hblank
    have hself : mending o code = { code := code } :=
      PatternFix.apply_of_blank hcredential (fun f hf => (List.mem_filter.mp hf).1) hblank
    exact h.applied (congrArg PatternFix.applied hself)
  have hfree : PatternFix.Free (Text.startsWith "\t") code := by
    by_contra hno
    obtain ⟨g, hg, hgid⟩ := PatternFix.tab_reported hform hcode hno
    exact hbefore (hgid ▸ asks_firstTargets hg (hgid ▸ by decide))
  have hmended : PatternFix.Free (Text.startsWith "\t") (mending o code).code :=
    PatternFix.free_tab_apply hcredential (.inr hfree)
  rw [h.code_eq] at hmended
  exact PatternFix.id_ne_of_free_tab hmended hgrounds hid

/-- Mended code is left as it is. -/
theorem mending_eq (h : Mends o code mended) (hcredential : Text.nonBlank o.credential = none) :
    mending o mended = { code := mended } := by
  refine PatternFix.apply_eq_self hcredential (fun hfence => ?_) fun id hid => ?_
  · have hfree : PatternFix.Free Source.isFence (mending o code).code :=
      PatternFix.free_fence_apply hcredential (h.asks_before List.mem_cons_self (by decide) hfence)
    rw [h.code_eq] at hfree
    exact List.any_eq_false.mpr fun l hl => Bool.eq_false_iff.mp (hfree l hl)
  · by_cases htab : id = "tab-indentation"
    · rw [htab]
      exact h.not_asks_tab hcredential
    · rw [← Bool.not_eq_true]
      intro hasks
      have hbefore := h.asks_before (List.mem_cons_of_mem _ hid) htab hasks
      exact Bool.false_ne_true ((h.not_asks hcredential hid hbefore).symm.trans hasks)

end Mends

/-! ### Runs without a repairer -/

namespace Run

theorem openFindings_of_detectAll {r : Run σ} (h : r.findings = detectAll o.checks r.code) :
    r.openFindings = detectAll o.checks r.code := by
  rw [openFindings, h]
  exact List.filter_eq_self.mpr fun f hf => by simp [(Detect.reported_of_mem_detectAll hf).fixed]

theorem mends_of_adopts {r : Run σ} (hr : r.findings = detectAll o.checks r.code)
    (h : Adopts o r (r.repairWithPatterns o)) : Mends o r.code (r.repairWithPatterns o).code := by
  have hcode := h.code
  have hfix : PatternFix.apply r.code r.targets o.credential = mending o r.code := by
    rw [targets, hr]
    rfl
  unfold repairWithPatterns at hcode ⊢
  simp only [hfix, openFindings_of_detectAll hr] at hcode ⊢
  split_ifs at hcode ⊢ with hsame hnew
  · exact absurd rfl hcode
  · exact absurd rfl hcode
  · exact ⟨rfl, fun hempty => hsame (by simp [hempty]), Nat.eq_zero_of_not_pos hnew⟩

section Unaided

variable {world : Surroundings σ} {code : String} {state : σ}

theorem steps_of_unaided (hu : Unaided world o) (hl : world.listener 1 = none) :
    steps world o code state = (concluded world o code false (begun world o code state)).bind (closed world) := by
  have hasks : ¬ ∃ repair, (begun world o code state).Asks world o repair := by
    rintro ⟨repair, hrepairer, hmodel, -⟩
    rcases hu with hnone | hoff
    · rw [hnone] at hrepairer
      cases hrepairer
    · rw [hoff] at hmodel
      cases hmodel
  rcases steps_cases world o code state with ⟨m, hm, -⟩ | ⟨-, hsteps⟩
  · rw [hl] at hm
    cases hm
  · rw [hsteps, repairWithModel_of_not_asks hasks]
    rfl

/-- The first three reports are heard. -/
def Heard (world : Surroundings σ) : Prop :=
  world.listener 1 = none ∧ world.listener 2 = none ∧ world.listener 3 = none

/-- Without a repairer a run keeps its ledger, or the repairs by pattern mend its code. -/
theorem unaided_cases (hu : Unaided world o) {r : Run σ} (h : steps world o code state = .ok r) :
    SameLedger (begun world o code state) r ∨
      Adopts o (begun world o code state) r ∧ Mends o code r.code ∧ Heard world := by
  have hfirst : world.listener 1 = none := by
    rcases steps_cases world o code state with ⟨m, -, hm⟩ | ⟨hl, -⟩
    · rw [hm] at h
      cases h
    · exact hl
  rw [steps_of_unaided hu hfirst] at h
  unfold concluded at h
  rw [if_neg Bool.false_ne_true] at h
  split_ifs at h
  · cases hr : (begun world o code state).report world .patternFixing 80 "Applying pattern fixes" with
    | error b => rw [hr] at h; cases h
    | ok r₀ =>
      rw [hr] at h
      obtain ⟨rfl, hsecond⟩ := report_eq_ok hr
      obtain ⟨rfl, hthird⟩ := report_eq_ok h
      rw [(sameLog_repairWithPatterns o _).reports] at hthird
      set r₀ := (begun world o code state).told .patternFixing 80 "Applying pattern fixes" with hr₀
      rcases repairWithPatterns_ledger o r₀ with hsame | hadopts
      · exact .inl ⟨hsame.code, hsame.findings, hsame.fixes⟩
      · refine .inr ⟨⟨hadopts.code, hadopts.findings, hadopts.fixes⟩, ?_, hfirst, hsecond, hthird⟩
        exact mends_of_adopts rfl hadopts
  · obtain ⟨rfl, -⟩ := report_eq_ok h
    exact .inl ⟨rfl, rfl, rfl⟩

theorem completes_of_heard (hu : Unaided world o) (h : Heard world) : Completes world o code state := by
  obtain ⟨hfirst, hsecond, hthird⟩ := h
  unfold Completes
  rw [steps_of_unaided hu hfirst]
  unfold concluded
  rw [if_neg Bool.false_ne_true]
  split_ifs
  · have hheard : (begun world o code state).report world .patternFixing 80 "Applying pattern fixes" =
        .ok ((begun world o code state).told .patternFixing 80 "Applying pattern fixes") := report_of_heard hsecond
    rw [hheard]
    refine ⟨_, report_of_heard ?_⟩
    rw [(sameLog_repairWithPatterns o _).reports]
    exact hthird
  · exact ⟨_, report_of_heard hsecond⟩

theorem untouched_of_sameLedger {r : Run σ} (h : SameLedger (begun world o code state) r) :
    (r.result code).Untouched code where
  fixedCode := if_pos h.code
  code := (code_result code r).trans h.code
  findings f hf := by
    have hmem : f ∈ r.findings := hf
    rw [h.findings] at hmem
    exact (Detect.reported_of_mem_detectAll hmem).fixed
  fixesApplied := h.fixes

/-- A repairer that is not asked cannot fail. -/
theorem notes_of_unaided (hu : Unaided world o) {r : Run σ} (h : steps world o code state = .ok r) : r.notes = [] := by
  rcases unaided_cases hu h with hsame | ⟨hadopts, -⟩
  · rw [notes, hsame.findings]
    exact notes_begun world o code state
  · have hlength := hadopts.notes.1
    rw [notes_begun world o code state] at hlength
    exact List.eq_nil_of_length_eq_zero hlength

end Unaided

end Run

section Result

variable {world : Surroundings σ} {code : String} {state : σ}

/-- Without a repairer, a verification leaves the code or mends it, and it mends it only if all reports are heard. -/
theorem untouched_or_mends (hu : Unaided world o) :
    (verify world o code state).1.Untouched code ∨
      Completes world o code state ∧ Mends o code (verify world o code state).1.code ∧ Run.Heard world := by
  cases h : Run.steps world o code state with
  | error b =>
    rw [verify_of_broken world o code state h]
    exact .inl (b.untouched code)
  | ok r =>
    rw [verify_of_steps h, Run.code_result]
    rcases Run.unaided_cases hu h with hsame | ⟨-, hmends, hheard⟩
    · exact .inl (Run.untouched_of_sameLedger hsame)
    · exact .inr ⟨⟨r, h⟩, hmends, hheard⟩

/-- Without a repairer there is no note, so what is not marked is open. -/
theorem openSignatures_of_unaided (hu : Unaided world o) (h : Completes world o code state) :
    openSignatures (verify world o code state).1.findings =
      signatures ((verify world o code state).1.findings.filter fun f => !f.fixed) := by
  obtain ⟨r, hr⟩ := h
  rw [verify_of_steps hr]
  have hnotes : ∀ f ∈ r.findings, f.isNote = false := fun f hf => by
    simpa using List.filter_eq_nil_iff.mp (Run.notes_of_unaided hu hr) f hf
  ext s
  constructor
  · rintro ⟨f, hf, hopen, hs⟩
    exact ⟨f, List.mem_filter.mpr ⟨hf, by simp [hopen.fixed]⟩, hs⟩
  · rintro ⟨f, hf, hs⟩
    obtain ⟨hmem, hfixed⟩ := List.mem_filter.mp hf
    exact ⟨f, hmem, ⟨by simpa using hfixed, Finding.isNote_eq_false.mp (hnotes f hmem)⟩, hs⟩

theorem VerificationResult.Untouched.filter_findings {result : VerificationResult} {given : String}
    (h : result.Untouched given) : (result.findings.filter fun f => !f.fixed) = result.findings :=
  List.filter_eq_self.mpr fun f hf => by simp [h.findings f hf]

/-- **Without a repairer, a second verification changes nothing.** Whatever the code, the checks and the listener, if no
credential is given and no repairer takes part, verifying the code of the result again gives no other code, repairs
nothing, and finds what the first result does not mark as repaired. -/
theorem verify_again_unchanged (world : Surroundings σ) (o : VerifyOptions) (code : String) (state : σ)
    (hrepairer : world.repairer = none ∨ o.modelFixes = false) (hcredential : Text.nonBlank o.credential = none) :
    (verify world o (verify world o code state).1.code state).1.fixedCode = none ∧
      (verify world o (verify world o code state).1.code state).1.metadata.fixesApplied = 0 ∧
      signatures (verify world o (verify world o code state).1.code state).1.findings =
        signatures ((verify world o code state).1.findings.filter fun f => !f.fixed) := by
  rcases untouched_or_mends hrepairer with huntouched | ⟨hcompletes, hmends, hheard⟩
  · -- the second verification is the first one
    rw [huntouched.code, huntouched.filter_findings]
    exact ⟨huntouched.fixedCode, huntouched.fixesApplied, rfl⟩
  · have htruth := openSignatures_verify hcompletes
    have hopen := openSignatures_of_unaided hrepairer hcompletes
    generalize (verify world o code state).1.code = mended at hmends htruth ⊢
    have hcompletes' : Completes world o mended state := Run.completes_of_heard hrepairer hheard
    -- mending the mended code applies nothing
    rcases untouched_or_mends hrepairer with huntouched | ⟨-, hmends', -⟩
    · refine ⟨huntouched.fixedCode, huntouched.fixesApplied, ?_⟩
      have htruth' := openSignatures_verify hcompletes'
      rw [huntouched.code] at htruth'
      rw [← hopen, htruth, ← htruth', openSignatures_of_unaided hrepairer hcompletes', huntouched.filter_findings]
    · exact absurd (congrArg PatternFix.applied (hmends.mending_eq hcredential)) hmends'.applied

/-- A main function that is never run is repaired by the first verification. -/
theorem verify_again_idleMain :
    (unaided.repairer = none ∨ ({} : VerifyOptions).modelFixes = false) ∧
      Text.nonBlank ({} : VerifyOptions).credential = none ∧
      (verify unaided {} (verify unaided {} PatternFix.idleMain ()).1.code ()).1.fixedCode = none ∧
      (verify unaided {} (verify unaided {} PatternFix.idleMain ()).1.code ()).1.metadata.fixesApplied = 0 ∧
      signatures (verify unaided {} (verify unaided {} PatternFix.idleMain ()).1.code ()).1.findings =
        signatures ((verify unaided {} PatternFix.idleMain ()).1.findings.filter fun f => !f.fixed) :=
  ⟨.inl rfl, rfl, verify_again_unchanged unaided {} PatternFix.idleMain () (.inl rfl) rfl⟩

end Result

end AgentFlow
