import AgentFlow.Proofs.Verify.Accounting

/-!
# Where open findings come from

A finding that is still reported when code is adopted stays in the report as it was, with the line of the code on which
it was first reported. So what a verification shows as open is what has been standing (`Standing`): reported on one of
the codes that it went through, on every code since then, and not on the one before. The line is right for the code
since which the finding stands; on the code that is shown with it the problem may be elsewhere.
-/

namespace AgentFlow

variable {σ : Type} {o : VerifyOptions}

/-! ### Standing findings -/

/-- The finding was reported on one of the codes, line and all. Its problem was reported on every later one, and not on
the one before. -/
def Standing (o : VerifyOptions) (codes : List String) (f : Finding) : Prop :=
  ∃ before code after, codes = before ++ code :: after ∧ f ∈ detectAll o.checks code ∧
    (∀ later ∈ after, f.signature ∈ signatures (detectAll o.checks later)) ∧
    ∀ previous, before.getLast? = some previous → f.signature ∉ signatures (detectAll o.checks previous)

theorem Standing.isNote {codes : List String} {f : Finding} (h : Standing o codes f) : f.isNote = false := by
  obtain ⟨_, _, _, -, hf, -⟩ := h
  exact (Detect.reported_of_mem_detectAll hf).isNote

/-- What stands is still reported on the last code. -/
theorem Standing.reported {codes : List String} {f : Finding} (h : Standing o codes f) {code : String}
    (hlast : codes.getLast? = some code) : f.signature ∈ signatures (detectAll o.checks code) := by
  obtain ⟨before, first, after, rfl, hf, hafter, -⟩ := h
  rcases List.eq_nil_or_concat after with rfl | ⟨after, last, rfl⟩
  · rw [List.getLast?_concat] at hlast
    rw [← Option.some.inj hlast]
    exact ⟨f, hf, rfl⟩
  · rw [List.concat_eq_append] at hlast hafter
    rw [List.getLast?_append, List.getLast?_cons_of_ne_nil (by simp), List.getLast?_concat] at hlast
    rw [← Option.some.inj hlast]
    exact hafter last (by simp)

theorem standing_singleton {code : String} {f : Finding} : Standing o [code] f ↔ f ∈ detectAll o.checks code := by
  constructor
  · rintro ⟨before, first, after, hcodes, hf, -⟩
    obtain ⟨rfl, rfl, rfl⟩ : before = [] ∧ first = code ∧ after = [] := by
      cases before with
      | nil => simpa [eq_comm] using hcodes
      | cons b before => simp at hcodes
    exact hf
  · exact fun hf => ⟨[], code, [], rfl, hf, by simp, by simp⟩

/-- One more code: what stood stays if its problem is still reported, and what is reported anew stands from here on. -/
theorem standing_concat {codes : List String} {code : String} {f : Finding} :
    Standing o (codes ++ [code]) f ↔
      Standing o codes f ∧ f.signature ∈ signatures (detectAll o.checks code) ∨
      f ∈ detectAll o.checks code ∧
        ∀ previous, codes.getLast? = some previous → f.signature ∉ signatures (detectAll o.checks previous) := by
  constructor
  · rintro ⟨before, first, after, hcodes, hf, hafter, hbefore⟩
    rcases List.eq_nil_or_concat after with rfl | ⟨after, last, rfl⟩
    · -- it was reported on the last code
      obtain ⟨rfl, hlast⟩ := List.append_inj' hcodes rfl
      obtain rfl : code = first := by simpa using hlast
      exact .inr ⟨hf, hbefore⟩
    · -- it was reported before, and the last code is one of those after it
      rw [List.concat_eq_append, ← List.cons_append, ← List.append_assoc] at hcodes
      obtain ⟨rfl, hlast⟩ := List.append_inj' hcodes rfl
      obtain rfl : code = last := by simpa using hlast
      rw [List.concat_eq_append] at hafter
      refine .inl ⟨⟨before, first, after, rfl, hf, fun c hc => hafter c (List.mem_append_left _ hc), hbefore⟩, ?_⟩
      exact hafter code (by simp)
  · rintro (⟨⟨before, first, after, rfl, hf, hafter, hbefore⟩, hcode⟩ | ⟨hf, hbefore⟩)
    · refine ⟨before, first, after ++ [code], by simp, hf, fun c hc => ?_, hbefore⟩
      rcases List.mem_append.mp hc with hc | hc
      · exact hafter c hc
      · rw [List.mem_singleton.mp hc]
        exact hcode
    · exact ⟨codes, code, [], rfl, hf, by simp, hbefore⟩

namespace Run

/-! ### The invariant -/

/-- The run has gone through the codes, and its open findings are those that stand along them. -/
structure Shows (o : VerifyOptions) (codes : List String) (r : Run σ) : Prop where
  last : codes.getLast? = some r.code
  truthful : r.Truthful o
  shown : ∀ f, f.isNote = false → (f ∈ r.openFindings ↔ Standing o codes f)

theorem mem_openFindings {r : Run σ} {f : Finding} : f ∈ r.openFindings ↔ f ∈ r.findings ∧ f.fixed = false := by
  simp [openFindings]

/-- Once code is adopted, open is what was open and is still found, and what is found and was not open. -/
theorem mem_openFindings_adopt (r : Run σ) (code : String) {found : List Finding} (description : String)
    (confidence : Option Nat) (hfound : ∀ f ∈ found, f.fixed = false) (f : Finding) :
    f ∈ (r.adopt code found description confidence).openFindings ↔
      f ∈ r.openFindings ∧ f.signature ∈ signatures found ∨ f ∈ found ∧ f.signature ∉ signatures r.openFindings := by
  simp only [mem_openFindings]
  constructor
  · rintro ⟨hf, hopen⟩
    rcases List.mem_append.mp hf with hf | hf
    · obtain ⟨g, hg, rfl⟩ := List.mem_map.mp hf
      obtain ⟨hsame, hamong⟩ := settle_open hopen
      rw [hsame] at hopen ⊢
      exact .inl ⟨⟨hg, hopen⟩, Finding.among_iff.mp hamong⟩
    · obtain ⟨hf, hnew⟩ := List.mem_filter.mp hf
      refine .inr ⟨hf, fun ⟨g, hg, hs⟩ => ?_⟩
      obtain ⟨hg, hgopen⟩ := mem_openFindings.mp hg
      -- an open finding with the signature would have been kept
      have hkept : settle found description confidence g = g := by
        have hamong : g.among found = true := Finding.among_iff.mpr ⟨f, hf, hs.symm⟩
        simp [settle, hamong]
      have hknown :
          f.among ((r.findings.map (settle found description confidence)).filter fun f => !f.fixed) = true := by
        refine Finding.among_iff.mpr ⟨g, List.mem_filter.mpr ⟨List.mem_map.mpr ⟨g, hg, hkept⟩, ?_⟩, hs⟩
        simp [hgopen]
      simp [hknown] at hnew
  · rintro (⟨⟨hf, hopen⟩, hstill⟩ | ⟨hf, hnew⟩)
    · have hkept : settle found description confidence f = f := by
        have hamong : f.among found = true := Finding.among_iff.mpr hstill
        simp [settle, hamong]
      exact ⟨List.mem_append_left _ (List.mem_map.mpr ⟨f, hf, hkept⟩), hopen⟩
    · refine ⟨List.mem_append_right _ (List.mem_filter.mpr ⟨hf, ?_⟩), hfound f hf⟩
      rw [Bool.not_eq_true', ← Bool.not_eq_true]
      intro hknown
      obtain ⟨g, hg, hs⟩ := Finding.among_iff.mp hknown
      obtain ⟨hmem, hgopen⟩ := List.mem_filter.mp hg
      obtain ⟨g', hg', rfl⟩ := List.mem_map.mp hmem
      obtain ⟨hsame, -⟩ := settle_open (by simpa using hgopen)
      rw [hsame] at hgopen hs
      exact hnew ⟨g', mem_openFindings.mpr ⟨hg', by simpa using hgopen⟩, hs⟩

namespace Shows

variable {codes : List String} {r r' : Run σ}

theorem of_detectAll (h : r.findings = detectAll o.checks r.code) : Shows o [r.code] r where
  last := rfl
  truthful := truthful_of_detectAll h
  shown f _ := by
    rw [standing_singleton, mem_openFindings, h]
    exact ⟨fun hf => hf.1, fun hf => ⟨hf, (Detect.reported_of_mem_detectAll hf).fixed⟩⟩

theorem same (h : Shows o codes r) (hs : SameLedger r r') : Shows o codes r' where
  last := hs.code ▸ h.last
  truthful := ⟨hs.findings ▸ h.truthful.known, by rw [hs.findings, hs.code]; exact h.truthful.open_eq⟩
  shown f hf := by
    rw [← h.shown f hf, mem_openFindings, mem_openFindings, hs.findings]

/-- What stands along the codes stands along them if the last is listed once more. -/
theorem stay (h : Shows o codes r) : Shows o (codes ++ [r.code]) r where
  last := List.getLast?_concat
  truthful := h.truthful
  shown f hf := by
    rw [h.shown f hf, standing_concat]
    constructor
    · exact fun hstands => .inl ⟨hstands, hstands.reported h.last⟩
    · rintro (⟨hstands, -⟩ | ⟨hreported, hnew⟩)
      · exact hstands
      · exact absurd ⟨f, hreported, rfl⟩ (hnew _ h.last)

/-- The signatures of what is open and no note are those of what the detectors report. -/
theorem mem_signatures_iff (h : Shows o codes r) {f : Finding} (hf : f.isNote = false) :
    f.signature ∈ signatures r.openFindings ↔ f.signature ∈ signatures (detectAll o.checks r.code) := by
  rw [← h.truthful.open_eq]
  constructor
  · rintro ⟨g, hg, hs⟩
    obtain ⟨hmem, hopen⟩ := mem_openFindings.mp hg
    have hid : g.id = f.id := Finding.id_eq hs
    exact ⟨g, hmem, ⟨hopen, hid ▸ Finding.isNote_eq_false.mp hf⟩, hs⟩
  · rintro ⟨g, hg, hopen, hs⟩
    exact ⟨g, mem_openFindings.mpr ⟨hg, hopen.fixed⟩, hs⟩

theorem adopts (h : Shows o codes r) (ha : Adopts o r r') : Shows o (codes ++ [r'.code]) r' := by
  obtain ⟨description, confidence, hfindings⟩ := ha.findings
  obtain ⟨hknown, hopen⟩ := h.truthful.adopt r'.code description confidence
  refine ⟨List.getLast?_concat, ⟨hfindings ▸ hknown, hfindings ▸ hopen⟩, fun f hf => ?_⟩
  have hfixed : ∀ g ∈ detectAll o.checks r'.code, g.fixed = false :=
    fun _ hg => (Detect.reported_of_mem_detectAll hg).fixed
  rw [openFindings, hfindings]
  refine (mem_openFindings_adopt r r'.code description confidence hfixed f).trans ?_
  rw [standing_concat, h.shown f hf, h.mem_signatures_iff hf]
  refine or_congr_right (and_congr_right fun _ => ?_)
  -- the code before is the last one so far
  constructor
  · intro hnew previous hprevious
    rw [← Option.some.inj (h.last.symm.trans hprevious)]
    exact hnew
  · exact fun hnew => hnew _ h.last

theorem noteFailure (h : Shows o codes r) : Shows o codes r.noteFailure := by
  have htruthful := h.truthful.noteFailure
  unfold Run.noteFailure at htruthful ⊢
  split at htruthful
  · exact h
  · refine ⟨h.last, htruthful, fun f hf => ?_⟩
    rw [← h.shown f hf, mem_openFindings, mem_openFindings, List.mem_append]
    refine and_congr_left fun _ => or_iff_left fun hnote => ?_
    rw [List.mem_singleton.mp hnote] at hf
    cases hf

end Shows

theorem keptAlong_shows : KeptAlong o (Shows (σ := σ) o) where
  same h hs := h.same hs
  stay h := h.stay
  adopts h ha := h.adopts ha

/-! ### After some of the attempts -/

section Attempts

variable {world : Surroundings σ} {repair : σ → RepairRequest → Reply × σ} {start : Run σ}

theorem attemptCodes_eq_cons (left n : Nat) (r : Run σ) :
    ∃ rest, attemptCodes world repair o left n r = r.code :: rest := by
  cases left with
  | zero => exact ⟨[], rfl⟩
  | succ left => exact ⟨_, rfl⟩

/-- The run after `k` attempts has gone through the first `k + 1` of the codes. -/
theorem KeptAlong.attempted {P : List String → Run σ → Prop} (hP : KeptAlong o P) (h : P [start.code] start) {k : Nat}
    {r : Run σ} (ha : Attempted world repair o start k r) (hk : k ≤ o.maxAttempts) :
    ∃ codes, codes.length = k ∧ P (codes ++ [r.code]) r ∧
      attemptCodes world repair o o.maxAttempts 1 start =
        codes ++ attemptCodes world repair o (o.maxAttempts - k) (k + 1) r := by
  induction ha with
  | start => exact ⟨[], rfl, h, rfl⟩
  | @again n r r' _ hr ih =>
    obtain ⟨codes, hlen, hcodes, heq⟩ := ih (by omega)
    have hleft : o.maxAttempts - n = o.maxAttempts - (n + 1) + 1 := by omega
    refine ⟨codes ++ [r.code], by simp [hlen], hP.again hcodes hr, ?_⟩
    rw [heq, hleft, attemptCodes, hr, List.append_assoc]
    rfl

/-- After some attempts a run shows what stands along the codes up to then. -/
theorem Shows.attempted (h : Shows o [start.code] start) {k : Nat} {r : Run σ}
    (ha : Attempted world repair o start k r) (hk : k ≤ o.maxAttempts) :
    (attemptCodes world repair o o.maxAttempts 1 start)[k]? = some r.code ∧
      Shows o ((attemptCodes world repair o o.maxAttempts 1 start).take (k + 1)) r := by
  obtain ⟨codes, rfl, hshows, heq⟩ := keptAlong_shows.attempted h ha hk
  obtain ⟨rest, hrest⟩ : ∃ rest, attemptCodes world repair o (o.maxAttempts - codes.length) (codes.length + 1) r =
      r.code :: rest := attemptCodes_eq_cons ..
  rw [heq, hrest]
  refine ⟨by simp, ?_⟩
  rw [List.append_cons, List.take_left' (by simp)]
  exact hshows

/-- What the repairer is asked about is what stands and may be repaired. -/
theorem Shows.mem_targets {codes : List String} {r : Run σ} (h : Shows o codes r) (f : Finding) :
    f ∈ r.targets ↔ f.fixable = true ∧ Standing o codes f := by
  have htarget : f ∈ r.targets ↔ f.fixable = true ∧ f ∈ r.openFindings := by
    rw [mem_openFindings, targets, List.mem_filter, Bool.and_eq_true, Bool.not_eq_true']
    tauto
  rw [htarget]
  refine and_congr_right fun hfix => ?_
  constructor
  · intro hf
    obtain ⟨hmem, hopen⟩ := mem_openFindings.mp hf
    have hnote : f.isNote = false :=
      Finding.isNote_eq_false.mpr ((h.truthful.known f hmem).isOpen hopen (.inr hfix)).id
    exact (h.shown f hnote).mp hf
  · exact fun hf => (h.shown f hf.isNote).mpr hf

/-! ### After all attempts -/

variable {r r' : Run σ}

theorem repairWithModel_shows {c : Bool × Run σ} (hstart : Shows o [start.code] start)
    (hc : start.repairWithModel world o = .ok c) : Shows o (start.codesTried world o) c.2 := by
  obtain ⟨r, hshows, -, hr⟩ := keptAlong_shows.repairWithModel hstart hc
  rcases hr with hr | hr
  · rw [hr]
    exact hshows
  · rw [hr]
    exact hshows.noteFailure

/-- So it does after the repairs by pattern. -/
theorem concluded_shows {given : String} {tried : List String} (h : Shows o tried r)
    (hc : concluded world o given false r = .ok r') : Shows o (tried ++ [r'.code]) r' := by
  simp only [concluded, Bool.false_eq_true, if_false] at hc
  split_ifs at hc
  · cases hr : r.report world .patternFixing 80 "Applying pattern fixes" with
    | error b => rw [hr] at hc; cases hc
    | ok r₁ =>
      rw [hr] at hc
      obtain ⟨rfl, -⟩ := report_eq_ok hr
      have htold : Shows o tried (r.told .patternFixing 80 "Applying pattern fixes") := h.same ⟨rfl, rfl, rfl⟩
      rw [← Except.ok.inj hc]
      rcases repairWithPatterns_ledger o (r.told .patternFixing 80 "Applying pattern fixes") with hs | ha
      · exact (htold.same hs).stay
      · exact htold.adopts ha
  · rw [← Except.ok.inj hc]
    exact h.stay

end Attempts

end Run

/-! ### The result -/

section Result

variable (world : Surroundings σ) (o : VerifyOptions) (code : String) (state : σ)

theorem shows_begun : (Run.begun world o code state).Shows o [(Run.begun world o code state).code] :=
  Run.Shows.of_detectAll rfl

/-- Without a repairer to be asked there are no requests. -/
theorem exists_asks_of_requests (h : (verify world o code state).2.requests ≠ []) :
    ∃ repair, (Run.begun world o code state).Asks world o repair := by
  by_contra hasks
  rw [run_verify] at h
  refine h (Run.steps_rule (Q := fun x => (Run.ending x).requests = []) (fun _ => rfl) (fun _ => ?_) id
    (Run.sameLog_repairWithPatterns o _).requests.trans fun stage percent message => ?_)
  · rw [Run.repairWithModel_of_not_asks hasks]
    rfl
  · exact (Run.requests_report _ stage percent message).trans

/-- The attempts end as cancelled exactly if one of them notices. -/
theorem cancelNoticed_iff_of_repaired {cancelled : Bool} {r : Run σ}
    (h : (Run.begun world o code state).repairWithModel world o = .ok (cancelled, r)) :
    CancelNoticed world o code state ↔ cancelled = true := by
  by_cases hasks : ∃ repair, (Run.begun world o code state).Asks world o repair
  · obtain ⟨repair, hasks⟩ := hasks
    rw [hasks.repairWithModel_eq] at h
    cases hd : Run.attempts world repair o o.maxAttempts 1 (Run.begun world o code state) with
    | error b => rw [hd] at h; cases h
    | ok d =>
      rw [hd] at h
      obtain ⟨noticed, r'⟩ := d
      have hflag : noticed = cancelled := by
        cases noticed <;> exact congrArg Prod.fst (Except.ok.inj h)
      subst hflag
      constructor
      · rintro ⟨repair', k, r'', hasks', hk, ha, hnotices⟩
        obtain rfl : repair = repair' := Option.some.inj (hasks.repairer.symm.trans hasks'.repairer)
        rcases Run.attempts_of_notices ha hk hnotices with ⟨_, hok⟩ | ⟨_, herror⟩
        · rw [hd] at hok
          exact congrArg Prod.fst (Except.ok.inj hok)
        · rw [hd] at herror
          cases herror
      · rintro rfl
        obtain ⟨k, r'', ha, hk, hnotices⟩ := Run.exists_notices_of_attempts .start (Nat.zero_add _).le hd
        exact ⟨repair, k, r'', hasks, hk, ha, hnotices⟩
  · rw [Run.repairWithModel_of_not_asks hasks] at h
    have hflag : false = cancelled := congrArg Prod.fst (Except.ok.inj h)
    subst hflag
    exact ⟨fun ⟨repair, _, _, hasks', _⟩ => absurd ⟨repair, hasks'⟩ hasks, by simp⟩

/-- A verification that notices a cancellation starts over with the code as given. -/
theorem findings_of_noticed {r : Run σ} (h : Run.steps world o code state = .ok r)
    (hcancel : CancelNoticed world o code state) : r.code = code ∧ r.findings = detectAll o.checks code := by
  obtain ⟨cancelled, r₁, r₂, hc, hr, rfl⟩ := Run.steps_eq_ok h
  obtain rfl := (cancelNoticed_iff_of_repaired world o code state hc).mp hcancel
  obtain rfl : r₁.forget o code = r₂ := Except.ok.inj hr
  exact ⟨rfl, rfl⟩

/-- A verification that completes and does not notice a cancellation shows what stands along the codes that it tried and
the one that it returns. -/
theorem shows_of_steps {r : Run σ} (h : Run.steps world o code state = .ok r)
    (hcancel : ¬ CancelNoticed world o code state) : r.Shows o (codesTried world o code state ++ [r.code]) := by
  obtain ⟨cancelled, r₁, r₂, hc, hr, rfl⟩ := Run.steps_eq_ok h
  have hshows := Run.repairWithModel_shows (shows_begun world o code state) hc
  obtain rfl : cancelled = false :=
    Bool.eq_false_iff.mpr (mt (cancelNoticed_iff_of_repaired world o code state hc).mpr hcancel)
  exact (Run.concluded_shows hshows hr).same ⟨rfl, rfl, rfl⟩

/-- **Open findings show the line of the code since which they stand.** Request `k + 1` carries the code after `k`
attempts, and exactly those repairable findings that stand along the codes up to it. A verification that completes shows
as open what stands along the codes that it tried and the one that it returns; if it noticed a cancellation, what the
detectors report about the code as given. -/
theorem verify_shows_standing :
    (∀ k q w, (verify world o code state).2.requests[k]? = some (q, w) →
      (codesTried world o code state)[k]? = some q.code ∧
      ∀ f, f ∈ q.findings ↔ f.fixable = true ∧ Standing o ((codesTried world o code state).take (k + 1)) f) ∧
    (Completes world o code state → ¬ CancelNoticed world o code state → ∀ f : Finding, f.isNote = false →
      (f ∈ (verify world o code state).1.findings ∧ f.fixed = false ↔
        Standing o (codesTried world o code state ++ [(verify world o code state).1.code]) f)) ∧
    (Completes world o code state → CancelNoticed world o code state →
      (verify world o code state).1.code = code ∧
        (verify world o code state).1.findings = detectAll o.checks code) := by
  refine ⟨fun k q w hk => ?_, fun ⟨r, hr⟩ hcancel f hf => ?_, fun ⟨r, hr⟩ hcancel => ?_⟩
  · obtain ⟨hlt, -⟩ := List.getElem?_eq_some_iff.mp hk
    obtain ⟨repair, hasks⟩ := exists_asks_of_requests world o code state (List.ne_nil_of_length_pos (by omega))
    have hsent := Run.sent_steps world o code state
    have hbounded := Run.bounded_steps world o code state
    rw [← run_verify] at hsent hbounded
    obtain ⟨repair', r, hw, ha, rfl, -⟩ := hsent k q w hk
    obtain rfl : repair = repair' := Option.some.inj (hasks.repairer.symm.trans hw)
    have hmax : k ≤ o.maxAttempts := hlt.le.trans hbounded.requests
    obtain ⟨hcode, hshows⟩ := (shows_begun world o code state).attempted ha hmax
    rw [codesTried, hasks.codesTried_eq]
    exact ⟨hcode, hshows.mem_targets⟩
  · have hshows := shows_of_steps world o code state hr hcancel
    rw [verify_of_steps hr, Run.code_result, ← hshows.shown f hf, Run.mem_openFindings]
    rfl
  · rw [verify_of_steps hr, Run.code_result]
    exact findings_of_noticed world o code state hr hcancel

/-- A world without a repairer. -/
def unaided : Surroundings Unit := {}

/-- A repair by pattern adds an import on top: the finding that it leaves keeps its line, and the problem moves down. -/
theorem kept_finding_shows_old_line :
    ((verify unaided {} "asyncio.x\nawait f()\n" ()).1.findings.filter fun f => !f.fixed).map
        (fun f => (f.id, f.line)) = [("await-outside-async", some 2)] ∧
      (detectAll {} (verify unaided {} "asyncio.x\nawait f()\n" ()).1.code).map (fun f => (f.id, f.line)) =
        [("await-outside-async", some 3)] := by
  decide +kernel

end Result

end AgentFlow
