import Mathlib.Data.List.Basic
import AgentFlow.Proofs.Verify.Cancel

/-!
# What counts as repaired

A verification marks findings as repaired when it adopts code, and counts them. The codes that it goes through are
those before each attempt, the one after the last and the one that it returns (`Run.codesTried`); along them a run is
`Accounted`: what is open was reported on one of the codes, what is marked was still reported on one code and not on the
next, and what is counted is what is marked. Each attempt keeps this, and so do the repairs by pattern. They mark one
finding too many, though: the note that the repairer failed is no finding of a detector, so it is missing from what the
detectors report on any code that is adopted after it.
-/

namespace AgentFlow

variable {σ : Type} {o : VerifyOptions}

/-- The finding is the note that the repairer failed. -/
def Finding.isNote (f : Finding) : Bool := f.id == "repair-service-unavailable"

theorem Finding.isNote_eq_false {f : Finding} : f.isNote = false ↔ f.id ≠ "repair-service-unavailable" := by
  simp [Finding.isNote]

theorem Detect.Reported.isNote {f : Finding} (h : Detect.Reported f) : f.isNote = false :=
  Finding.isNote_eq_false.mpr h.isOpen.id

/-- A detector reports the finding on one of the codes. -/
def Seen (o : VerifyOptions) (codes : List String) (f : Finding) : Prop :=
  ∃ code ∈ codes, f ∈ detectAll o.checks code

/-- The finding, before it was marked, was seen on one of the codes; it was still reported on that code or a later one
and not any more on the next. -/
def Settled (o : VerifyOptions) (codes : List String) (f : Finding) : Prop :=
  ∃ before code next after, codes = before ++ code :: next :: after ∧
    (∃ g description confidence, Seen o (before ++ [code]) g ∧ f = g.markFixed description confidence) ∧
    f.signature ∈ signatures (detectAll o.checks code) ∧ f.signature ∉ signatures (detectAll o.checks next)

theorem Seen.append {codes : List String} {f : Finding} (h : Seen o codes f) (more : List String) :
    Seen o (codes ++ more) f := by
  obtain ⟨code, hcode, hf⟩ := h
  exact ⟨code, List.mem_append_left more hcode, hf⟩

theorem Settled.append {codes : List String} {f : Finding} (h : Settled o codes f) (more : List String) :
    Settled o (codes ++ more) f := by
  obtain ⟨before, code, next, after, rfl, hf⟩ := h
  refine ⟨before, code, next, after ++ more, ?_, hf⟩
  simp only [List.append_assoc, List.cons_append]

namespace Run

/-! ### The codes of a run -/

section Codes

variable (world : Surroundings σ) (repair : σ → RepairRequest → Reply × σ) (o : VerifyOptions)

/-- The codes before each of the attempts from number `n` on, `left` of them, and after the last. -/
def attemptCodes : Nat → Nat → Run σ → List String
  | 0, _, r => [r.code]
  | left + 1, n, r =>
    r.code ::
      match r.attempt world repair o n with
      | .ok (.again, r') => attemptCodes left (n + 1) r'
      | _ => []

/-- The codes that the run goes through while the repairer works. -/
def codesTried (r : Run σ) : List String :=
  match world.repairer with
  | none => [r.code]
  | some repair => if o.modelFixes then attemptCodes world repair o o.maxAttempts 1 r else [r.code]

variable {world repair o} {r : Run σ}

theorem Asks.codesTried_eq (h : r.Asks world o repair) :
    r.codesTried world o = attemptCodes world repair o o.maxAttempts 1 r := by
  simp only [codesTried, h.repairer, h.modelFixes, if_true]

theorem codesTried_of_not_asks (h : ¬ ∃ repair, r.Asks world o repair) : r.codesTried world o = [r.code] := by
  unfold codesTried
  split
  · rfl
  next repair hw =>
    split_ifs with hon
    · have hidle : r.targets = [] := by
        by_contra ht
        exact h ⟨repair, hw, hon, ht⟩
      -- the first attempt, if there is one, finds nothing to ask for
      cases o.maxAttempts with
      | zero => rfl
      | succ left => rw [attemptCodes, attempt_of_idle hidle]
    · rfl

end Codes

/-! ### What moves the ledger -/

/-- The notes among the findings. -/
def notes (r : Run σ) : List Finding := r.findings.filter (·.isNote)

/-- The runs agree on the code, on the findings and on how many of them are counted as repaired. -/
structure SameLedger (r r' : Run σ) : Prop where
  code : r'.code = r.code
  findings : r'.findings = r.findings
  fixes : r'.modelFixes + r'.patternFixes = r.modelFixes + r.patternFixes

/-- The second run has adopted other code than that of the first, and counts what that settles. -/
structure Adopts (o : VerifyOptions) (r r' : Run σ) : Prop where
  code : r'.code ≠ r.code
  findings : ∃ description confidence,
    r'.findings = (r.adopt r'.code (detectAll o.checks r'.code) description confidence).findings
  fixes : r'.modelFixes + r'.patternFixes = r.modelFixes + r.patternFixes + r.resolvedBy (detectAll o.checks r'.code)

/-- Judging an answer leaves the ledger as it is or adopts the code of the answer. -/
theorem judge_ledger (r : Run σ) (targeted : List Finding) (answer : RepairResponse) :
    SameLedger r (r.judge o targeted answer) ∨ Adopts o r (r.judge o targeted answer) := by
  unfold judge
  dsimp only
  split_ifs with hsame hlow
  · exact .inl ⟨rfl, rfl, rfl⟩
  · exact .inl ⟨rfl, rfl, rfl⟩
  · -- the codes differ even without the blanks around them
    refine .inr ⟨fun hcode => hsame ?_, ⟨_, _, rfl⟩, ?_⟩
    · have hstrip : Text.strip (Source.clean answer.code) = Text.strip r.code := congrArg Text.strip hcode
      simp [hstrip]
    · simp only [adopt]
      exact Nat.add_right_comm _ _ _

theorem repairWithPatterns_ledger (o : VerifyOptions) (r : Run σ) :
    SameLedger r (r.repairWithPatterns o) ∨ Adopts o r (r.repairWithPatterns o) := by
  unfold repairWithPatterns
  dsimp only
  split_ifs with hsame hnew
  · exact .inl ⟨rfl, rfl, rfl⟩
  · exact .inl ⟨rfl, rfl, rfl⟩
  · refine .inr ⟨fun hcode => hsame ?_, ⟨_, _, rfl⟩, ?_⟩
    · have hcode' : (PatternFix.apply r.code r.targets o.credential).code = r.code := hcode
      simp [hcode']
    · show r.modelFixes + (r.patternFixes + r.resolvedBy _) = _
      exact (Nat.add_assoc _ _ _).symm

/-- An attempt adopts code only if another is to follow. -/
theorem attempt_ledger {world : Surroundings σ} {repair : σ → RepairRequest → Reply × σ} {n : Nat} {r r' : Run σ}
    {next : Next} (h : r.attempt world repair o n = .ok (next, r')) :
    SameLedger r r' ∨ next = .again ∧ Adopts o r r' := by
  have hspec := attempt_spec world repair o n r
  rw [h] at hspec
  generalize hx : (Except.ok (next, r') : Except (Broken σ) (Next × Run σ)) = x at hspec
  cases hspec with
  | idle => cases hx; exact .inl ⟨rfl, rfl, rfl⟩
  | stopped => cases hx; exact .inl ⟨rfl, rfl, rfl⟩
  | unheard => cases hx
  | hung => cases hx; exact .inl ⟨rfl, rfl, rfl⟩
  | broke => cases hx
  | failed _ _ e =>
    rcases afterFailure_cases world o n (r.called repair o n) e with ⟨_, -, heq⟩ | ⟨-, ms, heq⟩
    · rw [heq] at hx
      cases hx
      exact .inl ⟨rfl, rfl, rfl⟩
    · rw [heq] at hx
      cases hx
      exact .inl ⟨rfl, rfl, rfl⟩
  | unchecked => cases hx
  | judged _ _ _ answer =>
    cases hx
    rcases judge_ledger (o := o) (r.answered repair o n) r.targets answer with hsame | hadopts
    · exact .inl ⟨hsame.code, hsame.findings, hsame.fixes⟩
    · exact .inr ⟨rfl, hadopts.code, hadopts.findings, hadopts.fixes⟩

/-- What holds of a run and the codes that it has gone through, and goes on to hold while the repairer works. -/
structure KeptAlong (o : VerifyOptions) (P : List String → Run σ → Prop) : Prop where
  same : ∀ {codes r r'}, P codes r → SameLedger r r' → P codes r'
  /-- The code may be listed once more. -/
  stay : ∀ {codes r}, P codes r → P (codes ++ [r.code]) r
  adopts : ∀ {codes r r'}, P codes r → Adopts o r r' → P (codes ++ [r'.code]) r'

theorem KeptAlong.again {P : List String → Run σ → Prop} (hP : KeptAlong o P) {world : Surroundings σ}
    {repair : σ → RepairRequest → Reply × σ} {codes : List String} {n : Nat} {r r' : Run σ} (h : P codes r)
    (hr : r.attempt world repair o n = .ok (.again, r')) : P (codes ++ [r'.code]) r' := by
  rcases attempt_ledger hr with hs | ⟨-, ha⟩
  · exact hP.stay (hP.same h hs)
  · exact hP.adopts h ha

/-- The induction is on how many attempts are left; the codes before them grow with each. -/
theorem KeptAlong.attempts {P : List String → Run σ → Prop} (hP : KeptAlong o P) {world : Surroundings σ}
    {repair : σ → RepairRequest → Reply × σ} {codes : List String} {left n : Nat} {r : Run σ} {c : Bool × Run σ}
    (h : P (codes ++ [r.code]) r) (hc : attempts world repair o left n r = .ok c) :
    P (codes ++ attemptCodes world repair o left n r) c.2 := by
  induction left generalizing codes n r with
  | zero =>
    rw [← Except.ok.inj hc]
    exact h
  | succ left ih =>
    rw [Run.attempts] at hc
    rw [attemptCodes]
    cases hr : r.attempt world repair o n with
    | error b => rw [hr] at hc; cases hc
    | ok d =>
      obtain ⟨next, r'⟩ := d
      rw [hr] at hc
      have hledger := attempt_ledger hr
      cases next with
      | enough =>
        rw [← Except.ok.inj hc]
        exact hP.same h (hledger.resolve_right fun hl => absurd hl.1 (by simp))
      | cancel =>
        rw [← Except.ok.inj hc]
        exact hP.same h (hledger.resolve_right fun hl => absurd hl.1 (by simp))
      | again =>
        -- the code of this attempt is listed, and the rest is by induction
        have hrest := ih (hP.again h hr) hc
        rw [List.append_assoc] at hrest
        exact hrest

/-- What is kept along holds when the repairer has done its work, up to a note that it failed. -/
theorem KeptAlong.repairWithModel {P : List String → Run σ → Prop} (hP : KeptAlong o P) {world : Surroundings σ}
    {start : Run σ} {c : Bool × Run σ} (h : P [start.code] start) (hc : start.repairWithModel world o = .ok c) :
    ∃ r, P (start.codesTried world o) r ∧ r.patternFixes = start.patternFixes ∧ (c.2 = r ∨ c.2 = r.noteFailure) := by
  by_cases hasks : ∃ repair, start.Asks world o repair
  · obtain ⟨repair, hasks⟩ := hasks
    rw [hasks.repairWithModel_eq] at hc
    rw [hasks.codesTried_eq]
    cases hd : Run.attempts world repair o o.maxAttempts 1 start with
    | error b => rw [hd] at hc; cases hc
    | ok d =>
      have hbefore : P ([] ++ [start.code]) start := h
      refine ⟨d.2, hP.attempts hbefore hd, patternFixes_attempts hd, ?_⟩
      rw [hd] at hc
      obtain ⟨cancelled, r⟩ := d
      rw [← Except.ok.inj hc]
      cases cancelled with
      | true => exact .inl rfl
      | false => exact .inr rfl
  · rw [repairWithModel_of_not_asks hasks] at hc
    rw [← Except.ok.inj hc, codesTried_of_not_asks hasks]
    exact ⟨start, h, rfl, .inl rfl⟩

/-! ### Adopting code -/

section Settle

variable (found : List Finding) (description : String) (confidence : Option Nat)

/-- A finding that was open and is not found any more is marked; any other stays as it is. -/
theorem settle_cases (f : Finding) :
    settle found description confidence f = f ∧ (f.fixed = true ∨ f.among found = true) ∨
      settle found description confidence f = f.markFixed description confidence ∧ f.fixed = false ∧
        f.among found = false := by
  unfold settle
  cases hfixed : f.fixed <;> cases hamong : f.among found <;> simp

@[simp] theorem isNote_settle (f : Finding) : (settle found description confidence f).isNote = f.isNote := by
  rcases settle_cases found description confidence f with ⟨h, -⟩ | ⟨h, -⟩
  · rw [h]
  · rw [h]
    rfl

/-- Settling marks what was open and is not found any more. -/
theorem length_fixed_settle (fs : List Finding) :
    ((fs.map (settle found description confidence)).filter (·.fixed)).length =
      (fs.filter (·.fixed)).length + ((fs.filter fun f => !f.fixed).filter fun f => !f.among found).length := by
  induction fs with
  | nil => rfl
  | cons f fs ih =>
    have hmarked : (f.markFixed description confidence).fixed = true := rfl
    rw [List.map_cons]
    rcases settle_cases found description confidence f with
      ⟨h, hf⟩ | ⟨h, hfixed, hamong⟩
    · rw [h]
      cases hfixed : f.fixed with
      | true =>
        simp only [List.filter_cons, hfixed, if_true, List.length_cons, Bool.not_true, Bool.false_eq_true, if_false, ih]
        omega
      | false =>
        have hamong : f.among found = true := hf.resolve_left (by simp [hfixed])
        simp only [List.filter_cons, hfixed, hamong, Bool.not_false, Bool.not_true, if_true, Bool.false_eq_true,
          if_false, ih]
    · rw [h]
      simp only [List.filter_cons, hmarked, hfixed, hamong, Bool.not_false, if_true, Bool.false_eq_true, if_false,
        List.length_cons, ih]
      omega

end Settle

theorem length_fixed_adopt (r : Run σ) (code : String) {found : List Finding} (description : String)
    (confidence : Option Nat) (hfound : ∀ f ∈ found, Detect.Reported f) :
    ((r.adopt code found description confidence).findings.filter (·.fixed)).length =
      (r.findings.filter (·.fixed)).length + r.resolvedBy found := by
  have hnew : ∀ p : Finding → Bool, (found.filter p).filter (·.fixed) = [] := by
    intro p
    refine List.filter_eq_nil_iff.mpr fun f hf => ?_
    have hopen : f.fixed = false := (hfound f (List.mem_filter.mp hf).1).fixed
    simp [hopen]
  simp only [adopt, List.filter_append, hnew, List.append_nil]
  exact length_fixed_settle found description confidence r.findings

theorem notes_adopt (r : Run σ) (code : String) {found : List Finding} (description : String)
    (confidence : Option Nat) (hfound : ∀ f ∈ found, Detect.Reported f) :
    (r.adopt code found description confidence).notes = r.notes.map (settle found description confidence) := by
  have hnew : ∀ p : Finding → Bool, (found.filter p).filter (·.isNote) = [] := by
    intro p
    refine List.filter_eq_nil_iff.mpr fun f hf => ?_
    simp [(hfound f (List.mem_filter.mp hf).1).isNote]
  simp only [notes, adopt, List.filter_append, hnew, List.append_nil, List.filter_map, Function.comp_def,
    isNote_settle]

/-- Once code is adopted, every note is marked. -/
theorem Adopts.notes {r r' : Run σ} (h : Adopts o r r') :
    r'.notes.length = r.notes.length ∧ ∀ f ∈ r'.notes, f.fixed = true := by
  obtain ⟨description, confidence, hfindings⟩ := h.findings
  have hreported : ∀ f ∈ detectAll o.checks r'.code, Detect.Reported f :=
    fun _ hf => Detect.reported_of_mem_detectAll hf
  have hnotes : r'.notes = r.notes.map (settle (detectAll o.checks r'.code) description confidence) := by
    rw [← notes_adopt r r'.code description confidence hreported, Run.notes, Run.notes, hfindings]
  rw [hnotes]
  refine ⟨List.length_map _, fun f hf => ?_⟩
  obtain ⟨g, hg, rfl⟩ := List.mem_map.mp hf
  have hnote : g.isNote = true := (List.mem_filter.mp hg).2
  rcases settle_cases (detectAll o.checks r'.code) description confidence g with ⟨hsame, hfixed | hamong⟩ | ⟨hsame, -⟩
  · rw [hsame]
    exact hfixed
  · -- a finding with its signature would be a note that a detector reports
    obtain ⟨g', hg', hs⟩ := Finding.among_iff.mp hamong
    have hid : g'.id = g.id := Finding.id_eq hs
    have hno : g'.isNote = false := (hreported g' hg').isNote
    rw [Finding.isNote, hid] at hno
    exact absurd (hnote.symm.trans hno) (by simp)
  · rw [hsame]
    rfl

/-! ### The invariant -/

/-- The run has gone through the codes and is accounted for along them. -/
structure Accounted (o : VerifyOptions) (codes : List String) (r : Run σ) : Prop where
  last : codes.getLast? = some r.code
  truthful : r.Truthful o
  seen : ∀ f ∈ r.findings, f.IsOpen → Seen o codes f
  settled : ∀ f ∈ r.findings, f.fixed = true → f.isNote = false → Settled o codes f
  fixes : r.modelFixes + r.patternFixes = (r.findings.filter (·.fixed)).length

namespace Accounted

variable {codes : List String} {r r' : Run σ}

theorem of_detectAll (hfindings : r.findings = detectAll o.checks r.code)
    (hfixes : r.modelFixes + r.patternFixes = 0) : Accounted o [r.code] r where
  last := rfl
  truthful := truthful_of_detectAll hfindings
  seen f hf _ := ⟨r.code, List.mem_singleton.mpr rfl, hfindings ▸ hf⟩
  settled f hf hfixed _ := by
    rw [hfindings] at hf
    rw [(Detect.reported_of_mem_detectAll hf).fixed] at hfixed
    cases hfixed
  fixes := by
    rw [hfixes, hfindings]
    refine (List.length_eq_zero_iff.mpr (List.filter_eq_nil_iff.mpr fun f hf => ?_)).symm
    simp [(Detect.reported_of_mem_detectAll hf).fixed]

theorem same (h : Accounted o codes r) (hs : SameLedger r r') : Accounted o codes r' where
  last := hs.code ▸ h.last
  truthful := ⟨hs.findings ▸ h.truthful.known, by rw [hs.findings, hs.code]; exact h.truthful.open_eq⟩
  seen := hs.findings ▸ h.seen
  settled := hs.findings ▸ h.settled
  fixes := by rw [hs.fixes, hs.findings]; exact h.fixes

/-- The code may be listed once more. -/
theorem stay (h : Accounted o codes r) : Accounted o (codes ++ [r.code]) r where
  last := List.getLast?_concat
  truthful := h.truthful
  seen f hf hopen := (h.seen f hf hopen).append _
  settled f hf hfixed hnote := (h.settled f hf hfixed hnote).append _
  fixes := h.fixes

theorem adopts (h : Accounted o codes r) (ha : Adopts o r r') : Accounted o (codes ++ [r'.code]) r' := by
  obtain ⟨description, confidence, hfindings⟩ := ha.findings
  have hreported : ∀ f ∈ detectAll o.checks r'.code, Detect.Reported f :=
    fun _ hf => Detect.reported_of_mem_detectAll hf
  obtain ⟨hknown, hopeneq⟩ := h.truthful.adopt r'.code description confidence
  obtain ⟨before, hcodes⟩ := List.getLast?_eq_some_iff.mp h.last
  refine ⟨List.getLast?_concat, ⟨hfindings ▸ hknown, hfindings ▸ hopeneq⟩, ?_, ?_, ?_⟩
  · intro f hf hopen
    rw [hfindings] at hf
    rcases List.mem_append.mp hf with hf | hf
    · obtain ⟨g, hg, rfl⟩ := List.mem_map.mp hf
      have hsame := (settle_open hopen.fixed).1
      rw [hsame] at hopen ⊢
      exact (h.seen g hg hopen).append _
    · exact ⟨r'.code, List.mem_append_right _ (List.mem_singleton.mpr rfl), (List.mem_filter.mp hf).1⟩
  · intro f hf hfixed hnote
    rw [hfindings] at hf
    rcases List.mem_append.mp hf with hf | hf
    · obtain ⟨g, hg, rfl⟩ := List.mem_map.mp hf
      rw [isNote_settle] at hnote
      rcases settle_cases (detectAll o.checks r'.code) description confidence g with
        ⟨hsame, -⟩ | ⟨hmarked, hopen, hamong⟩
      · rw [hsame] at hfixed ⊢
        exact (h.settled g hg hfixed hnote).append _
      · -- what was open is reported on the code before, and the new one lacks it
        have hisOpen : g.IsOpen := ⟨hopen, Finding.isNote_eq_false.mp hnote⟩
        have hstill : g.signature ∈ signatures (detectAll o.checks r.code) := by
          rw [← h.truthful.open_eq]
          exact ⟨g, hg, hisOpen, rfl⟩
        have hgone : g.signature ∉ signatures (detectAll o.checks r'.code) := by
          intro hmem
          rw [Finding.among_iff.mpr hmem] at hamong
          cases hamong
        rw [hmarked]
        refine ⟨before, r.code, r'.code, [], ?_, ⟨g, description, confidence, hcodes ▸ h.seen g hg hisOpen, rfl⟩,
          hstill, hgone⟩
        rw [hcodes, List.append_assoc]
        rfl
    · have hopen : f.fixed = false := (hreported f (List.mem_filter.mp hf).1).fixed
      rw [hopen] at hfixed
      cases hfixed
  · rw [ha.fixes, hfindings, length_fixed_adopt r r'.code description confidence hreported, h.fixes]

theorem noteFailure (h : Accounted o codes r) : Accounted o codes r.noteFailure := by
  have htruthful := h.truthful.noteFailure
  unfold Run.noteFailure at htruthful ⊢
  split at htruthful
  · exact h
  next e he =>
    refine ⟨h.last, htruthful, ?_, ?_, ?_⟩
    · intro f hf hopen
      rcases List.mem_append.mp hf with hf | hf
      · exact h.seen f hf hopen
      · obtain rfl := List.mem_singleton.mp hf
        exact absurd rfl hopen.id
    · intro f hf hfixed hnote
      rcases List.mem_append.mp hf with hf | hf
      · exact h.settled f hf hfixed hnote
      · obtain rfl := List.mem_singleton.mp hf
        cases hfixed
    · rw [List.filter_append, List.length_append]
      exact h.fixes

end Accounted

/-- The note that the repairer failed, if there is one, is not marked yet. -/
theorem notes_noteFailure {r : Run σ} (h : r.notes = []) :
    r.noteFailure.notes.length ≤ 1 ∧ ∀ f ∈ r.noteFailure.notes, f.fixed = false := by
  unfold Run.noteFailure
  split
  · rw [h]
    exact ⟨Nat.zero_le 1, fun f hf => nomatch hf⟩
  next e _ =>
    unfold notes at h ⊢
    rw [List.filter_append, h, List.nil_append]
    refine ⟨List.length_filter_le _ _, fun f hf => ?_⟩
    obtain rfl := List.mem_singleton.mp (List.mem_filter.mp hf).1
    rfl

/-- While the repairer works a run is accounted for, and there is no note yet. -/
theorem keptAlong_accounted : KeptAlong o fun codes (r : Run σ) => Accounted o codes r ∧ r.notes = [] where
  same h hs := by
    refine ⟨h.1.same hs, ?_⟩
    rw [notes, hs.findings]
    exact h.2
  stay h := ⟨h.1.stay, h.2⟩
  adopts h ha := by
    refine ⟨h.1.adopts ha, List.length_eq_zero_iff.mp ?_⟩
    rw [ha.notes.1, h.2]
    rfl

/-! ### After the attempts -/

section Phases

variable {world : Surroundings σ} {start : Run σ}

/-- What holds when the repairer has done its work: a note that it failed is the only one, and not marked. -/
structure Handed (o : VerifyOptions) (tried : List String) (r : Run σ) : Prop where
  accounted : Accounted o tried r
  single : r.notes.length ≤ 1
  unmarked : ∀ f ∈ r.notes, f.fixed = false
  patternFixes : r.patternFixes = 0

theorem handed_of_plain {tried : List String} {r : Run σ} (h : Accounted o tried r) (hnotes : r.notes = [])
    (hpatterns : r.patternFixes = 0) : Handed o tried r where
  accounted := h
  single := by simp [hnotes]
  unmarked := by simp [hnotes]
  patternFixes := hpatterns

theorem handed_noteFailure {tried : List String} {r : Run σ} (h : Accounted o tried r) (hnotes : r.notes = [])
    (hpatterns : r.patternFixes = 0) : Handed o tried r.noteFailure where
  accounted := h.noteFailure
  single := (notes_noteFailure hnotes).1
  unmarked := (notes_noteFailure hnotes).2
  patternFixes := by
    unfold noteFailure
    split <;> exact hpatterns

theorem repairWithModel_handed {c : Bool × Run σ} (hstart : Accounted o [start.code] start) (hnotes : start.notes = [])
    (hpatterns : start.patternFixes = 0) (hc : start.repairWithModel world o = .ok c) :
    Handed o (start.codesTried world o) c.2 := by
  obtain ⟨r, ⟨haccounted, hplain⟩, hsame, hr⟩ := keptAlong_accounted.repairWithModel ⟨hstart, hnotes⟩ hc
  have hnone : r.patternFixes = 0 := hsame.trans hpatterns
  rcases hr with hr | hr
  · rw [hr]
    exact handed_of_plain haccounted hplain hnone
  · rw [hr]
    exact handed_noteFailure haccounted hplain hnone

/-- What holds at the end, after the codes `tried`. -/
structure Balanced (o : VerifyOptions) (tried : List String) (r : Run σ) : Prop where
  settled : ∀ f ∈ r.findings, f.fixed = true → f.isNote = false → Settled o (tried ++ [r.code]) f
  single : r.notes.length ≤ 1
  marked : ∀ f ∈ r.notes, (f.fixed = true ↔ tried.getLast? ≠ some r.code)
  fixes : r.modelFixes + r.patternFixes = (r.findings.filter (·.fixed)).length

variable {tried : List String} {r r' : Run σ}

theorem Balanced.same (h : Balanced o tried r) (hs : SameLedger r r') : Balanced o tried r' := by
  obtain ⟨hcode, hfindings, hfixes⟩ := hs
  have hnotes : r'.notes = r.notes := by rw [notes, notes, hfindings]
  refine ⟨?_, hnotes ▸ h.single, ?_, ?_⟩
  · rw [hfindings, hcode]
    exact h.settled
  · rw [hnotes, hcode]
    exact h.marked
  · rw [hfixes, hfindings]
    exact h.fixes

theorem Handed.balanced (h : Handed o tried r) : Balanced o tried r where
  settled := h.accounted.stay.settled
  single := h.single
  marked f hf := by
    rw [h.unmarked f hf, h.accounted.last]
    simp
  fixes := h.accounted.fixes

/-- If a repair by pattern is adopted, the note is marked along with what was repaired. -/
theorem Handed.balanced_adopts (h : Handed o tried r) (ha : Adopts o r r') : Balanced o tried r' where
  settled := (h.accounted.adopts ha).settled
  single := ha.notes.1 ▸ h.single
  marked f hf := by
    rw [ha.notes.2 f hf, h.accounted.last]
    simpa using Ne.symm ha.code
  fixes := (h.accounted.adopts ha).fixes

theorem Handed.balanced_forget (h : Handed o tried r) (given : String) : Balanced o tried (r.forget o given) := by
  have hreported : ∀ f ∈ (r.forget o given).findings, Detect.Reported f :=
    fun f hf => Detect.reported_of_mem_detectAll hf
  have hnotes : (r.forget o given).notes = [] :=
    List.filter_eq_nil_iff.mpr fun f hf => by simp [(hreported f hf).isNote]
  have hfixes : (r.forget o given).modelFixes + (r.forget o given).patternFixes = 0 := by
    show 0 + r.patternFixes = 0
    rw [h.patternFixes]
  refine ⟨fun f hf hfixed _ => ?_, by simp [hnotes], by simp [hnotes], (Accounted.of_detectAll rfl hfixes).fixes⟩
  rw [(hreported f hf).fixed] at hfixed
  cases hfixed

/-- Whichever way a verification ends, its ledger balances. -/
theorem concluded_balanced {given : String} {cancelled : Bool} (h : Handed o tried r)
    (hc : concluded world o given cancelled r = .ok r') : Balanced o tried r' := by
  unfold concluded at hc
  split_ifs at hc
  · rw [← Except.ok.inj hc]
    exact h.balanced_forget given
  · cases hr : r.report world .patternFixing 80 "Applying pattern fixes" with
    | error b => rw [hr] at hc; cases hc
    | ok r₁ =>
      rw [hr] at hc
      obtain ⟨rfl, -⟩ := report_eq_ok hr
      have htold : Handed o tried (r.told .patternFixing 80 "Applying pattern fixes") :=
        ⟨h.accounted.same ⟨rfl, rfl, rfl⟩, h.single, h.unmarked, h.patternFixes⟩
      rw [← Except.ok.inj hc]
      rcases repairWithPatterns_ledger o (r.told .patternFixing 80 "Applying pattern fixes") with hs | ha
      · exact htold.balanced.same hs
      · exact htold.balanced_adopts ha
  · rw [← Except.ok.inj hc]
    exact h.balanced

end Phases

end Run

/-! ### The result -/

/-- The findings of detectors that the result marks as repaired. -/
def VerificationResult.repaired (result : VerificationResult) : List Finding :=
  result.findings.filter fun f => f.fixed && !f.isNote

/-- The result marks a note as repaired. -/
def VerificationResult.marksNote (result : VerificationResult) : Bool :=
  result.findings.any fun f => f.fixed && f.isNote

/-- At most one note is marked, so it adds at most one to what is repaired. -/
theorem length_filter_fixed (result : VerificationResult) (h : (result.findings.filter (·.isNote)).length ≤ 1) :
    (result.findings.filter (·.fixed)).length = result.repaired.length + if result.marksNote then 1 else 0 := by
  have hsplit := List.length_eq_length_filter_add (l := result.findings.filter (·.fixed)) (·.isNote)
  have hmarked : (result.findings.filter fun f => f.isNote && f.fixed).length = if result.marksNote then 1 else 0 := by
    have hle : (result.findings.filter fun f => f.isNote && f.fixed).length ≤ 1 := by
      refine Nat.le_trans ?_ h
      rw [← List.countP_eq_length_filter, ← List.countP_eq_length_filter]
      exact List.countP_mono_left fun f _ hf => (Bool.and_eq_true_iff.mp hf).1
    -- if a note is marked, it is the only one
    by_cases hany : result.marksNote = true
    · obtain ⟨f, hf, hboth⟩ := List.any_eq_true.mp hany
      have hmem : f ∈ result.findings.filter fun f => f.isNote && f.fixed :=
        List.mem_filter.mpr ⟨hf, by rw [Bool.and_comm]; exact hboth⟩
      have hpos := List.length_pos_of_mem hmem
      rw [if_pos hany]
      omega
    · rw [if_neg hany]
      refine List.length_eq_zero_iff.mpr (List.filter_eq_nil_iff.mpr fun f hf hboth => hany ?_)
      exact List.any_eq_true.mpr ⟨f, hf, by rw [Bool.and_comm]; exact hboth⟩
  rw [List.filter_filter, List.filter_filter, hmarked] at hsplit
  simp only [Bool.and_comm (!_)] at hsplit
  rw [hsplit, Nat.add_comm]
  rfl

section Result

variable (world : Surroundings σ) (o : VerifyOptions) (code : String) (state : σ)

/-- The codes that the verification goes through while the repairer works. -/
def codesTried : List String := (Run.begun world o code state).codesTried world o

theorem notes_begun : (Run.begun world o code state).notes = [] :=
  List.filter_eq_nil_iff.mpr fun f hf => by simp [(Detect.reported_of_mem_detectAll hf).isNote]

theorem balanced_of_steps {r : Run σ} (h : Run.steps world o code state = .ok r) :
    r.Balanced o (codesTried world o code state) := by
  have hfresh : (Run.begun world o code state).Accounted o [(Run.begun world o code state).code] :=
    Run.Accounted.of_detectAll rfl rfl
  have hnotes := notes_begun world o code state
  obtain ⟨cancelled, r₁, r₂, hc, hr, rfl⟩ := Run.steps_eq_ok h
  have hhanded := Run.repairWithModel_handed hfresh hnotes rfl hc
  exact (Run.concluded_balanced hhanded hr).same ⟨rfl, rfl, rfl⟩

/-- **What is counted is what is marked, and all of it but a note was repaired.** Every finding of a detector that the
result marks as repaired was reported on one of the codes that the verification went through, was still reported on one
of them, and was missing on the code that was adopted next. There is at most one note that the repairer failed, and it
is marked exactly if the code has changed since the repairer gave up. The repairs that are counted are the findings of
detectors that are marked, and one more if the note is. -/
theorem verify_accounts :
    (∀ f ∈ (verify world o code state).1.findings, f.fixed = true → f.isNote = false →
      Settled o (codesTried world o code state ++ [(verify world o code state).1.code]) f) ∧
    ((verify world o code state).1.findings.filter (·.isNote)).length ≤ 1 ∧
    (∀ f ∈ (verify world o code state).1.findings, f.isNote = true →
      (f.fixed = true ↔ (codesTried world o code state).getLast? ≠ some (verify world o code state).1.code)) ∧
    (verify world o code state).1.metadata.fixesApplied =
      (verify world o code state).1.repaired.length + if (verify world o code state).1.marksNote then 1 else 0 := by
  cases hs : Run.steps world o code state with
  | error b =>
    rw [verify_of_broken world o code state hs]
    refine ⟨fun f hf hfixed => ?_, Nat.zero_le 1, fun f hf hnote => ?_, rfl⟩
    · rw [(b.untouched code).findings f hf] at hfixed
      cases hfixed
    · rw [List.mem_singleton.mp hf] at hnote
      cases hnote
  | ok r =>
    have hbalanced := balanced_of_steps world o code state hs
    rw [verify_of_steps hs, Run.code_result]
    refine ⟨hbalanced.settled, hbalanced.single, fun f hf hnote => ?_, ?_⟩
    · exact hbalanced.marked f (List.mem_filter.mpr ⟨hf, hnote⟩)
    · have hsplit := length_filter_fixed (r.result code) hbalanced.single
      exact hbalanced.fixes.trans hsplit

/-- A world whose repairer refuses every request. -/
def refusing : Surroundings Unit where
  repairer := some fun _ _ => (⟨.failed (.unauthorized "bad key"), false⟩, ())

/-- The repairer fails and a repair by pattern helps: the note of the failure is marked as repaired and counted. -/
theorem failure_counted_as_repair :
    (verify refusing {} "def f()\n    pass\n" ()).1.findings.map (fun f => (f.id, f.fixed)) =
        [("missing-colon", true), ("repair-service-unavailable", true)] ∧
      (verify refusing {} "def f()\n    pass\n" ()).1.metadata.fixesApplied = 2 := by
  decide +kernel

end Result

end AgentFlow
