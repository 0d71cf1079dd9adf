import Mathlib.Data.Set.Basic
import AgentFlow.Proofs.Check.Traits
import AgentFlow.Proofs.Verify.Step

/-!
# The report tells the truth about the code

The findings of a verification are edited as code is adopted: some are marked as repaired, some are added, and a
cancelled verification starts over. `Run.Truthful` says that at every moment the signatures of the open findings are
those that the detectors report about the current code. Each step keeps this, so it holds of the result; and since a
signature has one severity, the result is valid exactly if the detectors find no error in its code.
-/

namespace AgentFlow

/-! ### Signatures -/

/-- The signatures of findings. -/
def signatures (fs : List Finding) : Set (String × String) := {s | ∃ f ∈ fs, f.signature = s}

/-- The finding is not repaired, and it is one of a detector and not the note that the repairer failed. -/
structure Finding.IsOpen (f : Finding) : Prop where
  fixed : f.fixed = false
  id : f.id ≠ "repair-service-unavailable"

/-- The signatures of the open findings. -/
def openSignatures (fs : List Finding) : Set (String × String) := {s | ∃ f ∈ fs, f.IsOpen ∧ f.signature = s}

theorem Finding.among_iff {f : Finding} {fs : List Finding} :
    f.among fs = true ↔ ∃ g ∈ fs, g.signature = f.signature := by
  simp [Finding.among]

theorem Finding.id_eq {f g : Finding} (h : f.signature = g.signature) : f.id = g.id := congrArg Prod.fst h

/-- The finding has the traits of its id, or it is the note that the repairer failed. -/
def Finding.Known (f : Finding) : Prop :=
  (f.id, f.severity, f.fixable) ∈ Detect.traits ∨
    f.id = "repair-service-unavailable" ∧ f.severity = .info ∧ f.fixable = false

theorem Finding.Known.traits {f : Finding} (h : f.Known) (hid : f.id ≠ "repair-service-unavailable") :
    (f.id, f.severity, f.fixable) ∈ Detect.traits :=
  h.resolve_right fun hn => hid hn.1

namespace Detect.Reported

variable {f g : Finding}

theorem isOpen (h : Reported f) : f.IsOpen := by
  refine ⟨h.fixed, fun hid => ?_⟩
  have hnot : ∀ t ∈ Detect.traits, t.1 ≠ "repair-service-unavailable" := by decide
  exact hnot _ h.traits hid

theorem known (h : Reported f) : f.Known := .inl h.traits

/-- A known finding with the signature of one that a detector reports has its traits. -/
theorem traits_eq (h : Reported f) (hg : g.Known) (hs : g.signature = f.signature) :
    g.severity = f.severity ∧ g.fixable = f.fixable := by
  have hid : g.id = f.id := Finding.id_eq hs
  have heq := Detect.traits_unique _ (hg.traits (hid ▸ h.isOpen.id)) _ h.traits hid
  simpa [hid] using heq

end Detect.Reported

/-- A known finding that is not repaired, and is not merely information or may be repaired, is open. -/
theorem Finding.Known.isOpen {f : Finding} (h : f.Known) (hfixed : f.fixed = false)
    (hf : f.severity ≠ .info ∨ f.fixable = true) : f.IsOpen := by
  rcases h with ht | ⟨-, hinfo, hno⟩
  · exact Detect.Reported.isOpen ⟨ht, hfixed⟩
  · rcases hf with hf | hf
    · exact absurd hinfo hf
    · rw [hno] at hf; cases hf

theorem openSignatures_of_reported {fs : List Finding} (h : ∀ f ∈ fs, Detect.Reported f) :
    openSignatures fs = signatures fs := by
  ext s
  constructor
  · rintro ⟨f, hf, -, hs⟩
    exact ⟨f, hf, hs⟩
  · rintro ⟨f, hf, hs⟩
    exact ⟨f, hf, (h f hf).isOpen, hs⟩

namespace Run

variable {σ : Type} {o : VerifyOptions}

/-! ### Adopting code -/

section Adopt

variable {found : List Finding} {description : String} {confidence : Option Nat}

/-- What stays open is still found. -/
theorem settle_open {f : Finding} (h : (settle found description confidence f).fixed = false) :
    settle found description confidence f = f ∧ f.among found = true := by
  unfold settle at h ⊢
  split_ifs at h ⊢ with hif
  · simp [Finding.markFixed] at h
  · refine ⟨rfl, ?_⟩
    simpa [h] using hif

theorem known_settle {f : Finding} (h : f.Known) : (settle found description confidence f).Known := by
  unfold settle
  split_ifs
  · exact h
  · exact h

/-- Once code is adopted, what is open is what was found about it, whatever the report held before. -/
theorem openSignatures_adopt (r : Run σ) (code : String) (hfound : ∀ f ∈ found, Detect.Reported f) :
    openSignatures (r.adopt code found description confidence).findings = signatures found := by
  ext s
  constructor
  · rintro ⟨f, hf, hopen, rfl⟩
    rcases List.mem_append.mp hf with hf | hf
    · obtain ⟨g, hg, rfl⟩ := List.mem_map.mp hf
      obtain ⟨hsame, hamong⟩ := settle_open hopen.fixed
      rw [hsame]
      exact Finding.among_iff.mp hamong
    · exact ⟨f, (List.mem_filter.mp hf).1, rfl⟩
  · rintro ⟨f, hf, rfl⟩
    by_cases hknown : f.among ((r.findings.map (settle found description confidence)).filter fun f => !f.fixed)
    · -- an open finding with this signature was kept
      obtain ⟨g, hg, hs⟩ := Finding.among_iff.mp hknown
      obtain ⟨hgmem, hgopen⟩ := List.mem_filter.mp hg
      have hid : g.id = f.id := Finding.id_eq hs
      exact ⟨g, List.mem_append_left _ hgmem, ⟨by simpa using hgopen, hid ▸ (hfound f hf).isOpen.id⟩, hs⟩
    · have hnew : f ∈ (r.adopt code found description confidence).findings :=
        List.mem_append_right _ (List.mem_filter.mpr ⟨hf, by simpa using hknown⟩)
      exact ⟨f, hnew, (hfound f hf).isOpen, rfl⟩

theorem known_adopt {r : Run σ} (code : String) (hr : ∀ f ∈ r.findings, f.Known)
    (hfound : ∀ f ∈ found, Detect.Reported f) :
    ∀ f ∈ (r.adopt code found description confidence).findings, f.Known := by
  intro f hf
  rcases List.mem_append.mp hf with hf | hf
  · obtain ⟨g, hg, rfl⟩ := List.mem_map.mp hf
    exact known_settle (hr g hg)
  · exact (hfound f (List.mem_filter.mp hf).1).known

end Adopt

/-! ### The invariant -/

/-- The report is about the current code. -/
structure Truthful (o : VerifyOptions) (r : Run σ) : Prop where
  known : ∀ f ∈ r.findings, f.Known
  open_eq : openSignatures r.findings = signatures (detectAll o.checks r.code)

theorem truthful_of_detectAll {r : Run σ} (h : r.findings = detectAll o.checks r.code) : r.Truthful o where
  known f hf := (Detect.reported_of_mem_detectAll (h ▸ hf)).known
  open_eq := by
    rw [h]
    exact openSignatures_of_reported fun f hf => Detect.reported_of_mem_detectAll hf

theorem Truthful.adopt {r : Run σ} (h : r.Truthful o) (code description : String) (confidence : Option Nat) :
    (r.adopt code (detectAll o.checks code) description confidence).Truthful o where
  known := known_adopt code h.known fun _ hf => Detect.reported_of_mem_detectAll hf
  open_eq := openSignatures_adopt r code fun _ hf => Detect.reported_of_mem_detectAll hf

theorem Truthful.judge {r : Run σ} (h : r.Truthful o) (targeted : List Finding) (answer : RepairResponse) :
    (r.judge o targeted answer).Truthful o := by
  unfold Run.judge
  dsimp only
  split_ifs
  · exact h
  · exact h
  · obtain ⟨hknown, hopen⟩ := h.adopt (Source.clean answer.code) "Repaired by language model" _
    exact ⟨hknown, hopen⟩

/-- The note is no finding of a detector, so it changes nothing that is open. -/
theorem Truthful.noteFailure {r : Run σ} (h : r.Truthful o) : r.noteFailure.Truthful o := by
  unfold Run.noteFailure
  split
  · exact h
  next e _ =>
    refine ⟨?_, ?_⟩
    · intro f hf
      rcases List.mem_append.mp hf with hf | hf
      · exact h.known f hf
      · obtain rfl := List.mem_singleton.mp hf
        exact .inr ⟨rfl, rfl, rfl⟩
    · rw [← h.open_eq]
      ext s
      constructor
      · rintro ⟨f, hf, hopen, hs⟩
        rcases List.mem_append.mp hf with hf | hf
        · exact ⟨f, hf, hopen, hs⟩
        · obtain rfl := List.mem_singleton.mp hf
          -- the note itself is not counted as open
          exact absurd rfl hopen.id
      · rintro ⟨f, hf, hopen, hs⟩
        exact ⟨f, List.mem_append_left _ hf, hopen, hs⟩

theorem Truthful.repairWithPatterns {r : Run σ} (h : r.Truthful o) : (r.repairWithPatterns o).Truthful o := by
  unfold Run.repairWithPatterns
  dsimp only
  split_ifs
  · exact h
  · exact h
  · obtain ⟨hknown, hopen⟩ := h.adopt (PatternFix.apply r.code r.targets o.credential).code _ (some 100)
    exact ⟨hknown, hopen⟩

/-- Every step leaves a truthful run. -/
theorem Step.truthful {given : String} {r r' : Run σ} (h : Step o given r r') (hr : r.Truthful o) :
    r'.Truthful o := by
  cases h with
  | tell => exact ⟨hr.known, hr.open_eq⟩
  | ask => exact ⟨hr.known, hr.open_eq⟩
  | setFailure => exact ⟨hr.known, hr.open_eq⟩
  | sleep => exact ⟨hr.known, hr.open_eq⟩
  | judge answer => exact hr.judge r.targets answer
  | note => exact hr.noteFailure
  | patterns => exact hr.repairWithPatterns
  | forget => exact truthful_of_detectAll rfl

theorem Reaches.truthful {given : String} {r r' : Run σ} (h : Reaches o given r r') (hr : r.Truthful o) :
    r'.Truthful o :=
  h.keeps (fun _ _ hs => hs.truthful) hr

/-- What is open is reported about the current code, with the same traits. -/
theorem Truthful.exists_reported {r : Run σ} (h : r.Truthful o) {f : Finding} (hf : f ∈ r.findings)
    (hopen : f.IsOpen) :
    ∃ g ∈ detectAll o.checks r.code,
      g.signature = f.signature ∧ f.severity = g.severity ∧ f.fixable = g.fixable := by
  have hmem : f.signature ∈ openSignatures r.findings := ⟨f, hf, hopen, rfl⟩
  rw [h.open_eq] at hmem
  obtain ⟨g, hg, hs⟩ := hmem
  exact ⟨g, hg, hs, (Detect.reported_of_mem_detectAll hg).traits_eq (h.known f hf) hs.symm⟩

/-- What is reported about the current code is open, with the same traits. -/
theorem Truthful.exists_open {r : Run σ} (h : r.Truthful o) {g : Finding} (hg : g ∈ detectAll o.checks r.code) :
    ∃ f ∈ r.findings, f.IsOpen ∧
      f.signature = g.signature ∧ f.severity = g.severity ∧ f.fixable = g.fixable := by
  have hmem : g.signature ∈ signatures (detectAll o.checks r.code) := ⟨g, hg, rfl⟩
  rw [← h.open_eq] at hmem
  obtain ⟨f, hf, hopen, hs⟩ := hmem
  exact ⟨f, hf, hopen, hs, (Detect.reported_of_mem_detectAll hg).traits_eq (h.known f hf) hs⟩

/-- Errors keep the code from being valid exactly if the detectors find one. -/
theorem Truthful.blocking_iff {r : Run σ} (h : r.Truthful o) :
    (∃ f ∈ r.findings, f.isBlocking = true) ↔ ∃ f ∈ detectAll o.checks r.code, f.severity = .error := by
  constructor
  · rintro ⟨f, hf, hblocking⟩
    obtain ⟨hfixed, hsev⟩ : f.fixed = false ∧ f.severity = .error := by simpa [Finding.isBlocking] using hblocking
    -- the note is no error
    have hopen : f.IsOpen := (h.known f hf).isOpen hfixed (.inl (by simp [hsev]))
    obtain ⟨g, hg, -, hgsev, -⟩ := h.exists_reported hf hopen
    exact ⟨g, hg, hgsev ▸ hsev⟩
  · rintro ⟨g, hg, hsev⟩
    obtain ⟨f, hf, hopen, -, hfsev, -⟩ := h.exists_open hg
    exact ⟨f, hf, by simp [Finding.isBlocking, hopen.fixed, hfsev, hsev]⟩

/-- What a repair may be tried for is what the detectors report about the current code as such. -/
theorem Truthful.signatures_targets {r : Run σ} (h : r.Truthful o) :
    signatures r.targets = signatures ((detectAll o.checks r.code).filter (·.fixable)) := by
  ext s
  constructor
  · rintro ⟨f, hf, rfl⟩
    obtain ⟨hmem, hfix⟩ := List.mem_filter.mp hf
    obtain ⟨hfixed, hfixable⟩ : f.fixed = false ∧ f.fixable = true := by simpa using hfix
    have hopen : f.IsOpen := (h.known f hmem).isOpen hfixed (.inr hfixable)
    obtain ⟨g, hg, hs, -, hgfix⟩ := h.exists_reported hmem hopen
    exact ⟨g, List.mem_filter.mpr ⟨hg, hgfix ▸ hfixable⟩, hs⟩
  · rintro ⟨g, hg, rfl⟩
    obtain ⟨hmem, hfixable⟩ := List.mem_filter.mp hg
    obtain ⟨f, hf, hopen, hs, -, hffix⟩ := h.exists_open hmem
    exact ⟨f, List.mem_filter.mpr ⟨hf, by simp [hopen.fixed, hffix, hfixable]⟩, hs⟩

@[simp] theorem code_result (given : String) (r : Run σ) : (r.result given).code = r.code := by
  unfold Run.result VerificationResult.code
  dsimp only
  split_ifs with h
  · exact h.symm
  · rfl

end Run

/-! ### The result -/

section Result

variable {σ : Type} {world : Surroundings σ} {o : VerifyOptions} {code : String} {state : σ}

theorem verify_of_steps {r : Run σ} (h : Run.steps world o code state = .ok r) :
    verify world o code state = (r.result code, r) := by
  simp only [verify, h]

/-- The run of a verification that completes is truthful. -/
theorem truthful_of_steps {r : Run σ} (h : Run.steps world o code state = .ok r) : r.Truthful o := by
  rcases Run.steps_reaches world o code state with ⟨m, hm⟩ | hreach
  · rw [hm] at h; cases h
  · rw [h] at hreach
    exact hreach.truthful (Run.truthful_of_detectAll rfl)

/-- What the result of a verification that completes lists as open is what the detectors report about its code. -/
theorem openSignatures_verify (h : Completes world o code state) :
    openSignatures (verify world o code state).1.findings =
      signatures (detectAll o.checks (verify world o code state).1.code) := by
  obtain ⟨r, hr⟩ := h
  rw [verify_of_steps hr, Run.code_result]
  exact (truthful_of_steps hr).open_eq

/-- **The result tells the truth about its code.** Whatever the repairer answers and whenever it is cancelled, a
verification that completes lists as open exactly what the detectors report about the code it returns, and calls the
code valid exactly if they report no error. -/
theorem verify_truthful (h : Completes world o code state) :
    openSignatures (verify world o code state).1.findings =
        signatures (detectAll o.checks (verify world o code state).1.code) ∧
      ((verify world o code state).1.isValid = true ↔
        ∀ f ∈ detectAll o.checks (verify world o code state).1.code, f.severity ≠ .error) := by
  refine ⟨openSignatures_verify h, ?_⟩
  obtain ⟨r, hr⟩ := h
  rw [verify_of_steps hr, Run.code_result]
  have hblocking := not_congr (truthful_of_steps hr).blocking_iff
  simpa [Run.result] using hblocking

/-- A repairer that is too busy at first, then answers, and is cancelled meanwhile. -/
def lateRepair (n : Nat) (_ : RepairRequest) : Reply × Nat :=
  if n = 0 then (⟨.failed (.rateLimited none), false⟩, 1)
  else (⟨.answered { code := "def f():\n    pass\n" }, true⟩, n + 1)

def lateRepairer : Surroundings Nat where
  repairer := some lateRepair

theorem quiet_lateRepairer : lateRepairer.Quiet where
  listener _ := rfl
  repairer := by
    rintro repair ⟨⟩ n q m
    unfold lateRepair
    split_ifs <;> simp

/-- A header without its colon, which the second answer repairs. -/
theorem verify_truthful_lateRepairer :
    Completes lateRepairer {} "def f()\n    pass\n" 0 ∧
      openSignatures (verify lateRepairer {} "def f()\n    pass\n" 0).1.findings =
        signatures (detectAll {} (verify lateRepairer {} "def f()\n    pass\n" 0).1.code) ∧
      ((verify lateRepairer {} "def f()\n    pass\n" 0).1.isValid = true ↔
        ∀ f ∈ detectAll {} (verify lateRepairer {} "def f()\n    pass\n" 0).1.code, f.severity ≠ .error) :=
  ⟨quiet_lateRepairer.completes, verify_truthful quiet_lateRepairer.completes⟩

end Result

end AgentFlow
