import AgentFlow.Proofs.Limiter.Breaker

/-!
# One trial at a time

A half-open circuit lets no call through, so trials could follow one another only. But a call from before the circuit
opened may still end, and what it records takes the circuit out of the half-open state although the trial goes on: the
next call is then a second trial. With two slots this can always be brought about, with fewer it cannot. As long as
nothing but a trial decides about a half-open circuit, there is one undecided trial if the circuit is half-open and none
if it is not (`trials_overlap_iff`).
-/

namespace AgentFlow

namespace Traffic

variable {cfg : LimiterConfig}

/-! ### Orderly runs -/

/-- The section that comes next. -/
def Call.next? (c : Call) : Option Section :=
  match c.stage with
  | .underWay => none
  | .ending left => left.head?

/-- The move takes a half-open circuit to another state, and no trial makes it. -/
def interferes (s : Traffic) : Move → Bool
  | .advance i => s.calls[i]?.any fun c => !decide c.IsTrial && c.next?.any Section.decides
  | .success => true
  | .failure => true
  | _ => false

/-- While a trial is undecided, nothing else decides. -/
def Orderly (cfg : LimiterConfig) (s : Traffic) : List Move → Prop
  | [] => True
  | m :: ms => (s.interferes m = true → ∀ c ∈ s.calls, ¬c.Trying) ∧ Orderly cfg (step cfg s m) ms

instance decidableOrderly (cfg : LimiterConfig) (s : Traffic) : (ms : List Move) → Decidable (Orderly cfg s ms)
  | [] => isTrue trivial
  | m :: ms =>
    have := decidableOrderly cfg (step cfg s m) ms
    inferInstanceAs (Decidable (_ ∧ _))

/-- How many trials are undecided. -/
def undecidedTrials (s : Traffic) : Nat := s.calls.countP fun c => decide c.Trying

theorem undecidedTrials_eq_zero {s : Traffic} : s.undecidedTrials = 0 ↔ ∀ c ∈ s.calls, ¬c.Trying := by
  simp [undecidedTrials, List.countP_eq_zero]

/-- What every move of an orderly run keeps. -/
structure Single (s : Traffic) : Prop where
  sound : ∀ c ∈ s.calls, c.Sound
  undecided : s.undecidedTrials = if s.limiter.circuit = .halfOpen then 1 else 0

theorem Single.le_one {s : Traffic} (hs : s.Single) : s.undecidedTrials ≤ 1 := by
  rw [hs.undecided]
  split <;> omega

/-- A call decides the circuit once at most. -/
theorem countP_decides_sections (p : Permit) (e : Ending) : (e.sections p).countP Section.decides ≤ 1 := by
  rcases sections_cases p e with h | h | h <;> rw [h]
  · exact Nat.le_refl 1
  · exact Nat.le_refl 1
  · exact List.countP_le_length

namespace Call

/-- Ending a call does not yet decide it. -/
theorem trying_finish {c : Call} (hc : c.Sound) (hstage : c.stage = .underWay) (e : Ending) :
    (c.finish e).Trying ↔ c.Trying := by
  refine ⟨fun h => ⟨h.1, ?_⟩, fun h => h.finish hc e⟩
  rw [undecided, hstage]

/-- A call that has decided is no longer trying. -/
theorem not_trying_advance {c : Call} (hc : c.Sound) {x : Section} {left : List Section} (hx : x.decides = true)
    (hstage : c.stage = .ending (x :: left)) : ¬(c.advance x left).Trying := by
  intro h
  have hleft : 0 < left.countP Section.decides := by
    obtain ⟨y, hy, hdecides⟩ := List.any_eq_true.mp h.2
    exact List.countP_pos_iff.mpr ⟨y, hy, hdecides⟩
  obtain ⟨e, hran⟩ := hc.ran_ending hstage
  have hall := countP_decides_sections c.permit e
  rw [← hran, List.countP_append, List.countP_cons_of_pos hx] at hall
  omega

theorem trying_of_decides {c : Call} {x : Section} {left : List Section} (hx : x.decides = true)
    (hstage : c.stage = .ending (x :: left)) (htrial : c.IsTrial) : c.Trying := by
  refine ⟨htrial, ?_⟩
  simp [undecided, hstage, hx]

end Call

/-- When one call changes, only its own share of the count does. -/
theorem undecidedTrials_replaced {s : Traffic} {before after : List Call} {c : Call} (d : Call)
    (hcalls : s.calls = before ++ c :: after) (limiter : Limiter) :
    undecidedTrials { s with limiter := limiter, calls := before ++ d :: after } + (if c.Trying then 1 else 0) =
      s.undecidedTrials + if d.Trying then 1 else 0 := by
  simp only [undecidedTrials, hcalls, List.countP_append, List.countP_cons, decide_eq_true_eq]
  omega

/-- A section that decides leaves the circuit not half-open, so no trial may stay undecided. -/
theorem single_of_decides {s : Traffic} {x : Section} (hx : x.decides = true) {calls : List Call}
    (hsound : ∀ c ∈ calls, c.Sound)
    (hnone : undecidedTrials { s with limiter := x.apply cfg s.now s.limiter, calls := calls } = 0) :
    Single { s with limiter := x.apply cfg s.now s.limiter, calls := calls } := by
  refine ⟨hsound, ?_⟩
  rw [hnone, if_neg (circuit_apply_of_decides hx s.now s.limiter)]

/-- After a move of an orderly run one trial is undecided if the circuit is half-open, and none otherwise. -/
theorem Step.single {s s' : Traffic} {m : Move} (h : Step cfg s m s')
    (horderly : s.interferes m = true → ∀ c ∈ s.calls, ¬c.Trying) (hs : s.Single) : s'.Single := by
  have hsound : ∀ c ∈ s'.calls, c.Sound := h.sound hs.sound
  have hundecided := hs.undecided
  cases h with
  | pass => exact ⟨hsound, hundecided⟩
  | @enter p l hstart =>
    refine ⟨hsound, ?_⟩
    have hcount : ∀ d : Call, undecidedTrials { s with limiter := l, calls := s.calls ++ [d] } =
        s.undecidedTrials + if d.Trying then 1 else 0 := by
      intro d
      simp [undecidedTrials, List.countP_append, List.countP_singleton]
    rw [hcount, hundecided]
    -- through a closed circuit no trial is added, and an open one had none
    rcases (start?_cases hstart).2 with ⟨hclosed, -, rfl⟩ | ⟨hopened, -, -, rfl⟩
    · simp [hclosed, Call.Trying, Call.IsTrial]
    · simp [hopened, Call.Trying, Call.IsTrial, Call.undecided]
  | @finish before after c e hcalls hstage =>
    refine ⟨hsound, ?_⟩
    have hc : c.Sound := hs.sound c (by simp [hcalls])
    have hreplaced := undecidedTrials_replaced (c.finish e) hcalls s.limiter
    simp only [Call.trying_finish hc hstage e] at hreplaced
    exact (Nat.add_right_cancel hreplaced).trans hundecided
  | @lock before after c x left hcalls hstage =>
    have hc : c.Sound := hs.sound c (by simp [hcalls])
    have hreplaced := undecidedTrials_replaced (c.advance x left) hcalls (x.apply cfg s.now s.limiter)
    cases hx : x.decides with
    | false =>
      refine ⟨hsound, ?_⟩
      simp only [Call.trying_advance hx hstage] at hreplaced
      rw [circuit_apply_of_not_decides hx]
      exact (Nat.add_right_cancel hreplaced).trans hundecided
    | true =>
      refine single_of_decides hx hsound ?_
      rw [if_neg (Call.not_trying_advance hc hx hstage)] at hreplaced
      by_cases htrial : c.IsTrial
      · -- the trial decides itself, and it was the only one
        rw [if_pos (Call.trying_of_decides hx hstage htrial)] at hreplaced
        have hle := hs.le_one
        omega
      · -- another call decides, so by order no trial was undecided
        have hinterferes : s.interferes (.advance before.length) = true := by
          simp [interferes, hcalls, htrial, Call.next?, hstage, hx]
        have hzero : s.undecidedTrials = 0 := undecidedTrials_eq_zero.mpr (horderly hinterferes)
        omega
  | @record m x hx =>
    have hdecides : x.decides = true := by rcases hx with ⟨-, rfl⟩ | ⟨-, rfl⟩ <;> rfl
    have hinterferes : s.interferes m = true := by rcases hx with ⟨rfl, -⟩ | ⟨rfl, -⟩ <;> rfl
    exact single_of_decides hdecides hsound (undecidedTrials_eq_zero.mpr (horderly hinterferes))

/-- So it is after the whole run. -/
theorem Single.runFrom {s : Traffic} (hs : s.Single) {ms : List Move} (horderly : Orderly cfg s ms) :
    (runFrom cfg s ms).Single := by
  induction ms generalizing s with
  | nil => exact hs
  | cons m ms ih => exact ih ((step_spec s m).single horderly.1 hs) horderly.2

/-! ### Trials under way -/

/-- The call is a trial, and its client holds the permit. -/
def Call.onTrial (c : Call) : Bool := decide (c.IsTrial ∧ c.stage = .underWay)

/-- How many trials are under way. -/
def trialsUnderWay (s : Traffic) : Nat := s.calls.countP Call.onTrial

theorem trialsUnderWay_le_undecidedTrials (s : Traffic) : s.trialsUnderWay ≤ s.undecidedTrials := by
  refine List.countP_mono_left fun c _ honTrial => ?_
  obtain ⟨htrial, hstage⟩ := of_decide_eq_true honTrial
  refine decide_eq_true ⟨htrial, ?_⟩
  rw [Call.undecided, hstage]

/-- There are no more trials under way than slots. -/
theorem trialsUnderWay_le (cfg : LimiterConfig) (ms : List Move) : (run cfg ms).trialsUnderWay ≤ cfg.maxConcurrent := by
  have hgate := accounted_run cfg ms
  -- a trial under way holds a slot
  have hslots : (run cfg ms).trialsUnderWay ≤ (run cfg ms).calls.countP Call.holdsSlot := by
    refine List.countP_mono_left fun c hc htrial => ?_
    have hnone := (sound_run cfg ms c hc).releases_underWay (of_decide_eq_true htrial).2
    simp [Call.holdsSlot, hnone]
  calc (run cfg ms).trialsUnderWay
    _ ≤ (run cfg ms).calls.countP Call.holdsSlot := hslots
    _ = (run cfg ms).limiter.active := hgate.active_eq.symm
    _ ≤ cfg.maxConcurrent := hgate.active_le

/-- The move belongs to no call. -/
def Move.isDirect : Move → Bool
  | .success => true
  | .failure => true
  | _ => false

/-- Calls and time lead from one state to the other. -/
def Leads (cfg : LimiterConfig) (s t : Traffic) : Prop := ∃ ms, (∀ m ∈ ms, m.isDirect = false) ∧ runFrom cfg s ms = t

theorem Leads.trans {s t u : Traffic} (hst : Leads cfg s t) (htu : Leads cfg t u) : Leads cfg s u := by
  obtain ⟨ms, hms, rfl⟩ := hst
  obtain ⟨ms', hms', rfl⟩ := htu
  exact ⟨ms ++ ms', List.forall_mem_append.mpr ⟨hms, hms'⟩, runFrom_append s ms ms'⟩

theorem leads_step (cfg : LimiterConfig) (s : Traffic) {m : Move} (hm : m.isDirect = false) :
    Leads cfg s (step cfg s m) :=
  ⟨[m], by simpa using hm, rfl⟩

theorem leads_whole {s : Traffic} {i : Nat} {c : Call} (hi : s.calls[i]? = some c) (hstage : c.stage = .underWay)
    (e : Ending) : Leads cfg s
      { s with limiter := e.apply cfg s.now c.permit s.limiter, calls := s.calls.set i (c.ended e) } := by
  refine ⟨whole i c.permit e, ?_, runFrom_whole hi hstage e⟩
  intro m hm
  rcases List.mem_cons.mp hm with rfl | hadvance
  · rfl
  · rw [List.eq_of_mem_replicate hadvance]
    rfl

/-- A call through a closed circuit. -/
def ordinary : Call := { permit := ⟨false⟩, found := .closed }

/-- A call through an open one. -/
def trial : Call := { permit := ⟨true⟩, found := .opened }

/-- A closed circuit lets a call through if there is a slot. -/
theorem leads_ordinary {s : Traffic} (hclosed : s.limiter.circuit = .closed)
    (hfree : s.limiter.active < cfg.maxConcurrent) : Leads cfg s
      { s with limiter := { s.limiter with active := s.limiter.active + 1 }, calls := s.calls ++ [ordinary] } := by
  have hstart : s.limiter.start? cfg s.now = some (⟨false⟩, { s.limiter with active := s.limiter.active + 1 }) := by
    simp [Limiter.start?, Limiter.canStart, hclosed, hfree]
  simpa [step, hstart, ordinary, hclosed] using leads_step cfg s (m := .start) rfl

/-- Once the reset time has passed, an open circuit lets a trial through. -/
theorem leads_trial {s : Traffic} (hopened : s.limiter.circuit = .opened) (hlast : s.limiter.lastFailure = some s.now)
    (hfree : s.limiter.active < cfg.maxConcurrent) : Leads cfg s
      { limiter := { s.limiter with active := s.limiter.active + 1, circuit := .halfOpen }
        now := s.now + cfg.resetMs
        calls := s.calls ++ [trial] } := by
  have hstart : s.limiter.start? cfg (s.now + cfg.resetMs) =
      some (⟨true⟩, { s.limiter with active := s.limiter.active + 1, circuit := .halfOpen }) := by
    simp [Limiter.start?, Limiter.canStart, Limiter.resetElapsed, hopened, hlast, hfree]
  have h := (leads_step cfg s (m := .wait cfg.resetMs) rfl).trans (leads_step cfg _ (m := .start) rfl)
  simpa [step, hstart, trial, hopened] using h

/-- A call that fails is counted, and may open the circuit. -/
theorem leads_failed {s : Traffic} (hclosed : s.limiter.circuit = .closed)
    (hfree : s.limiter.active < cfg.maxConcurrent) : Leads cfg s
      { s with
        limiter :=
          { s.limiter with
            failures := s.limiter.failures + 1
            lastFailure := some s.now
            circuit := if cfg.maxFailures ≤ s.limiter.failures + 1 then .opened else .closed }
        calls := s.calls ++ [ordinary.ended .fail] } := by
  have hi : (s.calls ++ [ordinary])[s.calls.length]? = some ordinary := by simp
  have h := (leads_ordinary hclosed hfree).trans (leads_whole hi rfl .fail)
  simpa [Ending.apply, Limiter.fail, Limiter.recordFailure, Limiter.release, hclosed] using h

/-- A count that is not the largest one goes up by one. -/
theorem toNat_succ_count {k : UInt32} (h : k.toNat + 1 < UInt32.size) : (k + 1).toNat = k.toNat + 1 := by
  rw [UInt32.toNat_add]
  exact Nat.mod_eq_of_lt h

/-- Enough failures in a row open a closed circuit that has a free slot; other calls are left as they are. -/
theorem leads_opened {s : Traffic} (hclosed : s.limiter.circuit = .closed)
    (hfree : s.limiter.active < cfg.maxConcurrent) (hroom : s.limiter.failures.toNat + 1 < UInt32.size) (n : Nat)
    (hn : cfg.maxFailures ≤ s.limiter.failures.toNat + 1 + n) :
    ∃ (failures : UInt32) (more : List Call), Leads cfg s
      { s with
        limiter := { s.limiter with failures := failures, lastFailure := some s.now, circuit := .opened }
        calls := s.calls ++ more } := by
  -- the induction is on how many failures are still missing at most
  induction n generalizing s with
  | zero =>
    have h := leads_failed hclosed hfree
    have henough : cfg.maxFailures ≤ s.limiter.failures + 1 := by
      rw [UInt32.le_iff_toNat_le, toNat_succ_count hroom]
      exact hn
    rw [if_pos henough] at h
    exact ⟨_, _, h⟩
  | succ n ih =>
    have h := leads_failed hclosed hfree
    by_cases henough : cfg.maxFailures ≤ s.limiter.failures + 1
    · rw [if_pos henough] at h
      exact ⟨_, _, h⟩
    · rw [if_neg henough] at h
      -- the bound itself is a count of 32 bits, so below it the count does not start anew
      have hcount := toNat_succ_count hroom
      have hbelow : s.limiter.failures.toNat + 1 < cfg.maxFailures.toNat := by
        rw [← hcount]
        exact UInt32.lt_iff_toNat_lt.mp (UInt32.not_le.mp henough)
      have hroom' : (s.limiter.failures + 1).toNat + 1 < UInt32.size := by
        rw [hcount]
        exact Nat.lt_of_le_of_lt hbelow cfg.maxFailures.toNat_lt
      have hnext : cfg.maxFailures ≤ (s.limiter.failures + 1).toNat + 1 + n := by
        rw [hcount]
        omega
      obtain ⟨failures, more, hmore⟩ := ih (s := { s with
        limiter := { s.limiter with failures := s.limiter.failures + 1, lastFailure := some s.now, circuit := .closed }
        calls := s.calls ++ [ordinary.ended .fail] }) rfl hfree hroom' hnext
      refine ⟨failures, ordinary.ended .fail :: more, ?_⟩
      simpa using h.trans hmore

/-- An ordinary call that fails opens a half-open circuit. -/
theorem leads_reopened {s : Traffic} {i : Nat} (hi : s.calls[i]? = some ordinary)
    (hhalf : s.limiter.circuit = .halfOpen) : Leads cfg s
      { s with
        limiter :=
          { active := s.limiter.active - 1
            failures := s.limiter.failures + 1
            lastFailure := some s.now
            circuit := .opened }
        calls := s.calls.set i (ordinary.ended .fail) } := by
  have h : Leads cfg s _ := leads_whole hi rfl .fail
  simpa [Ending.apply, Limiter.fail, Limiter.recordFailure, Limiter.release, hhalf] using h

/-- With two slots, a call from before the circuit opened can make room for a second trial. -/
theorem exists_two_trials (htwo : 2 ≤ cfg.maxConcurrent) : ∃ t, Leads cfg {} t ∧ 2 ≤ t.trialsUnderWay := by
  have hfree : 1 < cfg.maxConcurrent := htwo
  have hold : Leads cfg {} { limiter := { active := 1 }, calls := [ordinary] } := leads_ordinary rfl (by
    show 0 < cfg.maxConcurrent
    omega)
  obtain ⟨failures, more, hopened⟩ := leads_opened (s := { limiter := { active := 1 }, calls := [ordinary] })
    rfl hfree (by decide) cfg.maxFailures (Nat.le_add_left _ _)
  have hfirst : Leads cfg { limiter := ⟨1, failures, .opened, some 0⟩, calls := ordinary :: more } _ :=
    leads_trial rfl rfl hfree
  -- the old call fails while the trial is under way
  have hreopened : Leads cfg
      { limiter := ⟨2, failures, .halfOpen, some 0⟩, now := 0 + cfg.resetMs, calls := ordinary :: more ++ [trial] } _ :=
    leads_reopened (i := 0) rfl rfl
  have hsecond : Leads cfg
      { limiter := ⟨1, failures + 1, .opened, some (0 + cfg.resetMs)⟩
        now := 0 + cfg.resetMs
        calls := ordinary.ended .fail :: more ++ [trial] } _ :=
    leads_trial rfl rfl hfree
  refine ⟨_, (((hold.trans hopened).trans hfirst).trans hreopened).trans hsecond, ?_⟩
  have hone : [trial].countP Call.onTrial = 1 := rfl
  rw [trialsUnderWay, List.countP_append, List.countP_append, hone]
  omega

/-- **Trials can overlap** exactly if there are two slots. In an orderly run they never do: there is one undecided trial
if the circuit is half-open, and none otherwise. -/
theorem trials_overlap_iff (cfg : LimiterConfig) :
    ((∃ ms, (∀ m ∈ ms, m.isDirect = false) ∧ 2 ≤ (run cfg ms).trialsUnderWay) ↔ 2 ≤ cfg.maxConcurrent) ∧
      ∀ ms, Orderly cfg {} ms → (run cfg ms).trialsUnderWay ≤ 1 ∧
        (run cfg ms).undecidedTrials = if (run cfg ms).limiter.circuit = .halfOpen then 1 else 0 := by
  refine ⟨⟨?_, ?_⟩, ?_⟩
  · -- each trial takes a slot
    rintro ⟨ms, -, htwo⟩
    exact Nat.le_trans htwo (trialsUnderWay_le cfg ms)
  · intro hslots
    obtain ⟨t, ⟨ms, hms, rfl⟩, htwo⟩ := exists_two_trials hslots
    exact ⟨ms, hms, htwo⟩
  · intro ms horderly
    have hnew : Single {} := ⟨List.forall_mem_nil _, rfl⟩
    have hsingle : (run cfg ms).Single := hnew.runFrom horderly
    exact ⟨Nat.le_trans (run cfg ms).trialsUnderWay_le_undecidedTrials hsingle.le_one, hsingle.undecided⟩

/-- The first trial fails and keeps its slot for a while. Only now does the call from before the circuit opened fail,
and a second trial follows. -/
def deferredFailure : List Move :=
  [.start, .start] ++ whole 1 ⟨false⟩ .fail ++ [.start, .finish 2 .fail, .advance 2] ++ whole 0 ⟨false⟩ .fail ++
    [.start]

theorem trials_overlap_iff_deferredFailure :
    Orderly ⟨2, 1, 0⟩ {} deferredFailure ∧ (run ⟨2, 1, 0⟩ deferredFailure).limiter.circuit = .halfOpen ∧
      (run ⟨2, 1, 0⟩ deferredFailure).undecidedTrials = 1 := by
  have horderly : Orderly ⟨2, 1, 0⟩ {} deferredFailure := by decide
  have hhalf : (run ⟨2, 1, 0⟩ deferredFailure).limiter.circuit = .halfOpen := by decide
  have hundecided := ((trials_overlap_iff ⟨2, 1, 0⟩).2 deferredFailure horderly).2
  rw [if_pos hhalf] at hundecided
  exact ⟨horderly, hhalf, hundecided⟩

/-- The call from before the circuit opened fails while the trial is under way. -/
def staleFailure : List Move :=
  [.start, .start] ++ whole 1 ⟨false⟩ .fail ++ [.start] ++ whole 0 ⟨false⟩ .fail ++ [.start]

theorem staleFailure_second_trial :
    (∀ m ∈ staleFailure, m.isDirect = false) ∧ (run ⟨2, 1, 0⟩ staleFailure).trialsUnderWay = 2 := by
  decide

end Traffic

end AgentFlow
