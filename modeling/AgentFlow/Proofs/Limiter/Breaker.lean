import AgentFlow.Proofs.Limiter.Gate

/-!
# The circuit breaker never wedges

A half-open circuit waits for a trial, and a section of some trial that takes it out of this state is always still to
come: of a trial that ends well or fails the section that records the outcome, of one that is dropped the section that
gives its slot back. So the circuit never stays half-open once all calls are at their end. Whoever is refused then finds
no slots at all, or an open circuit before its reset time (`breaker_never_wedged`).
-/

namespace AgentFlow

namespace Traffic

variable {cfg : LimiterConfig}

/-! ### Sections and the circuit -/

/-- What decides a trial leaves no half-open circuit. -/
theorem circuit_apply_of_decides {x : Section} (hx : x.decides = true) (now : Nat) (l : Limiter) :
    (x.apply cfg now l).circuit ≠ .halfOpen := by
  cases x with
  | success => exact nofun
  | release trial =>
    -- a trial that is given up opens the circuit again
    obtain rfl : trial = true := hx
    cases hc : l.circuit <;> simp [Section.apply, Limiter.release, hc]
  | failure =>
    simp only [Section.apply, Limiter.recordFailure]
    by_cases hopens : l.circuit = .halfOpen ∨ cfg.maxFailures ≤ l.failures + 1
    · simp [hopens]
    · rw [if_neg hopens]
      exact fun h => hopens (.inl h)

/-- What decides nothing leaves the circuit as it is. -/
theorem circuit_apply_of_not_decides {x : Section} (hx : x.decides = false) (now : Nat) (l : Limiter) :
    (x.apply cfg now l).circuit = l.circuit := by
  cases x with
  | success => cases hx
  | failure => cases hx
  | release trial =>
    obtain rfl : trial = false := hx
    rfl

/-- What a circuit says about the failures before it. -/
structure Consistent (cfg : LimiterConfig) (l : Limiter) : Prop where
  lastFailure : l.circuit ≠ .closed → ∃ t, l.lastFailure = some t
  failures : l.circuit = .closed → l.failures < cfg.maxFailures

/-- No section breaks what the circuit says. -/
theorem Consistent.apply (hmax : 1 ≤ cfg.maxFailures) {l : Limiter} (hl : Consistent cfg l) (x : Section) (now : Nat) :
    Consistent cfg (x.apply cfg now l) := by
  cases x with
  | success => exact ⟨fun h => absurd rfl h, fun _ => hmax⟩
  | release trial =>
    have hclosed : (Limiter.release trial l).circuit = .closed ↔ l.circuit = .closed := by
      cases hc : l.circuit <;> cases trial <;> simp [Limiter.release, hc]
    exact ⟨fun h => hl.lastFailure (fun hc => h (hclosed.mpr hc)), fun h => hl.failures (hclosed.mp h)⟩
  | failure =>
    refine ⟨fun _ => ⟨now, rfl⟩, fun hclosed => ?_⟩
    simp only [Section.apply, Limiter.recordFailure] at hclosed ⊢
    -- a circuit that stays closed has failures to spare
    by_cases hopens : l.circuit = .halfOpen ∨ cfg.maxFailures ≤ l.failures + 1
    · simp [hopens] at hclosed
    · exact UInt32.not_le.mp fun hmany => hopens (.inr hmany)

/-! ### Trials -/

/-- A trial that has not recorded its outcome, and was not given up. -/
def Call.Trying (c : Call) : Prop := c.IsTrial ∧ c.undecided = true

instance (c : Call) : Decidable c.Trying := inferInstanceAs (Decidable (_ ∧ _))

theorem Call.Trying.not_over {c : Call} (h : c.Trying) : ¬c.Over := by
  intro hover
  have hundecided := h.2
  rw [undecided, hover] at hundecided
  cases hundecided

/-- However a trial ends, one of its sections decides it. -/
theorem any_decides_sections {p : Permit} (htrial : p.trial = true) (e : Ending) :
    (e.sections p).any Section.decides = true := by
  rcases sections_cases p e with h | h | h <;> rw [h]
  · rfl
  · rfl
  · simp [Section.decides, htrial]

/-- However a trial is ended, its outcome is still to come. -/
theorem Call.Trying.finish {c : Call} (hc : c.Sound) (h : c.Trying) (e : Ending) : (c.finish e).Trying :=
  ⟨h.1, any_decides_sections (hc.trial.mpr h.1) e⟩

/-- A section that decides nothing leaves a trial on its way. -/
theorem Call.trying_advance {c : Call} {x : Section} {left : List Section} (hx : x.decides = false)
    (hstage : c.stage = .ending (x :: left)) : (c.advance x left).Trying ↔ c.Trying := by
  have hsame : (c.advance x left).undecided = c.undecided := by simp [undecided, advance, hstage, hx]
  rw [Trying, Trying, hsame]
  exact Iff.rfl

/-- What every move keeps: a half-open circuit has a trial. -/
structure Armed (cfg : LimiterConfig) (s : Traffic) : Prop where
  consistent : Consistent cfg s.limiter
  trying : s.limiter.circuit = .halfOpen → ∃ c ∈ s.calls, c.Trying

theorem exists_mem_replaced {before after : List Call} {c d : Call} {Q : Call → Prop}
    (h : ∃ c' ∈ before ++ c :: after, Q c') (hd : Q c → Q d) : ∃ d' ∈ before ++ d :: after, Q d' := by
  obtain ⟨c', hmem, hq⟩ := h
  rcases List.mem_append.mp hmem with hbefore | hrest
  · exact ⟨c', List.mem_append_left _ hbefore, hq⟩
  · rcases List.mem_cons.mp hrest with rfl | hafter
    · exact ⟨d, List.mem_append_right _ List.mem_cons_self, hd hq⟩
    · exact ⟨c', List.mem_append_right _ (List.mem_cons_of_mem _ hafter), hq⟩

/-- Every move leaves a half-open circuit with a trial. -/
theorem Step.armed (hmax : 1 ≤ cfg.maxFailures) {s s' : Traffic} {m : Move} (h : Step cfg s m s')
    (hsound : ∀ c ∈ s.calls, c.Sound) (hs : s.Armed cfg) : s'.Armed cfg := by
  cases h with
  | pass => exact ⟨hs.consistent, hs.trying⟩
  | enter hstart =>
    -- a closed circuit stays closed, and an open one gets its trial
    rcases (start?_cases hstart).2 with ⟨hclosed, -, rfl⟩ | ⟨hopened, -, -, rfl⟩
    · refine ⟨⟨hs.consistent.lastFailure, hs.consistent.failures⟩, fun hhalf => ?_⟩
      rw [hclosed] at hhalf
      cases hhalf
    · have hlast := hs.consistent.lastFailure (by rw [hopened]; nofun)
      refine ⟨⟨fun _ => hlast, nofun⟩, fun _ => ?_⟩
      exact ⟨_, List.mem_append_right _ (List.mem_singleton_self _), hopened, rfl⟩
  | @finish before after c e hcalls hstage =>
    refine ⟨hs.consistent, fun hhalf => ?_⟩
    have hc : c.Sound := hsound c (by simp [hcalls])
    exact exists_mem_replaced (hcalls ▸ hs.trying hhalf) (fun h => h.finish hc e)
  | @lock before after c x left hcalls hstage =>
    refine ⟨hs.consistent.apply hmax x s.now, fun hhalf => ?_⟩
    -- the circuit is decided, or the call that was trying still is
    cases hx : x.decides with
    | true => exact absurd hhalf (circuit_apply_of_decides hx s.now s.limiter)
    | false =>
      rw [circuit_apply_of_not_decides hx] at hhalf
      exact exists_mem_replaced (hcalls ▸ hs.trying hhalf) (Call.trying_advance hx hstage).mpr
  | @record m x hx =>
    refine ⟨hs.consistent.apply hmax x s.now, fun hhalf => ?_⟩
    have hdecides : x.decides = true := by rcases hx with ⟨-, rfl⟩ | ⟨-, rfl⟩ <;> rfl
    exact absurd hhalf (circuit_apply_of_decides hdecides s.now s.limiter)

theorem armed_run (hmax : 1 ≤ cfg.maxFailures) (ms : List Move) : (run cfg ms).Armed cfg := by
  refine run_keeps_of_sound ?_ (fun s m s' hsound hs h => h.armed hmax hsound hs) ms
  exact ⟨⟨fun h => absurd rfl h, fun _ => hmax⟩, nofun⟩

/-! ### Refusals -/

/-- Who is refused although no slot is taken finds no slots at all, or a circuit that is not closed. -/
theorem refused_cases {l : Limiter} {now : Nat} (hidle : l.active = 0) (h : l.start? cfg now = none) :
    cfg.maxConcurrent = 0 ∨ l.circuit = .halfOpen ∨
      l.circuit = .opened ∧ ∃ t, l.lastFailure = some t ∧ now < t + cfg.resetMs := by
  have hcan : l.canStart cfg now = false := by
    cases hc : l.canStart cfg now with
    | false => rfl
    | true => simp [Limiter.start?, hc] at h
  rw [Limiter.canStart, hidle, Bool.and_eq_false_iff, decide_eq_false_iff_not] at hcan
  rcases hcan with hnone | hcircuit
  · exact .inl (by omega)
  · cases hc : l.circuit with
    | closed => simp [hc] at hcircuit
    | halfOpen => exact .inr (.inl rfl)
    | opened =>
      rw [hc] at hcircuit
      refine .inr (.inr ⟨rfl, ?_⟩)
      cases ht : l.lastFailure with
      | none => simp [Limiter.resetElapsed, ht] at hcircuit
      | some t =>
        refine ⟨t, rfl, ?_⟩
        simpa [Limiter.resetElapsed, ht] using hcircuit

/-- What a circuit breaker that never wedges keeps to. -/
structure NeverWedged (cfg : LimiterConfig) (s : Traffic) : Prop where
  /-- Some trial of a half-open circuit is not at its end. -/
  halfOpen : s.limiter.circuit = .halfOpen → ∃ c ∈ s.calls, c.IsTrial ∧ ¬c.Over
  /-- With all calls at their end the circuit is not half-open, and a call is refused only if there are no slots or if
  the circuit is open and its reset time has not passed. -/
  quiet : (∀ c ∈ s.calls, c.Over) → s.limiter.circuit ≠ .halfOpen ∧
    (s.limiter.start? cfg s.now = none → cfg.maxConcurrent = 0 ∨
      s.limiter.circuit = .opened ∧ ∃ t, s.limiter.lastFailure = some t ∧ s.now < t + cfg.resetMs)
  opened : s.limiter.circuit = .opened → ∃ t, s.limiter.lastFailure = some t
  closed : s.limiter.circuit = .closed → s.limiter.failures < cfg.maxFailures
  /-- An open circuit lets a call through only after its reset time. -/
  admitted : s.limiter.circuit = .opened → ∀ p l, s.limiter.start? cfg s.now = some (p, l) →
    ∃ t, s.limiter.lastFailure = some t ∧ t + cfg.resetMs ≤ s.now

/-- **The circuit breaker never wedges and never leaks**, whatever clients do. -/
theorem breaker_never_wedged (cfg : LimiterConfig) (hmax : 1 ≤ cfg.maxFailures) (ms : List Move) :
    (run cfg ms).NeverWedged cfg := by
  have hgate := accounted_run cfg ms
  have h := armed_run hmax ms
  have htrial : (run cfg ms).limiter.circuit = .halfOpen → ∃ c ∈ (run cfg ms).calls, c.IsTrial ∧ ¬c.Over := by
    intro hhalf
    obtain ⟨c, hc, htrying⟩ := h.trying hhalf
    exact ⟨c, hc, htrying.1, htrying.not_over⟩
  have hopened : (run cfg ms).limiter.circuit = .opened → ∃ t, (run cfg ms).limiter.lastFailure = some t :=
    fun hc => h.consistent.lastFailure (by rw [hc]; nofun)
  refine ⟨htrial, ?_, hopened, h.consistent.failures, ?_⟩
  · intro hover
    have hhalf : (run cfg ms).limiter.circuit ≠ .halfOpen := by
      intro hhalf
      obtain ⟨c, hc, -, hnot⟩ := htrial hhalf
      exact hnot (hover c hc)
    -- calls at their end hold no slots
    have hidle : (run cfg ms).limiter.active = 0 := by
      rw [hgate.active_eq, List.countP_eq_zero]
      intro c hc
      simp [Call.holdsSlot, (sound_run cfg ms c hc).releases_of_over (hover c hc)]
    refine ⟨hhalf, fun hrefused => ?_⟩
    rcases refused_cases hidle hrefused with hnone | hc | hearly
    · exact .inl hnone
    · exact absurd hc hhalf
    · exact .inr hearly
  · intro hc p l hstart
    obtain ⟨t, ht⟩ := hopened hc
    refine ⟨t, ht, ?_⟩
    rcases (start?_cases hstart).2 with ⟨hclosed, -⟩ | ⟨-, helapsed, -⟩
    · rw [hc] at hclosed
      cases hclosed
    · simpa [Limiter.resetElapsed, ht] using helapsed

/-- A trial has given its slot back but has not recorded its success, and a call from before the circuit opened is about
to record a failure. -/
def betweenSections : List Move :=
  [.start, .start] ++ whole 1 ⟨false⟩ .fail ++ [.start, .finish 2 .succeed, .advance 2, .finish 0 .fail]

theorem breaker_never_wedged_betweenSections :
    1 ≤ (LimiterConfig.mk 2 1 0).maxFailures ∧ (run ⟨2, 1, 0⟩ betweenSections).limiter.circuit = .halfOpen ∧
      (run ⟨2, 1, 0⟩ betweenSections).NeverWedged ⟨2, 1, 0⟩ :=
  ⟨Nat.le_refl 1, by decide, breaker_never_wedged ⟨2, 1, 0⟩ (Nat.le_refl 1) betweenSections⟩

end Traffic

end AgentFlow
