import AgentFlow.Proofs.Limiter.Traffic

/-!
# The concurrency gate is exact

A call that was let through holds a slot until it gives it back, and on each of its ways to end it does so in exactly
one section. So, whatever happens between the sections of a call, a limiter counts as active the calls that hold their
slots, there are never more of them than its bound, and it never gives back a slot that it does not count
(`gate_exact`).
-/

namespace AgentFlow

namespace Traffic

/-- The call was let through and has not given its slot back. -/
def Call.holdsSlot (c : Call) : Bool := c.releases == 0

/-- What an exact gate keeps to. -/
structure ExactGate (cfg : LimiterConfig) (s : Traffic) : Prop where
  /-- The calls counted are those that hold a slot. -/
  active_eq : s.limiter.active = s.calls.countP Call.holdsSlot
  active_le : s.limiter.active ≤ cfg.maxConcurrent
  /-- A slot that is given back was counted. -/
  counted : ∀ c ∈ s.calls, ∀ trial left, c.stage = .ending (.release trial :: left) →
    (s.limiter.release trial).active + 1 = s.limiter.active
  /-- No call gives its slot back twice, and a call at its end has given it back. -/
  once : ∀ c ∈ s.calls, c.releases ≤ 1 ∧ (c.Over → c.releases = 1)
  /-- Every way of ending a call leads to its end, and the slot is then given back once. -/
  ends : ∀ i c, s.calls[i]? = some c → c.stage = .underWay → ∀ e : Ending,
    ∃ d, (runFrom cfg s (whole i c.permit e)).calls[i]? = some d ∧ d.Over ∧ d.releases = 1

/-! ### One call -/

/-- Every way of ending a call gives the slot back once. -/
theorem countP_isRelease_sections (p : Permit) (e : Ending) : (e.sections p).countP Section.isRelease = 1 := by
  rcases sections_cases p e with h | h | h <;> rw [h] <;> rfl

namespace Call

/-- Only a release counts as one. -/
theorem releases_advance (x : Section) (left : List Section) (c : Call) :
    (c.advance x left).releases = c.releases + if x.isRelease then 1 else 0 := by
  simp [releases, advance, List.countP_append, List.countP_cons]

theorem holdsSlot_finish (e : Ending) (c : Call) : (c.finish e).holdsSlot = c.holdsSlot := rfl

theorem holdsSlot_advance {x : Section} (hx : x.isRelease = false) (left : List Section) (c : Call) :
    (c.advance x left).holdsSlot = c.holdsSlot := by
  simp [holdsSlot, releases_advance, hx]

theorem holdsSlot_advance_release (trial : Bool) (left : List Section) (c : Call) :
    (c.advance (.release trial) left).holdsSlot = false := by
  simp [holdsSlot, releases_advance, Section.isRelease]

namespace Sound

variable {c : Call} (hc : c.Sound)
include hc

theorem releases_underWay (hstage : c.stage = .underWay) : c.releases = 0 := by
  rw [releases, hc.ran_underWay hstage]
  rfl

/-- The slot was given back already or will be, and not both. -/
theorem releases_ending {left : List Section} (hstage : c.stage = .ending left) :
    c.releases + left.countP Section.isRelease = 1 := by
  obtain ⟨e, hran⟩ := hc.ran_ending hstage
  have hall : (c.ran ++ left).countP Section.isRelease = 1 := by rw [hran, countP_isRelease_sections]
  rwa [List.countP_append] at hall

/-- No slot is given back twice. -/
theorem releases_le_one : c.releases ≤ 1 := by
  cases hstage : c.stage with
  | underWay =>
    have := hc.releases_underWay hstage
    omega
  | ending left =>
    have := hc.releases_ending hstage
    omega

theorem releases_of_over (hover : c.Over) : c.releases = 1 := hc.releases_ending hover

/-- A call that is about to give its slot back still holds it. -/
theorem holdsSlot_of_next {trial : Bool} {left : List Section} (hstage : c.stage = .ending (.release trial :: left)) :
    c.holdsSlot = true := by
  have hall := hc.releases_ending hstage
  rw [List.countP_cons_of_pos rfl] at hall
  have hnone : c.releases = 0 := by omega
  simp [holdsSlot, hnone]

theorem ended_releases (hstage : c.stage = .underWay) (e : Ending) : (c.ended e).releases = 1 := by
  have hran : (c.ended e).ran = e.sections c.permit := by simp [ended, hc.ran_underWay hstage]
  rw [releases, hran, countP_isRelease_sections]

end Sound

end Call

/-! ### The limiter -/

theorem active_apply (cfg : LimiterConfig) (now : Nat) (x : Section) (l : Limiter) :
    (x.apply cfg now l).active = l.active - if x.isRelease then 1 else 0 := by
  cases x <;> rfl

/-- What every move keeps. -/
structure Accounted (cfg : LimiterConfig) (s : Traffic) : Prop where
  active_eq : s.limiter.active = s.calls.countP Call.holdsSlot
  active_le : s.limiter.active ≤ cfg.maxConcurrent

/-- A call that holds a slot is counted. -/
theorem Accounted.active_pos {cfg : LimiterConfig} {s : Traffic} (h : s.Accounted cfg) {c : Call} (hc : c ∈ s.calls)
    (hslot : c.holdsSlot = true) : 0 < s.limiter.active := by
  rw [h.active_eq]
  exact List.countP_pos_iff.mpr ⟨c, hc, hslot⟩

/-- Every move keeps the count. -/
theorem Step.accounted {cfg : LimiterConfig} {s s' : Traffic} {m : Move} (h : Step cfg s m s')
    (hsound : ∀ c ∈ s.calls, c.Sound) (hs : s.Accounted cfg) : s'.Accounted cfg := by
  have hactive := hs.active_eq
  have hle := hs.active_le
  cases h with
  | pass => exact ⟨hactive, hle⟩
  | enter hstart =>
    -- one call more is counted, and there was room for it
    obtain ⟨hfree, hcases⟩ := start?_cases hstart
    refine ⟨?_, ?_⟩
    · rw [List.countP_append, List.countP_singleton]
      rcases hcases with ⟨-, -, rfl⟩ | ⟨-, -, -, rfl⟩
      · exact congrArg (· + 1) hactive
      · exact congrArg (· + 1) hactive
    · rcases hcases with ⟨-, -, rfl⟩ | ⟨-, -, -, rfl⟩
      · exact hfree
      · exact hfree
  | finish e hcalls hstage =>
    -- no slot is given back yet
    refine ⟨?_, hle⟩
    rw [hcalls, List.countP_append, List.countP_cons] at hactive
    rw [List.countP_append, List.countP_cons, Call.holdsSlot_finish]
    exact hactive
  | @lock before after c x left hcalls hstage =>
    have hc : c ∈ s.calls := by simp [hcalls]
    have hless : (x.apply cfg s.now s.limiter).active ≤ s.limiter.active := by
      rw [active_apply]
      omega
    refine ⟨?_, Nat.le_trans hless hle⟩
    rw [hcalls, List.countP_append, List.countP_cons] at hactive
    rw [active_apply, List.countP_append, List.countP_cons]
    cases hx : x.isRelease with
    | false =>
      rw [Call.holdsSlot_advance hx]
      simpa using hactive
    | true =>
      -- the call held the slot that is given back
      obtain ⟨trial, rfl⟩ : ∃ trial, x = .release trial := by
        cases x with
        | release trial => exact ⟨trial, rfl⟩
        | success => cases hx
        | failure => cases hx
      have hslot : c.holdsSlot = true := (hsound c hc).holdsSlot_of_next hstage
      rw [hslot, if_pos rfl] at hactive
      rw [Call.holdsSlot_advance_release, if_pos rfl, if_neg Bool.false_ne_true]
      omega
  | @record m x hx =>
    -- an outcome alone takes no slot and gives none back
    have hsame : (x.apply cfg s.now s.limiter).active = s.limiter.active := by
      rcases hx with ⟨-, rfl⟩ | ⟨-, rfl⟩ <;> rfl
    exact ⟨hsame.trans hactive, Nat.le_trans (Nat.le_of_eq hsame) hle⟩

theorem accounted_run (cfg : LimiterConfig) (ms : List Move) : (run cfg ms).Accounted cfg := by
  refine run_keeps_of_sound ?_ (fun s m s' hsound hs h => h.accounted hsound hs) ms
  exact ⟨rfl, Nat.zero_le _⟩

/-- **The concurrency gate is exact** after any interleaving of the sections of any number of calls. -/
theorem gate_exact (cfg : LimiterConfig) (ms : List Move) : (run cfg ms).ExactGate cfg := by
  have h := accounted_run cfg ms
  have hsound := sound_run cfg ms
  refine ⟨h.active_eq, h.active_le, ?_, ?_, ?_⟩
  · intro c hc trial left hstage
    have hpos : 0 < (run cfg ms).limiter.active := h.active_pos hc ((hsound c hc).holdsSlot_of_next hstage)
    exact Nat.succ_pred_eq_of_pos hpos
  · exact fun c hc => ⟨(hsound c hc).releases_le_one, (hsound c hc).releases_of_over⟩
  · intro i c hi hstage e
    have hlt : i < (run cfg ms).calls.length := (List.getElem?_eq_some_iff.mp hi).1
    have hc : c.Sound := hsound c (List.mem_of_getElem? hi)
    rw [runFrom_whole hi hstage e]
    exact ⟨c.ended e, List.getElem?_set_self hlt, rfl, hc.ended_releases hstage e⟩

end Traffic

end AgentFlow
