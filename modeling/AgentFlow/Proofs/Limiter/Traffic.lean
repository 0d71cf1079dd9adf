import Mathlib.Data.List.Induction
import AgentFlow.Service.Limiter

/-!
# A limiter in use

Any number of clients share one limiter. What a client does with it is cut here at the limiter's lock: starting a call
is one section under the lock, ending a call is one or two, and anything may happen elsewhere between two of them.
`Traffic` is the limiter together with the time and with all calls it let through, and a `Move` is one section of one
call, a section of its own, or the passing of time. `Traffic.run` plays a list of moves, so what holds for every list of
moves holds for every interleaving.

Moves that nothing else comes between add up to the limiter's operations (`runFrom_whole`). What one move can do
is said once (`Step`, `step_spec`), and what every step keeps holds after every run (`run_keeps`, `run_keeps_of_sound`).
-/

namespace AgentFlow

namespace Traffic

/-! ### Sections -/

/-- What happens in one go under the lock, apart from starting a call. -/
inductive Section where
  /-- A slot is given back. -/
  | release (trial : Bool)
  /-- A success is recorded. -/
  | success
  /-- A failure is recorded. -/
  | failure
  deriving DecidableEq, Repr

namespace Section

/-- The limiter after the section. -/
def apply (cfg : LimiterConfig) (now : Nat) : Section → Limiter → Limiter
  | .release trial => Limiter.release trial
  | .success => Limiter.recordSuccess
  | .failure => Limiter.recordFailure cfg now

/-- The section gives a slot back. -/
def isRelease : Section → Bool
  | .release _ => true
  | _ => false

/-- The section takes a half-open circuit to another state: it records an outcome, or it gives up a trial. -/
def decides : Section → Bool
  | .release trial => trial
  | _ => true

end Section

/-- How a client ends a call. -/
inductive Ending where
  | succeed
  | fail
  /-- As the result of the call says. -/
  | complete (result : Except ServiceError Unit)
  /-- The permit is dropped. -/
  | drop

/-- The sections of dropping a permit: one that was not completed gives its slot back. -/
def Ending.dropped (p : Permit) (completed : Bool) : List Section := if completed then [] else [.release p.trial]

/-- The sections of ending a call well; the permit is dropped last. -/
def Ending.succeeded (p : Permit) : List Section := [.release false, .success] ++ dropped p true

/-- The sections of a call that fails. -/
def Ending.failed (p : Permit) : List Section := [.failure, .release false] ++ dropped p true

/-- The sections of ending a call, in order. -/
def Ending.sections (p : Permit) : Ending → List Section
  | .succeed => succeeded p
  | .fail => failed p
  | .complete (.ok _) => succeeded p
  | .complete (.error e) => if e.countsAsFailure then failed p else succeeded p
  | .drop => dropped p false

/-- What the limiter's own operation makes of the limiter. -/
def Ending.apply (cfg : LimiterConfig) (now : Nat) (p : Permit) (l : Limiter) : Ending → Limiter
  | .succeed => l.succeed
  | .fail => l.fail cfg now
  | .complete result => l.complete cfg now result
  | .drop => l.drop p

/-! ### Calls -/

/-- How far a call has come. -/
inductive Stage where
  /-- The client holds the permit. -/
  | underWay
  /-- The client ends the call, with these sections still to come. -/
  | ending (left : List Section)
  deriving DecidableEq, Repr

/-- A call that was let through. -/
structure Call where
  permit : Permit
  /-- The circuit when the call was let through. -/
  found : Circuit
  stage : Stage := .underWay
  /-- The sections of the call so far. -/
  ran : List Section := []
  deriving DecidableEq, Repr

namespace Call

/-- The call was let through an open circuit, to try the service. -/
def IsTrial (c : Call) : Prop := c.found = .opened

instance (c : Call) : Decidable c.IsTrial := inferInstanceAs (Decidable (_ = _))

/-- The call is at its end. -/
def Over (c : Call) : Prop := c.stage = .ending []

instance (c : Call) : Decidable c.Over := inferInstanceAs (Decidable (_ = _))

/-- How often the call gave its slot back. -/
def releases (c : Call) : Nat := c.ran.countP Section.isRelease

/-- Some section of the call may still take a half-open circuit to another state. -/
def undecided (c : Call) : Bool :=
  match c.stage with
  | .underWay => true
  | .ending left => left.any Section.decides

/-- The client begins to end the call. -/
def finish (e : Ending) (c : Call) : Call := { c with stage := .ending (e.sections c.permit) }

/-- The call has one section behind it. -/
def advance (x : Section) (left : List Section) (c : Call) : Call :=
  { c with stage := .ending left, ran := c.ran ++ [x] }

end Call

end Traffic

/-- A limiter, the time, and the calls that were let through, in order. -/
structure Traffic where
  limiter : Limiter := {}
  now : Nat := 0
  calls : List Traffic.Call := []
  deriving DecidableEq, Repr

namespace Traffic

/-- What can happen next. Calls have numbers in the order they were let through. -/
inductive Move where
  /-- Time passes. -/
  | wait (ms : Nat)
  /-- A client asks to make a call. -/
  | start
  /-- The client of call `i` begins to end it. -/
  | finish (i : Nat) (e : Ending)
  /-- The next section of call `i`, which its client ends. -/
  | advance (i : Nat)
  /-- A client records an outcome that belongs to no call. -/
  | success
  | failure

variable (cfg : LimiterConfig)

/-- The traffic after a move. A move that is not possible, such as ending a call twice, changes nothing. -/
def step (s : Traffic) : Move → Traffic
  | .wait ms => { s with now := s.now + ms }
  | .start =>
    match s.limiter.start? cfg s.now with
    | some (p, l) => { s with limiter := l, calls := s.calls ++ [{ permit := p, found := s.limiter.circuit }] }
    | none => s
  | .finish i e =>
    match s.calls[i]? with
    | some c =>
      match c.stage with
      | .underWay => { s with calls := s.calls.set i (c.finish e) }
      | .ending _ => s
    | none => s
  | .advance i =>
    match s.calls[i]? with
    | some c =>
      match c.stage with
      | .ending (x :: left) =>
        { s with limiter := x.apply cfg s.now s.limiter, calls := s.calls.set i (c.advance x left) }
      | _ => s
    | none => s
  | .success => { s with limiter := s.limiter.recordSuccess }
  | .failure => { s with limiter := s.limiter.recordFailure cfg s.now }

/-- The traffic after some moves. -/
def runFrom (s : Traffic) (ms : List Move) : Traffic := ms.foldl (step cfg) s

/-- The traffic that some moves lead to from a new limiter. -/
def run (ms : List Move) : Traffic := runFrom cfg {} ms

variable {cfg}

@[simp] theorem runFrom_cons (s : Traffic) (m : Move) (ms : List Move) :
    runFrom cfg s (m :: ms) = runFrom cfg (step cfg s m) ms := rfl

theorem runFrom_append (s : Traffic) (ms ms' : List Move) :
    runFrom cfg s (ms ++ ms') = runFrom cfg (runFrom cfg s ms) ms' := List.foldl_append

theorem run_concat (ms : List Move) (m : Move) : run cfg (ms ++ [m]) = step cfg (run cfg ms) m :=
  runFrom_append {} ms [m]

/-! ### What a move can do -/

/-- What move `m` can do. -/
inductive Step (cfg : LimiterConfig) (s : Traffic) : Move → Traffic → Prop
  /-- Nothing but that time passes. -/
  | pass {m : Move} {now : Nat} (h : s.now ≤ now) : Step cfg s m { s with now := now }
  /-- A call is let through. -/
  | enter {p : Permit} {l : Limiter} (h : s.limiter.start? cfg s.now = some (p, l)) :
    Step cfg s .start { s with limiter := l, calls := s.calls ++ [{ permit := p, found := s.limiter.circuit }] }
  /-- A client begins to end a call. -/
  | finish {before after : List Call} {c : Call} (e : Ending) (h : s.calls = before ++ c :: after)
    (hstage : c.stage = .underWay) :
    Step cfg s (.finish before.length e) { s with calls := before ++ c.finish e :: after }
  /-- A call that is being ended has one section behind it. -/
  | lock {before after : List Call} {c : Call} {x : Section} {left : List Section}
    (h : s.calls = before ++ c :: after) (hstage : c.stage = .ending (x :: left)) :
    Step cfg s (.advance before.length)
      { s with limiter := x.apply cfg s.now s.limiter, calls := before ++ c.advance x left :: after }
  /-- An outcome is recorded that belongs to no call. -/
  | record {m : Move} {x : Section} (h : m = .success ∧ x = .success ∨ m = .failure ∧ x = .failure) :
    Step cfg s m { s with limiter := x.apply cfg s.now s.limiter }

/-- A call may be replaced where it stands. -/
theorem exists_split {calls : List Call} {i : Nat} {c : Call} (h : calls[i]? = some c) (d : Call) :
    ∃ before after, calls = before ++ c :: after ∧ before.length = i ∧ calls.set i d = before ++ d :: after := by
  obtain ⟨hlt, rfl⟩ := List.getElem?_eq_some_iff.mp h
  have hlength : (calls.take i).length = i := by
    rw [List.length_take]
    omega
  refine ⟨calls.take i, calls.drop (i + 1), ?_, hlength, List.set_eq_take_append_cons_drop.trans (if_pos hlt)⟩
  rw [← List.drop_eq_getElem_cons hlt, List.take_append_drop]

theorem step_finish {s : Traffic} {i : Nat} {c : Call} (hi : s.calls[i]? = some c) (hstage : c.stage = .underWay)
    (e : Ending) : step cfg s (.finish i e) = { s with calls := s.calls.set i (c.finish e) } := by
  simp only [step, hi, hstage]

theorem step_advance {s : Traffic} {i : Nat} {c : Call} {x : Section} {left : List Section}
    (hi : s.calls[i]? = some c) (hstage : c.stage = .ending (x :: left)) :
    step cfg s (.advance i) =
      { s with limiter := x.apply cfg s.now s.limiter, calls := s.calls.set i (c.advance x left) } := by
  simp only [step, hi, hstage]

/-- A move does one of these things; where it is not possible, no time passes either. -/
theorem step_spec (s : Traffic) (m : Move) : Step cfg s m (step cfg s m) := by
  -- a move that is not possible counts as time that does not pass
  have hnothing : step cfg s m = s → Step cfg s m (step cfg s m) := fun h => h.symm ▸ .pass (Nat.le_refl s.now)
  cases m with
  | wait ms => exact .pass (Nat.le_add_right s.now ms)
  | start =>
    cases h : s.limiter.start? cfg s.now with
    | none => exact hnothing (by simp only [step, h])
    | some started =>
      simp only [step, h]
      exact .enter h
  | finish i e =>
    cases hi : s.calls[i]? with
    | none => exact hnothing (by simp only [step, hi])
    | some c =>
      cases hstage : c.stage with
      | ending left => exact hnothing (by simp only [step, hi, hstage])
      | underWay =>
        obtain ⟨before, after, hcalls, rfl, hset⟩ := exists_split hi (c.finish e)
        rw [step_finish hi hstage, hset]
        exact .finish e hcalls hstage
  | advance i =>
    cases hi : s.calls[i]? with
    | none => exact hnothing (by simp only [step, hi])
    | some c =>
      cases hstage : c.stage with
      | underWay => exact hnothing (by simp only [step, hi, hstage])
      | ending left =>
        cases left with
        | nil => exact hnothing (by simp only [step, hi, hstage])
        | cons x left =>
          obtain ⟨before, after, hcalls, rfl, hset⟩ := exists_split hi (c.advance x left)
          rw [step_advance hi hstage, hset]
          exact .lock hcalls hstage
  | success => exact .record (.inl ⟨rfl, rfl⟩)
  | failure => exact .record (.inr ⟨rfl, rfl⟩)

/-- What holds for a new limiter and is kept by every step holds after every run. -/
theorem run_keeps {P : Traffic → Prop} (hnew : P {}) (hstep : ∀ s m s', P s → Step cfg s m s' → P s')
    (ms : List Move) : P (run cfg ms) := by
  induction ms using List.reverseRecOn with
  | nil => exact hnew
  | append_singleton ms m ih =>
    rw [run_concat]
    exact hstep _ m _ ih (step_spec _ m)

/-! ### Uninterrupted endings -/

/-- The moves of ending call `i`, whose permit is `p`, with nothing in between. -/
def whole (i : Nat) (p : Permit) (e : Ending) : List Move :=
  .finish i e :: List.replicate (e.sections p).length (.advance i)

/-- The call after all sections of its ending. -/
def Call.ended (e : Ending) (c : Call) : Call :=
  { c with stage := .ending [], ran := c.ran ++ e.sections c.permit }

/-- The sections of an ending add up to the operation of the limiter. -/
theorem foldl_sections (cfg : LimiterConfig) (now : Nat) (p : Permit) (e : Ending) (l : Limiter) :
    (e.sections p).foldl (fun l x => x.apply cfg now l) l = e.apply cfg now p l := by
  cases e with
  | succeed => rfl
  | fail => rfl
  | drop => rfl
  | complete result =>
    -- the result decides which of the other endings it is
    cases result with
    | ok a => rfl
    | error err => cases h : err.countsAsFailure <;> simp [Ending.sections, Ending.apply, Limiter.complete, h] <;> rfl

/-- Advancing a call as often as it has sections left runs them all. -/
theorem runFrom_advances {s : Traffic} {i : Nat} {c : Call} {left : List Section} (hi : s.calls[i]? = some c)
    (hstage : c.stage = .ending left) :
    runFrom cfg s (List.replicate left.length (.advance i)) =
      { s with
        limiter := left.foldl (fun l x => x.apply cfg s.now l) s.limiter
        calls := s.calls.set i { c with stage := .ending [], ran := c.ran ++ left } } := by
  induction left generalizing s c with
  | nil =>
    -- no section is left, and the call is at its end already
    have hsame : s.calls.set i c = s.calls := by
      obtain ⟨before, after, hcalls, -, hset⟩ := exists_split hi c
      rw [hset, ← hcalls]
    have hcall : ({ c with stage := .ending [], ran := c.ran ++ [] } : Call) = c := by simp [← hstage]
    rw [hcall, hsame]
    rfl
  | cons x left ih =>
    have hlt : i < s.calls.length := (List.getElem?_eq_some_iff.mp hi).1
    have hnext : (s.calls.set i (c.advance x left))[i]? = some (c.advance x left) := List.getElem?_set_self hlt
    rw [List.length_cons, List.replicate_succ, runFrom_cons, step_advance hi hstage, ih hnext rfl]
    simp [Call.advance]

/-- Without interruption, the sections of an ending do what the limiter's operation does. -/
theorem runFrom_whole {s : Traffic} {i : Nat} {c : Call} (hi : s.calls[i]? = some c) (hstage : c.stage = .underWay)
    (e : Ending) :
    runFrom cfg s (whole i c.permit e) =
      { s with limiter := e.apply cfg s.now c.permit s.limiter, calls := s.calls.set i (c.ended e) } := by
  have hlt : i < s.calls.length := (List.getElem?_eq_some_iff.mp hi).1
  have hnext : (s.calls.set i (c.finish e))[i]? = some (c.finish e) := List.getElem?_set_self hlt
  rw [whole, runFrom_cons, step_finish hi hstage, runFrom_advances hnext rfl, foldl_sections]
  simp [Call.finish, Call.ended]

/-! ### The course of a call -/

/-- There are three ways for a call to end. -/
theorem sections_cases (p : Permit) (e : Ending) :
    e.sections p = [.release false, .success] ∨ e.sections p = [.failure, .release false] ∨
      e.sections p = [.release p.trial] := by
  cases e with
  | succeed => exact .inl rfl
  | fail => exact .inr (.inl rfl)
  | drop => exact .inr (.inr rfl)
  | complete result =>
    cases result with
    | ok a => exact .inl rfl
    | error err =>
      cases h : err.countsAsFailure with
      | true => exact .inr (.inl (by simp [Ending.sections, Ending.failed, Ending.dropped, h]))
      | false => exact .inl (by simp [Ending.sections, Ending.succeeded, Ending.dropped, h])

/-- What is behind a call and what is before it make up one way of ending it, and its permit knows whether the call is a
trial. -/
structure Call.Sound (c : Call) : Prop where
  trial : c.permit.trial = true ↔ c.IsTrial
  course : c.stage = .underWay ∧ c.ran = [] ∨
    ∃ (e : Ending) (left : List Section), c.stage = .ending left ∧ c.ran ++ left = e.sections c.permit

namespace Call.Sound

variable {c : Call} (hc : c.Sound)
include hc

theorem ran_underWay (hstage : c.stage = .underWay) : c.ran = [] := by
  rcases hc.course with ⟨-, hran⟩ | ⟨e, left, hending, -⟩
  · exact hran
  · rw [hstage] at hending
    cases hending

theorem ran_ending {left : List Section} (hstage : c.stage = .ending left) :
    ∃ e : Ending, c.ran ++ left = e.sections c.permit := by
  rcases hc.course with ⟨hunder, -⟩ | ⟨e, left', hending, hran⟩
  · rw [hstage] at hunder
    cases hunder
  · rw [hstage] at hending
    cases hending
    exact ⟨e, hran⟩

theorem finish (hstage : c.stage = .underWay) (e : Ending) : (c.finish e).Sound := by
  refine ⟨hc.trial, .inr ⟨e, e.sections c.permit, rfl, ?_⟩⟩
  simp [Call.finish, hc.ran_underWay hstage]

theorem advance {x : Section} {left : List Section} (hstage : c.stage = .ending (x :: left)) :
    (c.advance x left).Sound := by
  obtain ⟨e, hran⟩ := hc.ran_ending hstage
  exact ⟨hc.trial, .inr ⟨e, left, rfl, by simpa [Call.advance] using hran⟩⟩

end Call.Sound

/-- A call is let through a closed circuit, or as the trial of an open one. -/
theorem start?_cases {l l' : Limiter} {now : Nat} {p : Permit} (h : l.start? cfg now = some (p, l')) :
    l.active < cfg.maxConcurrent ∧
      (l.circuit = .closed ∧ p.trial = false ∧ l' = { l with active := l.active + 1 } ∨
        l.circuit = .opened ∧ l.resetElapsed cfg now = true ∧ p.trial = true ∧
          l' = { l with active := l.active + 1, circuit := .halfOpen }) := by
  unfold Limiter.start? at h
  split at h
  · rename_i hcan
    obtain ⟨rfl, rfl⟩ := Prod.mk.inj (Option.some.inj h)
    rw [Limiter.canStart, Bool.and_eq_true, decide_eq_true_eq] at hcan
    refine ⟨hcan.1, ?_⟩
    have hcircuit := hcan.2
    cases hc : l.circuit with
    | closed => exact .inl ⟨rfl, rfl, rfl⟩
    | opened => exact .inr ⟨rfl, by simpa [hc] using hcircuit, rfl, rfl⟩
    | halfOpen => simp [hc] at hcircuit
  · cases h

/-- Every move keeps all calls sound. -/
theorem Step.sound {s s' : Traffic} {m : Move} (h : Step cfg s m s') (hs : ∀ c ∈ s.calls, c.Sound) :
    ∀ c ∈ s'.calls, c.Sound := by
  cases h with
  | pass => exact hs
  | record => exact hs
  | @enter p l hstart =>
    -- the circuit at the start tells whether the call is a trial, and so does its permit
    have hnew : Call.Sound { permit := p, found := s.limiter.circuit } := by
      refine ⟨?_, .inl ⟨rfl, rfl⟩⟩
      rcases (start?_cases hstart).2 with ⟨hcircuit, htrial, -⟩ | ⟨hcircuit, -, htrial, -⟩
      · simp [Call.IsTrial, hcircuit, htrial]
      · simp [Call.IsTrial, hcircuit, htrial]
    exact List.forall_mem_append.mpr ⟨hs, by simpa using hnew⟩
  | finish e hcalls hstage =>
    rw [hcalls, List.forall_mem_append, List.forall_mem_cons] at hs
    obtain ⟨hbefore, hc, hafter⟩ := hs
    exact List.forall_mem_append.mpr ⟨hbefore, List.forall_mem_cons.mpr ⟨hc.finish hstage e, hafter⟩⟩
  | lock hcalls hstage =>
    rw [hcalls, List.forall_mem_append, List.forall_mem_cons] at hs
    obtain ⟨hbefore, hc, hafter⟩ := hs
    exact List.forall_mem_append.mpr ⟨hbefore, List.forall_mem_cons.mpr ⟨hc.advance hstage, hafter⟩⟩

/-- After any run all calls are sound. -/
theorem sound_run (cfg : LimiterConfig) (ms : List Move) : ∀ c ∈ (run cfg ms).calls, c.Sound := by
  exact run_keeps (P := fun s => ∀ c ∈ s.calls, c.Sound) (List.forall_mem_nil _) (fun s m s' hs h => h.sound hs) ms

/-- A step may be taken to start where all calls are sound. -/
theorem run_keeps_of_sound {P : Traffic → Prop} (hnew : P {})
    (hstep : ∀ s m s', (∀ c ∈ s.calls, c.Sound) → P s → Step cfg s m s' → P s') (ms : List Move) : P (run cfg ms) := by
  have hboth : (∀ c ∈ (run cfg ms).calls, c.Sound) ∧ P (run cfg ms) := by
    refine run_keeps (P := fun s => (∀ c ∈ s.calls, c.Sound) ∧ P s) ⟨List.forall_mem_nil _, hnew⟩ ?_ ms
    exact fun s m s' hs h => ⟨h.sound hs.1, hstep s m s' hs.1 hs.2 h⟩
  exact hboth.2

end Traffic

end AgentFlow
