import Mathlib.Order.Bounds.Basic
import AgentFlow.Proofs.Plan.Names

/-!
# Requests for names

Names are reserved and allocated in any order. Each identifier in use remembers the last number handed out for it, so
that the next search need not begin at 2 again. This is right because the numbers up to the one remembered are all used
up (`Names.UsedUp`), whether an allocation, a reserved name or a label that looks like a numbered form has used them:
every request keeps it so. Hence an allocation always finds what a search from 2 on would find.
-/

namespace AgentFlow

namespace Naming

/-- What a plain search finds for `base` when the names `used` are in use: `base` itself if it is free, and otherwise
its numbered form with the least number from 2 on for which that is free. -/
def Chosen (used : List String) (base ident : String) : Prop :=
  base ∉ used ∧ ident = base ∨
    base ∈ used ∧ ∃ k, IsLeast {k | 2 ≤ k ∧ numbered base k ∉ used} k ∧ ident = numbered base k

theorem Chosen.not_mem {used : List String} {base ident : String} (h : Chosen used base ident) : ident ∉ used := by
  obtain ⟨hfree, rfl⟩ | ⟨-, k, hleast, rfl⟩ := h
  · exact hfree
  · exact hleast.1.2

end Naming

open Naming

namespace Names

/-- Something that is asked of the names in use. -/
inductive Request where
  /-- A fixed name is put in use. -/
  | reserve (ident : String)
  /-- A free identifier for a label is wanted. -/
  | allocate (label fallback : String)
  deriving DecidableEq, Repr

variable (n : Names)

/-- The name that a request puts in use, and the names in use after it. -/
def claim : Request → String × Names
  | .reserve ident => (ident, n.reserve ident)
  | .allocate label fallback => n.allocate label fallback

/-- The names that requests put in use, one for each, and the names in use after all of them. -/
def claims (n : Names) : List Request → List String × Names
  | [] => ([], n)
  | r :: rs =>
    let (ident, n) := n.claim r
    let (idents, n) := n.claims rs
    (ident :: idents, n)

theorem claims_cons (r : Request) (rs : List Request) :
    n.claims (r :: rs) = ((n.claim r).1 :: ((n.claim r).2.claims rs).1, ((n.claim r).2.claims rs).2) := rfl

theorem claims_append (rs rs' : List Request) :
    n.claims (rs ++ rs') = ((n.claims rs).1 ++ ((n.claims rs).2.claims rs').1, ((n.claims rs).2.claims rs').2) := by
  induction rs generalizing n with
  | nil => rfl
  | cons r rs ih => rw [List.cons_append, claims_cons, ih, claims_cons, List.cons_append]

/-! ### What is in use -/

theorem isTaken_claim {r : Request} {other : String} :
    (n.claim r).2.isTaken other = true ↔ other = (n.claim r).1 ∨ n.isTaken other = true := by
  cases r with
  | reserve ident => exact n.isTaken_reserve
  | allocate label fallback => exact n.isTaken_allocate

/-- The names in use are the old ones and those of the requests. -/
theorem isTaken_claims {rs : List Request} {other : String} :
    (n.claims rs).2.isTaken other = true ↔ other ∈ (n.claims rs).1 ∨ n.isTaken other = true := by
  induction rs generalizing n with
  | nil => simp [claims]
  | cons r rs ih =>
    rw [claims_cons, List.mem_cons, ih, isTaken_claim]
    tauto

/-- From the start, the names in use are those that the requests have put in use. -/
theorem isTaken_claims_empty {rs : List Request} {other : String} :
    (empty.claims rs).2.isTaken other = true ↔ other ∈ (empty.claims rs).1 := by
  rw [isTaken_claims]
  simp [isTaken, count?, empty]

/-! ### Counts -/

/-- Marking a name changes its own count only. -/
theorem count?_mark {ident other : String} {k : Nat} :
    (n.mark ident k).count? other = if ident = other then some k else n.count? other := by
  unfold count? mark
  by_cases h : ident = other
  · simp [h]
  · rw [if_neg h, List.find?_cons_of_neg (by simpa using h)]

theorem isTaken_of_count? {ident : String} {k : Nat} (h : n.count? ident = some k) : n.isTaken ident = true := by
  simp [isTaken, h]

theorem isTaken_of_mark {ident other : String} {k : Nat} (h : n.isTaken other = true) :
    (n.mark ident k).isTaken other = true :=
  n.isTaken_mark.mpr (.inr h)

/-- All numbers that the search passes are in use. -/
theorem firstFree_spec (base : String) (k : Nat) :
    k ≤ n.firstFree base k ∧ ∀ j, k ≤ j → j < n.firstFree base k → n.isTaken (numbered base j) = true := by
  obtain ⟨i, hi, hfree⟩ := n.exists_free base k
  cases h : (List.range' k (n.taken.length + 1)).find? fun j => !n.isTaken (numbered base j) with
  | none => simpa [hfree] using List.find?_eq_none.mp h i hi
  | some j =>
    have hfirst : n.firstFree base k = j := by rw [firstFree, h, Option.getD_some]
    rw [hfirst]
    obtain ⟨-, hj, hbefore⟩ := List.find?_range'_eq_some.mp h
    refine ⟨?_, fun i hki hij => by simpa using hbefore i hki hij⟩
    rw [List.mem_range'_1] at hj
    exact hj.1

/-- The numbers up to the one remembered for an identifier are used up. -/
def UsedUp : Prop :=
  ∀ base k, n.count? base = some k → 1 ≤ k ∧ ∀ j, 2 ≤ j → j ≤ k → n.isTaken (numbered base j) = true

variable {n}

theorem usedUp_empty : empty.UsedUp := by
  intro base k h
  simp [count?, empty] at h

/-- More names may come into use, each count being an old one or used up. -/
theorem UsedUp.extend (h : n.UsedUp) {n' : Names} (hkeep : ∀ s, n.isTaken s = true → n'.isTaken s = true)
    (hcounts : ∀ base k, n'.count? base = some k → n.count? base = some k ∨
      1 ≤ k ∧ ∀ j, 2 ≤ j → j ≤ k → n'.isTaken (numbered base j) = true) : n'.UsedUp := by
  intro base k hcount
  rcases hcounts base k hcount with hold | hnew
  · obtain ⟨hpos, hused⟩ := h base k hold
    exact ⟨hpos, fun j hj hjk => hkeep _ (hused j hj hjk)⟩
  · exact hnew

/-- A new name has used up no number. -/
theorem UsedUp.mark_one (h : n.UsedUp) (ident : String) : (n.mark ident 1).UsedUp := by
  refine h.extend (fun s => n.isTaken_of_mark) ?_
  intro base k hcount
  rw [count?_mark] at hcount
  by_cases hbase : ident = base
  · rw [if_pos hbase] at hcount
    obtain rfl := Option.some.inj hcount
    exact .inr ⟨Nat.le_refl 1, fun j hj hj' => by omega⟩
  · rw [if_neg hbase] at hcount
    exact .inl hcount

theorem UsedUp.reserve (h : n.UsedUp) (ident : String) : (n.reserve ident).UsedUp := by
  unfold Names.reserve
  split_ifs
  · exact h
  · exact h.mark_one ident

/-! ### One request -/

theorem allocate_of_free {label fallback : String} (h : n.count? (identifier label fallback) = none) :
    n.allocate label fallback = (identifier label fallback, n.mark (identifier label fallback) 1) := by
  simp only [allocate, h]

theorem allocate_of_count {label fallback : String} {k : Nat} (h : n.count? (identifier label fallback) = some k) :
    n.allocate label fallback =
      (numbered (identifier label fallback) (n.firstFree (identifier label fallback) (k + 1)),
        (n.mark (identifier label fallback) (n.firstFree (identifier label fallback) (k + 1))).mark
          (numbered (identifier label fallback) (n.firstFree (identifier label fallback) (k + 1))) 1) := by
  simp only [allocate, h]

/-- The search from the count on skips nothing: the numbers before it are used up. -/
theorem UsedUp.isTaken_of_lt_firstFree (h : n.UsedUp) {base : String} {k j : Nat} (hcount : n.count? base = some k)
    (hj : 2 ≤ j) (hlt : j < n.firstFree base (k + 1)) : n.isTaken (numbered base j) = true := by
  -- up to the count by the invariant, and above it by the search
  by_cases hjk : j ≤ k
  · exact (h base k hcount).2 j hj hjk
  · exact (n.firstFree_spec base (k + 1)).2 j (by omega) hlt

theorem UsedUp.two_le_firstFree (h : n.UsedUp) {base : String} {k : Nat} (hcount : n.count? base = some k) :
    2 ≤ n.firstFree base (k + 1) := by
  have hk := (h base k hcount).1
  have hle := (n.firstFree_spec base (k + 1)).1
  omega

/-- Handing out an identifier keeps the counts right. -/
theorem UsedUp.allocate (h : n.UsedUp) (label fallback : String) : (n.allocate label fallback).2.UsedUp := by
  cases hcount : n.count? (identifier label fallback) with
  | none =>
    rw [allocate_of_free hcount]
    exact h.mark_one _
  | some k =>
    rw [allocate_of_count hcount]
    generalize identifier label fallback = base at hcount
    generalize hlast : n.firstFree base (k + 1) = last
    refine h.extend (fun s hs => isTaken_of_mark _ (n.isTaken_of_mark hs)) ?_
    intro other k' hother
    rw [count?_mark] at hother
    -- the count asked for is that of the new name, of the plain one, or an old one
    by_cases hnumbered : numbered base last = other
    · rw [if_pos hnumbered] at hother
      obtain rfl := Option.some.inj hother
      exact .inr ⟨Nat.le_refl 1, fun j hj hj' => by omega⟩
    · rw [if_neg hnumbered, count?_mark] at hother
      by_cases hsame : base = other
      · -- the number handed out is remembered: it is in use from now on, and those before it were
        rw [if_pos hsame] at hother
        obtain rfl := Option.some.inj hother
        subst hsame
        have htwo := h.two_le_firstFree hcount
        refine .inr ⟨by omega, fun j hj hjlast => ?_⟩
        rw [isTaken_mark, isTaken_mark]
        by_cases hj' : j = last
        · exact .inl (congrArg (numbered base) hj')
        · exact .inr (.inr (h.isTaken_of_lt_firstFree hcount hj (by omega)))
      · rw [if_neg hsame] at hother
        exact .inl hother

theorem UsedUp.claim (h : n.UsedUp) (r : Request) : (n.claim r).2.UsedUp := by
  cases r with
  | reserve ident => exact h.reserve ident
  | allocate label fallback => exact h.allocate label fallback

/-- An allocation finds what a search from 2 on finds. -/
theorem UsedUp.chosen (h : n.UsedUp) {used : List String} (hused : ∀ s, n.isTaken s = true ↔ s ∈ used)
    (label fallback : String) : Chosen used (identifier label fallback) (n.allocate label fallback).1 := by
  have hfree : ∀ s, s ∉ used ↔ n.isTaken s = false := by
    intro s
    rw [← hused s, Bool.not_eq_true]
  cases hcount : n.count? (identifier label fallback) with
  | none =>
    rw [allocate_of_free hcount]
    -- the name is kept folded, since comparing it with itself would compute it
    generalize identifier label fallback = base at hcount
    have hbase : n.isTaken base = false := by simp [isTaken, hcount]
    exact .inl ⟨(hfree base).mpr hbase, rfl⟩
  | some k =>
    rw [allocate_of_count hcount]
    generalize identifier label fallback = base at hcount
    have htwo := h.two_le_firstFree hcount
    have hlast := (hfree _).mpr (n.isTaken_firstFree base (k + 1))
    refine .inr ⟨(hused base).mp (n.isTaken_of_count? hcount), _, ⟨⟨htwo, hlast⟩, ?_⟩, rfl⟩
    rintro j ⟨hj, hjfree⟩
    -- a smaller number that is free would have been found
    by_contra hlt
    have htaken := h.isTaken_of_lt_firstFree hcount hj (by omega)
    exact hjfree ((hused _).mp htaken)

/-! ### All requests -/

/-- So does every list of requests. -/
theorem UsedUp.claims (h : n.UsedUp) (rs : List Request) : (n.claims rs).2.UsedUp := by
  induction rs generalizing n with
  | nil => exact h
  | cons r rs ih => exact ih (h.claim r)

end Names

/-- **Allocation is free of collisions and finds the least number.** Names may be reserved and allocated in any order,
with any labels and fallbacks. An identifier that is handed out differs from all names put in use before it, reserved
or handed out; it is the identifier of the label if that was free, and otherwise the numbered form with the least
number from 2 on that was. -/
theorem allocation_finds_least (earlier later : List Names.Request) (label fallback : String) :
    ∃ (ident : String) (rest : List String),
      (Names.empty.claims (earlier ++ .allocate label fallback :: later)).1 =
          (Names.empty.claims earlier).1 ++ ident :: rest ∧
        ident ∉ (Names.empty.claims earlier).1 ∧
        Chosen (Names.empty.claims earlier).1 (identifier label fallback) ident := by
  let n := (Names.empty.claims earlier).2
  have hchosen : Chosen _ _ (n.allocate label fallback).1 :=
    (Names.usedUp_empty.claims earlier).chosen (fun s => Names.isTaken_claims_empty) label fallback
  refine ⟨(n.allocate label fallback).1, ((n.allocate label fallback).2.claims later).1, ?_, hchosen.not_mem, hchosen⟩
  rw [Names.claims_append, Names.claims_cons, Names.claim]

end AgentFlow
