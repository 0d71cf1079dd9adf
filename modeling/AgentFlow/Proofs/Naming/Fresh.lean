import Mathlib.Data.List.Nodup
import Mathlib.Data.List.Perm.Subperm
import AgentFlow.Naming

/-!
# Allocated names are new

An identifier that is handed out was not in use before and is in use afterwards, and no identifier goes out of use. So
the identifiers of one allocation differ from each other and from all that were in use when it began.
-/

namespace AgentFlow

/-- Different numbers make different names. -/
theorem Naming.numbered_injective (base : String) : Function.Injective (numbered base) := by
  intro j k h
  have hlists := congrArg String.toList h
  simp only [numbered, String.toList_append] at hlists
  have hdigits : (toString j).toList = (toString k).toList := List.append_cancel_left hlists
  have hvalues := congrArg (fun ds => Nat.ofDigitChars 10 ds 0) hdigits
  simpa [Nat.toString_eq_ofList_toDigits] using hvalues

namespace Names

variable (n : Names)

theorem isTaken_iff {ident : String} : n.isTaken ident = true ↔ ident ∈ n.taken.map Prod.fst := by
  simp [isTaken, count?]

theorem isTaken_mark {ident other : String} {k : Nat} :
    (n.mark ident k).isTaken other = true ↔ other = ident ∨ n.isTaken other = true := by
  simp only [isTaken_iff, mark, List.map_cons, List.mem_cons]

/-- More numbered forms are tried than there are identifiers in use, and they all differ. -/
theorem exists_free (base : String) (k : Nat) :
    ∃ j ∈ List.range' k (n.taken.length + 1), n.isTaken (Naming.numbered base j) = false := by
  by_contra hnone
  have htaken : ∀ j ∈ List.range' k (n.taken.length + 1), n.isTaken (Naming.numbered base j) = true := by
    intro j hj
    cases h : n.isTaken (Naming.numbered base j) with
    | true => rfl
    | false => exact absurd ⟨j, hj, h⟩ hnone
  have hsub : (List.range' k (n.taken.length + 1)).map (Naming.numbered base) ⊆ n.taken.map Prod.fst := by
    intro ident hident
    obtain ⟨j, hj, rfl⟩ := List.mem_map.mp hident
    exact n.isTaken_iff.mp (htaken j hj)
  have hnodup : ((List.range' k (n.taken.length + 1)).map (Naming.numbered base)).Nodup :=
    (List.nodup_range' 1 (by decide)).map (Naming.numbered_injective base)
  -- the names tried would all be among those in use, which are fewer
  have hle := (List.subperm_of_subset hnodup hsub).length_le
  simp only [List.length_map, List.length_range'] at hle
  omega

/-- The search for a free number finds one. -/
theorem isTaken_firstFree (base : String) (k : Nat) :
    n.isTaken (Naming.numbered base (n.firstFree base k)) = false := by
  obtain ⟨j, hj, hfree⟩ := n.exists_free base k
  unfold firstFree
  cases h : (List.range' k (n.taken.length + 1)).find? fun j => !n.isTaken (Naming.numbered base j) with
  | none => simpa [hfree] using List.find?_eq_none.mp h j hj
  | some i => simpa using List.find?_some h

/-! ### One identifier -/

/-- What an allocation comes to: the plain identifier if it is free, and otherwise a numbered form that is. -/
theorem allocate_cases (label fallback : String) :
    (∃ base, n.isTaken base = false ∧ n.allocate label fallback = (base, n.mark base 1)) ∨
    (∃ base ident j, n.isTaken base = true ∧ n.isTaken ident = false ∧
      n.allocate label fallback = (ident, (n.mark base j).mark ident 1)) := by
  unfold allocate
  dsimp only
  split
  next h => exact .inl ⟨_, by simp [isTaken, h], rfl⟩
  next k h => exact .inr ⟨_, _, _, by simp [isTaken, h], n.isTaken_firstFree _ _, rfl⟩

/-- What is handed out was free. -/
theorem isTaken_of_allocate (label fallback : String) : n.isTaken (n.allocate label fallback).1 = false := by
  obtain ⟨base, hfree, h⟩ | ⟨base, ident, j, -, hfree, h⟩ := n.allocate_cases label fallback
  · rw [h]
    exact hfree
  · rw [h]
    exact hfree

/-- Only what is handed out comes into use. -/
theorem isTaken_allocate {label fallback other : String} :
    (n.allocate label fallback).2.isTaken other = true ↔
      other = (n.allocate label fallback).1 ∨ n.isTaken other = true := by
  obtain ⟨base, -, h⟩ | ⟨base, ident, j, htaken, -, h⟩ := n.allocate_cases label fallback
  · rw [h]
    exact n.isTaken_mark
  · -- the plain identifier is marked once more, but it was in use already
    rw [h, isTaken_mark, isTaken_mark]
    have hbase : other = base → n.isTaken other = true := fun he => he ▸ htaken
    tauto

/-! ### A list of identifiers -/

theorem allocateAll_cons (l : String × String) (ls : List (String × String)) :
    n.allocateAll (l :: ls) =
      ((n.allocate l.1 l.2).1 :: ((n.allocate l.1 l.2).2.allocateAll ls).1,
        ((n.allocate l.1 l.2).2.allocateAll ls).2) := rfl

@[simp] theorem length_allocateAll (ls : List (String × String)) : (n.allocateAll ls).1.length = ls.length := by
  induction ls generalizing n with
  | nil => rfl
  | cons l ls ih => simp [allocateAll_cons, ih]

/-- What is handed out later was free at the start. -/
theorem isTaken_of_mem_allocateAll {ls : List (String × String)} {ident : String}
    (h : ident ∈ (n.allocateAll ls).1) : n.isTaken ident = false := by
  induction ls generalizing n with
  | nil => simp [allocateAll] at h
  | cons l ls ih =>
    rw [allocateAll_cons] at h
    rcases List.mem_cons.mp h with rfl | h
    · exact n.isTaken_of_allocate l.1 l.2
    · have hlater := ih _ h
      rw [← Bool.not_eq_true, isTaken_allocate] at hlater
      simpa using fun ht => hlater (.inr ht)

theorem isTaken_allocateAll {ls : List (String × String)} {ident : String} :
    (n.allocateAll ls).2.isTaken ident = true ↔ ident ∈ (n.allocateAll ls).1 ∨ n.isTaken ident = true := by
  induction ls generalizing n with
  | nil => simp [allocateAll]
  | cons l ls ih =>
    rw [allocateAll_cons, List.mem_cons, ih, isTaken_allocate]
    tauto

/-- No identifier is handed out twice. -/
theorem nodup_allocateAll (ls : List (String × String)) : (n.allocateAll ls).1.Nodup := by
  induction ls generalizing n with
  | nil => exact List.nodup_nil
  | cons l ls ih =>
    rw [allocateAll_cons]
    -- the first one is in use by then, and what is handed out later is not
    refine List.nodup_cons.mpr ⟨fun hmem => ?_, ih _⟩
    have hfree := isTaken_of_mem_allocateAll _ hmem
    have htaken := n.isTaken_allocate.mpr (.inl (Eq.refl (n.allocate l.1 l.2).1))
    rw [htaken] at hfree
    cases hfree

end Names

end AgentFlow
