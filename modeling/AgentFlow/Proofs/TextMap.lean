import Mathlib.Data.List.Sort
import AgentFlow.TextMap

/-!
# Looking up in a map

A map is used through `get?`, and what the operations do is said by it: inserting changes one key (`get?_insert`), the
entries of the second map win when two are put together (`get?_extend`), and maps that answer alike are equal (`ext`).
-/

namespace AgentFlow.TextMap

theorem mem_insertEntry {k v : String} {es : List (String × String)} (h : es.Pairwise fun a b => a.1 < b.1)
    {x : String × String} : x ∈ insertEntry k v es ↔ x = (k, v) ∨ x ∈ es ∧ x.1 ≠ k := by
  induction es with
  | nil => simp [insertEntry]
  | cons e es ih =>
    obtain ⟨he, hes⟩ := List.pairwise_cons.mp h
    unfold insertEntry
    split_ifs with hbefore hafter
    · -- all keys come after the new one
      have hother : x ∈ e :: es → x.1 ≠ k := by
        rintro (_ | ⟨_, hx⟩)
        · exact (String.ne_of_lt hbefore).symm
        · exact (String.ne_of_lt (String.lt_trans hbefore (he x hx))).symm
      rw [List.mem_cons]
      exact or_congr_right (iff_self_and.mpr hother)
    · have hne : e.1 ≠ k := String.ne_of_lt hafter
      rw [List.mem_cons, ih hes, List.mem_cons]
      grind
    · have hsame : e.1 = k := String.le_antisymm (String.not_lt.mp hbefore) (String.not_lt.mp hafter)
      have hother : x ∈ es → x.1 ≠ k := fun hx => hsame ▸ (String.ne_of_lt (he x hx)).symm
      rw [List.mem_cons, List.mem_cons]
      grind

theorem get?_eq_some_iff {m : TextMap} {k v : String} : m.get? k = some v ↔ (k, v) ∈ m.entries := by
  obtain ⟨es, hsorted⟩ := m
  simp only [get?, Option.map_eq_some_iff]
  induction es with
  | nil => simp
  | cons e es ih =>
    obtain ⟨he, hes⟩ := List.pairwise_cons.mp hsorted
    rw [List.mem_cons]
    by_cases hk : e.1 = k
    · have hout : (k, v) ∉ es := fun hmem => String.ne_of_lt (he _ hmem) hk
      rw [List.find?_cons_of_pos (by simpa using hk)]
      simp [hk, hout, Prod.ext_iff, eq_comm]
    · have hne : (k, v) ≠ e := fun h => hk (h ▸ rfl)
      rw [List.find?_cons_of_neg (by simpa using hk), ih hes]
      simp [hne]

/-- Maps that answer alike are equal. -/
theorem ext {m m' : TextMap} (h : ∀ k, m.get? k = m'.get? k) : m = m' := by
  have hmem : ∀ x, x ∈ m.entries ↔ x ∈ m'.entries := by
    rintro ⟨k, v⟩
    rw [← get?_eq_some_iff, ← get?_eq_some_iff, h]
  obtain ⟨es, hsorted⟩ := m
  obtain ⟨es', hsorted'⟩ := m'
  have hirrefl : Std.Irrefl fun a b : String × String => a.1 < b.1 := ⟨fun a => String.lt_irrefl a.1⟩
  have hantisymm : Std.Antisymm fun a b : String × String => a.1 < b.1 :=
    ⟨fun a b hab hba => absurd (String.lt_trans hab hba) (String.lt_irrefl a.1)⟩
  obtain rfl : es = es' := hsorted.eq_of_mem_iff hsorted' hmem
  rfl

theorem get?_insert (m : TextMap) (k v k' : String) :
    (m.insert k v).get? k' = if k' = k then some v else m.get? k' := by
  have hmem : ∀ w, (k', w) ∈ (m.insert k v).entries ↔ (k' = k ∧ w = v) ∨ (k', w) ∈ m.entries ∧ k' ≠ k := by
    intro w
    rw [insert, mem_insertEntry m.sorted, Prod.mk.injEq]
  refine Option.ext fun w => ?_
  rw [get?_eq_some_iff, hmem]
  split_ifs with hk
  · simp [hk, eq_comm]
  · simp [hk, get?_eq_some_iff]

/-- Entries with different keys, put in one by one. -/
theorem get?_foldl_insert (m : TextMap) {es : List (String × String)} (h : es.Pairwise fun a b => a.1 < b.1)
    (k : String) : (es.foldl (fun m e => m.insert e.1 e.2) m).get? k =
      ((es.find? fun e => e.1 == k).map (·.2)).or (m.get? k) := by
  induction es generalizing m with
  | nil => rfl
  | cons e es ih =>
    obtain ⟨he, hes⟩ := List.pairwise_cons.mp h
    rw [List.foldl_cons, ih _ hes, get?_insert]
    by_cases hk : e.1 = k
    · -- no later entry has the key
      have hnone : (es.find? fun e => e.1 == k) = none := by
        refine List.find?_eq_none.mpr fun x hx => ?_
        simpa [← hk] using (String.ne_of_lt (he x hx)).symm
      rw [hnone, if_pos hk.symm, List.find?_cons_of_pos (by simpa using hk)]
      rfl
    · rw [if_neg (Ne.symm hk), List.find?_cons_of_neg (by simpa using hk)]

theorem get?_extend (m other : TextMap) (k : String) : (m.extend other).get? k = (other.get? k).or (m.get? k) :=
  get?_foldl_insert m other.sorted k

end AgentFlow.TextMap
