import Mathlib.Data.List.Infix
import AgentFlow.Text.Basic

/-!
# Fragments of a text

A fragment does not go across a character that it does not hold, and where it occurs, it occurs a first time. Replacing
a fragment goes along with the text (`replace_induction`): it takes an occurrence, or else one character.
-/

namespace AgentFlow.Text

variable {c : Char} {w a b : List Char}

theorem prefix_of_prefix_append_cons (hc : c ∉ w) (h : w <+: a ++ c :: b) : w <+: a := by
  rcases List.prefix_or_prefix_of_prefix h (List.prefix_append a (c :: b)) with hw | ⟨more, rfl⟩
  · exact hw
  · rw [List.prefix_append_right_inj] at h
    cases more with
    | nil => simp
    | cons d more =>
      obtain rfl : d = c := (List.cons_prefix_cons.mp h).1
      exact absurd (List.mem_append_right a List.mem_cons_self) hc

/-- A fragment does not reach over a character that it does not hold. -/
theorem infix_append_cons_iff (hc : c ∉ w) : w <:+: a ++ c :: b ↔ w <:+: a ∨ w <:+: b := by
  constructor
  · intro h
    induction a with
    | nil =>
      rcases List.infix_cons_iff.mp h with h | h
      · have hw : w <+: [] := prefix_of_prefix_append_cons hc h
        exact .inl hw.isInfix
      · exact .inr h
    | cons d a ih =>
      rcases List.infix_cons_iff.mp h with h | h
      · have hw : w <+: d :: a := prefix_of_prefix_append_cons hc h
        exact .inl hw.isInfix
      · exact (ih h).imp_left fun ha => ha.trans (List.suffix_cons d a).isInfix
  · rintro (h | h)
    · exact h.trans (List.prefix_append a (c :: b)).isInfix
    · exact h.trans ((List.suffix_cons c b).trans (List.suffix_append a (c :: b))).isInfix

/-- A fragment without a newline that occurs in lines and a rest occurs in one of the lines or in the rest. -/
theorem infix_unlines_append_iff (hw : '\n' ∉ w) (ls : List (List Char)) :
    w <:+: unlines ls ++ b ↔ (∃ l ∈ ls, w <:+: l) ∨ w <:+: b := by
  induction ls with
  | nil => simp [unlines]
  | cons l ls ih =>
    have hunlines : unlines (l :: ls) ++ b = l ++ '\n' :: (unlines ls ++ b) := by simp [unlines, List.flatMap_cons]
    rw [hunlines, infix_append_cons_iff hw, ih, List.exists_mem_cons_iff, or_assoc]

/-- The first occurrence of a fragment: it does not even begin earlier. -/
theorem exists_first_occurrence {cs : List Char} (hw : w ≠ []) (h : w <:+: cs) :
    ∃ a b, cs = a ++ (w ++ b) ∧ ¬ w <:+: a ++ w.dropLast := by
  induction cs with
  | nil => exact absurd (List.infix_nil.mp h) hw
  | cons c cs ih =>
    by_cases hhere : w <+: c :: cs
    · obtain ⟨b, hb⟩ := hhere
      refine ⟨[], b, hb.symm, fun hin => ?_⟩
      have hlen := hin.length_le
      have hpos := List.length_pos_iff.mpr hw
      rw [List.nil_append, List.length_dropLast] at hlen
      omega
    · obtain ⟨a, b, rfl, hfirst⟩ := ih ((List.infix_cons_iff.mp h).resolve_left hhere)
      refine ⟨c :: a, b, rfl, fun hin => ?_⟩
      rw [List.cons_append, List.infix_cons_iff] at hin
      -- it would begin here, or the later occurrence would not be the first
      rcases hin with hin | hin
      · refine hhere (hin.trans ?_)
        rw [List.cons_prefix_cons, List.prefix_append_right_inj]
        exact ⟨rfl, (List.dropLast_prefix w).trans (List.prefix_append w b)⟩
      · exact hfirst hin

/-! ### Replacing a fragment -/

section Replace

variable {new : List Char}

theorem replaceFrom_drop (w new : List Char) (skip : Nat) (cs : List Char) :
    replaceFrom w new skip cs = replace w new (cs.drop skip) := by
  induction skip generalizing cs with
  | zero => rfl
  | succ skip ih =>
    cases cs with
    | nil => rfl
    | cons c cs => exact ih cs

theorem replace_append_self (hw : w ≠ []) (b : List Char) : replace w new (w ++ b) = new ++ replace w new b := by
  obtain ⟨c, w, rfl⟩ := List.exists_cons_of_ne_nil hw
  have hprefix : (c :: w).isPrefixOf (c :: (w ++ b)) = true :=
    List.isPrefixOf_iff_prefix.mpr (List.prefix_append (c :: w) b)
  rw [List.cons_append, replace, replaceFrom, if_pos hprefix, replaceFrom_drop, List.length_cons, Nat.add_sub_cancel,
    List.drop_left]

theorem replace_cons {cs : List Char} (h : ¬ w <+: c :: cs) : replace w new (c :: cs) = c :: replace w new cs := by
  rw [replace, replaceFrom, if_neg fun hin => h (List.isPrefixOf_iff_prefix.mp hin)]
  rfl

/-- An induction along the text as a fragment is replaced in it. -/
theorem replace_induction {P : List Char → Prop} (hw : w ≠ []) (hnil : P []) (hself : ∀ b, P b → P (w ++ b))
    (hcons : ∀ c cs, ¬ w <+: c :: cs → P cs → P (c :: cs)) (cs : List Char) : P cs := by
  induction hlen : cs.length using Nat.strongRecOn generalizing cs with
  | _ n ih =>
    subst hlen
    by_cases hhere : w <+: cs
    · obtain ⟨b, rfl⟩ := hhere
      have hpos := List.length_pos_iff.mpr hw
      exact hself b (ih b.length (by rw [List.length_append]; omega) b rfl)
    · cases cs with
      | nil => exact hnil
      | cons c cs => exact hcons c cs hhere (ih cs.length (Nat.lt_succ_self _) cs rfl)

/-- A character that the fragment does not hold parts what is replaced before it from what is replaced after it. -/
theorem replace_append_cons (hw : w ≠ []) (hc : c ∉ w) (a b : List Char) :
    replace w new (a ++ c :: b) = replace w new a ++ c :: replace w new b := by
  refine replace_induction (P := fun a => replace w new (a ++ c :: b) = replace w new a ++ c :: replace w new b) hw
    ?_ ?_ ?_ a
  · refine replace_cons fun h => ?_
    have hnil : w <+: [] := prefix_of_prefix_append_cons hc h
    exact hw (List.prefix_nil.mp hnil)
  · intro a ih
    rw [List.append_assoc, replace_append_self hw, replace_append_self hw, ih, List.append_assoc]
  · intro d a hno ih
    -- a fragment that begins here would end before the character
    have hmore : ¬ w <+: d :: (a ++ c :: b) := fun h => hno (prefix_of_prefix_append_cons (a := d :: a) hc h)
    rw [List.cons_append, replace_cons hmore, replace_cons hno, ih, List.cons_append]

/-- Characters with which the fragment does not begin stay. -/
theorem replace_append_of_head (hw : w ≠ []) (ha : ∀ d ∈ a, w.head? ≠ some d) (b : List Char) :
    replace w new (a ++ b) = a ++ replace w new b := by
  obtain ⟨c, w, rfl⟩ := List.exists_cons_of_ne_nil hw
  induction a with
  | nil => rfl
  | cons d a ih =>
    obtain ⟨hd, ha⟩ := List.forall_mem_cons.mp ha
    have hno : ¬ c :: w <+: d :: (a ++ b) := fun h => hd (congrArg some (List.cons_prefix_cons.mp h).1)
    rw [List.cons_append, replace_cons hno, ih ha, List.cons_append]

end Replace

end AgentFlow.Text
