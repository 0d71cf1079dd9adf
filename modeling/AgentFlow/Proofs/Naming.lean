import Mathlib.Data.List.Zip
import Mathlib.Tactic.SplitIfs
import AgentFlow.Plan

/-!
# The characters of names

Whatever the labels of a graph are, the identifiers made of them consist of lower-case Latin letters, digits and
underscores. So do all identifiers of a plan, since they come from one allocation.
-/

namespace AgentFlow

namespace Naming

/-- A character of an identifier. -/
def isNameChar (c : Char) : Bool := c.isLower || c.isDigit || c = '_'

/-- The text is made of characters of identifiers. -/
def WordLike (s : String) : Prop := ∀ c ∈ s.toList, isNameChar c = true

/-- An upper case letter has a lower case one. -/
theorem isLower_toLower {c : Char} (h : c.isUpper = true) : c.toLower.isLower = true := by
  have hrange : 'A'.val ≤ c.val ∧ c.val ≤ 'Z'.val := of_decide_eq_true h
  have hval : c.toLower.val = c.val + ('a'.val - 'A'.val) := congrArg Char.val (dif_pos hrange)
  have hlower : 'a'.val ≤ c.toLower.val ∧ c.toLower.val ≤ 'z'.val := by
    rw [hval]
    simp only [UInt32.le_iff_toNat_le] at hrange ⊢
    simp at hrange ⊢
    omega
  exact Bool.and_eq_true_iff.mpr ⟨decide_eq_true hlower.1, decide_eq_true hlower.2⟩

theorem toLower_eq {c : Char} (h : c.isUpper = false) : c.toLower = c := dif_neg (of_decide_eq_false h)

/-- Letters and digits give characters of identifiers. -/
theorem isNameChar_toLower {c : Char} (h : Text.isBasicAlnum c = true) : isNameChar c.toLower = true := by
  have hclass : Text.isBasicAlnum c = (c.isUpper || c.isLower || c.isDigit) := rfl
  rw [hclass] at h
  cases hupper : c.isUpper with
  | true => simp [isNameChar, isLower_toLower hupper]
  | false =>
    rw [hupper, Bool.false_or] at h
    rw [toLower_eq hupper]
    simp [isNameChar, h]

theorem wordLike_of_all {s : String} (h : s.toList.all isNameChar = true) : WordLike s := List.all_eq_true.mp h

theorem WordLike.append {s t : String} (hs : WordLike s) (ht : WordLike t) : WordLike (s ++ t) := by
  intro c hc
  rw [String.toList_append] at hc
  rcases List.mem_append.mp hc with hc | hc
  · exact hs c hc
  · exact ht c hc

/-- A slug is made of characters of identifiers. -/
theorem isNameChar_of_mem_slugFrom {started owed : Bool} {cs : List Char} :
    ∀ c ∈ slugFrom started owed cs, isNameChar c = true := by
  fun_induction slugFrom started owed cs with
  | case1 => simp
  | case2 started owed c cs halnum ih =>
    intro d hd
    -- the letter, and the underscore that is owed for what was left out before it
    have hfirst : ∀ d ∈ (if started && owed then ['_', c.toLower] else [c.toLower]), isNameChar d = true := by
      have hunderscore : isNameChar '_' = true := by decide
      split_ifs <;> simp [isNameChar_toLower halnum, hunderscore]
    rcases List.mem_append.mp hd with hd | hd
    · exact hfirst d hd
    · exact ih d hd
  | case3 started owed c cs _ ih => exact ih

theorem wordLike_slug (label : String) : WordLike (slug label) := by
  intro c hc
  rw [slug, String.toList_ofList] at hc
  exact isNameChar_of_mem_slugFrom c hc

/-- So is an identifier, with what may be put around the slug. -/
theorem wordLike_identifier (label fallback : String) : WordLike (identifier label fallback) := by
  have hslug : WordLike (if slug label = "" then slug fallback else slug label) := by
    split_ifs <;> exact wordLike_slug _
  unfold identifier
  dsimp only
  generalize (if slug label = "" then slug fallback else slug label) = base at hslug
  -- a digit is not the first character, and a keyword gets an ending
  have hbase : WordLike (if startsWithDigit base then "n_" ++ base else base) := by
    split_ifs
    · exact WordLike.append (wordLike_of_all (by decide)) hslug
    · exact hslug
  generalize (if startsWithDigit base then "n_" ++ base else base) = base' at hbase
  split_ifs
  · exact hbase.append (wordLike_of_all (by decide))
  · exact hbase

theorem wordLike_toString (k : Nat) : WordLike (toString k) := by
  intro c hc
  have hdigit : c.isDigit = true := Nat.isDigit_of_mem_toDigits (by decide) (by decide) (Nat.toList_repr ▸ hc)
  simp [isNameChar, hdigit]

theorem wordLike_numbered {base : String} (h : WordLike base) (k : Nat) : WordLike (numbered base k) :=
  (h.append (wordLike_of_all (by decide))).append (wordLike_toString k)

end Naming

open Naming

theorem Names.wordLike_allocate (n : Names) (label fallback : String) : WordLike (n.allocate label fallback).1 := by
  have hbase := wordLike_identifier label fallback
  unfold Names.allocate
  dsimp only
  split <;> dsimp only
  · exact hbase
  · exact wordLike_numbered hbase _

/-- All identifiers that are handed out are words. -/
theorem Names.wordLike_allocateAll (n : Names) (labels : List (String × String)) :
    ∀ ident ∈ (n.allocateAll labels).1, WordLike ident := by
  induction labels generalizing n with
  | nil => simp [Names.allocateAll]
  | cons l ls ih =>
    refine List.forall_mem_cons.mpr ⟨n.wordLike_allocate l.1 l.2, ?_⟩
    exact ih (n.allocate l.1 l.2).2

/-- The identifiers of the plan are made of characters of identifiers. -/
structure AgentPlan.WordLike (p : AgentPlan) : Prop where
  tools : ∀ t ∈ p.tools, Naming.WordLike t.ident
  toolsets : ∀ t ∈ p.toolsets, Naming.WordLike t.ident
  boundTools : ∀ ident ∈ p.boundTools, Naming.WordLike ident

theorem mem_of_mem_zipWith {α β γ : Type} {f : α → β → γ} {as : List α} {bs : List β} {c : γ}
    (h : c ∈ List.zipWith f as bs) : ∃ a ∈ as, ∃ b ∈ bs, f a b = c := by
  rw [← List.map_uncurry_zip_eq_zipWith] at h
  obtain ⟨⟨a, b⟩, hab, rfl⟩ := List.mem_map.mp h
  exact ⟨a, (List.of_mem_zip hab).1, b, (List.of_mem_zip hab).2, rfl⟩

/-- The plan of every graph has words for identifiers. -/
theorem AgentPlan.wordLike_build (g : Graph) (configs : List LaunchConfig) : (AgentPlan.build g configs).WordLike := by
  have htools : ∀ t ∈ (g.ofKind .tool).zipWith Plan.planTool
      (Plan.startNames.allocateAll (Plan.toolLabels (g.ofKind .tool))).1, Naming.WordLike t.ident := by
    intro t ht
    obtain ⟨n, -, ident, hident, rfl⟩ := mem_of_mem_zipWith ht
    exact Names.wordLike_allocateAll _ _ ident hident
  have htoolsets : ∀ (names : Names) (cs : List LaunchConfig),
      ∀ t ∈ (names.allocateAll (Plan.toolsetLabels cs)).1.zipWith ToolsetPlan.mk cs, Naming.WordLike t.ident := by
    intro names cs t ht
    obtain ⟨ident, hident, c, -, rfl⟩ := mem_of_mem_zipWith ht
    exact Names.wordLike_allocateAll _ _ ident hident
  unfold AgentPlan.build
  dsimp only
  split
  · -- the bound tools are all tools, or those that the agent is wired to
    refine ⟨htools, htoolsets _ _, fun ident hident => ?_⟩
    obtain ⟨t, ht, rfl⟩ := List.mem_map.mp hident
    exact htools t ht
  · refine ⟨htools, htoolsets _ _, fun ident hident => ?_⟩
    obtain ⟨n, -, hn⟩ := List.mem_filterMap.mp hident
    obtain ⟨t, ht, rfl⟩ := Option.map_eq_some_iff.mp hn
    exact htools t (List.mem_of_find?_eq_some ht)

end AgentFlow
