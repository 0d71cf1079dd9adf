import AgentFlow.Proofs.Naming
import AgentFlow.Proofs.Plan.Parts

/-!
# Names that no label is given

The identifiers of a plan are lower-case words, none of them is reserved, and none begins and ends with an underscore
as names do that Python gives a meaning of its own. So a module may bind a name that is reserved, or holds an upper-case
letter, or has underscores around it (`Plan.withheld`), without meeting a name that comes from a label.
-/

namespace AgentFlow

namespace Naming

/-- The text begins and ends with an underscore. -/
def dunder (s : String) : Bool := s.toList.head? == some '_' && s.toList.getLast? == some '_'

theorem toLower_ne_underscore {c : Char} (h : Text.isBasicAlnum c = true) : c.toLower ≠ '_' := by
  intro he
  cases hupper : c.isUpper with
  | true =>
    have hlower := isLower_toLower hupper
    rw [he] at hlower
    exact absurd hlower (by decide)
  | false =>
    rw [toLower_eq hupper] at he
    rw [he] at h
    exact absurd h (by decide)

/-- Underscores stand between words only, so none comes first. -/
theorem head?_slugFrom (owed : Bool) (cs : List Char) : (slugFrom false owed cs).head? ≠ some '_' := by
  induction cs generalizing owed with
  | nil => simp [slugFrom]
  | cons c cs ih =>
    by_cases h : Text.isBasicAlnum c = true
    · simpa [slugFrom, h] using toLower_ne_underscore h
    · simpa [slugFrom, h] using ih true

/-- Nor does one come first in an identifier. -/
theorem head?_identifier (label fallback : String) : (identifier label fallback).toList.head? ≠ some '_' := by
  have hslug : ∀ s : String, (slug s).toList.head? ≠ some '_' := by
    intro s
    rw [slug, String.toList_ofList]
    exact head?_slugFrom false s.toList
  unfold identifier
  dsimp only
  generalize hb : (if slug label = "" then slug fallback else slug label) = base
  have hbase : base.toList.head? ≠ some '_' := by
    rw [← hb]
    split_ifs <;> exact hslug _
  generalize hd : (if startsWithDigit base then "n_" ++ base else base) = base'
  have hbase' : base'.toList.head? ≠ some '_' := by
    rw [← hd]
    split_ifs
    · simp [String.toList_append]
    · exact hbase
  split_ifs with hkeyword
  · -- a keyword is not empty, so the underscore after it is not its first character
    have hne : base'.toList ≠ [] := by
      intro hnil
      rw [String.toList_eq_nil_iff.mp hnil] at hkeyword
      exact absurd hkeyword (by decide)
    rwa [String.toList_append, List.head?_append_of_ne_nil _ hne]
  · exact hbase'

theorem isDigit_getLast?_numbered {base : String} {k : Nat} {c : Char}
    (h : (numbered base k).toList.getLast? = some c) : c.isDigit = true := by
  have hne : (toString k).toList ≠ [] := by
    rw [Nat.toString_eq_ofList_toDigits, String.toList_ofList]
    exact Nat.toDigits_ne_nil
  rw [numbered, String.toList_append, List.getLast?_append_of_ne_nil _ hne] at h
  exact Nat.isDigit_of_mem_toDigits (by decide) (by decide) (Nat.toList_repr ▸ List.mem_of_getLast? h)

/-! ### Words that can be bound -/

/-- The word may be bound: it is not empty and Python does not keep it for itself. -/
structure Usable (s : String) : Prop where
  ne_empty : s ≠ ""
  unkept : s ∉ keywords

theorem slug_ne_empty {s : String} {c : Char} (hs : s.toList.head? = some c) (hc : Text.isBasicAlnum c = true) :
    slug s ≠ "" := by
  obtain ⟨cs, hcs⟩ := List.head?_eq_some_iff.mp hs
  intro hempty
  have hlist := congrArg String.toList hempty
  rw [slug, String.toList_ofList, hcs, slugFrom, if_pos hc] at hlist
  cases hlist

/-- An identifier can be bound if its fallback has a slug. -/
theorem usable_identifier {label fallback : String} (h : slug fallback ≠ "") : Usable (identifier label fallback) := by
  unfold identifier
  dsimp only
  generalize hb : (if slug label = "" then slug fallback else slug label) = base
  have hbase : base ≠ "" := by
    rw [← hb]
    split_ifs with hlabel
    · exact h
    · exact hlabel
  generalize hd : (if startsWithDigit base then "n_" ++ base else base) = base'
  have hbase' : base' ≠ "" := by
    rw [← hd]
    split_ifs
    · simp
    · exact hbase
  split_ifs with hkeyword
  · -- no keyword ends with an underscore
    refine ⟨by simp, fun hmem => ?_⟩
    have hall : keywords.all (fun s => s.toList.getLast? != some '_') = true := by decide
    have hlast := List.all_eq_true.mp hall _ hmem
    rw [String.toList_append, List.getLast?_append_of_ne_nil _ (by decide)] at hlast
    exact absurd hlast (by decide)
  · exact ⟨hbase', by simpa using hkeyword⟩

/-- No keyword ends with a digit. -/
theorem usable_numbered (base : String) (k : Nat) : Usable (numbered base k) := by
  refine ⟨by simp [numbered], fun hmem => ?_⟩
  have hall : keywords.all (fun s => s.toList.getLast?.any fun c => !c.isDigit) = true := by decide
  obtain ⟨c, hc, hdigit⟩ := (Option.any_eq_true _ _).mp (List.all_eq_true.mp hall _ hmem)
  rw [isDigit_getLast?_numbered hc] at hdigit
  cases hdigit

end Naming

open Naming

namespace Names

variable (n : Names)

/-- What is handed out does not both begin and end with an underscore. -/
theorem dunder_allocate (label fallback : String) : dunder (n.allocate label fallback).1 = false := by
  unfold allocate
  dsimp only
  split <;> dsimp only
  · have hhead := head?_identifier label fallback
    simp [dunder, hhead]
  · -- a numbered form ends with a digit
    have hlast : ∀ k, (numbered (identifier label fallback) k).toList.getLast? ≠ some '_' :=
      fun k h => absurd (isDigit_getLast?_numbered h) (by decide)
    simp [dunder, hlast]

theorem dunder_allocateAll (labels : List (String × String)) :
    ∀ ident ∈ (n.allocateAll labels).1, dunder ident = false := by
  induction labels generalizing n with
  | nil => simp [allocateAll]
  | cons l ls ih =>
    refine List.forall_mem_cons.mpr ⟨n.dunder_allocate l.1 l.2, ?_⟩
    exact ih (n.allocate l.1 l.2).2

theorem usable_allocate {label fallback : String} (h : slug fallback ≠ "") : Usable (n.allocate label fallback).1 := by
  unfold allocate
  dsimp only
  split <;> dsimp only
  · exact usable_identifier h
  · exact usable_numbered _ _

theorem usable_allocateAll {labels : List (String × String)} (h : ∀ l ∈ labels, slug l.2 ≠ "") :
    ∀ ident ∈ (n.allocateAll labels).1, Usable ident := by
  induction labels generalizing n with
  | nil => simp [allocateAll]
  | cons l ls ih =>
    obtain ⟨hl, hls⟩ := List.forall_mem_cons.mp h
    exact List.forall_mem_cons.mpr ⟨n.usable_allocate hl, ih (n.allocate l.1 l.2).2 hls⟩

theorem isTaken_reserve {ident other : String} :
    (n.reserve ident).isTaken other = true ↔ other = ident ∨ n.isTaken other = true := by
  unfold reserve
  split_ifs with h
  · constructor
    · exact .inr
    · rintro (rfl | ho)
      · exact h
      · exact ho
  · exact n.isTaken_mark

/-- Reserving names puts just these into use. -/
theorem isTaken_foldl_reserve (idents : List String) {other : String} :
    (idents.foldl reserve n).isTaken other = true ↔ other ∈ idents ∨ n.isTaken other = true := by
  induction idents generalizing n with
  | nil => simp
  | cons ident idents ih =>
    rw [List.foldl_cons, ih, isTaken_reserve, List.mem_cons]
    tauto

end Names

namespace Plan

theorem isTaken_startNames {name : String} : startNames.isTaken name = true ↔ name ∈ reserved := by
  rw [startNames, Names.isTaken_foldl_reserve]
  simp [Names.isTaken, Names.count?, Names.empty]

/-- No label is given this name: it is reserved, or not a lower-case word, or it has underscores around it. -/
def withheld (name : String) : Bool := reserved.contains name || !name.toList.all isNameChar || dunder name

theorem withheld_of_mem_allocateAll {n : Names} {labels : List (String × String)} {ident : String}
    (hn : ∀ name ∈ reserved, n.isTaken name = true) (h : ident ∈ (n.allocateAll labels).1) :
    withheld ident = false := by
  have hfree : ident ∉ reserved := by
    intro hmem
    have htaken := hn ident hmem
    rw [n.isTaken_of_mem_allocateAll h] at htaken
    cases htaken
  have hword : ident.toList.all isNameChar = true := List.all_eq_true.mpr (n.wordLike_allocateAll labels ident h)
  simp only [withheld, hword, n.dunder_allocateAll labels ident h, Bool.not_true, Bool.or_false]
  simpa using hfree

/-- The identifiers of a plan are none of the names that modules keep for themselves. -/
theorem withheld_idents (g : Graph) (configs : List LaunchConfig) {ident : String}
    (h : ident ∈ (toolIdents g).1 ++ toolsetIdents g configs) : withheld ident = false := by
  have hstart : ∀ name ∈ reserved, startNames.isTaken name = true := fun name => isTaken_startNames.mpr
  rcases List.mem_append.mp h with h | h
  · exact withheld_of_mem_allocateAll hstart h
  · refine withheld_of_mem_allocateAll (fun name hname => ?_) h
    exact Names.isTaken_allocateAll _ |>.mpr (.inr (hstart name hname))

/-- The names given to tools without a label start with a letter. -/
theorem slug_ne_empty_of_toolLabels {ns : List Node} : ∀ l ∈ toolLabels ns, slug l.2 ≠ "" := by
  intro l hl
  obtain ⟨k, hk, rfl⟩ := List.mem_mapIdx.mp hl
  exact slug_ne_empty (c := 't') (by rw [String.toList_append]; rfl) (by decide)

theorem slug_ne_empty_of_toolsetLabels {cs : List LaunchConfig} : ∀ l ∈ toolsetLabels cs, slug l.2 ≠ "" := by
  intro l hl
  obtain ⟨k, hk, rfl⟩ := List.mem_mapIdx.mp hl
  exact slug_ne_empty (c := 'p') (by rw [String.toList_append, String.toList_append]; rfl) (by decide)

/-- So every identifier can be bound. -/
theorem usable_idents (g : Graph) (configs : List LaunchConfig) {ident : String}
    (h : ident ∈ (toolIdents g).1 ++ toolsetIdents g configs) : Usable ident := by
  rcases List.mem_append.mp h with h | h
  · exact Names.usable_allocateAll _ slug_ne_empty_of_toolLabels ident h
  · exact Names.usable_allocateAll _ slug_ne_empty_of_toolsetLabels ident h

end Plan

/-- The identifiers of the tools and of the toolsets of a plan, in order. -/
def AgentPlan.idents (p : AgentPlan) : List String := p.tools.map (·.ident) ++ p.toolsetIdents

theorem AgentPlan.idents_build (g : Graph) (configs : List LaunchConfig) :
    (build g configs).idents = (Plan.toolIdents g).1 ++ Plan.toolsetIdents g configs := by
  rw [idents, map_ident_tools, toolsetIdents_build]

/-- The identifiers all differ, and none of them is a name that modules keep for themselves. -/
structure AgentPlan.Separate (p : AgentPlan) : Prop where
  nodup : p.idents.Nodup
  free : ∀ ident ∈ p.idents, Plan.withheld ident = false

theorem AgentPlan.separate_build (g : Graph) (configs : List LaunchConfig) : (build g configs).Separate where
  nodup := idents_build g configs ▸ Plan.nodup_idents g configs
  free _ h := Plan.withheld_idents g configs (idents_build g configs ▸ h)

theorem AgentPlan.usable_build (g : Graph) (configs : List LaunchConfig) :
    ∀ ident ∈ (build g configs).idents, Usable ident :=
  fun _ h => Plan.usable_idents g configs (idents_build g configs ▸ h)

end AgentFlow
