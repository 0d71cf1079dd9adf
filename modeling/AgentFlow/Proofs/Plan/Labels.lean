import AgentFlow.Proofs.Naming.Requests
import AgentFlow.Proofs.Plan.Names
import AgentFlow.Proofs.Text.Latin

/-!
# The labels behind identifiers

A name that ends with a letter carries no number, and no underscore after a keyword. If it does not start like a label
with a digit in front either, then the only labels that lead to it are those it is the slug of (`Naming.isDirect`): some
tool has this identifier exactly if some tool node has such a label. Identifiers of toolsets end with the word `toolset`
or with a number.
-/

namespace AgentFlow

namespace Naming

/-- The name shows no trace of being made from a label other than by its slug: no number or underscore after it, and no
`n_` before a digit. -/
def isDirect (name : String) : Bool :=
  name.toList.getLast?.any Char.isLower && !(['n', '_'].isPrefixOf name.toList) && !startsWithDigit name &&
    !keywords.contains name

/-- What it means that a name is direct. -/
structure Direct (name : String) : Prop where
  last : name.toList.getLast?.any Char.isLower = true
  lead : ¬ ['n', '_'] <+: name.toList
  number : startsWithDigit name = false
  unkept : name ∉ keywords

theorem direct_of_isDirect {name : String} (h : isDirect name = true) : Direct name := by
  simp only [isDirect, Bool.and_eq_true, Bool.not_eq_true', List.contains_eq_mem, decide_eq_false_iff_not] at h
  obtain ⟨⟨⟨hlast, hlead⟩, hnumber⟩, hunkept⟩ := h
  exact ⟨hlast, fun hp => by simp [List.isPrefixOf_iff_prefix.mpr hp] at hlead, hnumber, hunkept⟩

/-- Latin letters in lower case and digits, which slugs keep as they are. -/
def isSlugChar (c : Char) : Bool := c.isLower || c.isDigit

theorem isSlugChar_spec {c : Char} (h : isSlugChar c = true) : Text.isBasicAlnum c = true ∧ c.toLower = c := by
  have hclass : Text.isBasicAlnum c = (c.isUpper || isSlugChar c) := Bool.or_assoc ..
  refine ⟨by rw [hclass, h, Bool.or_true], toLower_eq ?_⟩
  rw [← Bool.not_eq_true]
  intro hupper
  have hcapitals := Text.toNat_of_isUpper hupper
  rcases Bool.or_eq_true_iff.mp h with hlower | hdigit
  · have hletters := Text.toNat_of_isLower hlower
    omega
  · have hdigits := Text.toNat_of_isDigit hdigit
    omega

variable {started owed : Bool} {w : List Char}

/-- Within a word nothing is owed, so the word stands as it is. -/
theorem slugFrom_append (h : ∀ c ∈ w, isSlugChar c = true) (cs : List Char) :
    slugFrom true false (w ++ cs) = w ++ slugFrom true false cs := by
  induction w with
  | nil => rfl
  | cons c w ih =>
    obtain ⟨hc, hw⟩ := List.forall_mem_cons.mp h
    obtain ⟨halnum, hlower⟩ := isSlugChar_spec hc
    rw [List.cons_append, slugFrom, if_pos halnum, hlower, ih hw]
    rfl

theorem slugFrom_word (h : ∀ c ∈ w, isSlugChar c = true) : slugFrom true false w = w := by
  have happend := slugFrom_append h []
  rwa [List.append_nil, slugFrom, List.append_nil] at happend

/-- A slug ends with the last word of its label. -/
theorem suffix_slugFrom (hne : w ≠ []) (h : ∀ c ∈ w, isSlugChar c = true) (cs : List Char) :
    w <:+ slugFrom started owed (cs ++ w) := by
  induction cs generalizing started owed with
  | nil =>
    cases w with
    | nil => exact absurd rfl hne
    | cons c w =>
      obtain ⟨hc, hw⟩ := List.forall_mem_cons.mp h
      obtain ⟨halnum, hlower⟩ := isSlugChar_spec hc
      rw [List.nil_append, slugFrom, if_pos halnum, hlower, slugFrom_word hw]
      split_ifs
      · exact List.suffix_append ['_'] (c :: w)
      · exact List.suffix_refl (c :: w)
  | cons c cs ih =>
    rw [List.cons_append, slugFrom]
    split_ifs
    · exact ih.trans (List.suffix_append _ _)
    · exact ih.trans (List.suffix_append _ _)
    · exact ih

theorem suffix_slug {t : String} (ht : t ≠ "") (h : t.toList.all isSlugChar = true) (s : String) :
    t.toList <:+ (slug (s ++ t)).toList := by
  rw [slug, String.toList_ofList, String.toList_append]
  exact suffix_slugFrom (by simpa using ht) (List.all_eq_true.mp h) s.toList

section Direct

variable {name : String}

/-- A direct name does not end with other characters than letters. -/
theorem Direct.not_suffix (h : Direct name) {w : List Char} (hne : w ≠ []) (hw : ∀ c ∈ w, c.isLower = false) :
    ¬ w <:+ name.toList := by
  rintro ⟨before, hname⟩
  have hlast := h.last
  rw [← hname, List.getLast?_append_of_ne_nil _ hne, List.getLast?_eq_some_getLast hne, Option.any_some] at hlast
  rw [hw _ (List.getLast_mem hne)] at hlast
  cases hlast

theorem isDigit_of_mem_toString {k : Nat} {c : Char} (h : c ∈ (toString k).toList) : c.isDigit = true :=
  Nat.isDigit_of_mem_toDigits (by decide) (by decide) (Nat.toList_repr ▸ h)

theorem Direct.not_suffix_toString (h : Direct name) (k : Nat) : ¬ (toString k).toList <:+ name.toList :=
  h.not_suffix (by simp) fun _ hc => Text.isLower_of_isDigit (isDigit_of_mem_toString hc)

theorem Direct.ne_numbered (h : Direct name) (base : String) (k : Nat) : name ≠ numbered base k := by
  rintro rfl
  refine h.not_suffix_toString k ?_
  rw [numbered, String.toList_append]
  exact List.suffix_append _ _

theorem Direct.ne_underscored (h : Direct name) (s : String) : s ++ "_" ≠ name := by
  rintro rfl
  refine h.not_suffix (List.cons_ne_nil '_' []) (List.forall_mem_singleton.mpr (by decide)) ?_
  rw [String.toList_append]
  exact List.suffix_append _ _

/-- A direct name is the slug of the label, or of what stands in for a label without a slug. -/
theorem Direct.slug_eq (h : Direct name) {label fallback : String} (hname : identifier label fallback = name) :
    (if slug label = "" then slug fallback else slug label) = name := by
  unfold identifier at hname
  dsimp only at hname
  generalize (if slug label = "" then slug fallback else slug label) = base at hname ⊢
  split_ifs at hname with hdigit hkeyword hkeyword
  · exact absurd hname (h.ne_underscored _)
  · -- `n_` stands before a digit
    refine absurd ?_ h.lead
    rw [← hname, String.toList_append]
    exact List.prefix_append _ _
  · exact absurd hname (h.ne_underscored _)
  · exact hname

theorem Direct.identifier_eq (h : Direct name) {label : String} (hslug : slug label = name) (fallback : String) :
    identifier label fallback = name := by
  have hne : name ≠ "" := by
    rintro rfl
    exact absurd h.last (by decide)
  simp [identifier, hslug, hne, h.number, h.unkept]

end Direct

end Naming

open Naming

namespace Names

variable (n : Names)

/-- An identifier is that of its label, or a numbered form of it. -/
theorem exists_of_mem_allocateAll {labels : List (String × String)} {name : String}
    (h : name ∈ (n.allocateAll labels).1) :
    ∃ l ∈ labels, name = identifier l.1 l.2 ∨ ∃ k, name = numbered (identifier l.1 l.2) k := by
  induction labels generalizing n with
  | nil => simp [allocateAll] at h
  | cons l labels ih =>
    rw [allocateAll_cons] at h
    rcases List.mem_cons.mp h with rfl | h
    · refine ⟨l, List.mem_cons_self, ?_⟩
      cases hcount : n.count? (identifier l.1 l.2) with
      | none => simp only [allocate_of_free hcount, true_or]
      | some k =>
        simp only [allocate_of_count hcount]
        exact .inr ⟨_, rfl⟩
    · obtain ⟨l', hl', hname⟩ := ih _ h
      exact ⟨l', List.mem_cons_of_mem _ hl', hname⟩

/-- No identifier starts with an underscore. -/
theorem head?_of_mem_allocateAll {labels : List (String × String)} (hlabels : ∀ l ∈ labels, slug l.2 ≠ "")
    {name : String} (h : name ∈ (n.allocateAll labels).1) : name.toList.head? ≠ some '_' := by
  obtain ⟨l, hl, hname | ⟨k, hname⟩⟩ := n.exists_of_mem_allocateAll h
  · rw [hname]
    exact head?_identifier l.1 l.2
  · have hne : (identifier l.1 l.2).toList ≠ [] := by
      simpa using (usable_identifier (hlabels l hl)).ne_empty
    rw [hname, numbered, String.append_assoc, String.toList_append, List.head?_append_of_ne_nil _ hne]
    exact head?_identifier l.1 l.2

/-- A free identifier is handed out as soon as a label asks for it. -/
theorem mem_allocateAll_of_free {labels : List (String × String)} {l : String × String} (hl : l ∈ labels)
    (hfree : n.isTaken (identifier l.1 l.2) = false) : identifier l.1 l.2 ∈ (n.allocateAll labels).1 := by
  generalize hname : identifier l.1 l.2 = name at hfree
  induction labels generalizing n with
  | nil => cases hl
  | cons l' labels ih =>
    rw [allocateAll_cons]
    by_cases hfirst : name = (n.allocate l'.1 l'.2).1
    · rw [← hfirst]
      exact List.mem_cons_self
    · refine List.mem_cons_of_mem _ (ih _ ?_ ?_)
      · rcases List.mem_cons.mp hl with rfl | hl
        · -- the first label would have been given the name
          refine absurd ?_ hfirst
          have hcount : n.count? (identifier l.1 l.2) = none := by
            rw [hname]
            simpa [isTaken] using hfree
          rw [allocate_of_free hcount, hname]
        · exact hl
      · rw [← Bool.not_eq_true, isTaken_allocate]
        simp [hfirst, hfree]

end Names

namespace Plan

variable {name : String}

/-- Some tool has a direct name that is not reserved exactly if the name is the slug of a tool's label. -/
theorem mem_toolIdents_iff (g : Graph) (hdirect : Direct name) (hfree : name ∉ reserved) :
    name ∈ (toolIdents g).1 ↔ ∃ n ∈ g.ofKind .tool, slug n.label = name := by
  constructor
  · intro h
    obtain ⟨l, hl, hname | ⟨k, hname⟩⟩ := Names.exists_of_mem_allocateAll _ h
    · obtain ⟨k, hk, rfl⟩ := List.mem_mapIdx.mp hl
      have hslug := hdirect.slug_eq hname.symm
      dsimp only at hslug
      split_ifs at hslug with hempty
      · -- the name that stands in for the label ends with a number
        refine absurd ?_ (hdirect.not_suffix_toString (k + 1))
        rw [← hslug]
        exact suffix_slug (by simp) (List.all_eq_true.mpr fun c hc => by
          simp [isSlugChar, isDigit_of_mem_toString hc]) _
      · exact ⟨_, List.getElem_mem hk, hslug⟩
    · exact absurd hname (hdirect.ne_numbered _ _)
  · rintro ⟨n, hn, hslug⟩
    obtain ⟨k, hk, rfl⟩ := List.getElem_of_mem hn
    have hlabel : ((g.ofKind .tool)[k].label, "tool_" ++ toString (k + 1)) ∈ toolLabels (g.ofKind .tool) :=
      List.mem_mapIdx.mpr ⟨k, hk, rfl⟩
    have hident := hdirect.identifier_eq hslug ("tool_" ++ toString (k + 1))
    have htaken : startNames.isTaken name = false := by
      rw [← Bool.not_eq_true, isTaken_startNames]
      exact hfree
    have hmem := startNames.mem_allocateAll_of_free hlabel (hident ▸ htaken)
    rwa [hident] at hmem

/-- No toolset has a direct name, unless it ends with the word that all of them end with. -/
theorem not_mem_toolsetIdents (g : Graph) (configs : List LaunchConfig) (hdirect : Direct name)
    (hword : ¬ "toolset".toList <:+ name.toList) : name ∉ toolsetIdents g configs := by
  intro h
  obtain ⟨l, hl, hname | ⟨k, hname⟩⟩ := Names.exists_of_mem_allocateAll _ h
  · obtain ⟨k, hk, rfl⟩ := List.mem_mapIdx.mp hl
    have hslug := hdirect.slug_eq hname.symm
    -- every label ends with the word, and so does its slug
    have hends : ∀ s : String, slug (s ++ "toolset") ≠ name := by
      rintro s rfl
      exact hword (suffix_slug (by decide) (by decide) s)
    have hmark : ∀ s : String, slug (s ++ "_toolset") ≠ name := by
      intro s
      have hsplit : s ++ "_toolset" = s ++ "_" ++ "toolset" := by rw [String.append_assoc]; rfl
      rw [hsplit]
      exact hends _
    dsimp only [toolsetLabel] at hslug
    split_ifs at hslug with hname hslug'
    · exact hmark _ hslug
    · exact hslug' rfl
    · exact hmark _ hslug
    · exact hmark _ hslug
  · exact hdirect.ne_numbered _ _ hname

end Plan

end AgentFlow
