import AgentFlow.Proofs.Plan.Labels

/-!
# The form of slugs and identifiers

A slug is a row of blocks of lower-case letters and digits, with one underscore between each two (`Naming.IsSlug`).
While a label is read, what has been written ends within a block: other characters only leave an underscore owed, which
is paid when the next block begins. A text of this form owes nothing inside its blocks and one underscore between them,
so it is its own slug. An identifier is a slug with a letter put before a digit, and with something put after it that
makes it no keyword.
-/

namespace AgentFlow

namespace Naming

/-- A block of a slug. -/
structure IsBlock (b : List Char) : Prop where
  ne_nil : b ≠ []
  chars : ∀ c ∈ b, isSlugChar c = true

/-- The text is empty, or made of blocks joined by single underscores. -/
def IsSlug (s : String) : Prop :=
  ∃ blocks : List (List Char), (∀ b ∈ blocks, IsBlock b) ∧ s.toList = ['_'].intercalate blocks

/-- Blocks that come after another one, each with its underscore. -/
def laterBlocks (bs : List (List Char)) : List Char := bs.flatMap ('_' :: ·)

theorem laterBlocks_cons (b : List Char) (bs : List (List Char)) :
    laterBlocks (b :: bs) = '_' :: b ++ laterBlocks bs := List.flatMap_cons

theorem intercalate_blocks (b : List Char) (bs : List (List Char)) :
    ['_'].intercalate (b :: bs) = b ++ laterBlocks bs := by
  induction bs generalizing b with
  | nil => exact List.intercalate_singleton.trans (List.append_nil b).symm
  | cons b' bs ih =>
    rw [List.intercalate_cons_of_ne_nil (List.cons_ne_nil b' bs), ih, laterBlocks_cons, List.append_assoc]
    rfl

/-! ### Every slug has the form -/

theorem isSlugChar_toLower {c : Char} (h : Text.isBasicAlnum c = true) : isSlugChar c.toLower = true := by
  have hname := isNameChar_toLower h
  simpa [isNameChar, isSlugChar, toLower_ne_underscore h] using hname

theorem IsBlock.cons {c : Char} {w : List Char} (hc : isSlugChar c = true) (hw : ∀ d ∈ w, isSlugChar d = true) :
    IsBlock (c :: w) :=
  ⟨List.cons_ne_nil c w, List.forall_mem_cons.mpr ⟨hc, hw⟩⟩

/-- Once something is written, the rest goes on with the block at hand, unless an underscore is owed, and has whole
blocks after it. -/
theorem exists_slugFrom_started (owed : Bool) (cs : List Char) :
    ∃ w bs, (∀ c ∈ w, isSlugChar c = true) ∧ (∀ b ∈ bs, IsBlock b) ∧ (owed = true → w = []) ∧
      slugFrom true owed cs = w ++ laterBlocks bs := by
  induction cs generalizing owed with
  | nil => exact ⟨[], [], by simp, by simp, fun _ => rfl, rfl⟩
  | cons c cs ih =>
    rw [slugFrom]
    by_cases hc : Text.isBasicAlnum c = true
    · obtain ⟨w, bs, hw, hbs, -, hrest⟩ := ih false
      have hblock : IsBlock (c.toLower :: w) := IsBlock.cons (isSlugChar_toLower hc) hw
      rw [if_pos hc, hrest]
      cases owed with
      | true =>
        -- the letter starts a new block after the underscore
        refine ⟨[], (c.toLower :: w) :: bs, by simp, List.forall_mem_cons.mpr ⟨hblock, hbs⟩, fun _ => rfl, ?_⟩
        rw [laterBlocks_cons]
        rfl
      -- the letter goes on with the block at hand
      | false => exact ⟨c.toLower :: w, bs, hblock.chars, hbs, by simp, rfl⟩
    · obtain ⟨w, bs, -, hbs, hnone, hrest⟩ := ih true
      obtain rfl := hnone rfl
      rw [if_neg hc, hrest]
      exact ⟨[], bs, by simp, hbs, fun _ => rfl, rfl⟩

/-- Nothing is owed before the first block. -/
theorem exists_slugFrom_fresh (owed : Bool) (cs : List Char) :
    ∃ bs, (∀ b ∈ bs, IsBlock b) ∧ slugFrom false owed cs = ['_'].intercalate bs := by
  induction cs generalizing owed with
  | nil => exact ⟨[], by simp, rfl⟩
  | cons c cs ih =>
    rw [slugFrom]
    by_cases hc : Text.isBasicAlnum c = true
    · obtain ⟨w, bs, hw, hbs, -, hrest⟩ := exists_slugFrom_started false cs
      refine ⟨(c.toLower :: w) :: bs, ?_, ?_⟩
      · exact List.forall_mem_cons.mpr ⟨IsBlock.cons (isSlugChar_toLower hc) hw, hbs⟩
      · rw [if_pos hc, hrest, intercalate_blocks]
        rfl
    · rw [if_neg hc]
      exact ih true

/-- The slug of every label has the form. -/
theorem isSlug_slug (label : String) : IsSlug (slug label) := by
  obtain ⟨bs, hbs, h⟩ := exists_slugFrom_fresh false label.toList
  exact ⟨bs, hbs, by rw [slug, String.toList_ofList, h]⟩

/-! ### Every text of the form is a slug -/

theorem slugFrom_laterBlocks {bs : List (List Char)} (h : ∀ b ∈ bs, IsBlock b) :
    slugFrom true false (laterBlocks bs) = laterBlocks bs := by
  induction bs with
  | nil => rfl
  | cons b bs ih =>
    obtain ⟨hb, hbs⟩ := List.forall_mem_cons.mp h
    obtain ⟨c, w, rfl⟩ := List.exists_cons_of_ne_nil hb.ne_nil
    obtain ⟨hc, hw⟩ := List.forall_mem_cons.mp hb.chars
    obtain ⟨halnum, hlower⟩ := isSlugChar_spec hc
    -- the underscore is left out first, and then owed to the block
    have hmark : ¬ Text.isBasicAlnum '_' = true := by decide
    have hrest : slugFrom true false (w ++ laterBlocks bs) = w ++ laterBlocks bs := by
      rw [slugFrom_append hw, ih hbs]
    rw [laterBlocks_cons, List.cons_append, List.cons_append, slugFrom, if_neg hmark, slugFrom, if_pos halnum, hlower,
      hrest]
    rfl

/-- A text of the form is its own slug. -/
theorem slug_eq_of_isSlug {s : String} (h : IsSlug s) : slug s = s := by
  obtain ⟨bs, hbs, hs⟩ := h
  rw [← String.toList_inj, slug, String.toList_ofList, hs]
  cases bs with
  | nil => rfl
  | cons b bs =>
    obtain ⟨hb, hlater⟩ := List.forall_mem_cons.mp hbs
    obtain ⟨c, w, rfl⟩ := List.exists_cons_of_ne_nil hb.ne_nil
    obtain ⟨hc, hw⟩ := List.forall_mem_cons.mp hb.chars
    obtain ⟨halnum, hlower⟩ := isSlugChar_spec hc
    rw [intercalate_blocks, List.cons_append, slugFrom, if_pos halnum, hlower, slugFrom_append hw,
      slugFrom_laterBlocks hlater]
    rfl

theorem slug_eq_iff {s : String} : slug s = s ↔ IsSlug s :=
  ⟨fun h => h ▸ isSlug_slug s, slug_eq_of_isSlug⟩

/-! ### Identifiers -/

/-- The keywords of Python, three of which are capitalised. -/
def pythonKeywords : List String :=
  ["False", "None", "True", "and", "as", "assert", "async", "await", "break", "class", "continue", "def", "del",
   "elif", "else", "except", "finally", "for", "from", "global", "if", "import", "in", "is", "lambda", "nonlocal",
   "not", "or", "pass", "raise", "return", "try", "while", "with", "yield"]

/-- The text can be bound in a Python module, and is written like the names that labels lead to. -/
structure Bindable (s : String) : Prop where
  head : ∃ c ∈ s.toList.head?, c.isLower = true
  chars : ∀ c ∈ s.toList, c.isLower = true ∨ c.isDigit = true ∨ c = '_'
  unkept : s ∉ pythonKeywords

/-- The keywords that are avoided are all that a word can be. -/
theorem not_mem_pythonKeywords {s : String} (hs : WordLike s) (h : s ∉ keywords) : s ∉ pythonKeywords := by
  -- the capitalised words are not like identifiers, and the others are avoided
  have hall : pythonKeywords.all (fun k => keywords.contains k || k.toList.any fun c => !isNameChar c) = true := by
    decide
  intro hmem
  rcases Bool.or_eq_true_iff.mp (List.all_eq_true.mp hall s hmem) with hkept | hcapital
  · exact h (List.contains_iff_mem.mp hkept)
  · obtain ⟨c, hc, hno⟩ := List.any_eq_true.mp hcapital
    rw [hs c hc] at hno
    cases hno

theorem bindable_of {s : String} (hword : WordLike s) (hhead : s.toList.head? ≠ some '_')
    (hdigit : startsWithDigit s = false) (husable : Usable s) : Bindable s := by
  refine ⟨?_, fun c hc => ?_, not_mem_pythonKeywords hword husable.unkept⟩
  · obtain ⟨c, cs, hcs⟩ := List.exists_cons_of_ne_nil fun hnil => husable.ne_empty (String.toList_eq_nil_iff.mp hnil)
    have hdigit : c.isDigit = false := by rwa [startsWithDigit, hcs] at hdigit
    have hmark : c ≠ '_' := by
      rintro rfl
      exact hhead (by rw [hcs, List.head?_cons])
    have hc := hword c (hcs ▸ List.mem_cons_self)
    refine ⟨c, by rw [hcs]; exact List.head?_cons, ?_⟩
    simpa [isNameChar, hdigit, hmark] using hc
  · simpa [isNameChar, or_assoc] using hword c hc

theorem startsWithDigit_append {s t : String} (h : s ≠ "") : startsWithDigit (s ++ t) = startsWithDigit s := by
  obtain ⟨c, cs, hcs⟩ := List.exists_cons_of_ne_nil fun hnil => h (String.toList_eq_nil_iff.mp hnil)
  rw [startsWithDigit, startsWithDigit, String.toList_append, hcs]
  rfl

/-- No identifier starts with a digit. -/
theorem startsWithDigit_identifier (label fallback : String) : startsWithDigit (identifier label fallback) = false := by
  unfold identifier
  dsimp only
  generalize (if slug label = "" then slug fallback else slug label) = base
  generalize hd : (if startsWithDigit base then "n_" ++ base else base) = base'
  have hbase : startsWithDigit base' = false := by
    rw [← hd]
    split_ifs with hdigit
    · rw [startsWithDigit_append (by simp)]
      rfl
    · simpa using hdigit
  split_ifs with hkeyword
  · have hne : base' ≠ "" := by
      rintro rfl
      exact absurd hkeyword (by decide)
    rw [startsWithDigit_append hne, hbase]
  · exact hbase

theorem bindable_identifier {label fallback : String} (h : slug fallback ≠ "") :
    Bindable (identifier label fallback) :=
  bindable_of (wordLike_identifier label fallback) (head?_identifier label fallback)
    (startsWithDigit_identifier label fallback) (usable_identifier h)

/-- A number after an identifier leaves its start alone, and no keyword ends with a digit. -/
theorem bindable_numbered {label fallback : String} (h : slug fallback ≠ "") (k : Nat) :
    Bindable (numbered (identifier label fallback) k) := by
  have hne : identifier label fallback ≠ "" := (usable_identifier h).ne_empty
  have hstart : (numbered (identifier label fallback) k).toList.head? = (identifier label fallback).toList.head? := by
    rw [numbered, String.append_assoc, String.toList_append, List.head?_append_of_ne_nil]
    simpa using hne
  refine bindable_of (wordLike_numbered (wordLike_identifier label fallback) k) ?_ ?_ (usable_numbered _ k)
  · rw [hstart]
    exact head?_identifier label fallback
  · rw [numbered, String.append_assoc, startsWithDigit_append hne]
    exact startsWithDigit_identifier label fallback

/-- What is handed out is the identifier itself or a numbered one. -/
theorem bindable_allocate (n : Names) {label fallback : String} (h : slug fallback ≠ "") :
    Bindable (n.allocate label fallback).1 := by
  unfold Names.allocate
  dsimp only
  split <;> dsimp only
  · exact bindable_identifier h
  · exact bindable_numbered h _

/-- **Slugs are the texts made of blocks, and identifiers can be bound.** The slug of a label is empty or made of blocks
of lower-case letters and digits with single underscores between them, and exactly the texts of this form are their own
slugs, so a slug is its own slug. With a fallback whose slug is not empty, the identifier of a label and whatever is
handed out for it, whichever names are in use, begins with a letter, has lower-case letters, digits and underscores
only, and is no keyword. -/
theorem slugs_are_fixed_and_bindable :
    (∀ label, IsSlug (slug label)) ∧
    (∀ s, slug s = s ↔ IsSlug s) ∧
    (∀ label, slug (slug label) = slug label) ∧
    ∀ label fallback, slug fallback ≠ "" →
      Bindable (identifier label fallback) ∧ ∀ n : Names, Bindable (n.allocate label fallback).1 :=
  ⟨isSlug_slug, fun _ => slug_eq_iff, fun label => slug_eq_of_isSlug (isSlug_slug label),
    fun _ _ h => ⟨bindable_identifier h, fun n => bindable_allocate n h⟩⟩

/-- A keyword asked for twice, with a fallback that is a number. -/
theorem slugs_are_fixed_and_bindable_keyword :
    slug "42" ≠ "" ∧
      (Names.empty.allocateAll [("Class", "42"), ("class!", "42"), ("?", "42")]).1 = ["class_", "class__2", "n_42"] ∧
      Bindable "class_" ∧ Bindable "class__2" ∧ Bindable "n_42" := by
  have hfallback : slug "42" ≠ "" := by decide
  have hnames : (Names.empty.allocateAll [("Class", "42"), ("class!", "42"), ("?", "42")]).1 =
      ["class_", "class__2", "n_42"] := by decide
  have hbindable := slugs_are_fixed_and_bindable.2.2.2
  have hsecond : ((Names.empty.mark "class_" 1).allocate "class!" "42").1 = "class__2" := by decide
  have hfirst : identifier "Class" "42" = "class_" := by decide
  have hlast : identifier "?" "42" = "n_42" := by decide
  exact ⟨hfallback, hnames, hfirst ▸ (hbindable _ _ hfallback).1, hsecond ▸ (hbindable _ _ hfallback).2 _,
    hlast ▸ (hbindable _ _ hfallback).1⟩

end Naming

end AgentFlow
