import AgentFlow.Proofs.Check.Edit

/-!
# What the checks find on a line that is cut

Which checks of single lines carry over when blanks at the end of a line are cut. A fence, a tab at the start, a use of
a name and a header without its colon are never found on a cut line if they were not found before. The last of these
may be lost, since a result annotation is something behind the arrow, if only a blank. An import or a definition of a
name is never lost.
-/

namespace AgentFlow

namespace Text

theorem trimStart_append (a b : List Char) :
    trimStart (a ++ b) = if (trimStart a).isEmpty then trimStart b else trimStart a ++ b := List.dropWhile_append

theorem takeWhile_append_of_nil {p : Char → Bool} {b : List Char} (hb : b.takeWhile p = []) (a : List Char) :
    (a ++ b).takeWhile p = a.takeWhile p := by
  rw [List.takeWhile_append, hb, List.append_nil]
  split_ifs with hall
  · exact ((List.takeWhile_prefix p).eq_of_length hall).symm
  · rfl

theorem trimStart_of_blanks {blanks : List Char} (h : ∀ c ∈ blanks, isBlank c = true) : trimStart blanks = [] :=
  List.dropWhile_eq_nil_iff.mpr h

namespace CutFrom

variable {k l : List Char}

theorem trimEnd_eq (h : CutFrom k l) : trimEnd k = trimEnd l := by
  obtain ⟨blanks, hblanks, rfl⟩ := h
  rw [trimEnd_append, if_pos (List.all_eq_true.mpr hblanks)]

theorem isPrefix (h : CutFrom k l) : k <+: l := by
  obtain ⟨blanks, -, rfl⟩ := h
  exact List.prefix_append k blanks

theorem trimStart (h : CutFrom k l) : CutFrom (trimStart k) (trimStart l) := by
  obtain ⟨blanks, hblanks, rfl⟩ := h
  rw [trimStart_append]
  split_ifs with hk
  · rw [List.isEmpty_iff.mp hk, trimStart_of_blanks hblanks]
    exact .refl []
  · exact ⟨blanks, hblanks, rfl⟩

theorem drop (h : CutFrom k l) {n : Nat} (hn : n ≤ k.length) : CutFrom (k.drop n) (l.drop n) := by
  obtain ⟨blanks, hblanks, rfl⟩ := h
  exact ⟨blanks, hblanks, List.drop_append_of_le_length hn⟩

theorem tail {c : Char} (h : CutFrom (c :: k) l) : ∃ l', l = c :: l' ∧ CutFrom k l' := by
  obtain ⟨blanks, hblanks, rfl⟩ := h
  exact ⟨k ++ blanks, rfl, blanks, hblanks, rfl⟩

theorem takeWhile_eq {p : Char → Bool} (hp : ∀ c, isBlank c = true → p c = false) (h : CutFrom k l) :
    l.takeWhile p = k.takeWhile p := by
  obtain ⟨blanks, hblanks, rfl⟩ := h
  refine takeWhile_append_of_nil ?_ k
  cases blanks with
  | nil => rfl
  | cons c blanks => exact List.takeWhile_cons_of_neg (by simp [hp c (hblanks c List.mem_cons_self)])

/-- A fragment that does not end with a blank stands before the cut. -/
theorem prefix_of_last {fragment : List Char} (h : CutFrom k l)
    (hlast : (fragment.getLast?.all fun c => !isBlank c) = true) (hl : fragment <+: l) : fragment <+: k := by
  obtain ⟨blanks, hblanks, rfl⟩ := h
  rcases List.prefix_or_prefix_of_prefix hl (List.prefix_append k blanks) with hk | ⟨more, rfl⟩
  · exact hk
  rw [List.prefix_append_right_inj] at hl
  rcases List.eq_nil_or_concat more with rfl | ⟨more, c, rfl⟩
  · simp
  · have hc : isBlank c = true := hblanks c (hl.subset (by simp))
    rw [List.concat_eq_append, ← List.append_assoc, List.getLast?_concat, Option.all_some, hc] at hlast
    cases hlast

end CutFrom

theorem foundUncut_startsWith (fragment : String) : FoundUncut (startsWith fragment) := fun _ _ h hk =>
  List.isPrefixOf_iff_prefix.mpr ((List.isPrefixOf_iff_prefix.mp hk).trans h.isPrefix)

end Text

open Text

theorem Source.foundUncut_isFence : FoundUncut isFence := by
  intro k l h hk
  rwa [isFence, trim, h.trimStart.trimEnd_eq] at hk

/-! ### Names -/

namespace Symbol

/-- A name before blanks ends there. -/
theorem startsApart_of_blanks {blanks : List Char} (h : ∀ c ∈ blanks, isBlank c = true) :
    startsApart blanks = true := by
  cases blanks with
  | nil => rfl
  | cons c blanks =>
    have hblank := h c List.mem_cons_self
    have hparen : (c == '(') = false := eq_false_of_isBlank (p := (· == '(')) (by decide) hblank
    simpa [startsApart, isNameChar_of_isBlank hblank] using hparen

/-- A line becomes an import by blanks after it only if it is a piece of the first word. -/
theorem prefix_of_isImportLine {k l : List Char} (h : CutFrom k l) (hl : isImportLine l = true)
    (hk : isImportLine k = false) : k <+: "from".toList ∨ k <+: "import".toList := by
  have hpiece : ∀ {word : List Char}, word ++ [' '] <+: l → ¬ word ++ [' '] <+: k → k <+: word := by
    intro word hword hno
    rcases List.prefix_or_prefix_of_prefix hword h.isPrefix with hp | hp
    · exact absurd hp hno
    · exact (List.prefix_concat_iff.mp hp).resolve_left fun hsame => hno (hsame ▸ List.prefix_rfl)
  obtain ⟨hfrom, himport⟩ := Bool.or_eq_false_iff.mp hk
  rcases Bool.or_eq_true_iff.mp hl with hl | hl
  · refine .inl (hpiece (List.isPrefixOf_iff_prefix.mp hl) fun hp => ?_)
    exact Bool.eq_false_iff.mp hfrom (List.isPrefixOf_iff_prefix.mpr hp)
  · refine .inr (hpiece (List.isPrefixOf_iff_prefix.mp hl) fun hp => ?_)
    exact Bool.eq_false_iff.mp himport (List.isPrefixOf_iff_prefix.mpr hp)

theorem isQuiet_of_start {a b : List Char} (h : a <+: b) (hb : isQuiet b = true) : isQuiet a = true :=
  List.all_eq_true.mpr fun c hc => List.all_eq_true.mp hb c (h.subset hc)

/-- A name that is used on a cut line is used on the whole line. -/
theorem foundUncut_usedIn {name : String} (hname : IsName name.toList) : FoundUncut (usedIn name) := by
  intro k l h hused
  obtain ⟨⟨hcomment, himport⟩, hcalled⟩ : (startsWith "#" (trimStart k) = false ∧
      isImportLine (trimStart k) = false) ∧ called name.toList none (trimStart k) = true := by
    simpa only [usedIn, Bool.and_eq_true, Bool.not_eq_true', Bool.or_eq_false_iff] using hused
  have hloud : isQuiet (trimStart k) ≠ true := by
    intro hquiet
    rw [called_of_isQuiet (by simp) hquiet] at hcalled
    cases hcalled
  -- blanks could make an import of the line only if it were a piece of a word, which calls nothing
  have himport' : isImportLine (trimStart l) = false := by
    rw [← Bool.not_eq_true]
    intro hl
    rcases prefix_of_isImportLine h.trimStart hl himport with hp | hp
    · exact hloud (isQuiet_of_start hp (by decide))
    · exact hloud (isQuiet_of_start hp (by decide))
  have hcomment' : startsWith "#" (trimStart l) = false := by
    rw [← Bool.not_eq_true] at hcomment ⊢
    refine fun hl => hcomment (List.isPrefixOf_iff_prefix.mpr ?_)
    exact h.trimStart.prefix_of_last (by decide) (List.isPrefixOf_iff_prefix.mp hl)
  obtain ⟨blanks, hblanks, hl⟩ := h.trimStart
  have hseam : apart (trimStart k) blanks = true := by rw [apart, startsApart_of_blanks hblanks, Bool.or_true]
  simp only [usedIn, hcomment', himport', Bool.or_self, Bool.not_false, Bool.true_and]
  rw [hl, called_append hname hseam, hcalled, Bool.true_or]

/-- A name that no piece of the words of an import is. -/
structure Importable (name : List Char) : Prop extends IsName name where
  from_word : ¬ name <+: "from".toList
  import_word : ¬ name <+: "import".toList

theorem IsName.last {name : List Char} (h : IsName name) : (name.getLast?.all fun c => !isBlank c) = true := by
  rw [List.getLast?_eq_some_getLast h.ne_nil, Option.all_some, Bool.not_eq_true', ← Bool.not_eq_true]
  intro hblank
  have hchar := h.chars _ (List.getLast_mem h.ne_nil)
  rw [isNameChar_of_isBlank hblank] at hchar
  cases hchar

/-- Between separators only there is no word. -/
theorem eq_nil_of_mem_splitWhere {p : Char → Bool} {cs w : List Char} (hcs : ∀ c ∈ cs, p c = true)
    (hw : w ∈ splitWhere p cs) : w = [] := by
  induction cs with
  | nil => exact List.mem_singleton.mp hw
  | cons c cs ih =>
    obtain ⟨hc, hcs⟩ := List.forall_mem_cons.mp hcs
    rw [splitWhere, if_pos hc] at hw
    rcases List.mem_cons.mp hw with rfl | hw
    · rfl
    · exact ih hcs hw

/-- Blanks at the end of a line hold no name. -/
theorem mem_splitWhere_of_cutFrom {name k l : List Char} (hname : name ≠ []) (h : CutFrom k l)
    (hl : name ∈ splitWhere (fun c => !isNameChar c) l) : name ∈ splitWhere (fun c => !isNameChar c) k := by
  obtain ⟨blanks, hblanks, rfl⟩ := h
  have hseparate : ∀ c ∈ blanks, (!isNameChar c) = true := fun c hc => by simp [isNameChar_of_isBlank (hblanks c hc)]
  cases blanks with
  | nil => rwa [List.append_nil] at hl
  | cons c blanks =>
    obtain ⟨hc, hrest⟩ := List.forall_mem_cons.mp hseparate
    rw [splitWhere_append_cons hc] at hl
    refine (List.mem_append.mp hl).resolve_right fun hmem => hname ?_
    exact eq_nil_of_mem_splitWhere hrest hmem

/-- A line that brings a name in does so when it is cut. -/
theorem foundCut_bringsIn {name : String} (hname : Importable name.toList) : FoundCut (bringsIn name) where
  blank l hl := by
    rw [← (SkipsBlanks.bringsIn name).blanks, trimStart_of_blanks hl]
    exact (SkipsBlanks.bringsIn name).nil
  cut k l h hl := by
    have hword : ∀ {word : List Char}, word.all isNameChar = true → ¬ name.toList <+: word →
        name.toList ∈ splitWhere (fun c => !isNameChar c) (trimStart k) → ¬ trimStart k <+: word := by
      intro word hword hno hmem hp
      have hchars : ∀ c ∈ trimStart k, (!isNameChar c) = false := fun c hc => by
        simp [List.all_eq_true.mp hword c (hp.subset hc)]
      rw [splitWhere_word hchars, List.mem_singleton] at hmem
      exact hno (hmem ▸ hp)
    have hdefined : ∀ {fragment : String}, (fragment.toList.getLast?.all fun c => !isBlank c) = true →
        startsWith fragment (trimStart l) = true → startsWith fragment (trimStart k) = true := fun hlast hp =>
      List.isPrefixOf_iff_prefix.mpr (h.trimStart.prefix_of_last hlast (List.isPrefixOf_iff_prefix.mp hp))
    simp only [bringsIn, Bool.or_eq_true, Bool.and_eq_true, List.contains_eq_mem, decide_eq_true_eq] at hl ⊢
    -- an import, a class or a function brings the name in
    rcases hl with (⟨himport, hmem⟩ | hclass) | hdef
    · have hmem' := mem_splitWhere_of_cutFrom hname.ne_nil h.trimStart hmem
      refine .inl (.inl ⟨?_, hmem'⟩)
      -- without the blanks the line would be a piece of the word, and so would the name
      by_contra hno
      rw [Bool.not_eq_true] at hno
      rcases prefix_of_isImportLine h.trimStart himport hno with hp | hp
      · exact hword (by decide) hname.from_word hmem' hp
      · exact hword (by decide) hname.import_word hmem' hp
    · refine .inl (.inr (hdefined ?_ hclass))
      rw [String.toList_append, List.getLast?_append_of_ne_nil _ hname.ne_nil]
      exact hname.last
    · refine .inr (hdefined ?_ hdef)
      rw [String.toList_append, List.getLast?_append_of_ne_nil _ (by decide)]
      decide

end Symbol

/-! ### Headers -/

namespace Pattern

/-- What is left of a line after a word and the blanks behind it. -/
theorem afterWord?_eq_some {word : String} {cs r : List Char} :
    afterWord? word cs = some r ↔ ∃ b rest, isBlank b = true ∧ cs = word.toList ++ b :: rest ∧ r = trimStart rest := by
  have hdrop : ∀ t, (word.toList ++ t).drop word.length = t := by
    intro t
    rw [← String.length_toList, List.drop_left]
  constructor
  · intro h
    unfold afterWord? at h
    split_ifs at h with hstarts
    obtain ⟨t, rfl⟩ := List.isPrefixOf_iff_prefix.mp hstarts
    dsimp only at h
    rw [hdrop] at h
    -- a blank has to follow the word
    cases t with
    | nil => cases h
    | cons b rest =>
      by_cases hb : isBlank b = true
      · rw [List.takeWhile_cons_of_pos hb, trimStart, List.dropWhile_cons_of_pos hb] at h
        exact ⟨b, rest, hb, rfl, (Option.some.inj h).symm⟩
      · rw [List.takeWhile_cons_of_neg hb] at h
        cases h
  · rintro ⟨b, rest, hb, rfl, rfl⟩
    have hstarts : startsWith word (word.toList ++ b :: rest) = true :=
      List.isPrefixOf_iff_prefix.mpr (List.prefix_append _ _)
    unfold afterWord?
    dsimp only
    rw [if_pos hstarts, hdrop, List.takeWhile_cons_of_pos hb, trimStart, List.dropWhile_cons_of_pos hb]
    rfl

/-- After the word that starts a definition: a name, and then the end of the header without a colon. -/
def lacksColon (cs : List Char) : Bool :=
  let rest := cs.drop (cs.takeWhile isWordChar).length
  !(cs.takeWhile isWordChar).isEmpty
    && (endsHeader rest
      || (match trimStart rest with
          | '(' :: inside => closesHeader inside
          | _ => false))

/-- What is left of a line after the word that starts a definition. -/
def Defines (line cs : List Char) : Prop :=
  ∃ start, (start = trimStart line ∨ afterWord? "async" (trimStart line) = some start) ∧
    (afterWord? "def" start = some cs ∨ afterWord? "class" start = some cs)

/-- The name that a header gives, if nothing but the colon is missing. -/
def uncolonedName? (start : List Char) : Option (List Char) :=
  ((afterWord? "def" start).or (afterWord? "class" start)).bind fun cs =>
    if lacksColon cs then some (cs.takeWhile isWordChar) else none

/-- The search for a header without a colon, apart from the word that may stand before the header. -/
theorem missingColon?_eq (line : List Char) :
    missingColon? line = uncolonedName? ((afterWord? "async" (trimStart line)).getD (trimStart line)) := by
  unfold missingColon? uncolonedName?
  dsimp only
  cases (afterWord? "def" ((afterWord? "async" (trimStart line)).getD (trimStart line))).or
      (afterWord? "class" ((afterWord? "async" (trimStart line)).getD (trimStart line))) with
  | none => rfl
  | some cs => rfl

theorem isSome_uncolonedName?_iff {start : List Char} :
    (uncolonedName? start).isSome = true ↔
      ∃ cs, (afterWord? "def" start = some cs ∨ afterWord? "class" start = some cs) ∧ lacksColon cs = true := by
  unfold uncolonedName?
  cases hdef : afterWord? "def" start with
  | some cs =>
    -- no line starts with both words
    have hclass : afterWord? "class" start = none := by
      obtain ⟨b, rest, -, rfl, -⟩ := afterWord?_eq_some.mp hdef
      rfl
    by_cases hcs : lacksColon cs = true <;> simp [hclass, hcs]
  | none =>
    cases hclass : afterWord? "class" start with
    | some cs => by_cases hcs : lacksColon cs = true <;> simp [hcs]
    | none => simp

/-- A colon is missing if the line defines something and the rest of it lacks only a colon. -/
theorem isSome_missingColon?_iff {line : List Char} :
    (missingColon? line).isSome = true ↔ ∃ cs, Defines line cs ∧ lacksColon cs = true := by
  rw [missingColon?_eq, isSome_uncolonedName?_iff]
  constructor
  · rintro ⟨cs, hcs, hlacks⟩
    refine ⟨cs, ⟨_, ?_, hcs⟩, hlacks⟩
    cases afterWord? "async" (trimStart line) with
    | none => exact .inl rfl
    | some start => exact .inr rfl
  · rintro ⟨cs, ⟨start, hstart, hcs⟩, hlacks⟩
    refine ⟨cs, ?_, hlacks⟩
    rcases hstart with rfl | hasync
    · -- a line that starts with the header does not start with the other word
      have hasync : afterWord? "async" (trimStart line) = none := by
        rcases hcs with hcs | hcs
        · obtain ⟨b, rest, -, hline, -⟩ := afterWord?_eq_some.mp hcs
          rw [hline]
          rfl
        · obtain ⟨b, rest, -, hline, -⟩ := afterWord?_eq_some.mp hcs
          rw [hline]
          rfl
      rwa [hasync]
    · rwa [hasync]

theorem afterWord?_of_cutFrom {word : String} {k l r : List Char} (hr : afterWord? word k = some r)
    (hcut : CutFrom k l) : ∃ r', afterWord? word l = some r' ∧ CutFrom r r' := by
  obtain ⟨b, rest, hb, rfl, rfl⟩ := afterWord?_eq_some.mp hr
  obtain ⟨blanks, hblanks, rfl⟩ := hcut
  refine ⟨trimStart (rest ++ blanks), afterWord?_eq_some.mpr ⟨b, rest ++ blanks, hb, ?_, rfl⟩, ?_⟩
  · rw [List.append_assoc, List.cons_append]
  · exact CutFrom.trimStart ⟨blanks, hblanks, rfl⟩

/-- What a cut line defines, the whole line does. -/
theorem Defines.cut {k l cs : List Char} (h : Defines k cs) (hcut : CutFrom k l) :
    ∃ cs', Defines l cs' ∧ CutFrom cs cs' := by
  obtain ⟨start, hstart, hcs⟩ := h
  obtain ⟨start', hstart', hcut'⟩ : ∃ start', (start' = trimStart l ∨ afterWord? "async" (trimStart l) = some start') ∧
      CutFrom start start' := by
    rcases hstart with rfl | hasync
    · exact ⟨trimStart l, .inl rfl, hcut.trimStart⟩
    · obtain ⟨start', hasync', hcut'⟩ := afterWord?_of_cutFrom hasync hcut.trimStart
      exact ⟨start', .inr hasync', hcut'⟩
  rcases hcs with hcs | hcs
  · obtain ⟨cs', hcs', hcut''⟩ := afterWord?_of_cutFrom hcs hcut'
    exact ⟨cs', ⟨start', hstart', .inl hcs'⟩, hcut''⟩
  · obtain ⟨cs', hcs', hcut''⟩ := afterWord?_of_cutFrom hcs hcut'
    exact ⟨cs', ⟨start', hstart', .inr hcs'⟩, hcut''⟩

set_option maxRecDepth 4000 in
theorem not_mark_of_isBlank {c : Char} (h : isBlank c = true) : inRanges markRanges c.toNat = false :=
  eq_false_of_isBlank (p := fun c => inRanges markRanges c.toNat) (by decide) h

/-- A blank is not part of a word. -/
theorem isWordChar_of_isBlank {c : Char} (h : isBlank c = true) : isWordChar c = false := by
  have hname := Symbol.isNameChar_of_isBlank h
  have hconnector : isConnector c = false := eq_false_of_isBlank (by decide) h
  simp only [Symbol.isNameChar, isAlphanumeric, Bool.or_eq_false_iff] at hname
  obtain ⟨⟨⟨⟨hletter, hdigit⟩, -⟩, -⟩, -⟩ := hname
  rw [isWordChar, hletter, hdigit, hconnector, not_mark_of_isBlank h]
  rfl

/-- Blanks after the end of a header are no colon. -/
theorem foundUncut_endsHeader : FoundUncut endsHeader := by
  intro k l h hk
  obtain ⟨blanks, hblanks, hl⟩ := h.trimStart
  simp only [endsHeader, Bool.or_eq_true, Bool.and_eq_true, List.isEmpty_iff] at hk ⊢
  -- nothing follows, or a result annotation without colon and comment
  rcases hk with hempty | ⟨⟨harrow, hsome⟩, hall⟩
  · refine .inl ?_
    obtain ⟨blanks, hblanks, rfl⟩ := h
    rw [trimStart_append, hempty]
    exact trimStart_of_blanks hblanks
  · obtain ⟨t, ht⟩ := List.isPrefixOf_iff_prefix.mp harrow
    have hdrop : ∀ cs : List Char, ("->".toList ++ cs).drop 2 = cs := fun _ => rfl
    rw [← ht, hdrop] at hsome hall
    rw [hl, ← ht, List.append_assoc, hdrop, List.all_append, hall, Bool.true_and]
    refine .inr ⟨⟨List.isPrefixOf_iff_prefix.mpr (List.prefix_append _ _), ?_⟩, ?_⟩
    · cases t with
      | nil => cases hsome
      | cons c t => rfl
    · refine List.all_eq_true.mpr fun c hc => ?_
      have hmark : (c == ':' || c == '#') = false :=
        eq_false_of_isBlank (p := fun c => c == ':' || c == '#') (by decide) (hblanks c hc)
      simpa using hmark

theorem foundUncut_closesHeader : FoundUncut closesHeader := by
  intro k
  induction k with
  | nil => intro l _ hk; cases hk
  | cons c k ih =>
    intro l h hk
    obtain ⟨l, rfl, hcut⟩ := h.tail
    simp only [closesHeader, Bool.or_eq_true, Bool.and_eq_true] at hk ⊢
    exact hk.imp (fun hend => ⟨hend.1, foundUncut_endsHeader hcut hend.2⟩) fun hmore => ih hcut hmore

theorem foundUncut_lacksColon : FoundUncut lacksColon := by
  intro k l h hk
  have hname : l.takeWhile isWordChar = k.takeWhile isWordChar := h.takeWhile_eq fun _ => isWordChar_of_isBlank
  have hrest := h.drop (List.takeWhile_prefix isWordChar).length_le
  simp only [lacksColon, hname, Bool.and_eq_true, Bool.or_eq_true] at hk ⊢
  refine ⟨hk.1, hk.2.imp (fun hend => foundUncut_endsHeader hrest hend) fun hinside => ?_⟩
  split at hinside
  next inside hopen =>
    obtain ⟨inside', hopen', hcut⟩ := (hopen ▸ hrest.trimStart).tail
    rw [hopen']
    exact foundUncut_closesHeader hcut hinside
  next => cases hinside

theorem foundUncut_missingColon : FoundUncut fun l => (missingColon? l).isSome := by
  intro k l h hk
  obtain ⟨cs, hcs, hlacks⟩ := isSome_missingColon?_iff.mp hk
  obtain ⟨cs', hcs', hcut⟩ := hcs.cut h
  exact isSome_missingColon?_iff.mpr ⟨cs', hcs', foundUncut_lacksColon hcut hlacks⟩

/-! ### Headers with their colon -/

theorem dropWhile_colon {p : Char → Bool} (hp : p ':' = false) (cs : List Char) :
    (cs ++ [':']).dropWhile p = cs.dropWhile p ++ [':'] := by
  rw [List.dropWhile_append]
  split_ifs with hempty
  · rw [List.isEmpty_iff.mp hempty, List.dropWhile_cons_of_neg (by simp [hp])]
    rfl
  · rfl

theorem trimStart_colon (cs : List Char) : trimStart (cs ++ [':']) = trimStart cs ++ [':'] :=
  dropWhile_colon (by decide) cs

/-- What follows a fragment that does not end with a colon ends with the colon of the whole. -/
theorem exists_of_append_eq_colon {a t cs : List Char} (h : a ++ t = cs ++ [':']) (ha : a.getLast? ≠ some ':') :
    ∃ t', t = t' ++ [':'] := by
  rcases List.eq_nil_or_concat t with rfl | ⟨t, c, rfl⟩
  · rw [List.append_nil] at h
    rw [h, List.getLast?_concat] at ha
    exact absurd rfl ha
  · rw [List.concat_eq_append, ← List.append_assoc] at h
    obtain ⟨-, hc⟩ := List.append_inj' h rfl
    exact ⟨t, by rw [List.concat_eq_append, hc]⟩

/-- A text that ends with a colon is not the end of a header without one. -/
theorem endsHeader_colon (cs : List Char) : endsHeader (cs ++ [':']) = false := by
  rw [← Bool.not_eq_true]
  simp only [endsHeader, trimStart_colon, Bool.or_eq_true, Bool.and_eq_true]
  rintro (hempty | ⟨⟨harrow, -⟩, hall⟩)
  · simp at hempty
  · obtain ⟨t, ht⟩ := List.isPrefixOf_iff_prefix.mp harrow
    obtain ⟨t', rfl⟩ := exists_of_append_eq_colon ht (by decide)
    have hmem : ':' ∈ (trimStart cs ++ [':']).drop 2 := by
      rw [← ht]
      exact List.mem_append_right t' (List.mem_singleton_self ':')
    simpa using List.all_eq_true.mp hall ':' hmem

theorem closesHeader_colon (cs : List Char) : closesHeader (cs ++ [':']) = false := by
  induction cs with
  | nil => rfl
  | cons c cs ih => rw [List.cons_append, closesHeader, endsHeader_colon, ih, Bool.and_false, Bool.or_self]

theorem lacksColon_colon (cs : List Char) : lacksColon (cs ++ [':']) = false := by
  have hname : (cs ++ [':']).takeWhile isWordChar = cs.takeWhile isWordChar :=
    takeWhile_append_of_nil (List.takeWhile_cons_of_neg (by decide)) cs
  have hrest : (cs ++ [':']).drop (cs.takeWhile isWordChar).length =
      cs.drop (cs.takeWhile isWordChar).length ++ [':'] :=
    List.drop_append_of_le_length (List.takeWhile_prefix isWordChar).length_le
  simp only [lacksColon, hname, hrest, endsHeader_colon, trimStart_colon, Bool.false_or]
  rw [Bool.and_eq_false_imp]
  intro _
  -- the parameters, if there are any, end before the colon
  cases trimStart (cs.drop (cs.takeWhile isWordChar).length) with
  | nil => rfl
  | cons c inside =>
    rw [List.cons_append]
    split
    next inside' hopen =>
      obtain ⟨-, rfl⟩ := List.cons.inj hopen
      exact closesHeader_colon inside
    next => rfl

theorem afterWord?_colon {word : String} {k r : List Char} (hr : afterWord? word (k ++ [':']) = some r)
    (hlast : word.toList.getLast? ≠ some ':') : ∃ r', r = r' ++ [':'] := by
  obtain ⟨b, rest, hb, hk, rfl⟩ := afterWord?_eq_some.mp hr
  have hb' : b ≠ ':' := by
    rintro rfl
    cases hb
  obtain ⟨t, ht⟩ := exists_of_append_eq_colon hk.symm hlast
  obtain ⟨rest', rfl⟩ := exists_of_append_eq_colon (a := [b]) (t := rest) ht (by simpa using hb')
  exact ⟨trimStart rest', trimStart_colon rest'⟩

/-- A line with a colon at its end lacks none. -/
theorem missingColon?_colon (line : List Char) : missingColon? (line ++ [':']) = none := by
  rw [← Option.not_isSome_iff_eq_none, isSome_missingColon?_iff]
  rintro ⟨cs, ⟨start, hstart, hcs⟩, hlacks⟩
  obtain ⟨start', rfl⟩ : ∃ start', start = start' ++ [':'] := by
    rw [trimStart_colon] at hstart
    rcases hstart with rfl | hasync
    · exact ⟨_, rfl⟩
    · exact afterWord?_colon hasync (by decide)
  obtain ⟨cs', rfl⟩ : ∃ cs', cs = cs' ++ [':'] := by
    rcases hcs with hcs | hcs
    · exact afterWord?_colon hcs (by decide)
    · exact afterWord?_colon hcs (by decide)
  rw [lacksColon_colon] at hlacks
  cases hlacks

end Pattern

end AgentFlow
