import AgentFlow.PatternFix
import AgentFlow.Proofs.Source.Projection

/-!
# Repairs by pattern cure what they are for

Each repair leaves the code without what it takes away, and the repairs after it do not bring that back: they edit the
code by lines, and the lines that they add are imports and an entry point. `Free` says that a check finds nothing on any
line, `Supplied` that every symbol in use is brought in. Each repair establishes one of these and keeps the others, so
after all repairs no detector reports the finding that asked for them. Fences are the exception: a fence with more than
a language name after it is reported and not removed.
-/

namespace AgentFlow

namespace PatternFix

open Text AgentFlow.Symbol

theorem asks_iff {findings : List Finding} {id : String} :
    asks findings id = true ↔ ∃ f ∈ findings, f.fixed = false ∧ f.id = id := by
  simp [asks]

/-! ### Lines that repairs add -/

/-- The import of a symbol. -/
def importRow (s : Symbol) : String := "from " ++ s.module ++ " import " ++ s.name

def loopRow : String := "import asyncio"

/-- The lines of an entry point. -/
def entryRows : List (List Char) :=
  [[], [], "if __name__ == \"__main__\":".toList, "    asyncio.run(main())".toList]

/-- All lines that repairs add. -/
def newRows : List (List Char) := known.map (fun s => (importRow s).toList) ++ loopRow.toList :: entryRows

theorem importRow_mem {s : Symbol} (hs : s ∈ known) : (importRow s).toList ∈ newRows :=
  List.mem_append_left _ (List.mem_map_of_mem hs)

theorem loopRow_mem : loopRow.toList ∈ newRows := List.mem_append_right _ List.mem_cons_self

theorem entryRows_subset : entryRows ⊆ newRows := fun _ hl => List.mem_append_right _ (List.mem_cons_of_mem _ hl)

/-- The check does not mind the lines that repairs add. -/
theorem forall_newRows {P : List Char → Bool} (hfrom : ∀ rest, P ("from ".toList ++ rest) = false)
    (hloop : P loopRow.toList = false) (hentry : entryRows.all (fun l => !P l) = true) :
    ∀ l ∈ newRows, P l = false := by
  intro l hl
  rcases List.mem_append.mp hl with hl | hl
  · obtain ⟨s, -, rfl⟩ := List.mem_map.mp hl
    rw [importRow, String.toList_append, String.toList_append, String.toList_append, List.append_assoc,
      List.append_assoc]
    exact hfrom _
  · rcases List.mem_cons.mp hl with rfl | hl
    · exact hloop
    · simpa using List.all_eq_true.mp hentry l hl

/-- No line that is added is a fence. -/
theorem isFence_newRows : ∀ l ∈ newRows, Source.isFence l = false := by
  have hstart : ∀ {l : List Char}, startsWith Source.fence (trimStart l) = false → Source.isFence l = false := by
    intro l hl
    rw [← Bool.not_eq_true] at hl ⊢
    exact fun hfence => hl (Source.startsWith_fence_of_isFence hfence)
  exact forall_newRows (fun _ => hstart rfl) (hstart rfl) (by decide)

theorem tab_newRows : ∀ l ∈ newRows, startsWith "\t" l = false :=
  forall_newRows (fun _ => rfl) rfl (by decide)

theorem missingColon_newRows : ∀ l ∈ newRows, (Pattern.missingColon? l).isSome = false :=
  forall_newRows (fun _ => rfl) rfl (by decide)

theorem usedIn_newRows {s : Symbol} (hs : s ∈ known) : ∀ l ∈ newRows, usedIn s.name l = false := by
  have hentry : known.all (fun s => entryRows.all fun l => !usedIn s.name l) = true := by decide
  exact forall_newRows (fun _ => rfl) rfl (List.all_eq_true.mp hentry s hs)

/-! ### Names of symbols -/

theorem importable_of_mem_known {s : Symbol} (hs : s ∈ known) : Importable s.name.toList := by
  have hall : known.all (fun s => !s.name.toList.isEmpty && s.name.toList.all Detect.isLetter
      && !s.name.toList.isPrefixOf "from".toList && !s.name.toList.isPrefixOf "import".toList) = true := by decide
  obtain ⟨⟨⟨hne, hletters⟩, hfrom⟩, himport⟩ : ((_ ∧ _) ∧ _) ∧ _ := by
    simpa only [Bool.and_eq_true] using List.all_eq_true.mp hall s hs
  refine ⟨⟨by simpa using hne, fun c hc => ?_⟩, fun hp => ?_, fun hp => ?_⟩
  · exact Detect.isNameChar_of_isLetter (List.all_eq_true.mp hletters c hc)
  · rw [List.isPrefixOf_iff_prefix.mpr hp] at hfrom
    cases hfrom
  · rw [List.isPrefixOf_iff_prefix.mpr hp] at himport
    cases himport

theorem importable_loop : Importable "asyncio".toList := by
  refine ⟨⟨by decide, fun c hc => ?_⟩, by decide, by decide⟩
  have hletters : "asyncio".toList.all Detect.isLetter = true := by decide
  exact Detect.isNameChar_of_isLetter (List.all_eq_true.mp hletters c hc)

/-- A line that starts as an import and ends with a name after a blank brings the name in. -/
theorem bringsIn_of_concat {name : String} (start : List Char) (hname : IsName name.toList)
    (htrim : trimStart (start ++ ' ' :: name.toList) = start ++ ' ' :: name.toList)
    (himport : isImportLine (start ++ ' ' :: name.toList) = true) :
    bringsIn name (start ++ ' ' :: name.toList) = true := by
  have hword : splitWhere (fun c => !isNameChar c) name.toList = [name.toList] :=
    splitWhere_word fun c hc => by simp [hname.chars c hc]
  have hpieces : name.toList ∈ splitWhere (fun c => !isNameChar c) (start ++ ' ' :: name.toList) := by
    rw [splitWhere_append_cons (by decide), hword]
    exact List.mem_append_right _ (List.mem_singleton_self _)
  simp [bringsIn, htrim, himport, hpieces]

/-- An added import brings its symbol in. -/
theorem bringsIn_importRow {s : Symbol} (hs : s ∈ known) : bringsIn s.name (importRow s).toList = true := by
  have hrow : (importRow s).toList = "from ".toList ++ s.module.toList ++ " import".toList ++ ' ' :: s.name.toList := by
    rw [importRow, String.toList_append, String.toList_append, String.toList_append, List.append_assoc,
      List.append_assoc]
    simp
  rw [hrow]
  exact bringsIn_of_concat _ (importable_of_mem_known hs).toIsName rfl rfl

theorem bringsIn_loopRow : bringsIn "asyncio" loopRow.toList = true :=
  bringsIn_of_concat "import".toList importable_loop.toIsName rfl rfl

/-! ### What repairs make of the lines -/

/-- An import becomes one more line. -/
theorem edited_insertImport {row : String} (hrow : '\n' ∉ row.toList)
    (hlast : (row.toList.getLast?.all fun c => !isBlank c) = true) (hne : row.toList ≠ []) (code : String) :
    Edited [row.toList] (lines code.toList) (lines (insertImport row code).toList) ∧
      row.toList ∈ lines (insertImport row code).toList := by
  have hlines : ∀ l ∈ lines code.toList, '\n' ∉ l := fun l hl => newline_not_mem_of_mem_lines hl
  unfold insertImport
  dsimp only
  rw [String.toList_ofList]
  generalize (upToLast? isImportLine (lines code.toList)).getD (docstringLines (lines code.toList)) = n
  have hjoined : ∀ l ∈ (lines code.toList).take n ++ [row.toList] ++ (lines code.toList).drop n, '\n' ∉ l := by
    intro l hl
    simp only [List.append_assoc, List.mem_append, List.mem_singleton] at hl
    rcases hl with hl | rfl | hl
    · exact hlines l (List.mem_of_mem_take hl)
    · exact hrow
    · exact hlines l (List.mem_of_mem_drop hl)
  obtain ⟨hrest, hmem⟩ := (edited_unlines hjoined).insert (trimEnd_of_last hlast) hne
  rw [List.take_append_drop] at hrest
  exact ⟨hrest, hmem⟩

theorem edited_importRow {s : Symbol} (hs : s ∈ known) (code : String) :
    Edited [(importRow s).toList] (lines code.toList) (lines (insertImport (importRow s) code).toList) ∧
      (importRow s).toList ∈ lines (insertImport (importRow s) code).toList := by
  have hname := (importable_of_mem_known hs).toIsName
  have hnewline : ∀ c ∈ s.name.toList, c ≠ '\n' := by
    rintro c hc rfl
    exact absurd (hname.chars _ hc) (by decide)
  have hmodule : known.all (fun s => !s.module.toList.contains '\n') = true := by decide
  refine edited_insertImport ?_ ?_ (by simp [importRow]) code
  · simp only [importRow, String.toList_append, List.mem_append, not_or]
    refine ⟨⟨⟨by decide, ?_⟩, by decide⟩, fun hmem => hnewline _ hmem rfl⟩
    simpa using List.all_eq_true.mp hmodule s hs
  · rw [importRow, String.toList_append, List.getLast?_append_of_ne_nil _ hname.ne_nil]
    exact hname.last

theorem edited_loopRow (code : String) :
    Edited [loopRow.toList] (lines code.toList) (lines (insertImport loopRow code).toList) ∧
      loopRow.toList ∈ lines (insertImport loopRow code).toList :=
  edited_insertImport (by decide) (by decide) (by decide) code

/-- An entry point becomes four more lines at the end. -/
theorem edited_appendEntry (code : String) :
    Edited entryRows (lines code.toList) (lines (appendEntry code).toList) := by
  have htext : (appendEntry code).toList = trimEnd code.toList ++ '\n' :: unlines entryRows := by
    rw [appendEntry, String.toList_append, String.toList_append, String.toList_append, String.toList_ofList,
      List.append_assoc, List.append_assoc]
    rfl
  have hentry : lines (unlines entryRows) = entryRows := by decide
  rw [htext, lines_append_newline, hentry]
  have hcode : Edited entryRows (lines code.toList) (lines (trimEnd code.toList ++ ['\n'])) :=
    (edited_trimEnd code.toList).mono (List.cons_subset.mpr ⟨List.mem_cons_self, List.nil_subset _⟩)
  simpa using hcode.append (Edited.new_lines entryRows)

theorem edited_rejoin {ls : List (List Char)} (h : ∀ l ∈ ls, '\n' ∉ l) :
    Edited [[]] ls (lines (rejoin ls).toList) := by
  unfold rejoin
  split_ifs with hempty
  · rw [List.isEmpty_iff.mp hempty]
    exact .new_lines [[]]
  · rw [String.toList_ofList]
    exact (edited_unlines h).mono (List.nil_subset _)

/-- A line of the cleaned code is one of the code that is no fence, without the blanks at its end. -/
theorem exists_of_mem_lines_clean {code : String} {l : List Char} (h : l ∈ lines (Source.clean code).toList) :
    ∃ k ∈ lines code.toList, Source.isFence k = false ∧ CutFrom l k := by
  rw [Source.lines_clean] at h
  obtain ⟨k, hk, hfence, rfl⟩ := Source.mem_kept.mp (Source.cleanLines_subset_kept _ h)
  exact ⟨k, hk, hfence, cutFrom_trimEnd k⟩

/-! ### Checks that find nothing -/

/-- The check finds nothing on any line of the code. -/
def Free (P : List Char → Bool) (code : String) : Prop := ∀ l ∈ lines code.toList, P l = false

namespace Free

variable {P : List Char → Bool} {findings : List Finding} {fix : PatternFix}

theorem removeFences (hP : FoundUncut P) (h : Free P fix.code) : Free P (removeFences findings fix).code := by
  unfold PatternFix.removeFences
  split_ifs
  · intro l hl
    obtain ⟨k, hk, -, hcut⟩ := exists_of_mem_lines_clean hl
    exact hP.eq_false hcut (h k hk)
  · exact h

/-- A change of single lines keeps the code free if it keeps each line so. -/
theorem rejoin_map (hP : FoundUncut P) (hnil : P [] = false) {change : List Char → List Char}
    (hnewline : ∀ {l : List Char}, '\n' ∉ l → '\n' ∉ change l) {code : String}
    (h : ∀ l ∈ lines code.toList, P (change l) = false) : Free P (rejoin ((lines code.toList).map change)) := by
  refine (edited_rejoin ?_).absent hP (List.forall_mem_singleton.mpr hnil) ?_
  · simp only [List.forall_mem_map]
    exact fun l hl => hnewline (newline_not_mem_of_mem_lines hl)
  · simpa only [List.forall_mem_map] using h

theorem foldl_importSymbol (hP : FoundUncut P) (hnew : ∀ l ∈ newRows, P l = false) {ss : List Symbol}
    (hss : ss ⊆ known) (h : Free P fix.code) : Free P (ss.foldl importSymbol fix).code := by
  induction ss generalizing fix with
  | nil => exact h
  | cons s ss ih =>
    obtain ⟨hs, hss⟩ := List.cons_subset.mp hss
    refine ih hss ?_
    unfold importSymbol
    dsimp only
    split_ifs
    · exact (edited_importRow hs fix.code).1.absent hP (List.forall_mem_singleton.mpr (hnew _ (importRow_mem hs))) h
    · exact h

theorem loopRow (hP : FoundUncut P) (hnew : ∀ l ∈ newRows, P l = false) {code : String} (h : Free P code) :
    Free P (insertImport loopRow code) :=
  (edited_loopRow code).1.absent hP (List.forall_mem_singleton.mpr (hnew _ loopRow_mem)) h

theorem addImports (hP : FoundUncut P) (hnew : ∀ l ∈ newRows, P l = false) (h : Free P fix.code) :
    Free P (addImports findings fix).code := by
  unfold PatternFix.addImports importLoop
  split_ifs
  · exact loopRow hP hnew (foldl_importSymbol hP hnew (List.Subset.refl _) h)
  · exact foldl_importSymbol hP hnew (List.Subset.refl _) h
  · exact h

theorem addEntry (hP : FoundUncut P) (hnew : ∀ l ∈ newRows, P l = false) (h : Free P fix.code) :
    Free P (addEntry findings fix).code := by
  have hentry : ∀ {code : String}, Free P code → Free P (appendEntry code) := fun hcode =>
    (edited_appendEntry _).absent hP (fun l hl => hnew l (entryRows_subset hl)) hcode
  unfold PatternFix.addEntry
  dsimp only
  split_ifs
  · exact hentry h
  · exact hentry (loopRow hP hnew h)
  · exact h

/-- What the first repairs have taken away stays away. -/
theorem finish (hP : FoundUncut P) (hnew : ∀ l ∈ newRows, P l = false) (h : Free P fix.code) :
    Free P (PatternFix.addEntry findings (PatternFix.addImports findings fix)).code :=
  addEntry hP hnew (addImports hP hnew h)

end Free

/-! ### Fences, tabs and colons -/

theorem free_fence_removeFences {findings : List Finding} (h : asks findings "markdown-fence" = true)
    (fix : PatternFix) : Free Source.isFence (removeFences findings fix).code := by
  unfold removeFences
  rw [h, Bool.true_and]
  split_ifs with hfences
  · intro l hl
    obtain ⟨k, -, hfence, hcut⟩ := exists_of_mem_lines_clean hl
    exact Source.foundUncut_isFence.eq_false hcut hfence
  · simpa [Source.hasFences, Free] using hfences

theorem newline_spaceTabs {l : List Char} (h : '\n' ∉ l) : '\n' ∉ spaceTabs l := by
  rw [spaceTabs, List.mem_append, not_or]
  refine ⟨?_, fun hmem => h ((List.dropWhile_suffix _).subset hmem)⟩
  rw [List.mem_flatMap]
  rintro ⟨-, -, hspace⟩
  exact absurd hspace (by decide)

/-- No tab is left at the start. -/
theorem tab_spaceTabs (l : List Char) : startsWith "\t" (spaceTabs l) = false := by
  cases l with
  | nil => rfl
  | cons c l =>
    by_cases hc : c = '\t'
    · subst hc
      rfl
    · -- without a tab at the start, the line stays as it is
      have hspaced : spaceTabs (c :: l) = c :: l := by
        rw [spaceTabs, List.takeWhile_cons_of_neg (by simpa using hc), List.dropWhile_cons_of_neg (by simpa using hc)]
        rfl
      have hne : ('\t' == c) = false := beq_eq_false_iff_ne.mpr (Ne.symm hc)
      rw [hspaced]
      show ('\t' == c && _) = false
      rw [hne, Bool.false_and]

/-- Only the indentation changes. -/
theorem trimStart_spaceTabs (l : List Char) : trimStart (spaceTabs l) = trimStart l := by
  have hspaces : ∀ c ∈ (l.takeWhile (· = '\t')).flatMap (fun _ => "    ".toList), isBlank c = true := by
    intro c hc
    obtain ⟨-, -, hspace⟩ := List.mem_flatMap.mp hc
    have hall : "    ".toList.all isBlank = true := by decide
    exact List.all_eq_true.mp hall c hspace
  have htabs : ∀ c ∈ l.takeWhile (· = '\t'), isBlank c = true := by
    intro c hc
    obtain rfl : c = '\t' := by simpa using List.mem_takeWhile_imp hc
    decide
  rw [spaceTabs, trimStart_blanks_append hspaces, ← trimStart_blanks_append htabs, List.takeWhile_append_dropWhile]

theorem isFence_spaceTabs (l : List Char) : Source.isFence (spaceTabs l) = Source.isFence l := by
  simp only [Source.isFence, trim, trimStart_spaceTabs]

theorem newline_closeHeader {l : List Char} (h : '\n' ∉ l) : '\n' ∉ closeHeader l := by
  unfold closeHeader
  split_ifs
  · rw [List.mem_append, not_or]
    exact ⟨fun hmem => h ((cutFrom_trimEnd l).isPrefix.subset hmem), by decide⟩
  · exact h

theorem missingColon_closeHeader (l : List Char) : (Pattern.missingColon? (closeHeader l)).isSome = false := by
  unfold closeHeader
  split_ifs with h
  · rw [Pattern.missingColon?_colon]
    rfl
  · simpa using h

/-- Closing a header makes neither a fence nor an indentation of a line. -/
theorem closeHeader_eq_false {P : List Char → Bool} (hP : FoundUncut P)
    (hcolon : ∀ l, P (l ++ [':']) = true → P l = true) {l : List Char} (h : P l = false) :
    P (closeHeader l) = false := by
  unfold closeHeader
  split_ifs
  · rw [← Bool.not_eq_true] at h ⊢
    exact fun hclosed => h (hP (cutFrom_trimEnd l) (hcolon _ hclosed))
  · exact h

/-- A line that ends with a colon is no fence. -/
theorem isFence_colon (l : List Char) : Source.isFence (l ++ [':']) = false := by
  have htrim : trim (l ++ [':']) = trimStart l ++ [':'] := by
    rw [trim, Pattern.trimStart_colon, trimEnd_concat]
    rfl
  rw [← Bool.not_eq_true]
  intro hfence
  obtain ⟨hstart, hchars⟩ := Bool.and_eq_true_iff.mp hfence
  rw [htrim] at hstart hchars
  obtain ⟨t, ht⟩ := List.isPrefixOf_iff_prefix.mp hstart
  obtain ⟨t', rfl⟩ := Pattern.exists_of_append_eq_colon ht (by decide)
  have hmem : ':' ∈ (trimStart l ++ [':']).drop 3 := by
    rw [← ht]
    exact List.mem_append_right t' (List.mem_singleton_self ':')
  exact absurd (List.all_eq_true.mp hchars ':' hmem) (by decide)

theorem tab_of_colon (l : List Char) (h : startsWith "\t" (l ++ [':']) = true) : startsWith "\t" l = true := by
  cases l with
  | nil => exact absurd h (by decide)
  | cons c l => exact h

section Lines

variable {findings : List Finding} {fix : PatternFix}

theorem free_tab_replaceTabs (h : asks findings "tab-indentation" = true ∨ Free (startsWith "\t") fix.code) :
    Free (startsWith "\t") (replaceTabs findings fix).code := by
  unfold replaceTabs
  split_ifs with hasks
  · exact Free.rejoin_map (foundUncut_startsWith _) rfl newline_spaceTabs fun l _ => tab_spaceTabs l
  · exact h.resolve_left hasks

theorem free_fence_replaceTabs (h : Free Source.isFence fix.code) :
    Free Source.isFence (replaceTabs findings fix).code := by
  unfold replaceTabs
  split_ifs
  · refine Free.rejoin_map Source.foundUncut_isFence rfl newline_spaceTabs fun l hl => ?_
    rw [isFence_spaceTabs]
    exact h l hl
  · exact h

theorem Free.addColons {P : List Char → Bool} (hP : FoundUncut P) (hnil : P [] = false)
    (hcolon : ∀ l, P (l ++ [':']) = true → P l = true) (h : Free P fix.code) :
    Free P (addColons findings fix).code := by
  unfold PatternFix.addColons
  dsimp only
  split_ifs
  · exact Free.rejoin_map hP hnil newline_closeHeader fun l hl => closeHeader_eq_false hP hcolon (h l hl)
  · exact h

theorem free_header_addColons (h : asks findings "missing-colon" = true) (fix : PatternFix) :
    Free (fun l => (Pattern.missingColon? l).isSome) (addColons findings fix).code := by
  unfold addColons
  dsimp only
  rw [h, Bool.true_and]
  split_ifs with hany
  · exact Free.rejoin_map Pattern.foundUncut_missingColon rfl newline_closeHeader fun l _ => missingColon_closeHeader l
  · simpa [Free] using hany

end Lines

/-! ### Imports -/

/-- If the code uses the symbol, it brings it in. -/
def SuppliedFor (s : Symbol) (code : String) : Prop :=
  (∃ l ∈ lines code.toList, usedIn s.name l = true) → ∃ l ∈ lines code.toList, bringsIn s.name l = true

/-- The code brings in what it uses. -/
structure Supplied (code : String) : Prop where
  symbols : ∀ s ∈ known, SuppliedFor s code
  loop : contains "asyncio." code.toList = true → importsLoop code = true

/-- Lines that do not use the symbol may be added. -/
theorem SuppliedFor.edited {s : Symbol} (hs : s ∈ known) {new : List (List Char)} (hnew : new ⊆ newRows)
    {code code' : String} (he : Edited new (lines code.toList) (lines code'.toList)) (h : SuppliedFor s code) :
    SuppliedFor s code' := by
  have hname := importable_of_mem_known hs
  rintro ⟨l, hl, hused⟩
  refine he.present (foundCut_bringsIn hname) (h ?_)
  -- if nothing used the symbol before, nothing does now
  by_contra hno
  have hbefore : ∀ k ∈ lines code.toList, usedIn s.name k = false := fun k hk => by
    simpa using fun hk' => hno ⟨k, hk, hk'⟩
  rw [he.absent (foundUncut_usedIn hname.toIsName) (fun k hk => usedIn_newRows hs k (hnew hk)) hbefore l hl] at hused
  cases hused

theorem importsLoop_edited {new : List (List Char)} {code code' : String}
    (he : Edited new (lines code.toList) (lines code'.toList)) (h : importsLoop code = true) :
    importsLoop code' = true :=
  List.any_eq_true.mpr (he.present (foundCut_bringsIn importable_loop) (List.any_eq_true.mp h))

theorem importsLoop_loopRow (code : String) : importsLoop (insertImport loopRow code) = true :=
  List.any_eq_true.mpr ⟨_, (edited_loopRow code).2, bringsIn_loopRow⟩

/-- What a step of the imports does to the lines. -/
theorem edited_importSymbol {s : Symbol} (hs : s ∈ known) (fix : PatternFix) :
    Edited [(importRow s).toList] (lines fix.code.toList) (lines (importSymbol fix s).code.toList) ∧
      SuppliedFor s (importSymbol fix s).code := by
  unfold importSymbol
  dsimp only
  split_ifs with h
  · obtain ⟨hedit, hmem⟩ := edited_importRow hs fix.code
    exact ⟨hedit, fun _ => ⟨_, hmem, bringsIn_importRow hs⟩⟩
  · -- no import is added, so the symbol is not used or is brought in already
    refine ⟨.refl _ _, fun ⟨l, hl, hused⟩ => ?_⟩
    have husedAt : (usedAt s.name (lines fix.code.toList)).isSome = true := by
      rw [Option.isSome_iff_ne_none]
      intro hnone
      rw [Detect.lineWhere_eq_none.mp hnone l hl] at hused
      cases hused
    rw [husedAt, Bool.true_and, Bool.not_eq_true', Bool.not_eq_false] at h
    exact List.any_eq_true.mp h

/-- The induction is on the symbols: each one is supplied by its own step, and stays supplied by those after it. -/
theorem suppliedFor_foldl {ss : List Symbol} (hss : ss ⊆ known) (fix : PatternFix) :
    (∀ s ∈ ss, SuppliedFor s (ss.foldl importSymbol fix).code) ∧
      ∀ s ∈ known, SuppliedFor s fix.code → SuppliedFor s (ss.foldl importSymbol fix).code := by
  induction ss generalizing fix with
  | nil => exact ⟨fun s hs => absurd hs List.not_mem_nil, fun s _ h => h⟩
  | cons t ss ih =>
    obtain ⟨ht, hss⟩ := List.cons_subset.mp hss
    obtain ⟨hsupplied, hstays⟩ := ih hss (importSymbol fix t)
    obtain ⟨hedit, hown⟩ := edited_importSymbol ht fix
    refine ⟨List.forall_mem_cons.mpr ⟨hstays t ht hown, hsupplied⟩, fun s hs h => hstays s hs ?_⟩
    exact h.edited hs (List.cons_subset.mpr ⟨importRow_mem ht, List.nil_subset _⟩) hedit

theorem Supplied.edited {new : List (List Char)} (hnew : new ⊆ newRows) {code code' : String}
    (he : Edited new (lines code.toList) (lines code'.toList)) (h : ∀ s ∈ known, SuppliedFor s code)
    (hloop : contains "asyncio." code'.toList = true → importsLoop code' = true) : Supplied code' :=
  ⟨fun s hs => (h s hs).edited hs hnew he, hloop⟩

theorem loopRow_subset : [loopRow.toList] ⊆ newRows := List.cons_subset.mpr ⟨loopRow_mem, List.nil_subset _⟩

/-- After its import the event loop is supplied as well. -/
theorem supplied_importLoop {fix : PatternFix} (h : ∀ s ∈ known, SuppliedFor s fix.code) :
    Supplied (importLoop fix).code := by
  unfold importLoop
  split_ifs with hloop
  · exact .edited loopRow_subset (edited_loopRow _).1 h fun _ => importsLoop_loopRow _
  · refine ⟨h, fun hcontains => ?_⟩
    rwa [hcontains, Bool.true_and, Bool.not_eq_true', Bool.not_eq_false] at hloop

theorem supplied_addImports {findings : List Finding} (h : asks findings "missing-import" = true) (fix : PatternFix) :
    Supplied (addImports findings fix).code := by
  unfold addImports
  rw [if_pos h]
  exact supplied_importLoop (suppliedFor_foldl (List.Subset.refl known) fix).1

/-- The entry point needs the event loop, which is brought in before. -/
theorem Supplied.addEntry {findings : List Finding} {fix : PatternFix} (h : Supplied fix.code) :
    Supplied (addEntry findings fix).code := by
  have hentry : ∀ {code : String}, (∀ s ∈ known, SuppliedFor s code) → importsLoop code = true →
      Supplied (appendEntry code) := fun hcode hloop =>
    .edited entryRows_subset (edited_appendEntry _) hcode fun _ => importsLoop_edited (edited_appendEntry _) hloop
  unfold PatternFix.addEntry
  dsimp only
  split_ifs with hasks hloop
  · exact hentry h.symbols hloop
  · refine hentry (fun s hs => ?_) (importsLoop_loopRow _)
    exact (h.symbols s hs).edited hs loopRow_subset (edited_loopRow _).1
  · exact h

/-! ### All repairs -/

theorem contains_runMain_appendEntry (code : String) : contains Detect.runMain (appendEntry code).toList = true := by
  refine occurs_iff.mpr ?_
  rw [appendEntry, String.toList_append, String.toList_append]
  exact ⟨_, _, rfl⟩

section Apply

variable {code : String} {findings : List Finding} {credential : Option String}

theorem putCredential_eq (h : nonBlank credential = none) (fix : PatternFix) :
    putCredential findings credential fix = fix := by
  simp only [putCredential, h]

theorem free_fence_apply (hcredential : nonBlank credential = none) (h : asks findings "markdown-fence" = true) :
    Free Source.isFence (apply code findings credential).code := by
  rw [apply, putCredential_eq hcredential]
  refine Free.finish Source.foundUncut_isFence isFence_newRows ?_
  refine Free.addColons Source.foundUncut_isFence rfl (fun l hl => ?_) (free_fence_replaceTabs ?_)
  · rw [isFence_colon] at hl
    cases hl
  · exact free_fence_removeFences h _

theorem free_tab_apply (hcredential : nonBlank credential = none)
    (h : asks findings "tab-indentation" = true ∨ Free (startsWith "\t") code) :
    Free (startsWith "\t") (apply code findings credential).code := by
  have hP := foundUncut_startsWith "\t"
  rw [apply, putCredential_eq hcredential]
  refine Free.finish hP tab_newRows (Free.addColons hP rfl tab_of_colon ?_)
  exact free_tab_replaceTabs (h.imp_right fun hfree => Free.removeFences hP hfree)

theorem free_header_apply (hcredential : nonBlank credential = none) (h : asks findings "missing-colon" = true) :
    Free (fun l => (Pattern.missingColon? l).isSome) (apply code findings credential).code := by
  rw [apply, putCredential_eq hcredential]
  exact Free.finish Pattern.foundUncut_missingColon missingColon_newRows (free_header_addColons h _)

/-- After the repairs the code brings in what it uses. -/
theorem supplied_apply (hcredential : nonBlank credential = none) (h : asks findings "missing-import" = true) :
    Supplied (apply code findings credential).code := by
  rw [apply, putCredential_eq hcredential]
  exact (supplied_addImports h _).addEntry

theorem contains_runMain_apply (h : asks findings "async-main-not-run" = true) :
    contains Detect.runMain (apply code findings credential).code.toList = true := by
  unfold apply addEntry
  rw [if_pos h]
  exact contains_runMain_appendEntry _

end Apply

/-! ### What the detectors report afterwards -/

/-- The ids of the findings that repairs by pattern always cure. -/
def cured : List String := ["tab-indentation", "missing-colon", "missing-import", "async-main-not-run"]

/-- The ids that ask for a repair by pattern without a credential. -/
def asking : List String := "markdown-fence" :: cured

theorem rule_id_ne {r : Detect.Rule} (hr : r ∈ Detect.rules) {id : String} (hid : id ∈ asking) : r.id ≠ id := by
  have hall : ∀ r ∈ Detect.rules, r.id ∉ asking := by decide
  rintro rfl
  exact hall r hr hid

section Reports

variable {code : String} {c : Category} {t : String × Severity × Bool}

theorem id_ne_of_free_tab (h : Free (startsWith "\t") code) (hg : Detect.Grounds code c t) :
    t.1 ≠ "tab-indentation" := by
  intro hid
  cases hg with
  | tab _ hl htab => exact Bool.false_ne_true ((h _ hl).symm.trans htab)
  | rule hr => exact rule_id_ne hr (by decide) hid
  | _ => exact absurd hid (by decide)

theorem id_ne_of_free_header (h : Free (fun l => (Pattern.missingColon? l).isSome) code)
    (hg : Detect.Grounds code c t) : t.1 ≠ "missing-colon" := by
  intro hid
  cases hg with
  | header _ hl hlacks => exact Bool.false_ne_true ((h _ hl).symm.trans hlacks)
  | rule hr => exact rule_id_ne hr (by decide) hid
  | _ => exact absurd hid (by decide)

theorem id_ne_of_supplied (h : Supplied code) (hg : Detect.Grounds code c t) : t.1 ≠ "missing-import" := by
  intro hid
  cases hg with
  | symbol hs hl hused hno =>
    have himported := List.any_eq_true.mpr (h.symbols _ hs ⟨_, hl, hused⟩)
    exact Bool.false_ne_true (hno.symm.trans himported)
  | loop hl hloop hno =>
    have himported := h.loop (contains_of_mem_lines hl hloop)
    exact Bool.false_ne_true (hno.symm.trans himported)
  | rule hr => exact rule_id_ne hr (by decide) hid
  | _ => exact absurd hid (by decide)

theorem id_ne_of_runMain (h : contains Detect.runMain code.toList = true) (hg : Detect.Grounds code c t) :
    t.1 ≠ "async-main-not-run" := by
  intro hid
  cases hg with
  | main _ _ hno => exact Bool.false_ne_true (hno.symm.trans h)
  | rule hr => exact rule_id_ne hr (by decide) hid
  | _ => exact absurd hid (by decide)

end Reports

/-- What asks for a repair by pattern is not reported after the repairs, whichever detectors look. -/
theorem id_ne_of_asks {findings : List Finding} {credential : Option String} {id : String} (hid : id ∈ cured)
    (hcredential : nonBlank credential = none) (hasks : asks findings id = true) (code : String) (s : Selection) :
    ∀ f ∈ detectAll s (apply code findings credential).code, f.id ≠ id := by
  intro f hf
  obtain ⟨c, -, hgrounds, -⟩ := Detect.grounded_of_mem_detectAll hf
  simp only [cured, List.mem_cons, List.not_mem_nil, or_false] at hid
  rcases hid with rfl | rfl | rfl | rfl
  · exact id_ne_of_free_tab (free_tab_apply hcredential (.inl hasks)) hgrounds
  · exact id_ne_of_free_header (free_header_apply hcredential hasks) hgrounds
  · exact id_ne_of_supplied (supplied_apply hcredential hasks) hgrounds
  · exact id_ne_of_runMain (contains_runMain_apply hasks) hgrounds

/-! ### Nothing to repair -/

/-- Where nothing is asked for, nothing is done. -/
theorem apply_eq_self {code : String} {findings : List Finding} {credential : Option String}
    (hcredential : nonBlank credential = none)
    (hfence : asks findings "markdown-fence" = true → Source.hasFences code = false)
    (h : ∀ id ∈ cured, asks findings id = false) : apply code findings credential = { code := code } := by
  have hremove : removeFences findings { code := code } = { code := code } := by
    refine if_neg fun hboth => ?_
    obtain ⟨hasks, hfences⟩ := Bool.and_eq_true_iff.mp hboth
    exact Bool.false_ne_true ((hfence hasks).symm.trans hfences)
  have htab := h "tab-indentation" (by decide)
  have hcolon := h "missing-colon" (by decide)
  have himport := h "missing-import" (by decide)
  have hmain := h "async-main-not-run" (by decide)
  rw [apply, putCredential_eq hcredential, hremove]
  simp [replaceTabs, addColons, addImports, addEntry, htab, hcolon, himport, hmain]

theorem not_blank_of_mem_lines {code : String} {l : List Char} (hl : l ∈ lines code.toList)
    (h : ∃ c ∈ l, isBlank c = false) : code.toList.all isBlank = false := by
  rw [← Bool.not_eq_true]
  intro hall
  obtain ⟨c, hc, hblank⟩ := h
  exact Bool.false_ne_true (hblank.symm.trans (isBlank_of_mem_lines (List.all_eq_true.mp hall) hl c hc))

/-- Blank code asks for no repair. -/
theorem not_blank_of_grounds {code : String} {c : Category} {t : String × Severity × Bool}
    (hg : Detect.Grounds code c t) (hid : t.1 ∈ asking) : code.toList.all isBlank = false := by
  cases hg with
  | rule hr => exact absurd rfl (rule_id_ne hr hid)
  | fence hcode => exact hcode
  | header hcode => exact hcode
  | tab hcode => exact hcode
  | @symbol s _ l hl hused =>
    refine not_blank_of_mem_lines hl ?_
    -- a blank line uses no symbol
    by_contra hno
    have hblank : ∀ c ∈ l, isBlank c = true := fun c hc => by simpa using fun hc' => hno ⟨c, hc, hc'⟩
    rw [← (SkipsBlanks.usedIn s.name).blanks, trimStart_of_blanks hblank, (SkipsBlanks.usedIn s.name).nil] at hused
    cases hused
  | main hl hmain =>
    refine not_blank_of_mem_lines hl ⟨'a', ?_, by decide⟩
    exact (List.isPrefixOf_iff_prefix.mp hmain).subset (by decide)
  | loop hl hloop =>
    refine not_blank_of_mem_lines hl ⟨'a', ?_, by decide⟩
    exact (occurs_iff.mp hloop).subset (by decide)
  | _ => exact absurd hid (by decide)

/-- Blank code stays as it is. -/
theorem apply_of_blank {s : Selection} {code : String} {findings : List Finding} {credential : Option String}
    (hcredential : nonBlank credential = none) (hreported : findings ⊆ detectAll s code)
    (hblank : code.toList.all isBlank = true) : apply code findings credential = { code := code } := by
  have hasks : ∀ id ∈ asking, asks findings id = false := by
    intro id hid
    rw [← Bool.not_eq_true, asks_iff]
    rintro ⟨f, hf, -, rfl⟩
    obtain ⟨c, -, hgrounds, -⟩ := Detect.grounded_of_mem_detectAll (hreported hf)
    exact Bool.false_ne_true ((not_blank_of_grounds hgrounds hid).symm.trans hblank)
  refine apply_eq_self hcredential (fun hfence => ?_) fun id hid => hasks id (List.mem_cons_of_mem _ hid)
  exact absurd ((hasks _ List.mem_cons_self).symm.trans hfence) Bool.false_ne_true

theorem category_of_tab {code : String} {c : Category} {t : String × Severity × Bool} (hg : Detect.Grounds code c t)
    (hid : t.1 = "tab-indentation") : c = .form := by
  cases hg with
  | tab => rfl
  | rule hr => exact absurd hid (rule_id_ne hr (by decide))
  | _ => exact absurd hid (by decide)

/-- Tabs are reported about all code that is not blank, if its form is checked. -/
theorem tab_reported {s : Selection} {code : String} (hform : s.enabled .form = true)
    (hcode : code.toList.all isBlank = false) (h : ¬ Free (startsWith "\t") code) :
    ∃ f ∈ detectAll s code, f.id = "tab-indentation" := by
  cases hline : lineWhere (startsWith "\t") (lines code.toList) with
  | none => exact absurd (Detect.lineWhere_eq_none.mp hline) h
  | some n =>
    refine ⟨?found, List.mem_flatMap.mpr ⟨.form, List.mem_filter.mpr ⟨by decide, hform⟩, ?mem⟩, ?id⟩
    case mem =>
      simp only [Detect.run, Detect.form, hcode, Bool.false_eq_true, if_false]
      refine List.mem_append_left _ (List.mem_append_left _ (List.mem_append_right _ ?_))
      rw [hline]
      exact List.mem_singleton_self _
    case id => rfl

/-! ### The cure -/

theorem asks_of_reported {s : Selection} {code id : String} (h : ∃ f ∈ detectAll s code, f.id = id) :
    asks (detectAll s code) id = true := by
  obtain ⟨f, hf, hid⟩ := h
  exact asks_iff.mpr ⟨f, hf, (Detect.reported_of_mem_detectAll hf).fixed, hid⟩

/-- **Repairs by pattern cure what they are for.** If tabs, headers without a colon, symbols without an import or a main
function that is never run are reported about a code, the code after the repairs that the report asks for has no
finding of that kind, whichever detectors made the report and whichever look at the repaired code. -/
theorem apply_cures {s : Selection} {code id : String} (hid : id ∈ cured) (h : ∃ f ∈ detectAll s code, f.id = id)
    (s' : Selection) : ∀ f ∈ detectAll s' (apply code (detectAll s code) none).code, f.id ≠ id :=
  id_ne_of_asks hid rfl (asks_of_reported h) code s'

/-- A main function that is never run, and that uses the event loop without an import. -/
def idleMain : String := "async def main():\n    await asyncio.sleep(1)\n"

theorem apply_cures_idleMain :
    ((∃ f ∈ detectAll {} idleMain, f.id = "async-main-not-run") ∧
      ∀ f ∈ detectAll {} (apply idleMain (detectAll {} idleMain) none).code, f.id ≠ "async-main-not-run") ∧
    (∃ f ∈ detectAll {} idleMain, f.id = "missing-import") ∧
      ∀ f ∈ detectAll {} (apply idleMain (detectAll {} idleMain) none).code, f.id ≠ "missing-import" := by
  have hreported : ∀ {id : String}, (∃ f ∈ Detect.events idleMain, f.id = id) →
      ∃ f ∈ detectAll {} idleMain, f.id = id :=
    fun ⟨f, hf, hid⟩ => ⟨f, List.mem_flatMap.mpr ⟨.events, by decide, hf⟩, hid⟩
  have hmain : ∃ f ∈ Detect.events idleMain, f.id = "async-main-not-run" := by decide
  have hloop : ∃ f ∈ Detect.events idleMain, f.id = "missing-import" := by decide
  exact ⟨⟨hreported hmain, apply_cures (by decide) (hreported hmain) {}⟩, hreported hloop,
    apply_cures (by decide) (hreported hloop) {}⟩

end PatternFix

end AgentFlow
