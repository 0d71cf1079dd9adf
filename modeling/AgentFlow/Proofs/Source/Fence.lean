import AgentFlow.Proofs.PatternFix
import AgentFlow.Proofs.Source.Projection

/-!
# Fences that are reported and fences that are removed

The detector of form reports a line that starts with a fence; cleaning removes it only if nothing but a language name
follows. A line with more behind the fence is a `LooseFence`: it is reported, the report asks for a repair, and no
repair takes it away. `fence_survives_iff` says that loose fences are all that the repairs leave.
-/

namespace AgentFlow

namespace Source

open Text

/-- The line starts with a fence. -/
def opensFence (l : List Char) : Bool := startsWith fence (trimStart l)

/-- The line starts with a fence, and more than a language name stands behind it. -/
def LooseFence (l : List Char) : Prop :=
  ∃ blanks info, (∀ c ∈ blanks, isBlank c = true) ∧ l = blanks ++ fence.toList ++ info ∧
    ∃ c ∈ trimEnd info, isFenceChar c = false

theorem trimStart_fence {blanks : List Char} (h : ∀ c ∈ blanks, isBlank c = true) (info : List Char) :
    trimStart (blanks ++ fence.toList ++ info) = fence.toList ++ info := by
  rw [List.append_assoc, trimStart_blanks_append h]
  exact trimStart_of_head (by decide)

theorem trim_fence {blanks : List Char} (h : ∀ c ∈ blanks, isBlank c = true) (info : List Char) :
    trim (blanks ++ fence.toList ++ info) = fence.toList ++ trimEnd info := by
  rw [trim, trimStart_fence h, trimEnd_append]
  split_ifs with hblank
  · have hinfo : trimEnd info = [] := by
      rw [trimEnd, List.reverse_eq_nil_iff, List.dropWhile_eq_nil_iff]
      exact fun c hc => List.all_eq_true.mp hblank c (List.mem_reverse.mp hc)
    rw [hinfo]
    decide
  · rfl

theorem opensFence_iff {l : List Char} :
    opensFence l = true ↔ ∃ blanks info, (∀ c ∈ blanks, isBlank c = true) ∧ l = blanks ++ fence.toList ++ info := by
  constructor
  · intro h
    obtain ⟨info, hinfo⟩ := List.isPrefixOf_iff_prefix.mp h
    refine ⟨l.takeWhile isBlank, info, fun c hc => List.mem_takeWhile_imp hc, ?_⟩
    rw [List.append_assoc, hinfo]
    exact List.takeWhile_append_dropWhile.symm
  · rintro ⟨blanks, info, hblanks, rfl⟩
    rw [opensFence, trimStart_fence hblanks]
    rfl

/-- A fence line that cleaning leaves is a loose fence. -/
theorem looseFence_iff {l : List Char} : LooseFence l ↔ opensFence l = true ∧ isFence l = false := by
  have hloose : ∀ {blanks info : List Char}, (∀ c ∈ blanks, isBlank c = true) →
      (isFence (blanks ++ fence.toList ++ info) = false ↔ ∃ c ∈ trimEnd info, isFenceChar c = false) := by
    intro blanks info hblanks
    have hdrop : (fence.toList ++ trimEnd info).drop 3 = trimEnd info := rfl
    have hstarts : startsWith fence (fence.toList ++ trimEnd info) = true := rfl
    rw [isFence, trim_fence hblanks, hstarts, hdrop, Bool.true_and, List.all_eq_false]
    simp only [Bool.not_eq_true]
  rw [opensFence_iff]
  constructor
  · rintro ⟨blanks, info, hblanks, rfl, hchar⟩
    exact ⟨⟨blanks, info, hblanks, rfl⟩, (hloose hblanks).mpr hchar⟩
  · rintro ⟨⟨blanks, info, hblanks, rfl⟩, hfence⟩
    exact ⟨blanks, info, hblanks, rfl, (hloose hblanks).mp hfence⟩

/-! ### Fences on lines that are cut -/

theorem foundUncut_opensFence : FoundUncut opensFence := fun _ _ h hk => foundUncut_startsWith fence h.trimStart hk

theorem foundCut_opensFence : FoundCut opensFence where
  blank l hl := by
    rw [opensFence, trimStart_of_blanks hl]
    rfl
  cut k l h hl := by
    have hpart := h.trimStart.prefix_of_last (by decide) (List.isPrefixOf_iff_prefix.mp hl)
    exact List.isPrefixOf_iff_prefix.mpr hpart

/-- A line that starts with a fence is neither empty nor a comment. -/
theorem isTail_of_opensFence {l : List Char} (h : opensFence l = true) : isTail l = false := by
  obtain ⟨blanks, info, hblanks, rfl⟩ := opensFence_iff.mp h
  refine isTail_eq_false_iff.mpr ⟨by simp [fence], fun hcomment => ?_⟩
  rw [isComment_iff, trimStart_fence hblanks] at hcomment
  exact Bool.false_ne_true hcomment

/-- A line that is kept stays, unless it is cut at the start or at the end. -/
theorem mem_cleanLines {ls : List (List Char)} {l : List Char} (hl : l ∈ kept ls) (htail : isTail l = false) :
    l ∈ cleanLines ls := by
  have hne : l.isEmpty = false := by simpa using (isTail_eq_false_iff.mp htail).1
  have hstays : ∀ {p : List Char → Bool} {ks : List (List Char)}, p l = false → l ∈ ks → l ∈ ks.dropWhile p := by
    intro p ks hp hmem
    rw [← List.takeWhile_append_dropWhile (p := p) (l := ks)] at hmem
    rcases List.mem_append.mp hmem with hmem | hmem
    · exact absurd (List.mem_takeWhile_imp hmem) (by simp [hp])
    · exact hmem
  exact hstays hne (List.mem_reverse.mpr (hstays htail (List.mem_reverse.mpr hl)))

/-- Cleaning leaves a line that starts with a fence exactly if there was a loose one. -/
theorem opensFence_clean_iff (s : String) :
    (∃ l ∈ lines (clean s).toList, opensFence l = true) ↔ ∃ l ∈ lines s.toList, LooseFence l := by
  rw [lines_clean]
  constructor
  · rintro ⟨l, hl, hopens⟩
    obtain ⟨k, hk, hfence, rfl⟩ := mem_kept.mp (cleanLines_subset_kept _ hl)
    exact ⟨k, hk, looseFence_iff.mpr ⟨foundUncut_opensFence (cutFrom_trimEnd k) hopens, hfence⟩⟩
  · rintro ⟨k, hk, hloose⟩
    obtain ⟨hopens, hfence⟩ := looseFence_iff.mp hloose
    have hcut := foundCut_opensFence.cut (cutFrom_trimEnd k) hopens
    exact ⟨trimEnd k, mem_cleanLines (mem_kept.mpr ⟨k, hk, hfence, rfl⟩) (isTail_of_opensFence hcut), hcut⟩

end Source

open Text Source

/-! ### Reports -/

namespace Detect

/-- A fence is reported about the code. -/
def ReportsFence (code : String) : Prop := ∃ f ∈ form code, f.id = "markdown-fence"

/-- The report of a fence on a line. -/
def fenceAt (line : Nat) : Finding where
  id := "markdown-fence"
  category := .form
  severity := .error
  message := "Markdown code fence in source"
  line := some line
  fixable := true

theorem fenceAt_mem_form {code : String} {n : Nat} (hcode : code.toList.all isBlank = false)
    (hline : lineWhere opensFence (lines code.toList) = some n) : fenceAt n ∈ form code := by
  simp only [form, hcode, Bool.false_eq_true, if_false]
  refine List.mem_append_left _ (List.mem_append_left _ (List.mem_append_left _ (List.mem_append_left _ ?_)))
  show fenceAt n ∈ at? (lineWhere opensFence (lines code.toList)) _
  rw [hline]
  exact List.mem_singleton_self _

theorem reportsFence_iff {code : String} : ReportsFence code ↔ ∃ l ∈ lines code.toList, opensFence l = true := by
  constructor
  · rintro ⟨f, hf, hid⟩
    simp only [form] at hf
    split at hf
    · obtain rfl := List.mem_singleton.mp hf
      exact absurd hid (by decide)
    simp only [List.mem_append] at hf
    -- the other checks of form report under other ids
    rcases hf with (((hf | hf) | hf) | hf) | hf
    · change f ∈ at? (lineWhere opensFence (lines code.toList)) _ at hf
      cases hline : lineWhere opensFence (lines code.toList) with
      | none =>
        rw [hline] at hf
        cases hf
      | some n => exact exists_of_lineWhere hline
    · obtain ⟨-, htraits, -⟩ := exists_of_mem_missingColons hf
      exact absurd ((congrArg Prod.fst htraits).symm.trans hid) (by decide)
    · exact absurd ((id_of_mem_at? hf).symm.trans hid) (by decide)
    · split at hf
      · cases hf
      · obtain rfl := List.mem_singleton.mp hf
        exact absurd (show "unbalanced-brackets" = "markdown-fence" from hid) (by decide)
    · exact absurd ((id_of_mem_missingImports hf).symm.trans hid) (by decide)
  · rintro ⟨l, hl, hopens⟩
    have hcode : code.toList.all isBlank = false := by
      obtain ⟨blanks, info, -, hline⟩ := opensFence_iff.mp hopens
      exact PatternFix.not_blank_of_mem_lines hl ⟨'`', by rw [hline]; simp [fence], by decide⟩
    cases hline : lineWhere opensFence (lines code.toList) with
    | none => exact absurd ((lineWhere_eq_none.mp hline l hl).symm.trans hopens) Bool.false_ne_true
    | some n => exact ⟨fenceAt n, fenceAt_mem_form hcode hline, rfl⟩

end Detect

/-! ### Repairs -/

namespace PatternFix

open AgentFlow.Symbol

/-- A check that minds neither the blanks at the end of a line nor the lines that are added finds something after an
edit exactly if it did before. -/
theorem found_edited_iff {P : List Char → Bool} (huncut : FoundUncut P) (hcut : FoundCut P)
    {new before after : List (List Char)} (hnew : ∀ l ∈ new, P l = false) (h : Edited new before after) :
    (∃ l ∈ after, P l = true) ↔ ∃ l ∈ before, P l = true := by
  refine ⟨fun hafter => ?_, h.present hcut⟩
  by_contra hno
  obtain ⟨l, hl, hfound⟩ := hafter
  have hbefore : ∀ k ∈ before, P k = false := fun k hk => by simpa using fun hk' => hno ⟨k, hk, hk'⟩
  exact Bool.false_ne_true ((h.absent huncut hnew hbefore l hl).symm.trans hfound)

/-- Some line of the code starts with a fence. -/
def Opens (code : String) : Prop := ∃ l ∈ lines code.toList, opensFence l = true

theorem opens_edited_iff {new : List (List Char)} (hnew : ∀ l ∈ new, opensFence l = false) {code code' : String}
    (h : Edited new (lines code.toList) (lines code'.toList)) : Opens code' ↔ Opens code :=
  found_edited_iff foundUncut_opensFence foundCut_opensFence hnew h

theorem opensFence_newRows : ∀ l ∈ newRows, opensFence l = false := forall_newRows (fun _ => rfl) rfl (by decide)

theorem opensFence_spaceTabs (l : List Char) : opensFence (spaceTabs l) = opensFence l := by
  rw [opensFence, opensFence, trimStart_spaceTabs]

/-- A colon at the end of a line makes no fence and breaks none. -/
theorem opensFence_closeHeader (l : List Char) : opensFence (closeHeader l) = opensFence l := by
  have hcolon : ∀ k : List Char, opensFence (k ++ [':']) = opensFence k := by
    intro k
    rw [opensFence, opensFence, Pattern.trimStart_colon, Bool.eq_iff_iff, startsWith, startsWith,
      List.isPrefixOf_iff_prefix, List.isPrefixOf_iff_prefix]
    constructor
    · rintro ⟨t, ht⟩
      obtain ⟨t', rfl⟩ := Pattern.exists_of_append_eq_colon ht (by decide)
      exact ⟨t', List.append_cancel_right (by rwa [List.append_assoc])⟩
    · exact fun h => h.trans (List.prefix_append _ _)
  unfold closeHeader
  split_ifs
  · rw [hcolon, Bool.eq_iff_iff]
    exact ⟨fun h => foundUncut_opensFence (cutFrom_trimEnd l) h, fun h => foundCut_opensFence.cut (cutFrom_trimEnd l) h⟩
  · rfl

/-- A change of single lines that makes or breaks no fence. -/
theorem opens_rejoin_map {change : List Char → List Char} (hnewline : ∀ {l : List Char}, '\n' ∉ l → '\n' ∉ change l)
    (hchange : ∀ l, opensFence (change l) = opensFence l) (code : String) :
    Opens (rejoin ((lines code.toList).map change)) ↔ Opens code := by
  have hlines : ∀ l ∈ (lines code.toList).map change, '\n' ∉ l := by
    simp only [List.forall_mem_map]
    exact fun l hl => hnewline (newline_not_mem_of_mem_lines hl)
  have hjoined := found_edited_iff foundUncut_opensFence foundCut_opensFence (List.forall_mem_singleton.mpr rfl)
    (edited_rejoin hlines)
  rw [Opens, hjoined]
  simp only [List.mem_map, exists_exists_and_eq_and, hchange, Opens]

section Opens

variable {findings : List Finding} {fix : PatternFix}

theorem opens_replaceTabs : Opens (replaceTabs findings fix).code ↔ Opens fix.code := by
  unfold replaceTabs
  split_ifs
  · exact opens_rejoin_map newline_spaceTabs opensFence_spaceTabs fix.code
  · rfl

theorem opens_addColons : Opens (addColons findings fix).code ↔ Opens fix.code := by
  unfold addColons
  dsimp only
  split_ifs
  · exact opens_rejoin_map newline_closeHeader opensFence_closeHeader fix.code
  · rfl

theorem opens_loopRow (code : String) : Opens (insertImport loopRow code) ↔ Opens code :=
  opens_edited_iff (fun l hl => opensFence_newRows l (loopRow_subset hl)) (edited_loopRow code).1

theorem opens_foldl_importSymbol {ss : List Symbol} (hss : ss ⊆ known) :
    Opens (ss.foldl importSymbol fix).code ↔ Opens fix.code := by
  induction ss generalizing fix with
  | nil => rfl
  | cons s ss ih =>
    obtain ⟨hs, hss⟩ := List.cons_subset.mp hss
    have hrow : ∀ l ∈ [(importRow s).toList], opensFence l = false :=
      List.forall_mem_singleton.mpr (opensFence_newRows _ (importRow_mem hs))
    exact (ih hss).trans (opens_edited_iff hrow (edited_importSymbol hs fix).1)

theorem opens_addImports : Opens (addImports findings fix).code ↔ Opens fix.code := by
  unfold addImports importLoop
  split_ifs
  · exact (opens_loopRow _).trans (opens_foldl_importSymbol (List.Subset.refl _))
  · exact opens_foldl_importSymbol (List.Subset.refl _)
  · rfl

theorem opens_addEntry : Opens (addEntry findings fix).code ↔ Opens fix.code := by
  have hentry : ∀ code, Opens (appendEntry code) ↔ Opens code := fun code =>
    opens_edited_iff (fun l hl => opensFence_newRows l (entryRows_subset hl)) (edited_appendEntry code)
  unfold addEntry
  dsimp only
  split_ifs
  · exact hentry _
  · exact (hentry _).trans (opens_loopRow _)
  · rfl

/-- What cleaning leaves of the fences are the loose ones. -/
theorem opens_removeFences (hasks : asks findings "markdown-fence" = true) :
    Opens (removeFences findings fix).code ↔ ∃ l ∈ lines fix.code.toList, LooseFence l := by
  unfold removeFences
  rw [hasks, Bool.true_and]
  split_ifs with hfences
  · exact opensFence_clean_iff fix.code
  · -- nothing is cleaned, so every line that starts with a fence is loose
    have hfree : ∀ l ∈ lines fix.code.toList, isFence l = false := by simpa [hasFences] using hfences
    refine exists_congr fun l => and_congr_right fun hl => ?_
    rw [looseFence_iff, and_iff_left (hfree l hl)]

end Opens

section Apply

variable {code : String} {findings : List Finding} {credential : Option String}

theorem putCredential_of_not_asks (h : asks findings "placeholder-credential" = false) (fix : PatternFix) :
    putCredential findings credential fix = fix := by
  unfold putCredential
  split
  · rfl
  · rw [h]
    rfl

/-- What the repairs leave of fences, unless a credential is put in: that may bring in anything. -/
theorem reportsFence_apply_iff (hasks : asks findings "markdown-fence" = true)
    (hkey : nonBlank credential = none ∨ asks findings "placeholder-credential" = false) :
    Detect.ReportsFence (apply code findings credential).code ↔ ∃ l ∈ lines code.toList, LooseFence l := by
  have hput : ∀ fix, putCredential findings credential fix = fix := fun fix =>
    hkey.elim (fun hnone => putCredential_eq hnone fix) fun hno => putCredential_of_not_asks hno fix
  rw [Detect.reportsFence_iff, apply, hput]
  exact opens_addEntry.trans (opens_addImports.trans (opens_addColons.trans (opens_replaceTabs.trans
    (opens_removeFences hasks))))

variable {f : Finding}

theorem asks_singleton_of_ne {id : String} (h : f.id ≠ id) : asks [f] id = false := by
  simp [asks, h]

theorem apply_fence (hid : f.id = "markdown-fence") :
    apply code [f] credential = removeFences [f] { code := code } := by
  have hno : ∀ {id : String}, "markdown-fence" ≠ id → asks [f] id = false := fun hne =>
    asks_singleton_of_ne (hid ▸ hne)
  have htab : asks [f] "tab-indentation" = false := hno (by decide)
  have hcolon : asks [f] "missing-colon" = false := hno (by decide)
  have himport : asks [f] "missing-import" = false := hno (by decide)
  have hmain : asks [f] "async-main-not-run" = false := hno (by decide)
  rw [apply, putCredential_of_not_asks (hno (by decide))]
  simp [replaceTabs, addColons, addImports, addEntry, htab, hcolon, himport, hmain]

theorem hasFences_removeFences (hasks : asks findings "markdown-fence" = true) (fix : PatternFix) :
    hasFences (removeFences findings fix).code = false := by
  unfold removeFences
  rw [hasks, Bool.true_and]
  split_ifs with hfences
  · exact hasFences_clean fix.code
  · simpa using hfences

end Apply

/-- **Loose fences survive their repair, and nothing else does.** A fence that is reported about a code is reported
again after its repair exactly if some line is a loose fence, and then no further repair of that kind changes the code;
the same holds whatever else is repaired along with it. A clean text has a fence reported about it exactly if some line
of the text that was cleaned is a loose fence. -/
theorem fence_survives_iff (code : String) :
    (∀ f ∈ Detect.form code, f.id = "markdown-fence" → ∀ credential : Option String,
      (Detect.ReportsFence (apply code [f] credential).code ↔ ∃ l ∈ lines code.toList, LooseFence l) ∧
      ∀ (f' : Finding) (credential' : Option String), f'.id = "markdown-fence" →
        (apply (apply code [f] credential).code [f'] credential').code = (apply code [f] credential).code) ∧
    (∀ findings, asks findings "markdown-fence" = true →
      (Detect.ReportsFence (apply code findings none).code ↔ ∃ l ∈ lines code.toList, LooseFence l)) ∧
    (Detect.ReportsFence (clean code) ↔ ∃ l ∈ lines code.toList, LooseFence l) := by
  refine ⟨fun f hf hid credential => ?_, fun findings hasks => reportsFence_apply_iff hasks (.inl rfl), ?_⟩
  · have hasks : asks [f] "markdown-fence" = true :=
      asks_iff.mpr ⟨f, List.mem_singleton_self f, (Detect.grounded_of_mem_form hf).fixed, hid⟩
    have hno : asks [f] "placeholder-credential" = false := asks_singleton_of_ne (by rw [hid]; decide)
    refine ⟨reportsFence_apply_iff hasks (.inr hno), fun f' credential' hid' => ?_⟩
    have hclean : hasFences (apply code [f] credential).code = false := by
      rw [apply_fence hid]
      exact hasFences_removeFences hasks _
    rw [apply_fence hid', removeFences, hclean, Bool.and_false]
    rfl
  · rw [Detect.reportsFence_iff]
    exact opensFence_clean_iff code

/-- A fence with a title behind the language name, and a plain one. -/
def titledFence : String := "```python title=demo\nx = 1\n```\n"

theorem looseFence_titled : ∃ l ∈ lines titledFence.toList, LooseFence l :=
  ⟨"```python title=demo".toList, by decide, [], "python title=demo".toList, by simp, by decide, ' ', by decide, by decide⟩

theorem fence_survives_iff_titledFence :
    ∃ f ∈ Detect.form titledFence, f.id = "markdown-fence" ∧
      Detect.ReportsFence (apply titledFence [f] none).code ∧ Detect.ReportsFence (clean titledFence) := by
  have hreported : Detect.ReportsFence titledFence :=
    Detect.reportsFence_iff.mpr (looseFence_titled.imp fun l hl => ⟨hl.1, (looseFence_iff.mp hl.2).1⟩)
  obtain ⟨f, hf, hid⟩ := hreported
  obtain ⟨hsurvives, -, hclean⟩ := fence_survives_iff titledFence
  exact ⟨f, hf, hid, (hsurvives f hf hid none).1.mpr looseFence_titled, hclean.mpr looseFence_titled⟩

/-- The title keeps the fence in the code, although it is reported as one that can be repaired. -/
theorem title_keeps_fence :
    Detect.fenceAt 1 ∈ Detect.form titledFence ∧
      apply titledFence [Detect.fenceAt 1] none =
        ⟨"```python title=demo\nx = 1\n", ["Removed Markdown code fences"]⟩ ∧
      Detect.fenceAt 1 ∈ Detect.form "```python title=demo\nx = 1\n" :=
  ⟨Detect.fenceAt_mem_form (by decide) (by decide), by decide, Detect.fenceAt_mem_form (by decide) (by decide)⟩

end PatternFix

end AgentFlow
