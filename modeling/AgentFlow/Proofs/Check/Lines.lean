import AgentFlow.Check.Detect
import AgentFlow.Proofs.Bracket.Clean
import AgentFlow.Proofs.Check.Calls
import AgentFlow.Proofs.Check.Traits
import AgentFlow.Proofs.Text.Latin

/-!
# Lines that pass the checks of form

The detector of form looks at lines by how they start: at a fence, at a header without a colon, at imports and
definitions. A line that starts with another word, or with a word that no blank follows, is `Idle`: the only thing that
the detector can find in it is a call. `form_passes_iff` says what it means for a code to pass, in terms of its lines.
-/

namespace AgentFlow

namespace Symbol

/-- The names whose imports belong to the form of code. -/
def formNames : List String := (known.filter fun s => s.category == .form).map (·.name)

/-- The characters of these names. -/
def formChars : List (List Char) :=
  [['L', 'l', 'm', 'A', 'g', 'e', 'n', 't'],
   ['c', 'r', 'e', 'a', 't', 'e', '_', 'r', 'e', 'a', 'c', 't', '_', 'a', 'g', 'e', 'n', 't'],
   ['f', 'u', 'n', 'c', 't', 'i', 'o', 'n', '_', 't', 'o', 'o', 'l']]

theorem toList_mem_formChars {name : String} (h : name ∈ formNames) : name.toList ∈ formChars := by
  have hchars : formNames.map String.toList = formChars := by decide
  exact hchars ▸ List.mem_map_of_mem h

theorem isName_of_mem_formNames {name : String} (h : name ∈ formNames) : IsName name.toList := by
  have hall : formChars.all (fun n => !n.isEmpty && n.all isNameChar) = true := by decide
  obtain ⟨hne, hchars⟩ := Bool.and_eq_true_iff.mp (List.all_eq_true.mp hall _ (toList_mem_formChars h))
  exact ⟨by simpa using hne, List.all_eq_true.mp hchars⟩

end Symbol

namespace Detect

open Text AgentFlow.Symbol

/-! ### Idle lines -/

/-- A basic Latin letter or digit, or an underscore. -/
def isLetter (c : Char) : Bool := isBasicAlnum c || c = '_'

/-- The words at the start of a line that the checks of form go by, if a blank follows. -/
def leadWords : List String := ["async", "def", "class", "from", "import"]

/-- The line starts with a word that no blank follows, or with another word than those that the checks of form go by,
and neither with a backquote nor with a number sign. -/
def Idle (cs : List Char) : Prop :=
  ∃ word c rest, cs = word ++ c :: rest ∧ (∀ d ∈ word, isLetter d = true) ∧ isLetter c = false ∧ c ≠ '`' ∧ c ≠ '#' ∧
    (isBlank c = false ∨ word ≠ [] ∧ word ∉ leadWords.map String.toList)

/-- The text settles that a line that starts with it is idle. -/
def idles (cs : List Char) : Bool :=
  match cs.dropWhile isLetter with
  | [] => false
  | c :: _ =>
    c != '`' && c != '#'
      && (!isBlank c || (!(cs.takeWhile isLetter).isEmpty
        && !(leadWords.map String.toList).contains (cs.takeWhile isLetter)))

/-- A basic Latin letter is a letter, a digit or the underscore to every check that asks. -/
theorem latin_of_isLetter {c : Char} (h : isLetter c = true) :
    (isAlphabetic c || isDecimalDigit c) = true ∨ c = '_' := by
  rcases Bool.or_eq_true_iff.mp h with h | h
  · have hsmall := toNat_of_isBasicAlnum h
    refine .inl ?_
    rw [isAlphabetic, isDecimalDigit, if_pos hsmall, if_pos hsmall]
    exact h
  · exact .inr (of_decide_eq_true h)

theorem isNameChar_of_isLetter {c : Char} (h : isLetter c = true) : isNameChar c = true := by
  rcases latin_of_isLetter h with h | rfl
  · rw [isNameChar, isAlphanumeric, h, Bool.true_or, Bool.true_or, Bool.true_or]
  · decide

theorem isWordChar_of_isLetter {c : Char} (h : isLetter c = true) : isWordChar c = true := by
  rcases latin_of_isLetter h with h | rfl
  · rw [isWordChar, h, Bool.true_or, Bool.true_or]
  · decide

theorem isLetter_of_isBlank {c : Char} (h : isBlank c = true) : isLetter c = false := eq_false_of_isBlank (by decide) h

/-- What a beginning settles, the line itself has. -/
theorem idle_of_idles {cs : List Char} (h : idles cs = true) : Idle cs := by
  unfold idles at h
  -- the first character that is no letter decides
  cases hdrop : cs.dropWhile isLetter with
  | nil =>
    rw [hdrop] at h
    cases h
  | cons c rest =>
    rw [hdrop] at h
    have hsplit : cs = cs.takeWhile isLetter ++ c :: rest := by rw [← hdrop, List.takeWhile_append_dropWhile]
    have hc : isLetter c = false := by
      have hhead := List.head?_dropWhile_not isLetter cs
      rw [hdrop] at hhead
      simpa using hhead
    obtain ⟨⟨hfence, hsharp⟩, hlead⟩ : (c ≠ '`' ∧ c ≠ '#') ∧ (isBlank c = false ∨ cs.takeWhile isLetter ≠ [] ∧
        cs.takeWhile isLetter ∉ leadWords.map String.toList) := by
      simpa only [Bool.and_eq_true, bne_iff_ne, Bool.or_eq_true, Bool.not_eq_true', List.isEmpty_eq_false_iff,
        List.contains_eq_mem, decide_eq_false_iff_not] using h
    exact ⟨_, c, rest, hsplit, fun d hd => List.mem_takeWhile_imp hd, hc, hfence, hsharp, hlead⟩

theorem Idle.append {cs : List Char} (h : Idle cs) (more : List Char) : Idle (cs ++ more) := by
  obtain ⟨word, c, rest, rfl, hword⟩ := h
  exact ⟨word, c, rest ++ more, by rw [List.append_assoc, List.cons_append], hword⟩

/-- Letters before a text that starts with no letter and no blank. -/
theorem idle_word {word : List Char} {c : Char} (hword : ∀ d ∈ word, isLetter d = true)
    (hc : isLetter c = false ∧ c ≠ '`' ∧ c ≠ '#' ∧ isBlank c = false) (rest : List Char) : Idle (word ++ c :: rest) :=
  ⟨word, c, rest, rfl, hword, hc.1, hc.2.1, hc.2.2.1, .inl hc.2.2.2⟩

/-- An idle line starts neither with a blank nor with one of the two marks. -/
theorem Idle.head {cs : List Char} (h : Idle cs) :
    ∃ c rest, cs = c :: rest ∧ isBlank c = false ∧ c ≠ '`' ∧ c ≠ '#' := by
  obtain ⟨word, c, rest, rfl, hword, -, hfence, hsharp, hlead⟩ := h
  cases word with
  -- no word at all, so the character after it comes first
  | nil => exact ⟨c, rest, rfl, hlead.resolve_right fun hno => hno.1 rfl, hfence, hsharp⟩
  | cons d word =>
    -- the first letter of the word
    have hd := hword d List.mem_cons_self
    refine ⟨d, word ++ c :: rest, rfl, ?_, ?_, ?_⟩
    · rw [← Bool.not_eq_true]
      intro hblank
      rw [isLetter_of_isBlank hblank] at hd
      cases hd
    · rintro rfl
      exact absurd hd (by decide)
    · rintro rfl
      exact absurd hd (by decide)

theorem Idle.trimStart_eq {cs : List Char} (h : Idle cs) : trimStart cs = cs := by
  obtain ⟨c, rest, rfl, hblank, -⟩ := h.head
  exact trimStart_of_head hblank

/-- No word that the checks go by stands at the start, with a blank after it. -/
theorem Idle.not_lead {cs : List Char} (h : Idle cs) {lead : String} (hlead : lead ∈ leadWords) {b : Char}
    (hb : isBlank b = true) : ¬ lead.toList ++ [b] <+: cs := by
  obtain ⟨word, c, rest, rfl, hword, hc, -, -, hother⟩ := h
  rintro ⟨t, ht⟩
  have hletters : leadWords.all (fun w => w.toList.all isLetter) = true := by decide
  have hlead' : ∀ d ∈ lead.toList, isLetter d = true :=
    List.all_eq_true.mp (List.all_eq_true.mp hletters lead hlead)
  -- both words end at the first character that is no letter
  have hwords := congrArg (List.takeWhile isLetter) ht
  rw [List.append_assoc, List.takeWhile_append_of_pos hlead', List.takeWhile_append_of_pos hword,
    List.singleton_append, List.takeWhile_cons_of_neg (by simp [isLetter_of_isBlank hb]),
    List.takeWhile_cons_of_neg (by simp [hc]), List.append_nil, List.append_nil] at hwords
  rw [List.append_assoc, hwords] at ht
  obtain rfl : b = c := (List.cons.inj (List.append_cancel_left ht)).1
  rcases hother with hblank | ⟨-, hnot⟩
  · rw [hb] at hblank
    cases hblank
  · exact hnot (hwords ▸ List.mem_map_of_mem hlead)

theorem Idle.startsWith_eq_false {cs : List Char} (h : Idle cs) (lead : String) (hlead : lead ∈ leadWords)
    (more : List Char) : (lead.toList ++ ' ' :: more).isPrefixOf cs = false := by
  rw [← Bool.not_eq_true, List.isPrefixOf_iff_prefix]
  intro hp
  refine h.not_lead hlead (b := ' ') (by decide) (List.IsPrefix.trans ?_ hp)
  exact ⟨more, by rw [List.append_assoc, List.singleton_append]⟩

/-- On an idle line there is nothing behind a word that the checks go by. -/
theorem Idle.afterWord?_eq_none {cs : List Char} (h : Idle cs) {lead : String} (hlead : lead ∈ leadWords) :
    Pattern.afterWord? lead cs = none := by
  unfold Pattern.afterWord?
  by_cases hs : startsWith lead cs = true
  · obtain ⟨t, rfl⟩ := List.isPrefixOf_iff_prefix.mp hs
    have hdrop : (lead.toList ++ t).drop lead.length = t := by rw [← String.length_toList, List.drop_left]
    rw [if_pos hs]
    dsimp only
    rw [hdrop]
    refine if_pos ?_
    cases t with
    | nil => rfl
    | cons b t =>
      have hb : isBlank b = false := by
        rw [← Bool.not_eq_true]
        intro hb
        exact h.not_lead hlead hb ⟨t, by rw [List.append_assoc, List.singleton_append]⟩
      rw [List.takeWhile_cons_of_neg (by simp [hb])]
      rfl
  · exact if_neg hs

/-- No colon is missing on an idle line. -/
theorem Idle.missingColon?_eq_none {l : List Char} (h : Idle (trimStart l)) : Pattern.missingColon? l = none := by
  have hasync : Pattern.afterWord? "async" (trimStart l) = none := h.afterWord?_eq_none (by decide)
  have hdef : Pattern.afterWord? "def" (trimStart l) = none := h.afterWord?_eq_none (by decide)
  have hclass : Pattern.afterWord? "class" (trimStart l) = none := h.afterWord?_eq_none (by decide)
  simp only [Pattern.missingColon?, hasync, Option.getD_none, hdef, hclass, Option.or_none]

/-- An idle line imports nothing. -/
theorem Idle.isImportLine_eq_false {cs : List Char} (h : Idle cs) : isImportLine cs = false := by
  have hfrom : startsWith "from " cs = false := h.startsWith_eq_false "from" (by decide) []
  have himport : startsWith "import " cs = false := h.startsWith_eq_false "import" (by decide) []
  rw [isImportLine, hfrom, himport, Bool.or_self]

/-- An idle line brings no name in. -/
theorem Idle.bringsIn_eq_false {l : List Char} (h : Idle (trimStart l)) (name : String) : bringsIn name l = false := by
  have hclass : startsWith ("class " ++ name) (trimStart l) = false := by
    rw [startsWith, String.toList_append]
    exact h.startsWith_eq_false "class" (by decide) name.toList
  have hdef : startsWith ("def " ++ name ++ "(") (trimStart l) = false := by
    rw [startsWith, String.toList_append, String.toList_append, List.append_assoc]
    exact h.startsWith_eq_false "def" (by decide) (name.toList ++ ['('])
  simp only [bringsIn, h.isImportLine_eq_false, hclass, hdef, Bool.false_and, Bool.or_self]

/-- An idle line is neither a comment nor an import, so it uses the names that it calls. -/
theorem Idle.usedIn_eq {l : List Char} (h : Idle (trimStart l)) {name : String} (hname : IsName name.toList) :
    usedIn name l = called name.toList none l := by
  obtain ⟨c, rest, hcs, -, -, hsharp⟩ := h.head
  have hcomment : startsWith "#" (trimStart l) = false := by
    rw [hcs]
    have hne : ('#' == c) = false := beq_eq_false_iff_ne.mpr hsharp.symm
    show ('#' == c && _) = false
    rw [hne, Bool.false_and]
  simp only [usedIn, hcomment, h.isImportLine_eq_false, Bool.or_self, Bool.not_false, Bool.true_and,
    called_trimStart hname]

theorem Idle.not_fence {l : List Char} (h : Idle (trimStart l)) : startsWith Source.fence (trimStart l) = false := by
  obtain ⟨c, rest, hcs, -, hfence, -⟩ := h.head
  rw [hcs]
  have hne : ('`' == c) = false := beq_eq_false_iff_ne.mpr hfence.symm
  show ('`' == c && _) = false
  rw [hne, Bool.false_and]

/-! ### Inert lines -/

/-- A line that stays as it is when code is cleaned. -/
structure Stays (l : List Char) : Prop where
  fence : startsWith Source.fence (trimStart l) = false
  single : lines (l ++ ['\n']) = [l]
  trimmed : trimEnd l = l

/-- A line without a fence that does not end with a blank stays. -/
theorem stays_of_last {l : List Char} (hfence : startsWith Source.fence (trimStart l) = false) (hnewline : '\n' ∉ l)
    (hlast : (l.getLast?.all fun c => !isBlank c) = true) : Stays l where
  fence := hfence
  single := lines_concat_of_last hnewline hlast
  trimmed := trimEnd_of_last hlast

/-- A line that stays, and in which the detector of form can find nothing but calls. -/
structure Inert (l : List Char) : Prop extends Stays l where
  header : Pattern.missingColon? l = none
  brings : ∀ name ∈ formNames, bringsIn name l = false
  used : ∀ name ∈ formNames, usedIn name l = called name.toList none l

instance (l : List Char) : Decidable (Inert l) :=
  decidable_of_iff ((startsWith Source.fence (trimStart l) = false ∧ lines (l ++ ['\n']) = [l] ∧ trimEnd l = l) ∧
      Pattern.missingColon? l = none ∧ (∀ name ∈ formNames, bringsIn name l = false) ∧
      ∀ name ∈ formNames, usedIn name l = called name.toList none l)
    ⟨fun ⟨⟨h₁, h₂, h₃⟩, h₄, h₅, h₆⟩ => ⟨⟨h₁, h₂, h₃⟩, h₄, h₅, h₆⟩,
      fun h => ⟨⟨h.fence, h.single, h.trimmed⟩, h.header, h.brings, h.used⟩⟩

/-- An idle line is inert behind any blanks, unless it ends with one. -/
theorem inert_of_idle {blanks cs : List Char} (hblanks : ∀ c ∈ blanks, isBlank c = true) (h : Idle cs)
    (hnewline : '\n' ∉ blanks ++ cs) (hlast : (cs.getLast?.all fun c => !isBlank c) = true) :
    Inert (blanks ++ cs) := by
  have hstart : trimStart (blanks ++ cs) = cs := (trimStart_blanks_append hblanks).trans h.trimStart_eq
  have hidle : Idle (trimStart (blanks ++ cs)) := by rwa [hstart]
  obtain ⟨c, rest, hcs, -⟩ := h.head
  have hend : (blanks ++ cs).getLast? = cs.getLast? := by
    rw [List.getLast?_append, hcs, List.getLast?_eq_some_getLast (List.cons_ne_nil c rest)]
    rfl
  exact ⟨stays_of_last hidle.not_fence hnewline (hend ▸ hlast), hidle.missingColon?_eq_none,
    fun name _ => hidle.bringsIn_eq_false name, fun name hname => hidle.usedIn_eq (isName_of_mem_formNames hname)⟩

end Detect

/-! ### Clean lines -/

namespace Source

open Text

/-- The lines that cleaning leaves, before it cuts at the ends. -/
def kept (ls : List (List Char)) : List (List Char) := (ls.filter fun l => !isFence l).map trimEnd

theorem kept_append (as bs : List (List Char)) : kept (as ++ bs) = kept as ++ kept bs := by
  rw [kept, List.filter_append, List.map_append]
  rfl

/-- Blanks at the end of a line do not hide that it starts with a fence. -/
theorem startsWith_fence_of_isFence {l : List Char} (h : isFence l = true) : startsWith fence (trimStart l) = true := by
  have hfence : startsWith fence (trim l) = true := (Bool.and_eq_true_iff.mp h).1
  have hprefix : trim l <+: trimStart l := by
    rw [← List.reverse_suffix, trim, trimEnd, List.reverse_reverse]
    exact List.dropWhile_suffix _
  exact List.isPrefixOf_iff_prefix.mpr ((List.isPrefixOf_iff_prefix.mp hfence).trans hprefix)

theorem mem_kept {ls : List (List Char)} {l : List Char} :
    l ∈ kept ls ↔ ∃ k ∈ ls, isFence k = false ∧ trimEnd k = l := by
  simp only [kept, List.mem_map, List.mem_filter, Bool.not_eq_true', and_assoc]

theorem isFence_of_stays {l : List Char} (h : Detect.Stays l) : isFence l = false := by
  rw [← Bool.not_eq_true]
  intro hfence
  have hno := h.fence
  rw [startsWith_fence_of_isFence hfence] at hno
  cases hno

/-- A kept line has no carriage return at its end, so it is read back as one line. -/
theorem single_of_mem_kept {cs l : List Char} (h : l ∈ kept (lines cs)) : lines (l ++ ['\n']) = [l] := by
  obtain ⟨k, hk, -, rfl⟩ := mem_kept.mp h
  refine lines_concat_of_last (fun hmem => newline_not_mem_of_mem_lines hk ?_) (getLast?_trimEnd k)
  rw [trimEnd, List.mem_reverse] at hmem
  exact List.mem_reverse.mp ((List.dropWhile_suffix _).subset hmem)

/-- A text that starts neither with a blank nor with a fence keeps its first line. -/
theorem kept_lines_cons {c : Char} (hc : isBlank c = false ∧ c ≠ '`') (cs : List Char) :
    ∃ first rest, kept (lines (c :: cs)) = (c :: first) :: rest := by
  have hreturn : c ≠ '\r' ∧ c ≠ '\n' := by
    refine ⟨?_, ?_⟩ <;> rintro rfl <;> exact absurd hc.1 (by decide)
  -- the first line starts with the first character, which ends no line
  obtain ⟨l, ls, hl⟩ : ∃ l ls, lines (c :: cs) = (c :: l) :: ls :=
    ⟨_, _, lines_join hreturn.2 fun h => hreturn.1 h.1⟩
  have hfence : isFence (c :: l) = false := by
    rw [← Bool.not_eq_true]
    intro hfence
    have hstarts := startsWith_fence_of_isFence hfence
    rw [trimStart_of_head hc.1] at hstarts
    obtain ⟨t, ht⟩ := List.isPrefixOf_iff_prefix.mp hstarts
    exact hc.2 (List.cons.inj ht).1.symm
  -- trimming leaves the character, which is not blank
  have htrim : ∃ first, trimEnd (c :: l) = c :: first := by
    rw [← List.singleton_append, trimEnd_append]
    split_ifs
    · exact ⟨[], trimEnd_of_last (by simp [hc.1])⟩
    · exact ⟨trimEnd l, rfl⟩
  obtain ⟨first, hfirst⟩ := htrim
  exact ⟨first, kept ls, by simp [kept, hl, hfence, hfirst]⟩

/-- If neither the first line nor the last is cut away, cleaning keeps just what `kept` does. -/
theorem toList_clean {code : String} {a l : List Char} {c : Char} (hcode : code.toList = a ++ '\n' :: (l ++ ['\n']))
    (hl : Bracket.Reader.Solid l) (hhead : code.toList.head? = some c) (hc : isBlank c = false ∧ c ≠ '`') :
    (clean code).toList = unlines (kept (lines code.toList)) ∧ (clean code).toList.head? = some c := by
  have hlast : kept (lines code.toList) = kept (lines (a ++ ['\n'])) ++ [trimEnd l] := by
    rw [hcode, lines_append_newline, hl.lines, kept_append]
    simp [kept, hl.fence]
  obtain ⟨cs, hcs⟩ := List.head?_eq_some_iff.mp hhead
  obtain ⟨first, rest, hfirst⟩ := kept_lines_cons hc cs
  have hclean : cleanLines (lines code.toList) = kept (lines code.toList) := by
    show (((kept (lines code.toList)).reverse.dropWhile isTail).reverse.dropWhile List.isEmpty) = _
    rw [hlast, Bracket.Reader.dropTail_concat hl.tail, ← hlast, hcs, hfirst]
    rfl
  rw [clean, String.toList_ofList, hclean, hcs, hfirst]
  exact ⟨rfl, rfl⟩

theorem lines_unlines_kept (cs : List Char) : lines (unlines (kept (lines cs))) = kept (lines cs) :=
  lines_unlines fun _ hl => single_of_mem_kept hl

end Source

/-! ### What is found on the lines -/

/-- The check finds nothing on an empty line and does not mind the blanks before a line. -/
structure SkipsBlanks (P : List Char → Bool) : Prop where
  nil : P [] = false
  blanks : ∀ l, P (Text.trimStart l) = P l

namespace SkipsBlanks

open Text AgentFlow.Symbol

variable {P : List Char → Bool}

theorem of_trimStart {Q : List Char → Bool} (h : ∀ l, P l = Q (trimStart l)) (hnil : P [] = false) :
    SkipsBlanks P where
  nil := hnil
  blanks l := by rw [h, h, trimStart_trimStart]

theorem fence : SkipsBlanks fun l => startsWith Source.fence (trimStart l) := of_trimStart (fun _ => rfl) rfl

theorem missingColon : SkipsBlanks fun l => (Pattern.missingColon? l).isSome :=
  of_trimStart (Q := fun cs => (Pattern.missingColon? cs).isSome)
    (fun l => by simp only [Pattern.missingColon?, trimStart_trimStart]) rfl

theorem usedIn (name : String) : SkipsBlanks (usedIn name) :=
  of_trimStart (Q := fun cs => !(startsWith "#" cs || isImportLine cs) && called name.toList none cs) (fun _ => rfl) rfl

theorem bringsIn (name : String) : SkipsBlanks (bringsIn name) := by
  refine of_trimStart (Q := Symbol.bringsIn name)
    (fun l => by simp only [Symbol.bringsIn, trimStart_trimStart]) ?_
  simp [Symbol.bringsIn, isImportLine, trimStart, startsWith, String.toList_append]

theorem blanks_append (hP : SkipsBlanks P) {blanks : List Char} (h : ∀ c ∈ blanks, isBlank c = true) (l : List Char) :
    P (blanks ++ l) = P l := by
  rw [← hP.blanks, trimStart_blanks_append h, hP.blanks]

/-- Blanks before a line make no difference to what is found on it when it is trimmed. -/
theorem trimEnd_append (hP : SkipsBlanks P) {blanks : List Char} (h : ∀ c ∈ blanks, isBlank c = true) (l : List Char) :
    P (trimEnd (blanks ++ l)) = P (trimEnd l) := by
  have hnil : ∀ {cs : List Char}, (∀ c ∈ cs, isBlank c = true) → trimEnd cs = [] := by
    intro cs hcs
    rw [trimEnd, List.reverse_eq_nil_iff, List.dropWhile_eq_nil_iff]
    exact fun c hc => hcs c (List.mem_reverse.mp hc)
  rw [Text.trimEnd_append]
  split_ifs with hl
  · rw [hnil h, hnil (List.all_eq_true.mp hl)]
  · exact hP.blanks_append h _

end SkipsBlanks

/-- An inert line that is not blank stays inert when it is moved to the right. -/
theorem Detect.Inert.space {l : List Char} (h : Detect.Inert l) (hl : l.all Text.isBlank = false) :
    Detect.Inert (' ' :: l) := by
  have hspace : ∀ c ∈ [' '], Text.isBlank c = true := List.forall_mem_singleton.mpr (by decide)
  refine ⟨⟨?_, ?_, ?_⟩, ?_, ?_, ?_⟩
  · exact (SkipsBlanks.fence.blanks_append hspace l).trans h.fence
  · exact Text.lines_cons (by decide) (by simp) h.single
  · rw [← List.singleton_append, Text.trimEnd_append, hl, if_neg (by simp), h.trimmed]
  · have hheader := SkipsBlanks.missingColon.blanks_append hspace l
    rw [h.header] at hheader
    exact Option.not_isSome_iff_eq_none.mp (by rw [← List.singleton_append, hheader]; simp)
  · exact fun name hname => ((SkipsBlanks.bringsIn name).blanks_append hspace l).trans (h.brings name hname)
  · intro name hname
    have hcalled : Symbol.called name.toList none (' ' :: l) = _ :=
      Symbol.called_blanks_append (Symbol.isName_of_mem_formNames hname) hspace
    exact ((SkipsBlanks.usedIn name).blanks_append hspace l).trans ((h.used name hname).trans hcalled.symm)

namespace Source

open Text

/-- The check succeeds on a line that cleaning keeps. -/
def found (P : List Char → Bool) (cs : List Char) : Bool := (kept (lines cs)).any P

variable {P : List Char → Bool}

/-- A newline separates what is found before it from what is found after it. -/
theorem found_append_newline (a b : List Char) : found P (a ++ '\n' :: b) = (found P (a ++ ['\n']) || found P b) := by
  rw [found, lines_append_newline, kept_append, List.any_append]
  rfl

theorem kept_eq_self {ls : List (List Char)} (h : ∀ l ∈ ls, Detect.Stays l) : kept ls = ls := by
  induction ls with
  | nil => rfl
  | cons l ls ih =>
    obtain ⟨hl, hls⟩ := List.forall_mem_cons.mp h
    have hfirst : kept [l] = [l] := by simp [kept, isFence_of_stays hl, hl.trimmed]
    rw [← List.singleton_append, kept_append, hfirst, ih hls]

/-- Lines that stay are kept, and the check sees each of them. -/
theorem found_unlines {ls : List (List Char)} (h : ∀ l ∈ ls, Detect.Stays l) : found P (unlines ls) = ls.any P := by
  rw [found, lines_unlines fun l hl => (h l hl).single, kept_eq_self h]

/-- An empty line at the start makes no difference. -/
theorem found_newline (hP : SkipsBlanks P) (cs : List Char) : found P ('\n' :: cs) = found P cs := by
  have hline : found P ['\n'] = false := by
    show (P [] || false) = false
    rw [hP.nil, Bool.or_self]
  rw [← List.nil_append ('\n' :: cs), found_append_newline, List.nil_append, hline, Bool.false_or]

/-- A blank at the start makes no difference. -/
theorem found_blank (hP : SkipsBlanks P) (cs : List Char) : found P (' ' :: cs) = found P cs := by
  -- a blank alone is a line of its own; otherwise it joins the first line
  by_cases hcs : cs = []
  · subst hcs
    show (P (trimEnd [' ']) || false) = false
    rw [show trimEnd [' '] = [] from rfl, hP.nil, Bool.or_self]
  · obtain ⟨l, ls, hl⟩ := List.exists_cons_of_ne_nil (lines_ne_nil hcs)
    have hspace : ∀ c ∈ [' '], isBlank c = true := List.forall_mem_singleton.mpr (by decide)
    have hfence : isFence (' ' :: l) = isFence l := by
      rw [isFence, trim, ← List.singleton_append, trimStart_blanks_append hspace]
      rfl
    have htrim : P (trimEnd (' ' :: l)) = P (trimEnd l) := hP.trimEnd_append hspace l
    rw [found, found, lines_cons (by decide) (by simp) hl, hl, kept, kept, List.filter_cons, List.filter_cons, hfence]
    split_ifs
    · rw [List.map_cons, List.map_cons, List.any_cons, List.any_cons, htrim]
    · rfl

end Source

/-! ### Codes that pass -/

namespace Detect

open Text AgentFlow.Symbol

theorem lineWhere_eq_none {p : List Char → Bool} {ls : List (List Char)} :
    lineWhere p ls = none ↔ ∀ l ∈ ls, p l = false := by
  rw [lineWhere, Option.map_eq_none_iff, List.findIdx?_eq_none_iff]

theorem at?_passes {line : Option Nat} {g : Finding} (hg : g.severity = .error) :
    (∀ f ∈ at? line g, f.severity ≠ .error) ↔ line = none := by
  cases line with
  | none => simp [at?]
  | some n => simp [at?, hg]

/-- No header is reported exactly if every line has its colon. -/
theorem missingColons_pass {n : Nat} {ls : List (List Char)} :
    (∀ f ∈ missingColons n ls, f.severity ≠ .error) ↔ ∀ l ∈ ls, Pattern.missingColon? l = none := by
  induction ls generalizing n with
  | nil => simp [missingColons]
  | cons l ls ih =>
    rw [missingColons, List.forall_mem_append, ih, List.forall_mem_cons]
    refine and_congr_left fun _ => ?_
    cases Pattern.missingColon? l with
    | none => simp
    | some name => simp

/-- No import is reported exactly if each name in use is brought in on some line. -/
theorem missingImports_pass {ls : List (List Char)} :
    (∀ f ∈ missingImports .form ls, f.severity ≠ .error) ↔
      ∀ name ∈ formNames, (∃ l ∈ ls, usedIn name l = true) → ∃ l ∈ ls, bringsIn name l = true := by
  constructor
  · rintro h name hname ⟨l, hl, hused⟩
    obtain ⟨s, hs, rfl⟩ := List.mem_map.mp hname
    -- a name in use that no line brings in would be reported
    by_contra hnone
    have himported : imported s.name ls = false := by
      rw [imported, List.any_eq_false]
      exact fun l hl hbrings => hnone ⟨l, hl, hbrings⟩
    cases hat : usedAt s.name ls with
    | none =>
      have hno := lineWhere_eq_none.mp hat l hl
      rw [hused] at hno
      cases hno
    | some n =>
      -- the first line that uses it is where it is reported
      have hreported : ∃ f ∈ missingImports .form ls, f.severity = .error := by
        refine ⟨?found, List.mem_filterMap.mpr ⟨s, hs, ?reported⟩, ?error⟩
        case reported =>
          rw [hat, himported]
          rfl
        case error => rfl
      obtain ⟨f, hf, herror⟩ := hreported
      exact h f hf herror
  · intro h f hf
    obtain ⟨s, hs, hf⟩ := List.mem_filterMap.mp hf
    cases hat : usedAt s.name ls with
    | none =>
      rw [hat] at hf
      cases hf
    | some n =>
      obtain ⟨l, hl, hused⟩ := exists_of_lineWhere hat
      have himported : imported s.name ls = true :=
        List.any_eq_true.mpr (h s.name (List.mem_map_of_mem hs) ⟨l, hl, hused⟩)
      rw [hat, himported] at hf
      cases hf

/-- Code passes the checks of form exactly if it is not empty, no line starts with a fence, every header has its colon,
its brackets are balanced and every name of a framework that it uses is brought in. -/
theorem form_passes_iff {code : String} :
    (∀ f ∈ form code, f.severity ≠ .error) ↔
      code.toList.all isBlank = false ∧
      (∀ l ∈ lines code.toList, startsWith Source.fence (trimStart l) = false) ∧
      (∀ l ∈ lines code.toList, Pattern.missingColon? l = none) ∧
      Bracket.problem? code.toList = none ∧
      ∀ name ∈ formNames, (∃ l ∈ lines code.toList, usedIn name l = true) →
        ∃ l ∈ lines code.toList, bringsIn name l = true := by
  unfold form
  dsimp only
  -- an empty text is reported and nothing else is checked
  by_cases hblank : code.toList.all isBlank = true
  · rw [if_pos hblank]
    simp [hblank]
  · have hsome : code.toList.all isBlank = false := by simpa using hblank
    rw [if_neg hblank]
    simp only [List.forall_mem_append, missingColons_pass, missingImports_pass, and_assoc]
    rw [at?_passes rfl, lineWhere_eq_none]
    constructor
    · rintro ⟨hfence, hcolon, -, hbrackets, himports⟩
      refine ⟨hsome, hfence, hcolon, ?_, himports⟩
      cases hp : Bracket.problem? code.toList with
      | none => rfl
      | some p =>
        rw [hp] at hbrackets
        exact absurd rfl (hbrackets _ (List.mem_singleton.mpr rfl))
    · rintro ⟨-, hfence, hcolon, hbrackets, himports⟩
      refine ⟨hfence, hcolon, ?_, ?_, himports⟩
      · -- tabs are only warned of
        intro f hf
        cases hline : lineWhere (startsWith "\t") (lines code.toList) with
        | none =>
          rw [hline] at hf
          cases hf
        | some n =>
          rw [hline] at hf
          rw [List.mem_singleton.mp hf]
          simp
      · rw [hbrackets]
        simp

end Detect

end AgentFlow
