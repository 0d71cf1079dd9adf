import AgentFlow.Proofs.Check.Lines

/-!
# Code that is edited by lines

A repair takes code apart into lines, changes some of them and joins them again. The joined text has these lines but
for blanks at their ends, since a carriage return before a newline is no part of a line. `Edited` says what can become
of the lines: each is new or cut from one that was there, and each that was there and is not blank is still there, at
most cut. A check that tells apart what matters in a line from the blanks after it carries over from the lines before
to those after.
-/

namespace AgentFlow

namespace Text

/-! ### Blanks at the end of a line -/

/-- `k` is `l` without some blanks at its end. -/
def CutFrom (k l : List Char) : Prop := ∃ blanks, (∀ c ∈ blanks, isBlank c = true) ∧ l = k ++ blanks

theorem CutFrom.refl (l : List Char) : CutFrom l l := ⟨[], by simp, by simp⟩

theorem CutFrom.cons {k l : List Char} (h : CutFrom k l) (c : Char) : CutFrom (c :: k) (c :: l) := by
  obtain ⟨blanks, hblanks, rfl⟩ := h
  exact ⟨blanks, hblanks, rfl⟩

theorem cutFrom_trimEnd (l : List Char) : CutFrom (trimEnd l) l := by
  refine ⟨(l.reverse.takeWhile isBlank).reverse, fun c hc => ?_, ?_⟩
  · exact List.mem_takeWhile_imp (List.mem_reverse.mp hc)
  · rw [trimEnd, ← List.reverse_append, List.takeWhile_append_dropWhile, List.reverse_reverse]

/-- Nothing can be cut from a line that does not end with a blank. -/
theorem CutFrom.eq_of_trimEnd {k l : List Char} (h : CutFrom k l) (hl : trimEnd l = l) : k = l := by
  obtain ⟨blanks, hblanks, rfl⟩ := h
  rw [trimEnd_append, if_pos (List.all_eq_true.mpr hblanks)] at hl
  obtain ⟨more, -, hk⟩ := cutFrom_trimEnd k
  have hlength := congrArg List.length hk
  rw [hl, List.length_append, List.length_append] at hlength
  obtain rfl : blanks = [] := List.eq_nil_of_length_eq_zero (by omega)
  rw [List.append_nil]

/-! ### What becomes of lines -/

/-- What becomes of lines that are edited. -/
structure Edited (new before after : List (List Char)) : Prop where
  /-- A line is new, or it was there. -/
  origin : ∀ l ∈ after, l ∈ new ∨ ∃ k ∈ before, CutFrom l k
  /-- A line that is not blank stays. -/
  kept : ∀ k ∈ before, (∀ c ∈ k, isBlank c = true) ∨ ∃ l ∈ after, CutFrom l k

/-- What the check finds on a cut line, it finds on the whole line. -/
def FoundUncut (P : List Char → Bool) : Prop := ∀ ⦃k l : List Char⦄, CutFrom k l → P k = true → P l = true

/-- What the check finds on a line, it finds on the line when it is cut; on a blank line it finds nothing. -/
structure FoundCut (P : List Char → Bool) : Prop where
  blank : ∀ ⦃l : List Char⦄, (∀ c ∈ l, isBlank c = true) → P l = false
  cut : ∀ ⦃k l : List Char⦄, CutFrom k l → P l = true → P k = true

/-- What is not found on a line is not found when it is cut. -/
theorem FoundUncut.eq_false {P : List Char → Bool} (hP : FoundUncut P) {k l : List Char} (h : CutFrom k l)
    (hl : P l = false) : P k = false := by
  rw [← Bool.not_eq_true] at hl ⊢
  exact fun hk => hl (hP h hk)

namespace Edited

variable {new before after : List (List Char)} {P : List Char → Bool}

theorem append {before' after' : List (List Char)} (h : Edited new before after) (h' : Edited new before' after') :
    Edited new (before ++ before') (after ++ after') where
  origin l hl := by
    rcases List.mem_append.mp hl with hl | hl
    · exact (h.origin l hl).imp_right fun ⟨k, hk, hcut⟩ => ⟨k, List.mem_append_left _ hk, hcut⟩
    · exact (h'.origin l hl).imp_right fun ⟨k, hk, hcut⟩ => ⟨k, List.mem_append_right _ hk, hcut⟩
  kept k hk := by
    rcases List.mem_append.mp hk with hk | hk
    · exact (h.kept k hk).imp_right fun ⟨l, hl, hcut⟩ => ⟨l, List.mem_append_left _ hl, hcut⟩
    · exact (h'.kept k hk).imp_right fun ⟨l, hl, hcut⟩ => ⟨l, List.mem_append_right _ hl, hcut⟩

theorem mono {new' : List (List Char)} (h : Edited new before after) (hnew : new ⊆ new') :
    Edited new' before after where
  origin l hl := (h.origin l hl).imp_left fun hmem => hnew hmem
  kept := h.kept

theorem refl (new ls : List (List Char)) : Edited new ls ls where
  origin l hl := .inr ⟨l, hl, .refl l⟩
  kept l hl := .inr ⟨l, hl, .refl l⟩

theorem new_lines (ls : List (List Char)) : Edited ls [] ls where
  origin _ hl := .inl hl
  kept _ hk := absurd hk List.not_mem_nil

/-- A line that was put between others, and that cannot be cut, is new and stays as it is. -/
theorem insert {a b : List (List Char)} {line : List Char} (h : Edited new (a ++ [line] ++ b) after)
    (hline : trimEnd line = line) (hne : line ≠ []) : Edited (line :: new) (a ++ b) after ∧ line ∈ after := by
  refine ⟨⟨fun l hl => ?_, fun k hk => ?_⟩, ?_⟩
  · rcases h.origin l hl with hnew | ⟨k, hk, hcut⟩
    · exact .inl (List.mem_cons_of_mem _ hnew)
    · simp only [List.append_assoc, List.mem_append, List.mem_singleton] at hk
      rcases hk with hk | rfl | hk
      · exact .inr ⟨k, List.mem_append_left _ hk, hcut⟩
      · exact .inl (hcut.eq_of_trimEnd hline ▸ List.mem_cons_self)
      · exact .inr ⟨k, List.mem_append_right _ hk, hcut⟩
  · refine h.kept k ?_
    rw [List.append_assoc]
    rcases List.mem_append.mp hk with hk | hk
    · exact List.mem_append_left _ hk
    · exact List.mem_append_right _ (List.mem_append_right _ hk)
  · -- the line is not blank, so it was not lost
    rcases h.kept line (by simp) with hblank | ⟨l, hl, hcut⟩
    · refine absurd ?_ hne
      rw [← hline, trimEnd, List.reverse_eq_nil_iff, List.dropWhile_eq_nil_iff]
      exact fun c hc => hblank c (List.mem_reverse.mp hc)
    · exact hcut.eq_of_trimEnd hline ▸ hl

/-- What is found on no line before and on no new line is found on no line after. -/
theorem absent (h : Edited new before after) (hP : FoundUncut P) (hnew : ∀ l ∈ new, P l = false)
    (hbefore : ∀ l ∈ before, P l = false) : ∀ l ∈ after, P l = false := by
  intro l hl
  rcases h.origin l hl with hmem | ⟨k, hk, hcut⟩
  · exact hnew l hmem
  · exact hP.eq_false hcut (hbefore k hk)

/-- What is found on a line before is found on a line after. -/
theorem present (h : Edited new before after) (hP : FoundCut P) (hbefore : ∃ l ∈ before, P l = true) :
    ∃ l ∈ after, P l = true := by
  obtain ⟨k, hk, hfound⟩ := hbefore
  rcases h.kept k hk with hblank | ⟨l, hl, hcut⟩
  · rw [hP.blank hblank] at hfound
    cases hfound
  · exact ⟨l, hl, hP.cut hcut hfound⟩

end Edited

/-! ### Joining lines -/

/-- A line that is joined and taken apart comes back, perhaps without a carriage return at its end. -/
theorem exists_lines_concat {l : List Char} (hl : '\n' ∉ l) : ∃ k, lines (l ++ ['\n']) = [k] ∧ CutFrom k l := by
  induction l with
  | nil => exact ⟨[], rfl, .refl []⟩
  | cons c l ih =>
    obtain ⟨hc, htail⟩ : c ≠ '\n' ∧ '\n' ∉ l := by simpa [eq_comm] using hl
    -- a carriage return at the very end belongs to the newline
    by_cases hreturn : c = '\r' ∧ l = []
    · obtain ⟨rfl, rfl⟩ := hreturn
      exact ⟨[], rfl, ['\r'], List.forall_mem_singleton.mpr (by decide), rfl⟩
    · obtain ⟨k, hk, hcut⟩ := ih htail
      refine ⟨c :: k, lines_cons hc ?_ hk, hcut.cons c⟩
      rintro ⟨rfl, hhead⟩
      cases l with
      | nil => exact hreturn ⟨rfl, rfl⟩
      | cons d l =>
        obtain rfl : d = '\n' := by simpa using hhead
        exact htail List.mem_cons_self

/-- Lines that are joined come back, at most cut. -/
theorem edited_unlines {ls : List (List Char)} (h : ∀ l ∈ ls, '\n' ∉ l) : Edited [] ls (lines (unlines ls)) := by
  induction ls with
  | nil => exact .refl [] []
  | cons l ls ih =>
    obtain ⟨hl, hls⟩ := List.forall_mem_cons.mp h
    obtain ⟨k, hk, hcut⟩ := exists_lines_concat hl
    have hunlines : unlines (l :: ls) = l ++ '\n' :: unlines ls := by simp [unlines, List.flatMap_cons]
    have hline : Edited [] [l] [k] :=
      ⟨by simpa using hcut, fun _ hmem => .inr ⟨k, List.mem_singleton_self k, List.mem_singleton.mp hmem ▸ hcut⟩⟩
    rw [hunlines, lines_append_newline, hk]
    exact hline.append (ih hls)

/-! ### Lines as parts of the text -/

theorem prefix_of_lines_eq_cons {cs l : List Char} {ls : List (List Char)} (h : lines cs = l :: ls) : l <+: cs := by
  fun_induction lines cs generalizing l ls with
  | case1 => cases h
  | case2 cs _ => exact (List.cons.inj h).1 ▸ List.nil_prefix
  | case3 cs _ => exact (List.cons.inj h).1 ▸ List.nil_prefix
  | case4 c cs _ _ _ _ => exact (List.cons.inj h).1 ▸ (List.prefix_cons_inj c).mpr List.nil_prefix
  | case5 c cs _ _ k ks hk ih => exact (List.cons.inj h).1 ▸ (List.prefix_cons_inj c).mpr (ih hk)

/-- A line is part of the text. -/
theorem infix_of_mem_lines {cs l : List Char} (h : l ∈ lines cs) : l <:+: cs := by
  fun_induction lines cs generalizing l with
  | case1 => cases h
  | case2 cs ih =>
    rcases List.mem_cons.mp h with rfl | h
    · exact List.nil_infix
    · exact (ih h).trans (List.suffix_cons _ _).isInfix
  | case3 cs ih =>
    rcases List.mem_cons.mp h with rfl | h
    · exact List.nil_infix
    · exact (ih h).trans ((List.suffix_cons _ _).trans (List.suffix_cons _ _)).isInfix
  | case4 c cs _ _ _ _ =>
    obtain rfl := List.mem_singleton.mp h
    exact ((List.prefix_cons_inj c).mpr List.nil_prefix).isInfix
  | case5 c cs _ _ k ks hk ih =>
    rcases List.mem_cons.mp h with rfl | h
    · exact ((List.prefix_cons_inj c).mpr (prefix_of_lines_eq_cons hk)).isInfix
    · exact (ih (hk ▸ List.mem_cons_of_mem _ h)).trans (List.suffix_cons _ _).isInfix

/-- To occur is to stand somewhere. -/
theorem occurs_iff {fragment cs : List Char} : occurs fragment cs = true ↔ fragment <:+: cs := by
  induction cs with
  | nil => rw [occurs, List.isEmpty_iff, List.infix_nil]
  | cons c cs ih => rw [occurs, Bool.or_eq_true, List.isPrefixOf_iff_prefix, ih, List.infix_cons_iff]

/-- What a line contains, the text contains. -/
theorem contains_of_mem_lines {fragment : String} {cs l : List Char} (hl : l ∈ lines cs)
    (h : contains fragment l = true) : contains fragment cs = true :=
  occurs_iff.mpr ((occurs_iff.mp h).trans (infix_of_mem_lines hl))

theorem isBlank_of_mem_lines {cs l : List Char} (h : ∀ c ∈ cs, isBlank c = true) (hl : l ∈ lines cs) :
    ∀ c ∈ l, isBlank c = true := fun c hc => h c ((infix_of_mem_lines hl).subset hc)

/-! ### Blanks at the end of the text -/

/-- Blanks after a text that ends in its last line lengthen that line and add blank ones. -/
theorem lines_append_blanks {q blanks : List Char} (hq : '\n' ∉ q) (hne : q ≠ [])
    (hblanks : ∀ c ∈ blanks, isBlank c = true) (hlast : (q.getLast?.all fun c => !isBlank c) = true) :
    ∃ l ls, lines (q ++ blanks) = l :: ls ∧ CutFrom q l ∧ ∀ k ∈ ls, ∀ c ∈ k, isBlank c = true := by
  induction q with
  | nil => exact absurd rfl hne
  | cons c q ih =>
    obtain ⟨hc, htail⟩ : c ≠ '\n' ∧ '\n' ∉ q := by simpa [eq_comm] using hq
    -- the last character of the line: blanks join it up to the first newline among them
    by_cases hnil : q = []
    · subst hnil
      have hreturn : c ≠ '\r' := by
        rintro rfl
        exact absurd hlast (by decide)
      have hblank : ∀ k ∈ lines blanks, ∀ c ∈ k, isBlank c = true := fun k hk => isBlank_of_mem_lines hblanks hk
      refine ⟨_, _, lines_join hc fun h => hreturn h.1, ⟨(lines blanks).headD [], fun d hd => ?_, rfl⟩, fun k hk => ?_⟩
      · obtain ⟨k, hk, hd⟩ := exists_of_mem_headD hd
        exact hblank k hk d hd
      · exact hblank k (List.mem_of_mem_tail hk)
    · rw [List.getLast?_cons_of_ne_nil hnil] at hlast
      obtain ⟨l, ls, hl, hcut, hls⟩ := ih htail hnil hlast
      refine ⟨c :: l, ls, lines_cons hc ?_ hl, hcut.cons c, hls⟩
      rintro ⟨-, hhead⟩
      obtain ⟨d, q, rfl⟩ := List.exists_cons_of_ne_nil hnil
      obtain rfl : d = '\n' := by simpa using hhead
      exact htail List.mem_cons_self

/-- The last line of a text stands after its last newline. -/
theorem exists_last_line (cs : List Char) :
    ∃ q, '\n' ∉ q ∧ (cs = q ∨ ∃ a, cs = a ++ '\n' :: q) := by
  induction cs with
  | nil => exact ⟨[], by simp, .inl rfl⟩
  | cons c cs ih =>
    obtain ⟨q, hq, rfl | ⟨a, rfl⟩⟩ := ih
    · by_cases hc : c = '\n'
      · exact ⟨cs, hq, .inr ⟨[], by rw [hc]; rfl⟩⟩
      · exact ⟨c :: cs, by simp [hq, Ne.symm hc], .inl rfl⟩
    · exact ⟨q, hq, .inr ⟨c :: a, rfl⟩⟩

/-- A text whose blanks at the end give way to one newline keeps its lines. -/
theorem edited_trimEnd (cs : List Char) : Edited [[]] (lines cs) (lines (trimEnd cs ++ ['\n'])) := by
  obtain ⟨blanks, hblanks, hcs⟩ := cutFrom_trimEnd cs
  have hlast := getLast?_trimEnd cs
  -- a blank text has blank lines only
  by_cases hnil : trimEnd cs = []
  · have hcs' : cs = blanks := by rwa [hnil, List.nil_append] at hcs
    rw [hnil]
    refine ⟨fun l hl => .inl hl, fun k hk => .inl ?_⟩
    exact isBlank_of_mem_lines (hcs'.symm ▸ hblanks) hk
  obtain ⟨q, hq, hsplit⟩ := exists_last_line (trimEnd cs)
  -- the last line is not empty, since the text does not end with a newline
  have hqne : q ≠ [] := by
    rintro rfl
    rcases hsplit with hempty | ⟨a, ha⟩
    · exact hnil hempty
    · rw [ha, List.getLast?_concat] at hlast
      exact absurd hlast (by decide)
  have hqlast : (q.getLast?.all fun c => !isBlank c) = true := by
    rcases hsplit with hall | ⟨a, ha⟩
    · rwa [hall] at hlast
    · have hend : (a ++ '\n' :: q).getLast? = q.getLast? := by
        rw [List.getLast?_append_of_ne_nil _ (by simp), List.getLast?_cons_of_ne_nil hqne]
      rwa [ha, hend] at hlast
  obtain ⟨l, ls, hl, hcut, hls⟩ := lines_append_blanks hq hqne hblanks hqlast
  have hline : lines (q ++ ['\n']) = [q] := lines_concat_of_last hq hqlast
  have hend : Edited [[]] (lines (q ++ blanks)) (lines (q ++ ['\n'])) := by
    rw [hl, hline]
    refine ⟨fun k hk => .inr ⟨l, List.mem_cons_self, List.mem_singleton.mp hk ▸ hcut⟩, fun k hk => ?_⟩
    rcases List.mem_cons.mp hk with rfl | hk
    · exact .inr ⟨q, List.mem_singleton_self q, hcut⟩
    · exact .inl (hls k hk)
  rcases hsplit with hall | ⟨a, ha⟩
  · rw [hall] at hcs ⊢
    rwa [hcs]
  · -- the lines before the last one stay as they are
    have hbefore : lines cs = lines (a ++ ['\n']) ++ lines (q ++ blanks) := by
      rw [hcs, ha, List.append_assoc, List.cons_append, lines_append_newline]
    have hafter : lines (trimEnd cs ++ ['\n']) = lines (a ++ ['\n']) ++ lines (q ++ ['\n']) := by
      rw [ha, List.append_assoc, List.cons_append, lines_append_newline]
    rw [hbefore, hafter]
    exact (Edited.refl _ _).append hend

end Text

end AgentFlow
