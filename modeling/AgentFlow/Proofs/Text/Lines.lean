import Mathlib.Data.List.DropRight
import Mathlib.Tactic.SplitIfs
import AgentFlow.Text.Basic

/-!
# Blanks, pieces and lines

What trimming takes away, and how a text is taken apart into pieces and lines and put together again. A line holds no
newline, and lines from which nothing is left out come back as they were (`lines_unlines`). Text that is empty or ends
with a newline is made of whole lines (`WholeLines`): what stands behind it starts a line of its own.
-/

namespace AgentFlow.Text

/-! ### Blanks -/

theorem trimEnd_concat (l : List Char) (c : Char) :
    trimEnd (l ++ [c]) = if isBlank c then trimEnd l else l ++ [c] := by
  simp only [trimEnd, List.reverse_append, List.reverse_singleton, List.singleton_append, List.dropWhile_cons]
  split <;> simp

theorem trimEnd_of_last {l : List Char} (h : (l.getLast?.all fun c => !isBlank c) = true) : trimEnd l = l := by
  rcases List.eq_nil_or_concat l with rfl | ⟨l, c, rfl⟩
  · rfl
  · rw [List.concat_eq_append] at h ⊢
    rw [List.getLast?_concat, Option.all_some] at h
    have hblank : isBlank c = false := by simpa using h
    rw [trimEnd_concat, hblank]
    rfl

theorem getLast?_trimEnd (l : List Char) : ((trimEnd l).getLast?.all fun c => !isBlank c) = true := by
  rw [trimEnd, List.getLast?_reverse]
  have hhead := List.head?_dropWhile_not isBlank l.reverse
  cases hc : (l.reverse.dropWhile isBlank).head? with
  | none => rfl
  | some c =>
    rw [hc] at hhead
    simpa using hhead

/-- Blanks are cut from the second text, and from the first if nothing is left of it. -/
theorem trimEnd_append (a b : List Char) :
    trimEnd (a ++ b) = if b.all isBlank then trimEnd a else a ++ trimEnd b := by
  have hempty : (b.reverse.dropWhile isBlank).isEmpty = b.all isBlank := by
    rw [Bool.eq_iff_iff, List.isEmpty_iff, List.dropWhile_eq_nil_iff, List.all_eq_true]
    simp
  simp only [trimEnd, List.reverse_append, List.dropWhile_append, hempty]
  split_ifs
  · rfl
  · rw [List.reverse_append, List.reverse_reverse]

theorem trimEnd_append_of_trimmed {a : List Char} (h : trimEnd a = a) (b : List Char) :
    trimEnd (a ++ b) = a ++ trimEnd b := by
  rw [trimEnd_append]
  split_ifs with hblank
  · have hnothing := trimEnd_append [] b
    rw [if_pos hblank, List.nil_append] at hnothing
    rw [h, hnothing]
    exact (List.append_nil a).symm
  · rfl

theorem trimStart_blanks_append {blanks cs : List Char} (h : ∀ c ∈ blanks, isBlank c = true) :
    trimStart (blanks ++ cs) = trimStart cs := by
  induction blanks with
  | nil => rfl
  | cons c blanks ih =>
    obtain ⟨hc, hblanks⟩ := List.forall_mem_cons.mp h
    rw [List.cons_append, trimStart, List.dropWhile_cons, if_pos hc]
    exact ih hblanks

theorem trimStart_trimStart (cs : List Char) : trimStart (trimStart cs) = trimStart cs := List.dropWhile_idempotent ..

theorem trimStart_of_head {c : Char} {cs : List Char} (h : isBlank c = false) : trimStart (c :: cs) = c :: cs := by
  rw [trimStart, List.dropWhile_cons_of_neg (by simp [h])]

theorem mem_dropWhile_or {p : Char → Bool} {c : Char} {cs : List Char} (h : c ∈ cs) :
    p c = true ∨ c ∈ cs.dropWhile p := by
  induction cs with
  | nil => cases h
  | cons d cs ih =>
    rw [List.dropWhile_cons]
    split_ifs with hd
    · rcases List.mem_cons.mp h with rfl | h
      · exact .inl hd
      · exact ih h
    · exact .inr h

/-- Trimming takes only blanks away. -/
theorem isBlank_or_mem_trim {c : Char} {cs : List Char} (h : c ∈ cs) : isBlank c = true ∨ c ∈ trim cs := by
  rcases mem_dropWhile_or h with hblank | hmem
  · exact .inl hblank
  · have hrev : c ∈ (trimStart cs).reverse := List.mem_reverse.mpr hmem
    refine (mem_dropWhile_or hrev).imp id fun hmem => ?_
    exact List.mem_reverse.mpr hmem

/-! ### Pieces -/

section Pieces

variable {p : Char → Bool}

theorem splitWhere_ne_nil (cs : List Char) : splitWhere p cs ≠ [] := by
  cases cs with
  | nil => simp [splitWhere]
  | cons c cs =>
    rw [splitWhere]
    split_ifs
    · simp
    · split <;> simp

/-- A separator cuts a text in two. -/
theorem splitWhere_append_cons {c : Char} (hc : p c = true) (a b : List Char) :
    splitWhere p (a ++ c :: b) = splitWhere p a ++ splitWhere p b := by
  induction a with
  | nil =>
    show splitWhere p (c :: b) = [] :: splitWhere p b
    rw [splitWhere, if_pos hc]
  | cons d a ih =>
    obtain ⟨w, ws, hw⟩ := List.exists_cons_of_ne_nil (splitWhere_ne_nil (p := p) a)
    rw [List.cons_append, splitWhere, splitWhere, ih, hw]
    split_ifs <;> rfl

theorem splitWhere_word {w : List Char} (hw : ∀ c ∈ w, p c = false) : splitWhere p w = [w] := by
  induction w with
  | nil => rfl
  | cons c w ih =>
    obtain ⟨hc, hw⟩ := List.forall_mem_cons.mp hw
    rw [splitWhere, if_neg (by simp [hc]), ih hw]

end Pieces

/-! ### Lines -/

theorem lines_newline (cs : List Char) : lines ('\n' :: cs) = [] :: lines cs := rfl

theorem lines_return {cs : List Char} (h : cs.head? = some '\n') : lines ('\r' :: cs) = lines cs := by
  obtain ⟨cs', rfl⟩ := List.head?_eq_some_iff.mp h
  rfl

/-- Any other character joins the line after it, or makes a line of its own. -/
theorem lines_join {c : Char} {cs : List Char} (hc : c ≠ '\n') (hcr : ¬ (c = '\r' ∧ cs.head? = some '\n')) :
    lines (c :: cs) = (c :: (lines cs).headD []) :: (lines cs).tail := by
  rw [lines.eq_4 _ _ hc]
  · cases lines cs <;> rfl
  · rintro cs' rfl rfl
    exact hcr ⟨rfl, rfl⟩

theorem lines_cons {c : Char} {cs l : List Char} {ls : List (List Char)} (hc : c ≠ '\n')
    (hcr : ¬ (c = '\r' ∧ cs.head? = some '\n')) (hl : lines cs = l :: ls) : lines (c :: cs) = (c :: l) :: ls := by
  rw [lines_join hc hcr, hl]
  rfl

theorem lines_ne_nil {cs : List Char} (h : cs ≠ []) : lines cs ≠ [] := by
  obtain ⟨c, cs, rfl⟩ := List.exists_cons_of_ne_nil h
  by_cases hc : c = '\n'
  · rw [hc, lines_newline]
    exact List.cons_ne_nil _ _
  by_cases hcr : c = '\r' ∧ cs.head? = some '\n'
  · obtain ⟨rest, rfl⟩ := List.head?_eq_some_iff.mp hcr.2
    rw [hcr.1, lines_return hcr.2, lines_newline]
    exact List.cons_ne_nil _ _
  · rw [lines_join hc hcr]
    exact List.cons_ne_nil _ _

theorem exists_of_mem_headD {c : Char} {ls : List (List Char)} (h : c ∈ ls.headD []) : ∃ l ∈ ls, c ∈ l := by
  cases ls with
  | nil => cases h
  | cons l ls => exact ⟨l, List.mem_cons_self, h⟩

/-- A newline ends the lines before it. -/
theorem lines_append_newline (a b : List Char) : lines (a ++ '\n' :: b) = lines (a ++ ['\n']) ++ lines b := by
  induction a with
  | nil => rfl
  | cons c a ih =>
    have hhead : (a ++ '\n' :: b).head? = (a ++ ['\n']).head? := by cases a <;> rfl
    rw [List.cons_append, List.cons_append]
    by_cases hc : c = '\n'
    · rw [hc, lines_newline, lines_newline, ih, List.cons_append]
    -- a carriage return before a newline belongs to the end of its line
    by_cases hcr : c = '\r' ∧ (a ++ ['\n']).head? = some '\n'
    · rw [hcr.1, lines_return hcr.2, lines_return (hhead.trans hcr.2), ih]
    · obtain ⟨l, ls, hl⟩ := List.exists_cons_of_ne_nil (lines_ne_nil (List.concat_ne_nil '\n' a))
      rw [lines_cons hc hcr hl, lines_cons hc (by rwa [hhead]) (by rw [ih, hl, List.cons_append]), List.cons_append]

/-- A line holds no newline. -/
theorem newline_not_mem_of_mem_lines {cs l : List Char} (h : l ∈ lines cs) : '\n' ∉ l := by
  induction cs generalizing l with
  | nil => cases h
  | cons c cs ih =>
    by_cases hc : c = '\n'
    · rw [hc, lines_newline] at h
      rcases List.mem_cons.mp h with rfl | h
      · exact List.not_mem_nil
      · exact ih h
    by_cases hcr : c = '\r' ∧ cs.head? = some '\n'
    · rw [hcr.1, lines_return hcr.2] at h
      exact ih h
    · rw [lines_join hc hcr] at h
      rcases List.mem_cons.mp h with rfl | h
      · -- the line that the character joins, if there is one
        refine List.not_mem_cons_of_ne_of_not_mem (Ne.symm hc) fun hmem => ?_
        obtain ⟨k, hk, hnl⟩ := exists_of_mem_headD hmem
        exact ih hk hnl
      · exact ih (List.mem_of_mem_tail h)

theorem lines_concat {l : List Char} (hl : '\n' ∉ l) (hlast : l.getLast? ≠ some '\r') : lines (l ++ ['\n']) = [l] := by
  induction l with
  | nil => rfl
  | cons c l ih =>
    obtain ⟨hc, htail⟩ : c ≠ '\n' ∧ '\n' ∉ l := by simpa [eq_comm] using hl
    have hrest : lines (l ++ ['\n']) = [l] := by
      by_cases hnil : l = []
      · rw [hnil]
        rfl
      · refine ih htail ?_
        rwa [List.getLast?_cons_of_ne_nil hnil] at hlast
    refine lines_cons hc ?_ hrest
    -- the carriage return would be the last character of the line
    rintro ⟨rfl, hhead⟩
    cases l with
    | nil => exact hlast rfl
    | cons d l =>
      obtain rfl : d = '\n' := by simpa using hhead
      exact htail List.mem_cons_self

/-- A line that does not end with a blank, and a newline after it. -/
theorem lines_concat_of_last {l : List Char} (hl : '\n' ∉ l) (hlast : (l.getLast?.all fun c => !isBlank c) = true) :
    lines (l ++ ['\n']) = [l] := by
  refine lines_concat hl fun hreturn => ?_
  rw [hreturn] at hlast
  exact absurd hlast (by decide)

theorem lines_unlines_append {ls : List (List Char)} (h : ∀ l ∈ ls, lines (l ++ ['\n']) = [l]) (rest : List Char) :
    lines (unlines ls ++ rest) = ls ++ lines rest := by
  induction ls with
  | nil => rfl
  | cons l ls ih =>
    obtain ⟨hl, hls⟩ := List.forall_mem_cons.mp h
    have hunlines : unlines (l :: ls) ++ rest = l ++ '\n' :: (unlines ls ++ rest) := by
      simp [unlines, List.flatMap_cons]
    rw [hunlines, lines_append_newline, hl, ih hls]
    rfl

/-- Lines that are put together and taken apart are as they were. -/
theorem lines_unlines {ls : List (List Char)} (h : ∀ l ∈ ls, lines (l ++ ['\n']) = [l]) : lines (unlines ls) = ls := by
  have hlines := lines_unlines_append h []
  rwa [List.append_nil, show lines [] = [] from rfl, List.append_nil] at hlines

/-! ### Whole lines -/

/-- The text is empty or ends with a newline. -/
def WholeLines (cs : List Char) : Prop := cs = [] ∨ cs.getLast? = some '\n'

theorem wholeLines_unlines (ls : List (List Char)) : WholeLines (unlines ls) := by
  rcases List.eq_nil_or_concat ls with rfl | ⟨ls, l, rfl⟩
  · exact .inl rfl
  · refine .inr ?_
    rw [List.concat_eq_append, unlines, List.flatMap_append, List.flatMap_singleton, ← List.append_assoc,
      List.getLast?_concat]

namespace WholeLines

variable {c : Char} {cs : List Char}

theorem append {more : List Char} (h : WholeLines cs) (hmore : WholeLines more) : WholeLines (cs ++ more) := by
  rcases hmore with rfl | hmore
  · rwa [List.append_nil]
  · refine .inr ?_
    rw [List.getLast?_append, hmore]
    rfl

theorem drop (h : WholeLines cs) (n : Nat) : WholeLines (cs.drop n) := by
  by_cases hlen : cs.length ≤ n
  · exact .inl (List.drop_eq_nil_of_le hlen)
  · rcases h with rfl | h
    · exact .inl List.drop_nil
    · exact .inr (by rwa [List.getLast?_drop, if_neg hlen])

theorem of_cons (h : WholeLines (c :: cs)) : WholeLines cs := h.drop 1

theorem eq_newline (h : WholeLines [c]) : c = '\n' := by simpa [WholeLines] using h

theorem ne_nil (h : WholeLines (c :: cs)) (hc : c ≠ '\n') : cs ≠ [] := by
  rintro rfl
  exact hc h.eq_newline

end WholeLines

end AgentFlow.Text
