import Mathlib.Data.List.DropRight
import AgentFlow.Proofs.Check.Cut

/-!
# Cleaning is a projection

What cleaning leaves of a text are neat lines: none is a fence or ends with a blank, the first is not empty, and the
last says something. Neat lines are left as they are, and joined they are split again into the same lines. So a clean
text is its own clean form, and the clean texts are the empty one and those that consist of neat lines.
-/

namespace AgentFlow.Source

open Text

/-! ### Neat lines -/

/-- The line is only a comment: its first character that is no blank is a number sign. -/
def IsComment (l : List Char) : Prop := ∃ blanks rest, (∀ c ∈ blanks, isBlank c = true) ∧ l = blanks ++ '#' :: rest

/-- A line that cleaning neither removes nor cuts. -/
structure NeatLine (l : List Char) : Prop where
  newline : '\n' ∉ l
  fence : isFence l = false
  last : ∀ c ∈ l.getLast?, isBlank c = false

/-- The lines of a clean text. -/
structure Neat (ls : List (List Char)) : Prop where
  line : ∀ l ∈ ls, NeatLine l
  first : ∃ l, ls.head? = some l ∧ l ≠ []
  last : ∃ l, ls.getLast? = some l ∧ l ≠ [] ∧ ¬ IsComment l

theorem isComment_iff {l : List Char} : IsComment l ↔ startsWith "#" (trimStart l) = true := by
  constructor
  · rintro ⟨blanks, rest, hblanks, rfl⟩
    rw [trimStart_blanks_append hblanks, trimStart_of_head (by decide)]
    rfl
  · intro h
    obtain ⟨rest, hrest⟩ := List.isPrefixOf_iff_prefix.mp h
    refine ⟨l.takeWhile isBlank, rest, fun c hc => List.mem_takeWhile_imp hc, ?_⟩
    have hsplit : l.takeWhile isBlank ++ trimStart l = l := List.takeWhile_append_dropWhile
    rw [← hrest] at hsplit
    exact hsplit.symm

theorem isTail_eq_false_iff {l : List Char} : isTail l = false ↔ l ≠ [] ∧ ¬ IsComment l := by
  rw [isTail, Bool.or_eq_false_iff, isComment_iff, Bool.not_eq_true, List.isEmpty_eq_false_iff]

theorem NeatLine.all_last {l : List Char} (h : NeatLine l) : (l.getLast?.all fun c => !isBlank c) = true := by
  rw [Option.all_eq_true]
  intro c hc
  rw [h.last c hc, Bool.not_false]

/-- Lines that are kept are neat. -/
theorem neatLine_of_mem_kept {cs l : List Char} (h : l ∈ kept (lines cs)) : NeatLine l := by
  obtain ⟨k, hk, hfence, rfl⟩ := mem_kept.mp h
  have hcut := cutFrom_trimEnd k
  refine ⟨fun hmem => newline_not_mem_of_mem_lines hk (hcut.isPrefix.subset hmem),
    foundUncut_isFence.eq_false hcut hfence, fun c hc => ?_⟩
  simpa using (Option.all_eq_true _ _).mp (getLast?_trimEnd k) c hc

/-! ### What cleaning leaves -/

theorem cleanLines_eq (ls : List (List Char)) :
    cleanLines ls = ((kept ls).rdropWhile isTail).dropWhile List.isEmpty := rfl

theorem cleanLines_subset_kept (ls : List (List Char)) : cleanLines ls ⊆ kept ls := by
  rw [cleanLines_eq]
  exact List.Subset.trans (List.dropWhile_suffix _).subset (List.rdropWhile_prefix _ _).subset

/-- Empty lines are taken from the start after the end is cut, so that the last line is not touched by it. -/
theorem neat_cleanLines {cs : List Char} (hne : cleanLines (lines cs) ≠ []) : Neat (cleanLines (lines cs)) where
  line l hl := neatLine_of_mem_kept (cleanLines_subset_kept _ hl)
  first := by
    refine ⟨(cleanLines (lines cs)).head hne, List.head?_eq_some_head hne, ?_⟩
    have hfirst := List.head_dropWhile_not List.isEmpty hne
    rwa [List.isEmpty_eq_false_iff] at hfirst
  last := by
    have hsuffix : cleanLines (lines cs) <:+ (kept (lines cs)).rdropWhile isTail := List.dropWhile_suffix _
    have hlast := List.rdropWhile_last_not isTail (kept (lines cs)) (hsuffix.ne_nil hne)
    rw [← hsuffix.getLast hne, Bool.not_eq_true, isTail_eq_false_iff] at hlast
    exact ⟨_, List.getLast?_eq_some_getLast hne, hlast⟩

/-- Neat lines are kept as they are. -/
theorem kept_of_neatLine {ls : List (List Char)} (h : ∀ l ∈ ls, NeatLine l) : kept ls = ls := by
  have hfilter : (ls.filter fun l => !isFence l) = ls := List.filter_eq_self.mpr fun l hl => by rw [(h l hl).fence]; rfl
  rw [kept, hfilter]
  exact (List.map_congr_left fun l hl => trimEnd_of_last (h l hl).all_last).trans (List.map_id ls)

theorem Neat.cleanLines_eq_self {ls : List (List Char)} (h : Neat ls) : cleanLines ls = ls := by
  obtain ⟨first, hhead, hfirst⟩ := h.first
  obtain ⟨last, hgetLast, hlast⟩ := h.last
  obtain ⟨rest, rfl⟩ := List.head?_eq_some_iff.mp hhead
  -- the last line is none of those that are cut at the end
  have hend : (first :: rest).rdropWhile isTail = first :: rest := by
    refine List.rdropWhile_eq_self_iff.mpr fun hne => ?_
    rw [List.getLast?_eq_some_getLast hne, Option.some.injEq] at hgetLast
    rw [hgetLast, Bool.not_eq_true, isTail_eq_false_iff]
    exact hlast
  rw [cleanLines_eq, kept_of_neatLine h.line, hend, List.dropWhile_cons_of_neg (by simpa using hfirst)]

/-! ### Lines and texts -/

theorem NeatLine.single {l : List Char} (h : NeatLine l) : lines (l ++ ['\n']) = [l] :=
  lines_concat_of_last h.newline h.all_last

theorem lines_clean (s : String) : lines (clean s).toList = cleanLines (lines s.toList) := by
  rw [clean, String.toList_ofList]
  exact lines_unlines fun l hl => (neatLine_of_mem_kept (cleanLines_subset_kept _ hl)).single

theorem Neat.clean_eq_self {s : String} {ls : List (List Char)} (h : Neat ls) (hs : s.toList = unlines ls) :
    clean s = s := by
  rw [clean, hs, lines_unlines fun l hl => (h.line l hl).single, h.cleanLines_eq_self, ← hs, String.ofList_toList]

/-- A clean text is empty or consists of neat lines. -/
theorem clean_eq_empty_or_neat (s : String) : clean s = "" ∨ ∃ ls, Neat ls ∧ (clean s).toList = unlines ls := by
  by_cases hne : cleanLines (lines s.toList) = []
  · left
    rw [clean, hne]
    rfl
  · exact .inr ⟨_, neat_cleanLines hne, String.toList_ofList⟩

/-- What is clean stays as it is. -/
theorem clean_clean (s : String) : clean (clean s) = clean s := by
  rcases clean_eq_empty_or_neat s with hempty | ⟨ls, hls, htext⟩
  · rw [hempty]
    rfl
  · exact hls.clean_eq_self htext

theorem hasFences_clean (s : String) : hasFences (clean s) = false := by
  rw [hasFences, lines_clean, List.any_eq_false]
  intro l hl
  rw [(neatLine_of_mem_kept (cleanLines_subset_kept _ hl)).fence]
  exact Bool.false_ne_true

/-- **Cleaning is a projection onto clean texts.** A clean text is left as it is and has no fences. A text is clean
exactly if it is empty or consists of lines, each with a newline after it, of which none is a fence or ends with a
blank, the first is not empty, and the last is neither empty nor a comment. -/
theorem clean_is_projection (s : String) :
    clean (clean s) = clean s ∧ hasFences (clean s) = false ∧
      (clean s = s ↔ s = "" ∨ ∃ ls, Neat ls ∧ s.toList = unlines ls) := by
  refine ⟨clean_clean s, hasFences_clean s, fun h => ?_, ?_⟩
  · rw [← h]
    exact clean_eq_empty_or_neat s
  · rintro (rfl | ⟨ls, hls, htext⟩)
    · rfl
    · exact hls.clean_eq_self htext

end AgentFlow.Source
