import Mathlib.Data.List.Induction
import AgentFlow.Proofs.Bracket.Reader
import AgentFlow.Proofs.Text.Lines
import AgentFlow.Source

/-!
# Cleaning text that reads as code

`Source.clean` edits text line by line without reading it as code, so it may cut into a literal. What a reader makes of
the text stays the same nevertheless: a reader starts each line in code or in a literal in triple quotes, a fence line
means nothing in either, and blanks before a newline mean nothing anywhere, since none follows a backslash. The one
edit that could matter is that comments at the end are left out, so the last line must be something else.
-/

namespace AgentFlow

namespace Bracket.Reader

/-! ### Blanks before a newline -/

theorem isPlain_of_isBlank {c : Char} (h : Text.isBlank c = true) (hnl : c ≠ '\n') : isPlain c = true := by
  have hclass : (special.any fun d => Text.isBlank d && d != '\n') = false := by decide
  exact isPlain_of_class hclass (by simp [h, hnl])

/-- A blank makes no difference to the newline after it. -/
theorem step_newline_of_blank {r r' : Reader} {c : Char} (hblank : Text.isBlank c = true) (hnl : c ≠ '\n')
    (h : r.step c = some r') : r'.step '\n' = r.step '\n' := by
  have hplain := isPlain_of_isBlank hblank hnl
  obtain ⟨s, stack⟩ := r
  cases s with
  | code =>
    rw [step_code_of_isPlain hplain] at h
    rw [Option.some.inj h]
  | comment =>
    simp only [step, hnl, if_false, Option.some.injEq] at h
    rw [← h]
  | opened q twice =>
    -- the blank settles that the quotes before it are not the beginning of three
    obtain ⟨hq, hlit⟩ := inLiteral_of_isPlain hplain stack q false
    cases twice with
    | false =>
      simp only [step, hq, hlit, if_false, Option.some.injEq] at h
      subst h
      cases q <;> rfl
    | true =>
      have hcode := step_code_of_isPlain hplain stack
      simp only [step, hq, if_false] at h hcode
      rw [hcode] at h
      obtain rfl := Option.some.inj h
      cases q <;> rfl
  | literal q triple =>
    simp only [step, (inLiteral_of_isPlain hplain stack q triple).2, Option.some.injEq] at h
    rw [← h]
  | escaped q triple =>
    -- a blank after a backslash is refused
    simp only [step, hblank, if_true] at h
    cases h
  | closing q twice =>
    obtain ⟨hq, hlit⟩ := inLiteral_of_isPlain hplain stack q true
    cases twice <;> simp only [step, hq, hlit, if_false, Option.some.injEq] at h <;> subst h <;> cases q <;> rfl

/-- Blanks at the end of a line may go. -/
theorem read_trimEnd {r r' : Reader} {l : List Char} (hl : '\n' ∉ l) (h : r.read (l ++ ['\n']) = some r') :
    r.read (Text.trimEnd l ++ ['\n']) = some r' := by
  induction l using List.reverseRecOn with
  | nil => exact h
  | append_singleton l c ih =>
    rw [Text.trimEnd_concat]
    split_ifs with hblank
    · refine ih (fun hmem => hl (List.mem_append_left _ hmem)) ?_
      have hnl : c ≠ '\n' := by
        rintro rfl
        exact hl (by simp)
      -- the newline is read as if the blank before it were not there
      rw [List.append_assoc, read_append] at h
      obtain ⟨r₁, hr₁, hread⟩ := Option.bind_eq_some_iff.mp h
      rw [List.singleton_append] at hread
      obtain ⟨r₂, hr₂, hnewline⟩ := Option.bind_eq_some_iff.mp hread
      rw [read_cons, step_newline_of_blank hblank hnl hr₂] at hnewline
      rw [read_append, hr₁]
      exact hnewline
    · exact h

/-! ### Fence lines -/

/-- The reader is at the start of a line: in code or in a literal in triple quotes. -/
inductive AtLine : Reader → Prop
  | code (stack : List Char) : AtLine ⟨.code, stack⟩
  | literal (q : Quote) (stack : List Char) : AtLine ⟨.literal q true, stack⟩

/-- After a newline a reader is at the start of a line. -/
theorem atLine_of_newline {r r' : Reader} (h : r.step '\n' = some r') : AtLine r' := by
  obtain ⟨s, stack⟩ := r
  cases s with
  | code => cases h; exact .code stack
  | comment => cases h; exact .code stack
  | opened q twice => cases q <;> cases twice <;> cases h <;> exact .code stack
  | literal q triple =>
    cases triple with
    | false => cases h
    | true => cases h; exact .literal q stack
  | escaped q triple => cases h
  | closing q twice => cases q <;> cases twice <;> cases h <;> exact .literal _ stack

/-- A line of plain characters leaves a reader where it was. -/
theorem AtLine.read_plain {r : Reader} (hr : AtLine r) {l : List Char} (hl : ∀ c ∈ l, isPlain c = true) :
    r.read (l ++ ['\n']) = some r := by
  cases hr with
  | code stack => rw [read_append, read_code_of_isPlain hl]; rfl
  | literal q stack => rw [read_append, read_literal_of_isPlain hl]; rfl

/-- A fence line is made of plain characters. -/
theorem isPlain_of_isFence {l : List Char} (hl : '\n' ∉ l) (h : Source.isFence l = true) :
    ∀ c ∈ l, isPlain c = true := by
  obtain ⟨hfence, hname⟩ : Text.startsWith Source.fence (Text.trim l) = true ∧
      ((Text.trim l).drop 3).all Source.isFenceChar = true := by simpa [Source.isFence] using h
  intro c hc
  rcases Text.isBlank_or_mem_trim hc with hblank | hmem
  · exact isPlain_of_isBlank hblank fun hnl => hl (hnl ▸ hc)
  · obtain ⟨t, ht⟩ := List.isPrefixOf_iff_prefix.mp hfence
    rw [← ht] at hmem hname
    rcases List.mem_append.mp hmem with hmem | hmem
    · have hticks : Source.fence.toList.all isPlain = true := by decide
      exact List.all_eq_true.mp hticks c hmem
    · have hdrop : (Source.fence.toList ++ t).drop 3 = t := rfl
      rw [hdrop, List.all_eq_true] at hname
      exact isPlain_of_class (by decide) (hname c hmem)

/-! ### The clean text -/

theorem read_unlines_cons (r : Reader) (l : List Char) (ls : List (List Char)) :
    r.read (Text.unlines (l :: ls)) = (r.read (l ++ ['\n'])).bind (·.read (Text.unlines ls)) := by
  rw [← read_append]
  rfl

/-- Cutting a text that ends with a newline into lines loses nothing. -/
theorem read_unlines_lines {r r' : Reader} {a : List Char} (h : r.read (a ++ ['\n']) = some r') :
    r.read (Text.unlines (Text.lines (a ++ ['\n']))) = some r' := by
  induction a generalizing r with
  | nil => exact h
  | cons c a ih =>
    rw [List.cons_append] at h ⊢
    obtain ⟨r₁, hstep, hread⟩ := Option.bind_eq_some_iff.mp h
    by_cases hc : c = '\n'
    · subst hc
      rw [Text.lines_newline, read_unlines_cons, List.nil_append, read_cons, hstep]
      exact ih hread
    by_cases hcr : c = '\r' ∧ (a ++ ['\n']).head? = some '\n'
    · rw [hcr.1, Text.lines_return hcr.2]
      refine ih ?_
      -- the carriage return is a blank before a newline
      obtain ⟨cs, hcs⟩ := List.head?_eq_some_iff.mp hcr.2
      rw [hcs, read_cons, step_newline_of_blank (by rw [hcr.1]; decide) hc hstep] at hread
      rw [hcs, read_cons]
      exact hread
    · obtain ⟨l, ls, hl⟩ := List.exists_cons_of_ne_nil (Text.lines_ne_nil (List.concat_ne_nil '\n' a))
      have hrest := ih hread
      rw [hl] at hrest
      rw [Text.lines_cons hc hcr hl, read_unlines_cons, List.cons_append, read_cons, hstep]
      rw [read_unlines_cons] at hrest
      exact hrest

/-- Fence lines and blanks at the ends of lines may go. -/
theorem AtLine.read_trimmed {r r' : Reader} (hr : AtLine r) {ls : List (List Char)} (hls : ∀ l ∈ ls, '\n' ∉ l)
    (h : r.read (Text.unlines ls) = some r') :
    r.read (Text.unlines ((ls.filter fun l => !Source.isFence l).map Text.trimEnd)) = some r' := by
  induction ls generalizing r with
  | nil => exact h
  | cons l ls ih =>
    obtain ⟨hl, hls⟩ := List.forall_mem_cons.mp hls
    rw [read_unlines_cons] at h
    obtain ⟨r₁, hline, hrest⟩ := Option.bind_eq_some_iff.mp h
    rw [List.filter_cons]
    -- a line that stays is cut at its end; a fence is read as if it were not there
    split_ifs with hfence
    · rw [List.map_cons, read_unlines_cons, read_trimEnd hl hline]
      rw [read_append] at hline
      obtain ⟨r₂, -, hnewline⟩ := Option.bind_eq_some_iff.mp hline
      obtain ⟨r₃, hstep, hr₃⟩ := Option.bind_eq_some_iff.mp hnewline
      obtain rfl := Option.some.inj hr₃
      exact ih (atLine_of_newline hstep) hls hrest
    · have hplain := isPlain_of_isFence hl (by simpa using hfence)
      rw [hr.read_plain hplain] at hline
      obtain rfl := Option.some.inj hline
      exact ih hr hls hrest

/-- Empty lines at the start may go. -/
theorem read_dropWhile_isEmpty (stack : List Char) (ls : List (List Char)) :
    read ⟨.code, stack⟩ (Text.unlines (ls.dropWhile List.isEmpty)) = read ⟨.code, stack⟩ (Text.unlines ls) := by
  induction ls with
  | nil => rfl
  | cons l ls ih =>
    rw [List.dropWhile_cons]
    split_ifs with hempty
    · rw [List.isEmpty_iff.mp hempty, read_unlines_cons, ih]
      rfl
    · rfl

/-- The line stays as it is at the end of a text that is cleaned: it is one line, no fence and no comment, and it does
not end in a blank. -/
structure Solid (l : List Char) : Prop where
  lines : Text.lines (l ++ ['\n']) = [l]
  fence : Source.isFence l = false
  tail : Source.isTail (Text.trimEnd l) = false
  last : (l.getLast?.any fun c => !Text.isBlank c) = true

instance (l : List Char) : Decidable (Solid l) :=
  decidable_of_iff (Text.lines (l ++ ['\n']) = [l] ∧ Source.isFence l = false ∧
      Source.isTail (Text.trimEnd l) = false ∧ (l.getLast?.any fun c => !Text.isBlank c) = true)
    ⟨fun ⟨h₁, h₂, h₃, h₄⟩ => ⟨h₁, h₂, h₃, h₄⟩, fun h => ⟨h.lines, h.fence, h.tail, h.last⟩⟩

theorem Solid.exists_last {l : List Char} (h : Solid l) : ∃ c, l.getLast? = some c ∧ Text.isBlank c = false := by
  obtain ⟨c, hc, hblank⟩ := (Option.any_eq_true _ _).mp h.last
  exact ⟨c, hc, by simpa using hblank⟩

theorem dropTail_concat {l : List Char} (h : Source.isTail l = false) (ls : List (List Char)) :
    ((ls ++ [l]).reverse.dropWhile Source.isTail).reverse = ls ++ [l] := by
  rw [List.reverse_append, List.reverse_singleton, List.singleton_append, List.dropWhile_cons_of_neg (by simp [h])]
  simp

/-- A reader makes the same of a text and of its clean form, if the last line is solid. -/
theorem read_clean {code : String} {r : Reader} {a l : List Char} (hcode : code.toList = a ++ '\n' :: (l ++ ['\n']))
    (hl : Solid l) (h : start.read code.toList = some r) : start.read (Source.clean code).toList = some r := by
  have hlines : Text.lines code.toList = Text.lines (a ++ ['\n']) ++ [l] := by
    rw [hcode, Text.lines_append_newline, hl.lines]
  have hcut : start.read (Text.unlines (Text.lines code.toList)) = some r := by
    have hconcat : code.toList = (a ++ '\n' :: l) ++ ['\n'] := by simp [hcode]
    rw [hconcat] at h ⊢
    exact read_unlines_lines h
  have htrimmed := (AtLine.code []).read_trimmed (fun l hl => Text.newline_not_mem_of_mem_lines hl) hcut
  rw [Source.clean, Source.cleanLines, String.toList_ofList]
  -- the solid line stays where it is, so only lines before it are left out
  rw [hlines, List.filter_append, List.map_append] at htrimmed ⊢
  simp only [List.filter_cons, List.filter_nil, hl.fence, Bool.not_false, if_true, List.map_cons, List.map_nil]
    at htrimmed ⊢
  rw [dropTail_concat hl.tail]
  exact (read_dropWhile_isEmpty [] _).trans htrimmed

end Bracket.Reader

end AgentFlow
