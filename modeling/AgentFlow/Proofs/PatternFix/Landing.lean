import AgentFlow.PatternFix
import AgentFlow.Proofs.Bracket.Clean
import AgentFlow.Proofs.Bracket.Scan
import AgentFlow.Proofs.Check.Edit
import AgentFlow.Proofs.Text.Fragment

/-!
# Where an inserted import lands

An import is put after the last line that starts like one, or after the docstring. Whether it then stands at top level,
with no bracket open and no literal unfinished before it, is not looked at. If the last such line begins at top level,
it has to be complete in itself, which an import in brackets over several lines is not; if it is plain, it has to begin
at top level, which a line of a docstring does not. After a docstring, the import stands at top level if the rest of the
line is complete, unless a backslash takes the first of the quotes that seem to end the docstring.
-/

namespace AgentFlow

open Text

/-! ### Plain text and docstrings under the scan -/

namespace Bracket

open Reader (isPlain isPlain_iff isPlain_of_isBlank)

/-- If a literal is being scanned, it stands between quotes. -/
def Mode.Quoted : Mode → Prop
  | .literal q _ => q = '"' ∨ q = '\''
  | _ => True

/-- A literal that is opened or goes on stands between quotes. -/
theorem Mode.Quoted.bite {m : Mode} (h : m.Quoted) (c : Char) (cs : List Char) : (m.bite c cs).mode.Quoted := by
  cases m with
  | code =>
    simp only [Mode.bite]
    split_ifs with _ _ hquote
    · trivial
    · trivial
    · exact Or.imp of_decide_eq_true of_decide_eq_true (Bool.or_eq_true _ _ ▸ hquote)
    · exact Or.imp of_decide_eq_true of_decide_eq_true (Bool.or_eq_true _ _ ▸ hquote)
    · trivial
  | comment =>
    simp only [Mode.bite]
    split_ifs <;> trivial
  | literal q triple =>
    simp only [Mode.bite]
    split_ifs
    · exact h
    · exact h
    · trivial
    · trivial
    · exact h
    · trivial
    · exact h

/-- So it does wherever a scan comes to. -/
theorem Mode.Quoted.after {m : Mode} (h : m.Quoted) (cs : List Char) : (m.after cs).Quoted := by
  revert h
  refine scan_induction (P := fun m cs => m.Quoted → (m.after cs).Quoted) (fun _ h => h) ?_ m cs
  intro m c cs ih h
  rw [after_cons]
  exact ih (h.bite c cs)

theorem Mode.listed_of_not_bracket {m : Mode} {c : Char} (h : (isOpener c || isCloser c) = false) (line : Nat) :
    m.listed line c = [] := if_neg fun hc => by simp [h] at hc

theorem Mode.listed_literal (q : Char) (triple : Bool) (c : Char) (line : Nat) :
    (Mode.literal q triple).listed line c = [] := if_neg fun hc => by cases hc.1

/-- A plain character changes nothing. -/
theorem Mode.bite_of_isPlain {m : Mode} (hm : m.Quoted) {c : Char} (hc : isPlain c = true) (cs : List Char) :
    m.bite c cs = { mode := m } := by
  obtain ⟨hback, hnl, hhash, hdouble, hsingle, -, -⟩ := isPlain_iff.mp hc
  cases m with
  | code => simp [Mode.bite, hnl, hhash, hdouble, hsingle]
  | comment => simp [Mode.bite, hnl]
  | literal q triple =>
    have hq : c ≠ q := by
      rintro rfl
      rcases hm with hm | hm
      · exact hdouble hm
      · exact hsingle hm
    simp [Mode.bite, hback, hnl, hq]

/-- A scan stands after plain text where it stood before. -/
theorem Skips.plain {m : Mode} (hm : m.Quoted) {l : List Char} (hl : ∀ c ∈ l, isPlain c = true) (rest : List Char) :
    Skips m (l ++ rest) m rest := by
  induction l with
  | nil => exact .refl m rest
  | cons c l ih =>
    obtain ⟨hc, hl⟩ := List.forall_mem_cons.mp hl
    obtain ⟨-, -, -, -, -, hopener, hcloser⟩ := isPlain_iff.mp hc
    have hstep : Skips m (c :: (l ++ rest)) _ _ := .bite (Mode.listed_of_not_bracket (by rw [hopener, hcloser]; rfl))
    rw [Mode.bite_of_isPlain hm hc] at hstep
    exact hstep.trans (ih hl)

/-- A backslash at the end of the text takes the next character with it. -/
def leavesBackslash (cs : List Char) : Bool := cs.foldl (fun escaped c => !escaped && c = '\\') false

section Docstring

variable {q : Char}

/-- Three quotes in code open a literal. -/
theorem Skips.opening (hq : q = '"' ∨ q = '\'') (rest : List Char) :
    Skips .code (q :: q :: q :: rest) (.literal q true) rest := by
  have hbite : Mode.code.bite q (q :: q :: rest) = { extra := 2, mode := .literal q true } := by
    rcases hq with rfl | rfl <;> rfl
  have hstep : Skips .code (q :: q :: q :: rest) _ _ :=
    .bite (Mode.listed_of_not_bracket (by rcases hq with rfl | rfl <;> decide))
  rwa [hbite] at hstep

/-- Before the first three quotes, a scan takes one character of the literal at a time. -/
theorem Mode.bite_before_quotes {c : Char} (hc : c ≠ '\\') {inner : List Char} (rest : List Char)
    (hno : ¬ [q, q, q] <+: c :: (inner ++ [q, q])) :
    (Mode.literal q true).bite c (inner ++ q :: q :: q :: rest) = { newline := c = '\n', mode := .literal q true } := by
  have hpair : c = q → [q, q].isPrefixOf (inner ++ q :: q :: q :: rest) = false := by
    rintro rfl
    rw [← Bool.not_eq_true, List.isPrefixOf_iff_prefix]
    intro hpair
    have hsplit : inner ++ c :: c :: c :: rest = (inner ++ [c, c]) ++ c :: rest := by simp
    rw [hsplit] at hpair
    have hshort : [c, c] <+: inner ++ [c, c] :=
      List.prefix_of_prefix_length_le hpair (List.prefix_append _ _) (by simp)
    exact hno (List.cons_prefix_cons.mpr ⟨rfl, hshort⟩)
  simp only [Mode.bite, if_neg hc]
  by_cases hnl : c = '\n'
  · simp [hnl]
  by_cases hcq : c = q
  · simp only [if_neg hnl, if_pos hcq, if_true, hpair hcq, Bool.false_eq_true, if_false, decide_eq_false hnl]
  · simp [hnl, hcq]

/-- Up to the first three quotes nothing ends the literal, and they do, unless a backslash takes the first of them. -/
theorem Skips.docstring (hq : q = '"' ∨ q = '\'') (rest : List Char) {inner : List Char}
    (hfirst : ¬ [q, q, q] <:+: inner ++ [q, q]) :
    (leavesBackslash inner = false → Skips (.literal q true) (inner ++ q :: q :: q :: rest) .code rest) ∧
    (leavesBackslash inner = true →
      Skips (.literal q true) (inner ++ q :: q :: q :: rest) (.literal q true) (q :: q :: rest)) := by
  have hlisted : ∀ c line, (Mode.literal q true).listed line c = [] := fun c => Mode.listed_literal q true c
  -- a bite may take two characters of the literal, so the induction is on its length
  induction hlen : inner.length using Nat.strongRecOn generalizing inner with
  | _ n ih =>
    rcases inner with _ | ⟨c, inner⟩
    · -- nothing is left before the quotes, so they end the literal
      have hstep : Skips (.literal q true) (q :: q :: q :: rest) _ _ := .bite (hlisted q)
      have hbite : (Mode.literal q true).bite q (q :: q :: rest) = { extra := 2, mode := .code } := by
        rcases hq with rfl | rfl <;> rfl
      rw [hbite] at hstep
      exact ⟨fun _ => hstep, fun h => absurd h (by decide)⟩
    have hsuffix : ∀ {k : List Char}, k <:+ inner → ¬ [q, q, q] <:+: k ++ [q, q] := by
      rintro k ⟨a, rfl⟩ hin
      exact hfirst (hin.trans ⟨c :: a, [], by simp⟩)
    have hstep : Skips (.literal q true) (c :: (inner ++ q :: q :: q :: rest)) _ _ := .bite (hlisted c)
    by_cases hc : c = '\\'
    · subst hc
      -- the backslash takes the first of the quotes, or the next character of the literal
      rcases inner with _ | ⟨d, inner⟩
      · exact ⟨fun h => absurd h (by decide), fun _ => hstep⟩
      · have hlt : inner.length < n := by
          rw [← hlen, List.length_cons, List.length_cons]
          omega
        have hrest := ih inner.length hlt (hsuffix (List.suffix_cons d inner)) rfl
        exact ⟨fun h => hstep.trans (hrest.1 h), fun h => hstep.trans (hrest.2 h)⟩
    · have hleaves : leavesBackslash (c :: inner) = leavesBackslash inner := by simp [leavesBackslash, hc]
      have hrest := ih inner.length (by rw [← hlen]; exact Nat.lt_succ_self _) (hsuffix (List.suffix_refl inner)) rfl
      rw [Mode.bite_before_quotes hc rest fun h => hfirst h.isInfix] at hstep
      rw [hleaves]
      exact ⟨fun h => hstep.trans (hrest.1 h), fun h => hstep.trans (hrest.2 h)⟩

/-- The text is a docstring, as far as its quotes show: blanks, three quotes, `inner`, the first three quotes like them
after that, and `tail` on the line where they stand. -/
structure IsDocstring (q : Char) (inner tail text : List Char) : Prop where
  quote : q = '"' ∨ q = '\''
  first : ¬ [q, q, q] <:+: inner ++ [q, q]
  text : ∃ blanks, (∀ c ∈ blanks, isBlank c = true ∧ c ≠ '\n') ∧
    text = blanks ++ q :: q :: q :: (inner ++ q :: q :: q :: (tail ++ ['\n']))

/-- The docstring itself leaves nothing open: what counts is the rest of its last line, with what a backslash leaves of
the quotes. -/
theorem IsDocstring.topLevel_iff {inner tail text : List Char} (h : IsDocstring q inner tail text) :
    TopLevel text ↔
      if leavesBackslash inner then Settles (.literal q true) (q :: q :: (tail ++ ['\n']))
      else TopLevel (tail ++ ['\n']) := by
  obtain ⟨blanks, hblanks, rfl⟩ := h.text
  have hplain : ∀ c ∈ blanks, isPlain c = true := fun c hc => isPlain_of_isBlank (hblanks c hc).1 (hblanks c hc).2
  have hopening := Skips.opening h.quote (inner ++ q :: q :: q :: (tail ++ ['\n']))
  have hopened := (Skips.plain (m := .code) trivial hplain _).trans hopening
  obtain ⟨hends, hescaped⟩ := Skips.docstring h.quote (tail ++ ['\n']) h.first
  refine hopened.settles_iff.trans ?_
  split_ifs with hback
  · exact (hescaped hback).settles_iff
  · exact (hends (by simpa using hback)).settles_iff

end Docstring

/-- A plain line after others ends them like an empty one. -/
theorem topLevel_append_plain {a l : List Char} (ha : WholeLines a) (hl : ∀ c ∈ l, isPlain c = true) :
    TopLevel (a ++ (l ++ ['\n'])) ↔ TopLevel (a ++ ['\n']) := by
  have hquoted : (Mode.code.after a).Quoted := Mode.Quoted.after (m := .code) trivial a
  have hskips := Skips.plain hquoted hl ['\n']
  have hnewline : ∀ line, scan line (Mode.code.after a) ['\n'] = [] := by
    intro line
    rw [scan_cons, Mode.listed_of_not_bracket (by decide), List.drop_nil, scan_nil]
    rfl
  have hscan : scan 1 .code (a ++ (l ++ ['\n'])) = scan 1 .code (a ++ ['\n']) := by
    obtain ⟨j, hj⟩ := scan_append ha .code (l ++ ['\n']) 1
    obtain ⟨k, hk⟩ := scan_append ha .code ['\n'] 1
    obtain ⟨i, hi⟩ := hskips.scan (1 + j)
    rw [hj, hk, hi, hnewline, hnewline]
  have hafter : Mode.code.after (a ++ (l ++ ['\n'])) = Mode.code.after (a ++ ['\n']) := by
    rw [Mode.after_append ha, Mode.after_append ha, hskips.after]
  exact ⟨fun h => ⟨hscan ▸ h.brackets, hafter ▸ h.code⟩, fun h => ⟨hscan ▸ h.brackets, hafter ▸ h.code⟩⟩

end Bracket

/-! ### The place of an import -/

namespace PatternFix

open AgentFlow.Bracket

/-- How many lines stand before an inserted import. -/
def landing (ls : List (List Char)) : Nat := (upToLast? Symbol.isImportLine ls).getD (docstringLines ls)

/-- The text before an inserted import. -/
def beforeImport (code : String) : List Char := unlines ((lines code.toList).take (landing (lines code.toList)))

/-- The text after an inserted import. -/
def afterImport (code : String) : List Char := unlines ((lines code.toList).drop (landing (lines code.toList)))

/-- An inserted import stands at top level. -/
def Lands (code : String) : Prop := TopLevel (beforeImport code)

/-- An import is inserted between two parts of the code. -/
theorem toList_insertImport (line code : String) :
    (insertImport line code).toList = beforeImport code ++ (line.toList ++ '\n' :: afterImport code) := by
  simp [insertImport, beforeImport, afterImport, landing, unlines, List.flatMap_append]

section Last

variable {p : List Char → Bool}

theorem upToLast?_eq_none {ls : List (List Char)} (h : ∀ l ∈ ls, p l = false) : upToLast? p ls = none := by
  induction ls with
  | nil => rfl
  | cons l ls ih =>
    obtain ⟨hl, hls⟩ := List.forall_mem_cons.mp h
    simp [upToLast?, ih hls, hl]

/-- The last line that fits is the one with none after it. -/
theorem upToLast?_append {l : List Char} {rest : List (List Char)} (hl : p l = true) (hrest : ∀ k ∈ rest, p k = false)
    (init : List (List Char)) : upToLast? p (init ++ l :: rest) = some (init.length + 1) := by
  induction init with
  | nil => simp [upToLast?, upToLast?_eq_none hrest, hl]
  | cons k init ih => simp [upToLast?, ih]

end Last

theorem docstringLines_cons {first : List Char} {quotes : String}
    (h : (["\"\"\"", "'''"].find? fun q => startsWith q (trimStart first)) = some quotes) (rest : List (List Char)) :
    docstringLines (first :: rest) =
      if contains quotes ((trimStart first).drop 3) then 1
      else ((rest.findIdx? (contains quotes)).map (· + 2)).getD 0 := by
  simp only [docstringLines, h]
  cases rest.findIdx? (contains quotes) <;> rfl

/-- A line that opens a docstring: blanks, and then the quotes. -/
theorem exists_opening {first : List Char} (hfirst : '\n' ∉ first) {quotes : String}
    (h : (["\"\"\"", "'''"].find? fun q => startsWith q (trimStart first)) = some quotes) :
    ∃ q blanks, (q = '"' ∨ q = '\'') ∧ quotes.toList = [q, q, q] ∧ (∀ c ∈ blanks, isBlank c = true ∧ c ≠ '\n') ∧
      first = blanks ++ q :: q :: q :: (trimStart first).drop 3 := by
  obtain ⟨q, hquote, hquotes⟩ : ∃ q, (q = '"' ∨ q = '\'') ∧ quotes.toList = [q, q, q] := by
    have hmem : quotes = "\"\"\"" ∨ quotes = "'''" := by simpa using List.mem_of_find?_eq_some h
    rcases hmem with rfl | rfl
    · exact ⟨'"', .inl rfl, rfl⟩
    · exact ⟨'\'', .inr rfl, rfl⟩
  obtain ⟨d, hd⟩ : [q, q, q] <+: trimStart first := by
    have hstarts := List.find?_some h
    simp only [startsWith, hquotes, List.isPrefixOf_iff_prefix] at hstarts
    exact hstarts
  refine ⟨q, first.takeWhile isBlank, hquote, hquotes, fun c hc => ⟨List.mem_takeWhile_imp hc, ?_⟩, ?_⟩
  · rintro rfl
    exact hfirst ((List.takeWhile_prefix _).subset hc)
  · calc first = first.takeWhile isBlank ++ trimStart first := List.takeWhile_append_dropWhile.symm
      _ = first.takeWhile isBlank ++ q :: q :: q :: (trimStart first).drop 3 := by rw [← hd]; rfl

section Opened

variable {q : Char} {blanks d : List Char}

/-- A docstring that ends on its first line. -/
theorem isDocstring_of_first (hquote : q = '"' ∨ q = '\'') (hblanks : ∀ c ∈ blanks, isBlank c = true ∧ c ≠ '\n')
    (hd : [q, q, q] <:+: d) : ∃ inner tail, IsDocstring q inner tail (unlines [blanks ++ q :: q :: q :: d]) := by
  obtain ⟨inner, tail, rfl, hno⟩ := exists_first_occurrence (by simp) hd
  exact ⟨inner, tail, hquote, hno, blanks, hblanks, by simp [unlines]⟩

/-- A docstring that ends on a later line: the lines between belong to it. -/
theorem isDocstring_of_later (hquote : q = '"' ∨ q = '\'') (hblanks : ∀ c ∈ blanks, isBlank c = true ∧ c ≠ '\n')
    (hd : ¬ [q, q, q] <:+: d) {between : List (List Char)} (hbetween : ∀ l ∈ between, ¬ [q, q, q] <:+: l)
    {last : List Char} (hlast : [q, q, q] <:+: last) :
    ∃ inner tail, IsDocstring q inner tail (unlines ((blanks ++ q :: q :: q :: d) :: (between ++ [last]))) := by
  obtain ⟨inner, tail, rfl, hno⟩ := exists_first_occurrence (by simp) hlast
  have hnl : '\n' ∉ [q, q, q] := by rcases hquote with rfl | rfl <;> decide
  refine ⟨d ++ '\n' :: (unlines between ++ inner), tail, hquote, ?_, blanks, hblanks, ?_⟩
  · rw [List.append_assoc, List.cons_append, List.append_assoc, infix_append_cons_iff hnl, infix_unlines_append_iff hnl]
    rintro (hin | ⟨l, hl, hin⟩ | hin)
    · exact hd hin
    · exact hbetween l hl hin
    · exact hno hin
  · simp [unlines, List.flatMap_append]

end Opened

/-- The lines that are taken for a docstring end with the first quotes like those that open it. -/
theorem isDocstring_of_lines {ls : List (List Char)} (hls : ∀ l ∈ ls, '\n' ∉ l) (h : docstringLines ls ≠ 0) :
    ∃ q inner tail, IsDocstring q inner tail (unlines (ls.take (docstringLines ls))) := by
  cases ls with
  | nil => exact absurd rfl h
  | cons first rest =>
  cases hfind : ["\"\"\"", "'''"].find? fun q => startsWith q (trimStart first) with
  | none => exact absurd (by simp only [docstringLines, hfind]) h
  | some quotes =>
  obtain ⟨q, blanks, hquote, hquotes, hblanks, hfirst⟩ := exists_opening (hls first List.mem_cons_self) hfind
  have hoccurs : ∀ cs, contains quotes cs = true ↔ [q, q, q] <:+: cs := fun cs => by rw [contains, hquotes, occurs_iff]
  rw [docstringLines_cons hfind] at h ⊢
  generalize (trimStart first).drop 3 = d at h hfirst ⊢
  split_ifs at h ⊢ with hsame
  · -- the quotes that end it stand on the first line
    rw [hfirst]
    exact ⟨q, isDocstring_of_first hquote hblanks ((hoccurs d).mp hsame)⟩
  · -- they stand on a later line, and the lines up to it have none
    obtain ⟨i, hi⟩ : ∃ i, rest.findIdx? (contains quotes) = some i := by
      cases hidx : rest.findIdx? (contains quotes) with
      | none => exact absurd (by rw [hidx]; rfl) h
      | some i => exact ⟨i, rfl⟩
    obtain ⟨hlt, hlast, hbefore⟩ := List.findIdx?_eq_some_iff_getElem.mp hi
    have hbetween : ∀ l ∈ rest.take i, ¬ [q, q, q] <:+: l := by
      intro l hl hin
      obtain ⟨j, hj, rfl⟩ := List.mem_take_iff_getElem.mp hl
      exact hbefore j (by omega) ((hoccurs _).mpr hin)
    have htake : (first :: rest).take (i + 2) = first :: (rest.take i ++ [rest[i]]) := by
      rw [List.take_succ_cons, List.take_append_getElem hlt]
    rw [hi]
    show ∃ q inner tail, IsDocstring q inner tail (unlines ((first :: rest).take (i + 2)))
    rw [htake, hfirst]
    have hd : ¬ [q, q, q] <:+: d := fun hin => hsame ((hoccurs d).mpr hin)
    exact ⟨q, isDocstring_of_later hquote hblanks hd hbetween ((hoccurs _).mp hlast)⟩

section Landing

variable {code : String}

/-- With imports in the code, the new one stands after the last. -/
theorem beforeImport_of_last {init rest : List (List Char)} {l : List Char}
    (hcode : lines code.toList = init ++ l :: rest) (hl : Symbol.isImportLine l = true)
    (hrest : ∀ k ∈ rest, Symbol.isImportLine k = false) :
    beforeImport code = unlines init ++ (l ++ ['\n']) := by
  have hland : landing (init ++ l :: rest) = init.length + 1 := by rw [landing, upToLast?_append hl hrest]; rfl
  have htake : (init ++ l :: rest).take (init.length + 1) = init ++ [l] := by simp [List.take_append]
  rw [beforeImport, hcode, hland, htake]
  simp [unlines, List.flatMap_append]

/-- Without imports in the code, the new one stands after the docstring. -/
theorem beforeImport_of_none (h : ∀ l ∈ lines code.toList, Symbol.isImportLine l = false) :
    beforeImport code = unlines ((lines code.toList).take (docstringLines (lines code.toList))) := by
  rw [beforeImport, landing, upToLast?_eq_none h]
  rfl

end Landing

/-- Where an inserted import stands, and when that is at top level. After the last line that starts like an import it
depends on that line and on the lines before; after a docstring, on the rest of its last line. -/
theorem lands_iff (line code : String) :
    (insertImport line code).toList = beforeImport code ++ (line.toList ++ '\n' :: afterImport code) ∧
    (∀ init l rest, lines code.toList = init ++ l :: rest → Symbol.isImportLine l = true →
      (∀ k ∈ rest, Symbol.isImportLine k = false) →
        beforeImport code = unlines init ++ (l ++ ['\n']) ∧
        (TopLevel (unlines init) → (Lands code ↔ TopLevel (l ++ ['\n']))) ∧
        ((∀ c ∈ l, Reader.isPlain c = true) → (Lands code ↔ TopLevel (unlines init ++ ['\n'])))) ∧
    ((∀ l ∈ lines code.toList, Symbol.isImportLine l = false) →
      (beforeImport code = [] ∧ Lands code) ∨
      ∃ q inner tail, IsDocstring q inner tail (beforeImport code) ∧
        (Lands code ↔ if leavesBackslash inner then Settles (.literal q true) (q :: q :: (tail ++ ['\n']))
          else TopLevel (tail ++ ['\n']))) := by
  refine ⟨toList_insertImport line code, fun init l rest hcode hl hrest => ?_, fun hnone => ?_⟩
  · have hbefore := beforeImport_of_last hcode hl hrest
    have hwhole := wholeLines_unlines init
    refine ⟨hbefore, fun htop => ?_, fun hplain => ?_⟩
    · rw [Lands, hbefore]
      exact htop.append_iff hwhole _
    · rw [Lands, hbefore]
      exact topLevel_append_plain hwhole hplain
  · have hbefore := beforeImport_of_none hnone
    by_cases hzero : docstringLines (lines code.toList) = 0
    · rw [hzero] at hbefore
      refine .inl ⟨hbefore, ?_⟩
      rw [Lands, hbefore]
      exact topLevel_nil
    · obtain ⟨q, inner, tail, hdoc⟩ := isDocstring_of_lines (fun l hl => newline_not_mem_of_mem_lines hl) hzero
      rw [← hbefore] at hdoc
      exact .inr ⟨q, inner, tail, hdoc, hdoc.topLevel_iff⟩

theorem lands_iff_docstring :
    TopLevel (unlines ["'''a".toList, "import b'''".toList]) ∧ TopLevel "import os\n".toList ∧
    beforeImport "'''a\nimport b'''\nimport os\n" = "'''a\nimport b'''\nimport os\n".toList ∧
    Lands "'''a\nimport b'''\nimport os\n" := by
  have hinit : TopLevel (unlines ["'''a".toList, "import b'''".toList]) := ⟨by cbv, by decide⟩
  have hline : TopLevel "import os\n".toList := ⟨by cbv, by decide⟩
  have hlands := (lands_iff "import re" "'''a\nimport b'''\nimport os\n").2.1
    ["'''a".toList, "import b'''".toList] "import os".toList [] (by decide) (by decide) (by simp)
  exact ⟨hinit, hline, hlands.1, (hlands.2.1 hinit).mpr hline⟩

/-- After the first line of an import in brackets over several lines, the new import stands inside of the brackets. -/
theorem import_lands_in_brackets :
    problem? "from typing import (\n    Any,\n)\n\nroot_agent = LlmAgent(name=\"a\")\n".toList = none ∧
    ¬ Lands "from typing import (\n    Any,\n)\n\nroot_agent = LlmAgent(name=\"a\")\n" ∧
    insertImport "from google.adk.agents import LlmAgent"
        "from typing import (\n    Any,\n)\n\nroot_agent = LlmAgent(name=\"a\")\n" =
      "from typing import (\nfrom google.adk.agents import LlmAgent\n    Any,\n)\n\n"
        ++ "root_agent = LlmAgent(name=\"a\")\n" := by
  refine ⟨by cbv, fun h => ?_, by decide⟩
  have hopen : nest [] (scan 1 .code "from typing import (\n".toList) = some (.unclosed ⟨'(', 1⟩) := by cbv
  have hbefore : beforeImport "from typing import (\n    Any,\n)\n\nroot_agent = LlmAgent(name=\"a\")\n" =
      "from typing import (\n".toList := by decide
  rw [Lands, hbefore] at h
  exact absurd (hopen.symm.trans h.brackets) (by simp)

end PatternFix

end AgentFlow
