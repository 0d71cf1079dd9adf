import AgentFlow.Proofs.Python.Keyword

/-!
# When a module passes the checks of form

A module whose rows are plain passes the checks of form or fails them by its docstrings and literals alone. Which names
it imports decides which of the names in them matter.
-/

namespace AgentFlow.Python

open Text AgentFlow.Symbol Detect

namespace Module

/-- The names that the checks of form know and the module does not import. -/
def missing (m : Module) : List String := formNames.filter fun name => !m.imports.any fun i => i.names.contains name

theorem missing_subset (m : Module) : m.missing ⊆ formNames := List.filter_sublist.subset

theorem not_mem_missing {m : Module} {name : String} (h : Import.Lists m.imports name) : name ∉ m.missing := by
  intro hmem
  obtain ⟨i, hi, hname⟩ := h
  have hnone := (List.mem_filter.mp hmem).2
  simp only [Bool.not_eq_true', List.any_eq_false, List.contains_iff_mem] at hnone
  exact hnone i hi hname

/-- The module is set between a docstring and a program, its imports are of words, and its rows call no name that it
does not import but those that the literals of the texts call. -/
structure Plain (m : Module) (ts : List String) : Prop where
  header : m.header.isSome = true
  imports : ∀ i ∈ m.imports, i.Neat
  decls : Python.Plain m.missing ts (m.decls.flatMap Decl.rows)
  program : EndsInProgram m.decls

namespace Plain

variable {m : Module} {ts : List String} (h : m.Plain ts)

include h

theorem inert {d : Decl} (hd : d ∈ m.decls) : ∀ r ∈ d.rows, Inert r.toList :=
  fun r hr => h.decls.inert r (List.mem_flatMap.mpr ⟨d, hd, hr⟩)

theorem steady : m.Steady where
  header := h.header
  imports i hi := (h.imports i hi).stays
  decls _ hd r hr := (h.inert hd r hr).toStays
  program := h.program

/-- What is found neither on imports nor on inert rows is found in docstrings. -/
theorem any_lines_eq {P : List Char → Bool} (hP : SkipsBlanks P) (himports : ∀ i ∈ m.imports, P i.row.toList = false)
    (hinert : ∀ l, Inert l → P l = false) : (lines (Source.clean m.render).toList).any P = m.docLines.any P := by
  have hrows : (m.decls.any fun d => d.rows.any fun r => P r.toList) = false := by
    simp only [List.any_eq_false, Bool.not_eq_true]
    exact fun d hd r hr => hinert _ (h.inert hd r hr)
  have hnone : (m.imports.any fun i => P i.row.toList) = false := by
    simp only [List.any_eq_false, Bool.not_eq_true]
    exact himports
  rw [any_lines_clean h.steady hP, hrows, hnone, Bool.or_self, Bool.false_or]

/-- A name that is not imported is used in docstrings or in literals. -/
theorem any_usedIn {name : String} (hname : name ∈ m.missing) :
    (lines (Source.clean m.render).toList).any (usedIn name) =
      (m.docLines.any (usedIn name) || ts.any (callsQuoted name)) := by
  have hform := m.missing_subset hname
  have hnone : (m.imports.any fun i => usedIn name i.row.toList) = false := by
    simp only [List.any_eq_false, Bool.not_eq_true]
    exact fun i _ => Import.usedIn_row i name
  have hrows : (m.decls.any fun d => d.rows.any fun r => usedIn name r.toList) = ts.any (callsQuoted name) := by
    rw [← h.decls.calls name hname, List.any_flatMap, Bool.eq_iff_iff]
    simp only [List.any_eq_true]
    constructor
    · rintro ⟨d, hd, r, hr, hused⟩
      exact ⟨d, hd, r, hr, ((h.inert hd r hr).used name hform).symm.trans hused⟩
    · rintro ⟨d, hd, r, hr, hcalls⟩
      exact ⟨d, hd, r, hr, ((h.inert hd r hr).used name hform).trans hcalls⟩
  rw [any_lines_clean h.steady (SkipsBlanks.usedIn name), hnone, hrows, Bool.false_or, Bool.or_comm]

/-- An imported name is brought in. -/
theorem any_bringsIn_of_import {name : String} (hname : name ∈ formNames) (hmissing : name ∉ m.missing) :
    (lines (Source.clean m.render).toList).any (bringsIn name) = true := by
  obtain ⟨i, hi, hmem⟩ : Import.Lists m.imports name := by
    by_contra hno
    refine hmissing (List.mem_filter.mpr ⟨hname, ?_⟩)
    simp only [Bool.not_eq_true', List.any_eq_false, List.contains_iff_mem]
    exact fun i hi hmem => hno ⟨i, hi, hmem⟩
  have himport : (m.imports.any fun i => bringsIn name i.row.toList) = true := by
    refine List.any_eq_true.mpr ⟨i, hi, ?_⟩
    rw [(h.imports i hi).bringsIn_row hname]
    exact List.contains_iff_mem.mpr hmem
  rw [any_lines_clean h.steady (SkipsBlanks.bringsIn name), himport, Bool.true_or, Bool.true_or]

/-- A name that is not imported can be brought in by docstrings only. -/
theorem any_bringsIn {name : String} (hname : name ∈ m.missing) :
    (lines (Source.clean m.render).toList).any (bringsIn name) = m.docLines.any (bringsIn name) := by
  have hform := m.missing_subset hname
  refine h.any_lines_eq (SkipsBlanks.bringsIn name) (fun i hi => ?_) fun l hl => hl.brings name hform
  rw [(h.imports i hi).bringsIn_row hform, ← Bool.not_eq_true, List.contains_iff_mem]
  exact fun hmem => not_mem_missing ⟨i, hi, hmem⟩ hname

theorem forall_lines_iff {P : List Char → Bool} (hP : SkipsBlanks P)
    (himports : ∀ i ∈ m.imports, P i.row.toList = false) (hinert : ∀ l, Inert l → P l = false) :
    (∀ l ∈ lines (Source.clean m.render).toList, P l = false) ↔ ∀ l ∈ m.docLines, P l = false := by
  have hany := h.any_lines_eq hP himports hinert
  rw [Bool.eq_iff_iff, ← not_iff_not, Bool.not_eq_true, Bool.not_eq_true, List.any_eq_false, List.any_eq_false] at hany
  simpa only [Bool.not_eq_true] using hany

theorem not_blank : (Source.clean m.render).toList.all isBlank = false := by
  obtain ⟨cs, hcs⟩ := List.head?_eq_some_iff.mp (toList_clean_render h.steady).2
  rw [hcs, List.all_cons, show isBlank '"' = false from rfl, Bool.false_and]

/-- **When a module passes the checks of form**: its docstrings must not look like fences or like headers without a
colon, and they must seem to bring in what it does not import but they or its literals seem to call. -/
theorem passes_iff (hbrackets : Bracket.problem? (Source.clean m.render).toList = none) :
    (∀ f ∈ form (Source.clean m.render), f.severity ≠ .error) ↔
      (∀ l ∈ m.docLines, startsWith Source.fence (trimStart l) = false ∧ Pattern.missingColon? l = none) ∧
      ∀ name ∈ m.missing,
        (∃ l ∈ m.docLines, usedIn name l = true) ∨ (∃ t ∈ ts, callsQuoted name t = true) →
          ∃ l ∈ m.docLines, bringsIn name l = true := by
  have hfence := h.forall_lines_iff SkipsBlanks.fence (fun i hi => (h.imports i hi).stays.fence) fun l hl => hl.fence
  have hcolon := h.forall_lines_iff SkipsBlanks.missingColon (fun i _ => by rw [Import.missingColon?_row]; rfl)
    fun l hl => by rw [hl.header]; rfl
  simp only [Option.isSome_eq_false_iff, Option.isNone_iff_eq_none] at hcolon
  rw [form_passes_iff, hfence, hcolon]
  simp only [h.not_blank, hbrackets, true_and, forall_and, ← List.any_eq_true, and_assoc]
  refine and_congr_right fun _ => and_congr_right fun _ =>
    ⟨fun himports name hname => ?_, fun himports name hname => ?_⟩
  · have hbrings := himports name (m.missing_subset hname)
    rw [h.any_usedIn hname, h.any_bringsIn hname, Bool.or_eq_true] at hbrings
    exact hbrings
  · -- an imported name is brought in wherever it is used
    by_cases hmissing : name ∈ m.missing
    · rw [h.any_usedIn hmissing, h.any_bringsIn hmissing, Bool.or_eq_true]
      exact himports name hmissing
    · exact fun _ => h.any_bringsIn_of_import hname hmissing

end Plain

end Module

end AgentFlow.Python
