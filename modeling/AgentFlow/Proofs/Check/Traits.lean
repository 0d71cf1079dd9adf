import AgentFlow.Check.Detect

/-!
# What a finding says

A detector reports a finding on certain grounds, which its id tells: a line that lacks a colon, a symbol that is used
and not brought in. `Grounds` lists them, once for all detectors. A detector never reports a finding as repaired, and
the id of what it reports says how serious it is and whether a repair may be tried: the same id has the same severity
in every detector and about every code. So two findings with one signature agree on both.
-/

namespace AgentFlow.Detect

open Text

/-! ### Grounds -/

/-- The grounds on which the detector of a category reports a finding with an id, a severity and an answer to whether a
repair may be tried. -/
inductive Grounds (code : String) : Category → String × Severity × Bool → Prop
  | rule {r : Rule} (hr : r ∈ rules) : Grounds code r.category (r.id, r.severity, r.fixable)
  | empty : Grounds code .form ("empty-source", .error, false)
  | fence (hcode : code.toList.all isBlank = false) : Grounds code .form ("markdown-fence", .error, true)
  | header (hcode : code.toList.all isBlank = false) {l : List Char} (hl : l ∈ lines code.toList)
      (h : (Pattern.missingColon? l).isSome = true) : Grounds code .form ("missing-colon", .error, true)
  | tab (hcode : code.toList.all isBlank = false) {l : List Char} (hl : l ∈ lines code.toList)
      (h : startsWith "\t" l = true) : Grounds code .form ("tab-indentation", .warning, true)
  | brackets : Grounds code .form ("unbalanced-brackets", .error, true)
  | symbol {s : Symbol} (hs : s ∈ Symbol.known) {l : List Char} (hl : l ∈ lines code.toList)
      (hused : Symbol.usedIn s.name l = true) (hno : Symbol.imported s.name (lines code.toList) = false) :
      Grounds code s.category ("missing-import", .error, true)
  | toolset : Grounds code .protocol ("toolset-not-closed", .warning, false)
  | main {l : List Char} (hl : l ∈ lines code.toList) (h : startsWith "async def main(" l = true)
      (hno : contains runMain code.toList = false) : Grounds code .events ("async-main-not-run", .error, true)
  | loop {l : List Char} (hl : l ∈ lines code.toList) (h : contains "asyncio." l = true)
      (hno : Symbol.imported "asyncio" (lines code.toList) = false) :
      Grounds code .events ("missing-import", .error, true)
  | awaits : Grounds code .events ("await-outside-async", .error, true)
  | sessions : Grounds code .memory ("session-service-missing", .error, false)
  | history : Grounds code .memory ("unbounded-history", .info, false)

/-- The detector of the category may report the finding about the code. -/
structure Grounded (code : String) (c : Category) (f : Finding) : Prop where
  grounds : Grounds code c (f.id, f.severity, f.fixable)
  fixed : f.fixed = false

/-- A line that is found is one of the lines. -/
theorem exists_of_lineWhere {p : List Char → Bool} {ls : List (List Char)} {n : Nat} (h : lineWhere p ls = some n) :
    ∃ l ∈ ls, p l = true := by
  obtain ⟨i, hi, -⟩ := Option.map_eq_some_iff.mp h
  obtain ⟨hlt, hp, -⟩ := List.findIdx?_eq_some_iff_getElem.mp hi
  exact ⟨_, List.getElem_mem hlt, hp⟩

variable {code : String} {c : Category} {f : Finding}

/-- A finding on a line has the grounds that there is such a line. -/
theorem grounded_of_mem_at? {line : Option Nat} {g : Finding} (h : f ∈ at? line g) (hg : g.fixed = false)
    (hgrounds : ∀ n, line = some n → Grounds code c (g.id, g.severity, g.fixable)) : Grounded code c f := by
  cases line with
  | none => cases h
  | some n =>
    obtain rfl : f = { g with line := some n } := List.mem_singleton.mp h
    exact ⟨hgrounds n rfl, hg⟩

theorem id_of_mem_at? {line : Option Nat} {g : Finding} (h : f ∈ at? line g) : f.id = g.id := by
  cases line with
  | none => cases h
  | some n => rw [List.mem_singleton.mp h]

theorem id_of_mem_missingImports {c : Category} {ls : List (List Char)} (h : f ∈ Symbol.missingImports c ls) :
    f.id = "missing-import" := by
  obtain ⟨s, -, hf⟩ := List.mem_filterMap.mp h
  cases hused : Symbol.usedAt s.name ls with
  | none => simp [hused] at hf
  | some n =>
    simp only [hused, Option.ite_none_left_eq_some, Option.some.injEq] at hf
    rw [← hf.2]

/-- What a rule finds has that rule for its grounds. -/
theorem grounded_of_mem_ruleFindings (h : f ∈ ruleFindings c code.toList) : Grounded code c f := by
  obtain ⟨r, hr, hf⟩ := List.mem_filterMap.mp h
  obtain ⟨n, -, rfl⟩ := Option.map_eq_some_iff.mp hf
  obtain ⟨hrules, hcategory⟩ := List.mem_filter.mp hr
  obtain rfl : r.category = c := by simpa using hcategory
  exact ⟨.rule hrules, rfl⟩

/-- A missing import is reported of a name that some line uses and none brings in. -/
theorem grounded_of_mem_missingImports (h : f ∈ Symbol.missingImports c (lines code.toList)) : Grounded code c f := by
  obtain ⟨s, hs, hf⟩ := List.mem_filterMap.mp h
  obtain ⟨hknown, hcategory⟩ := List.mem_filter.mp hs
  obtain rfl : s.category = c := by simpa using hcategory
  cases hused : Symbol.usedAt s.name (lines code.toList) with
  | none => simp [hused] at hf
  | some n =>
    -- it is reported only if no line brings the name in
    simp only [hused] at hf
    split at hf
    next => cases hf
    next hno =>
      obtain rfl := Option.some.inj hf
      obtain ⟨l, hl, hl'⟩ := exists_of_lineWhere hused
      exact ⟨.symbol hknown hl hl' (by simpa using hno), rfl⟩

/-- A missing colon is reported of a line that lacks one. -/
theorem exists_of_mem_missingColons {n : Nat} {ls : List (List Char)} (h : f ∈ missingColons n ls) :
    (∃ l ∈ ls, (Pattern.missingColon? l).isSome = true) ∧
      (f.id, f.severity, f.fixable) = ("missing-colon", .error, true) ∧ f.fixed = false := by
  induction ls generalizing n with
  | nil => cases h
  | cons l ls ih =>
    rw [missingColons] at h
    -- reported of this line or of a later one
    rcases List.mem_append.mp h with h | h
    · cases hl : Pattern.missingColon? l with
      | none => simp [hl] at h
      | some name =>
        simp only [hl, List.mem_singleton] at h
        subst h
        exact ⟨⟨l, List.mem_cons_self, by rw [hl]; rfl⟩, rfl, rfl⟩
    · obtain ⟨⟨k, hk, hlacks⟩, htraits⟩ := ih h
      exact ⟨⟨k, List.mem_cons_of_mem _ hk, hlacks⟩, htraits⟩

/-! ### The grounds of each detector -/

/-- The detector of form reports nothing else of an empty text, and five kinds of findings otherwise. -/
theorem grounded_of_mem_form (h : f ∈ form code) : Grounded code .form f := by
  simp only [form] at h
  split at h
  · obtain rfl := List.mem_singleton.mp h
    exact ⟨.empty, rfl⟩
  next hcode =>
    rw [Bool.not_eq_true] at hcode
    simp only [List.mem_append] at h
    -- a fence, a missing colon, a tab, a bracket or a missing import
    rcases h with (((h | h) | h) | h) | h
    · exact grounded_of_mem_at? h rfl fun _ _ => .fence hcode
    · obtain ⟨⟨l, hl, hlacks⟩, htraits, hfixed⟩ := exists_of_mem_missingColons h
      exact ⟨htraits ▸ .header hcode hl hlacks, hfixed⟩
    · refine grounded_of_mem_at? h rfl fun n hn => ?_
      obtain ⟨l, hl, htab⟩ := exists_of_lineWhere hn
      exact .tab hcode hl htab
    · split at h
      · cases h
      · obtain rfl := List.mem_singleton.mp h
        exact ⟨.brackets, rfl⟩
    · exact grounded_of_mem_missingImports h

theorem grounded_of_mem_protocol (h : f ∈ protocol code) : Grounded code .protocol f := by
  simp only [protocol, List.mem_append] at h
  rcases h with (h | h) | h
  · exact grounded_of_mem_ruleFindings h
  · exact grounded_of_mem_missingImports h
  · split at h
    · cases h
    · exact grounded_of_mem_at? h rfl fun _ _ => .toolset

theorem grounded_of_mem_events (h : f ∈ events code) : Grounded code .events f := by
  simp only [events, List.mem_append] at h
  rcases h with ((h | h) | h) | h
  · exact grounded_of_mem_ruleFindings h
  · split at h
    · cases h
    next hno =>
      refine grounded_of_mem_at? h rfl fun n hn => ?_
      obtain ⟨l, hl, hmain⟩ := exists_of_lineWhere hn
      exact .main hl hmain (Bool.not_eq_true _ ▸ hno)
  · split at h
    · cases h
    next hno =>
      refine grounded_of_mem_at? h rfl fun n hn => ?_
      obtain ⟨l, hl, hloop⟩ := exists_of_lineWhere hn
      exact .loop hl hloop (Bool.not_eq_true _ ▸ hno)
  · exact grounded_of_mem_at? h rfl fun _ _ => .awaits

theorem grounded_of_mem_memory (h : f ∈ memory code) : Grounded code .memory f := by
  simp only [memory, List.mem_append] at h
  rcases h with (h | h) | h
  · exact grounded_of_mem_missingImports h
  · split at h
    · cases h
    · exact grounded_of_mem_at? h rfl fun _ _ => .sessions
  · split at h
    · cases h
    · exact grounded_of_mem_at? h rfl fun _ _ => .history

/-- Whatever the selection, each finding is that of a selected detector, on its grounds. -/
theorem grounded_of_mem_detectAll {s : Selection} (h : f ∈ detectAll s code) :
    ∃ c, s.enabled c = true ∧ Grounded code c f := by
  obtain ⟨c, hc, h⟩ := List.mem_flatMap.mp h
  refine ⟨c, (List.mem_filter.mp hc).2, ?_⟩
  cases c with
  | form => exact grounded_of_mem_form h
  | protocol => exact grounded_of_mem_protocol h
  | events => exact grounded_of_mem_events h
  | memory => exact grounded_of_mem_memory h
  | security => exact grounded_of_mem_ruleFindings h
  | other => cases h

/-! ### Traits -/

/-- The ids that detectors use, each with its severity and whether a repair may be tried. -/
def traits : List (String × Severity × Bool) :=
  rules.map (fun r => (r.id, r.severity, r.fixable))
    ++ [("empty-source", .error, false), ("markdown-fence", .error, true), ("missing-colon", .error, true),
        ("tab-indentation", .warning, true), ("unbalanced-brackets", .error, true), ("missing-import", .error, true),
        ("toolset-not-closed", .warning, false), ("async-main-not-run", .error, true),
        ("await-outside-async", .error, true), ("session-service-missing", .error, false),
        ("unbounded-history", .info, false)]

/-- No two kinds of findings share an id. -/
theorem traits_unique : ∀ a ∈ traits, ∀ b ∈ traits, a.1 = b.1 → a = b := by decide

/-- The finding is as some detector reports it: its traits are those of its id, and it is not repaired. -/
structure Reported (f : Finding) : Prop where
  traits : (f.id, f.severity, f.fixable) ∈ traits
  fixed : f.fixed = false

/-- The grounds cover no id beyond those listed. -/
theorem Grounds.mem_traits {t : String × Severity × Bool} (h : Grounds code c t) : t ∈ traits := by
  cases h with
  | rule hr => exact List.mem_append_left _ (List.mem_map_of_mem hr)
  | _ => exact List.mem_append_right _ (by simp)

/-- Whatever the selection, what the detectors report has the traits of its id and is not repaired. -/
theorem reported_of_mem_detectAll {s : Selection} {code : String} {f : Finding} (h : f ∈ detectAll s code) :
    Reported f := by
  obtain ⟨c, -, hgrounds, hfixed⟩ := grounded_of_mem_detectAll h
  exact ⟨hgrounds.mem_traits, hfixed⟩

end AgentFlow.Detect
