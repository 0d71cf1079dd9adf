import AgentFlow.Proofs.Python.Plain

/-!
# Rows that start with a keyword

The header of a function and an import start with the words that the checks of form go by, so they are not idle. A
header with its colon is inert all the same, and an import brings in the names that it lists and no other.
-/

namespace AgentFlow.Python

open Text AgentFlow.Symbol Detect

/-! ### Headers -/

/-- What follows the name of a function that takes a query. -/
def queryRest : List Char := '(' :: "query: str) -> dict:".toList

/-- A header that a name could be defined by defines only its own. -/
theorem eq_of_prefix_header {x name rest : List Char} (hx : ∀ c ∈ x, isNameChar c = true)
    (hname : ∀ c ∈ name, isNameChar c = true) (h : name ++ ['('] <+: x ++ '(' :: rest) : name = x := by
  obtain ⟨t, ht⟩ := h
  have hparen : ¬ isNameChar '(' = true := by decide
  have hwords := congrArg (List.takeWhile isNameChar) ht
  rwa [List.append_assoc, List.takeWhile_append_of_pos hname, List.takeWhile_append_of_pos hx, List.singleton_append,
    List.takeWhile_cons_of_neg hparen, List.takeWhile_cons_of_neg hparen, List.append_nil, List.append_nil] at hwords

theorem isBlank_of_isLetter {c : Char} (h : isLetter c = true) : isBlank c = false := by
  rw [← Bool.not_eq_true]
  intro hblank
  rw [isLetter_of_isBlank hblank] at h
  cases h

/-- The header of a function that takes a query has its colon. -/
theorem missingColon?_query {x : List Char} (hx : ∀ c ∈ x, isLetter c = true) :
    Pattern.missingColon? ("def ".toList ++ x ++ queryRest) = none := by
  have hline : trimStart ("def ".toList ++ x ++ queryRest) = "def ".toList ++ x ++ queryRest := rfl
  have hasync : Pattern.afterWord? "async" ("def ".toList ++ x ++ queryRest) = none := rfl
  have hdef : Pattern.afterWord? "def" ("def ".toList ++ x ++ queryRest) = some (x ++ queryRest) := by
    have hstart : trimStart (x ++ queryRest) = x ++ queryRest := by
      cases x with
      | nil => rfl
      | cons c x => exact trimStart_of_head (isBlank_of_isLetter (hx c List.mem_cons_self))
    rw [← hstart]
    rfl
  have hname : (x ++ queryRest).takeWhile isWordChar = x := by
    rw [List.takeWhile_append_of_pos fun c hc => isWordChar_of_isLetter (hx c hc)]
    exact List.append_nil x
  simp only [Pattern.missingColon?, hline, hasync, hdef, Option.getD_none, Option.some_or, hname, List.drop_left]
  -- the colon at the end of the result annotation
  refine if_neg ?_
  rw [Bool.and_eq_true, not_and]
  intro _
  decide

/-- It does not define a name that the checks of form know. -/
theorem inert_query {x : String} (hx : Wordy x) (hnot : x ∉ formNames) :
    Inert ("def ".toList ++ x.toList ++ queryRest) := by
  have hnewline : '\n' ∉ "def ".toList ++ x.toList ++ queryRest := by
    simp only [List.mem_append, not_or]
    exact ⟨⟨by decide, hx.newline⟩, by decide⟩
  have hlast : ("def ".toList ++ x.toList ++ queryRest).getLast? = some ':' := by
    rw [List.getLast?_append_of_ne_nil _ (by decide)]
    decide
  have htrim : trimStart ("def ".toList ++ x.toList ++ queryRest) = "def ".toList ++ x.toList ++ queryRest := rfl
  have himport : isImportLine ("def ".toList ++ x.toList ++ queryRest) = false := rfl
  refine ⟨stays_of_last rfl hnewline (by rw [hlast]; decide), missingColon?_query hx, fun name hname => ?_,
    fun name hname => ?_⟩
  · have hclass : startsWith ("class " ++ name) ("def ".toList ++ x.toList ++ queryRest) = false := by
      rw [startsWith, String.toList_append]
      rfl
    have hdef : startsWith ("def " ++ name ++ "(") ("def ".toList ++ x.toList ++ queryRest) = false := by
      rw [← Bool.not_eq_true]
      intro hstarts
      have hprefix := List.isPrefixOf_iff_prefix.mp hstarts
      rw [String.toList_append, String.toList_append, List.append_assoc, List.append_assoc,
        List.prefix_append_right_inj] at hprefix
      have hsame := eq_of_prefix_header (fun c hc => isNameChar_of_isLetter (hx c hc))
        (isName_of_mem_formNames hname).chars hprefix
      exact hnot (String.toList_inj.mp hsame ▸ hname)
    simp only [bringsIn, htrim, himport, hclass, hdef, Bool.false_and, Bool.or_self]
  · have hsharp : startsWith "#" ("def ".toList ++ x.toList ++ queryRest) = false := rfl
    simp only [usedIn, htrim, himport, hsharp, Bool.or_self, Bool.not_false, Bool.true_and]

/-- The header of a function that takes a query calls nothing, and defines no name that the checks of form know. -/
theorem Plain.query {names : List String} {x : String} (hnames : names ⊆ formNames) (hx : Wordy x)
    (hnot : x ∉ formNames) :
    Plain names [] ["def " ++ x ++ String.ofList queryRest] where
  inert := by
    rw [List.forall_mem_singleton, String.toList_append, String.toList_append, String.toList_ofList]
    exact inert_query hx hnot
  calls name hname := by
    have hword : Python.calls name (x ++ "(") = false := hx.silent_call (List.Subset.refl _) hnot name (hnames hname)
    have hdef : Python.calls name "def " = false := calls_of_isQuiet (by decide)
    have hrest : Python.calls name "query: str) -> dict:" = false := calls_of_isQuiet (by decide)
    have hrow : "def " ++ x ++ String.ofList queryRest = "def " ++ (x ++ "(") ++ "query: str) -> dict:" := by
      rw [String.append_assoc, String.append_assoc, String.append_assoc]
      rfl
    have hseam : endsApart ("def " ++ (x ++ "(")).toList = true := by
      rw [← String.append_assoc, String.toList_append, endsApart_append (by decide)]
      decide
    rw [List.any_cons, List.any_nil, Bool.or_false, List.any_nil, hrow,
      calls_append (hnames hname) (apart_of_ends hseam), calls_append (hnames hname) (apart_of_ends (by decide)), hdef,
      hword, hrest]
    rfl

/-! ### Imports -/

/-- The pieces of a text between characters that belong to no name. -/
def pieces (cs : List Char) : List (List Char) := splitWhere (fun c => !isNameChar c) cs

theorem pieces_append_cons {c : Char} (hc : isNameChar c = false) (a b : List Char) :
    pieces (a ++ c :: b) = pieces a ++ pieces b := splitWhere_append_cons (by simp [hc]) a b

theorem Wordy.pieces {s : String} (h : Wordy s) : pieces s.toList = [s.toList] :=
  splitWhere_word fun c hc => by simp [isNameChar_of_isLetter (h c hc)]

/-- The pieces of a list of names are these names, and empty ones between them. -/
theorem mem_pieces_intercalate {name : List Char} {words : List String} (hname : name ≠ [])
    (h : ∀ w ∈ words, Wordy w) :
    name ∈ pieces (", ".intercalate words).toList ↔ name ∈ words.map String.toList := by
  induction words with
  | nil => simp [Python.pieces, splitWhere, hname]
  | cons w words ih =>
    obtain ⟨hw, hwords⟩ := List.forall_mem_cons.mp h
    cases words with
    | nil => simp [hw.pieces]
    | cons v words =>
      have hblank : Python.pieces (' ' :: (", ".intercalate (v :: words)).toList) =
          [] :: Python.pieces (", ".intercalate (v :: words)).toList := pieces_append_cons (by decide) [] _
      have hlist : (", ".intercalate (w :: v :: words)).toList =
          w.toList ++ ',' :: ' ' :: (", ".intercalate (v :: words)).toList := by
        rw [String.intercalate_cons_cons, String.toList_append, String.toList_append, List.append_assoc]
        rfl
      rw [hlist, pieces_append_cons (by decide), hw.pieces, hblank, List.map_cons, List.mem_cons, ← ih hwords]
      simp [hname]

/-- A list of names stands on one line. -/
theorem oneLine_intercalate {words : List String} (hne : words ≠ []) (h : ∀ w ∈ words, Wordy w ∧ w ≠ "") :
    OneLine (", ".intercalate words) ∧ ", ".intercalate words ≠ "" := by
  induction words with
  | nil => exact absurd rfl hne
  | cons w words ih =>
    obtain ⟨hw, hwords⟩ := List.forall_mem_cons.mp h
    cases words with
    | nil => simpa using ⟨hw.1.oneLine, hw.2⟩
    | cons v words =>
      obtain ⟨hlist, hlist_ne⟩ := ih (by simp) hwords
      rw [String.intercalate_cons_cons]
      refine ⟨OneLine.append ?_ hlist hlist_ne, by simp [hw.2]⟩
      rw [String.toList_append, List.mem_append, not_or]
      exact ⟨hw.1.newline, by decide⟩

namespace Import

/-- The module of an import: words with dots between them, none of them a name that the checks of form know. -/
def isModule (module : List Char) : Bool :=
  module.all (fun c => isLetter c || c == '.') && !module.isEmpty
    && formChars.all fun name => !(pieces module).contains name

def NeatModule (module : String) : Prop := isModule module.toList = true

def NeatName (name : String) : Prop := Wordy name ∧ name ≠ ""

/-- The import is of words. -/
structure Neat (i : Import) : Prop where
  module : NeatModule i.module
  names : ∀ name ∈ i.names, NeatName name

variable {i : Import}

theorem row_eq_plain (h : i.names = []) : i.row = "import " ++ i.module := if_pos (List.isEmpty_iff.mpr h)

theorem row_eq_named (h : i.names ≠ []) :
    i.row = "from " ++ i.module ++ " import " ++ ", ".intercalate i.names := if_neg (by simpa using h)

/-- An import begins with one of two words. -/
theorem row_cases (i : Import) :
    ∃ rest, i.row.toList = "import ".toList ++ rest ∨ i.row.toList = "from ".toList ++ rest := by
  by_cases hnames : i.names = []
  · exact ⟨i.module.toList, .inl (by rw [row_eq_plain hnames, String.toList_append])⟩
  · refine ⟨i.module.toList ++ " import ".toList ++ (", ".intercalate i.names).toList, .inr ?_⟩
    rw [row_eq_named hnames]
    simp only [String.toList_append, List.append_assoc]

theorem missingColon?_row (i : Import) : Pattern.missingColon? i.row.toList = none := by
  obtain ⟨rest, hrow | hrow⟩ := row_cases i <;> rw [hrow] <;> rfl

theorem usedIn_row (i : Import) (name : String) : usedIn name i.row.toList = false := by
  obtain ⟨rest, hrow | hrow⟩ := row_cases i <;> rw [hrow] <;> rfl

namespace Neat

variable (h : i.Neat)

include h

theorem not_mem_pieces_module {name : String} (hname : name ∈ formNames) : name.toList ∉ pieces i.module.toList := by
  have hpieces := (Bool.and_eq_true_iff.mp h.module).2
  simpa using List.all_eq_true.mp hpieces _ (toList_mem_formChars hname)

/-- The names that stand in an import are those that it lists. -/
theorem mem_pieces {name : String} (hname : name ∈ formNames) : name.toList ∈ pieces i.row.toList ↔ name ∈ i.names := by
  have hmodule := h.not_mem_pieces_module hname
  have hword : name.toList ∉ pieces "import".toList ∧ name.toList ∉ pieces "from".toList := by
    have hall : formNames.all (fun name => !(pieces "import".toList).contains name.toList &&
        !(pieces "from".toList).contains name.toList) = true := by decide
    simpa using List.all_eq_true.mp hall name hname
  -- without names the row has the module only
  by_cases hnames : i.names = []
  · have hrow : i.row.toList = "import".toList ++ ' ' :: i.module.toList := by
      rw [row_eq_plain hnames, String.toList_append]
      rfl
    rw [hrow, pieces_append_cons (by decide), List.mem_append, hnames]
    simp only [hword.1, hmodule, or_self, List.not_mem_nil]
  · have hrow : i.row.toList = "from".toList ++ ' ' :: (i.module.toList ++ ' ' ::
        ("import".toList ++ ' ' :: (", ".intercalate i.names).toList)) := by
      rw [row_eq_named hnames, String.toList_append, String.toList_append, String.toList_append, List.append_assoc,
        List.append_assoc]
      rfl
    have hlist := mem_pieces_intercalate (isName_of_mem_formNames hname).ne_nil fun w hw => (h.names w hw).1
    rw [hrow, pieces_append_cons (by decide), pieces_append_cons (by decide), pieces_append_cons (by decide)]
    simp only [List.mem_append, hword.1, hword.2, hmodule, hlist, false_or, List.mem_map, String.toList_inj,
      exists_eq_right]

theorem oneLine_module : OneLine i.module ∧ i.module ≠ "" := by
  obtain ⟨⟨hchars, hne⟩, -⟩ : ((i.module.toList.all fun c => isLetter c || c == '.') = true ∧
      (!i.module.toList.isEmpty) = true) ∧ _ := by
    simpa only [NeatModule, isModule, Bool.and_eq_true] using h.module
  have hchar : ∀ c ∈ i.module.toList, isLetter c = true ∨ c = '.' := by
    intro c hc
    simpa using List.all_eq_true.mp hchars c hc
  refine ⟨⟨fun hmem => ?_, ?_⟩, by simpa using hne⟩
  · exact absurd (hchar _ hmem) (by decide)
  · rw [Option.all_eq_true]
    intro c hc
    rcases hchar c (List.mem_of_getLast? hc) with hletter | rfl
    · rw [isBlank_of_isLetter hletter]
      rfl
    · decide

theorem oneLine_row : OneLine i.row := by
  obtain ⟨hmodule, hne⟩ := h.oneLine_module
  by_cases hnames : i.names = []
  · rw [row_eq_plain hnames]
    exact OneLine.append (by decide) hmodule hne
  · obtain ⟨hlist, hlist_ne⟩ := oneLine_intercalate hnames h.names
    rw [row_eq_named hnames]
    refine OneLine.append ?_ hlist hlist_ne
    simp only [String.toList_append, List.mem_append, not_or]
    exact ⟨⟨by decide, hmodule.newline⟩, by decide⟩

theorem stays : Stays i.row.toList := by
  refine stays_of_last ?_ h.oneLine_row.newline h.oneLine_row.last
  obtain ⟨rest, hrow | hrow⟩ := row_cases i <;> rw [hrow] <;> rfl

/-- An import brings in the names that it lists. -/
theorem bringsIn_row {name : String} (hname : name ∈ formNames) :
    bringsIn name i.row.toList = i.names.contains name := by
  have hstart : trimStart i.row.toList = i.row.toList ∧ isImportLine i.row.toList = true ∧
      startsWith ("class " ++ name) i.row.toList = false ∧ startsWith ("def " ++ name ++ "(") i.row.toList = false := by
    simp only [startsWith, String.toList_append]
    obtain ⟨rest, hrow | hrow⟩ := row_cases i <;> rw [hrow] <;> exact ⟨rfl, rfl, rfl, rfl⟩
  obtain ⟨htrim, himport, hclass, hdef⟩ := hstart
  rw [bringsIn, htrim, himport, hclass, hdef, Bool.true_and, Bool.or_false, Bool.or_false, Bool.eq_iff_iff,
    List.contains_iff_mem, List.contains_iff_mem]
  exact h.mem_pieces hname

end Neat

/-! ### Imports that are wanted -/

theorem neat_collect {wanted : List (String × Option String)} (h : AllWanted NeatModule NeatName wanted) :
    ∀ i ∈ collect wanted, i.Neat :=
  fun i hi => ⟨(forall_collect h i hi).1, (forall_collect h i hi).2⟩

/-- Some import lists the name. -/
def Lists (imports : List Import) (name : String) : Prop := ∃ i ∈ imports, name ∈ i.names

theorem lists_cons {i : Import} {imports : List Import} {name : String} :
    Lists (i :: imports) name ↔ name ∈ i.names ∨ Lists imports name := by
  simp [Lists]

theorem lists_addName {module other name : String} {imports : List Import} (h : Lists imports name ∨ name = other) :
    Lists (addName module other imports) name := by
  induction imports with
  | nil =>
    rcases h with ⟨i, hi, -⟩ | rfl
    · cases hi
    · exact ⟨_, List.mem_singleton_self _, List.mem_singleton_self _⟩
  | cons i is ih =>
    rw [lists_cons] at h
    unfold addName
    split_ifs with hmodule hcontains
    · rcases h with h | rfl
      · exact lists_cons.mpr h
      · exact lists_cons.mpr (.inl (by simpa using hcontains))
    · rcases h with (h | h) | rfl
      · exact lists_cons.mpr (.inl (List.mem_append_left _ h))
      · exact lists_cons.mpr (.inr h)
      · exact lists_cons.mpr (.inl (List.mem_append_right _ (List.mem_singleton_self _)))
    · rcases h with (h | h) | h
      · exact lists_cons.mpr (.inl h)
      · exact lists_cons.mpr (.inr (ih (.inl h)))
      · exact lists_cons.mpr (.inr (ih (.inr h)))

/-- No name is lost when something is added, and a name that is added is listed. -/
theorem lists_add {w : String × Option String} {name : String} {imports : List Import}
    (h : Lists imports name ∨ w.2 = some name) : Lists (add imports w) name := by
  obtain ⟨module, other⟩ := w
  cases other with
  | none =>
    rcases h with ⟨i, hi, hname⟩ | h
    · simp only [add, addModule]
      split_ifs
      · exact ⟨i, hi, hname⟩
      · exact ⟨i, List.mem_append_left _ hi, hname⟩
    · cases h
  | some other => exact lists_addName (h.imp id fun he => (Option.some.inj he).symm)

/-- A name that is wanted is listed. -/
theorem lists_collect {wanted : List (String × Option String)} {name : String} (module : String)
    (h : (module, some name) ∈ wanted) : Lists (collect wanted) name := by
  -- what is listed stays listed, so the induction starts from any imports
  have hfold : ∀ imports : List Import, Lists imports name ∨ (module, some name) ∈ wanted →
      Lists (wanted.foldl add imports) name := by
    clear h
    induction wanted with
    | nil => exact fun imports himports => himports.resolve_right (by simp)
    | cons w ws ih =>
      intro imports himports
      refine ih _ ?_
      rcases himports with himports | hmem
      · exact .inl (lists_add (.inl himports))
      · rcases List.mem_cons.mp hmem with rfl | hmem
        · exact .inl (lists_add (.inr rfl))
        · exact .inr hmem
  exact hfold [] (.inr h)

end Import

namespace AllWanted

open Import

variable {module name : List Char} {wanted : List (String × Option String)}

theorem neatModule_text (h : isModule module = true) : NeatModule (String.ofList module) := by
  rwa [NeatModule, String.toList_ofList]

theorem neatModule (hmodule : isModule module = true) (h : AllWanted NeatModule NeatName wanted) :
    AllWanted NeatModule NeatName ((String.ofList module, none) :: wanted) :=
  consModule (neatModule_text hmodule) h

theorem neatName (h : isModule module = true ∧ name.all isLetter = true ∧ name ≠ [])
    (hwanted : AllWanted NeatModule NeatName wanted) :
    AllWanted NeatModule NeatName ((String.ofList module, some (String.ofList name)) :: wanted) := by
  obtain ⟨hmodule, hletters, hne⟩ := h
  refine consName (neatModule_text hmodule) ⟨wordy_text hletters, fun hempty => hne ?_⟩ hwanted
  simpa using congrArg String.toList hempty

end AllWanted

end AgentFlow.Python
