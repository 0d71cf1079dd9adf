import AgentFlow.Proofs.Framework.Form
import AgentFlow.Proofs.Python.Docstring

/-!
# What a tool is documented with

The function of a tool has the description of its node as its docstring. Compiling cleans the whole module, so the
docstring of the compiled function stands for what cleaning keeps of the description, with its line ends as they are
read in code: the description itself if no row of it but the last ends with a blank, no row between the first and the
last is a fence, and it holds no carriage return and no null character (`tool_docstring_iff`).
-/

namespace AgentFlow

open Python Source

/-! ### Blanks around a description -/

namespace Text

/-- Trimming a second time changes nothing. -/
theorem trim_trim (cs : List Char) : trim (trim cs) = trim cs := by
  obtain ⟨blanks, -, hcut⟩ := cutFrom_trimEnd (trimStart cs)
  have hstart : trimStart (trim cs) = trim cs := by
    cases htrim : trim cs with
    | nil => rfl
    | cons c rest =>
      -- the first character is not blank, since trimming from the left stopped at it
      have hhead := List.head?_dropWhile_not isBlank cs
      have hcs : trimStart cs = c :: (rest ++ blanks) := by
        rw [hcut]
        exact congrArg (· ++ blanks) htrim
      rw [show cs.dropWhile isBlank = trimStart cs from rfl, hcs, List.head?_cons] at hhead
      exact trimStart_of_head (by simpa using hhead)
  rw [trim, hstart]
  exact trimEnd_of_last (getLast?_trimEnd (trimStart cs))

/-- Taking away the blanks around it does not make a text blank. -/
theorem blank_strip {s : String} (h : blank s = false) : blank (strip s) = false := by
  obtain ⟨c, hc, hblank⟩ := List.all_eq_false.mp h
  refine List.all_eq_false.mpr ⟨c, ?_, hblank⟩
  rw [strip, String.toList_ofList]
  exact (isBlank_or_mem_trim hc).resolve_left hblank

end Text

/-! ### The declaration of a tool -/

/-- Every framework declares a function for each tool, with decorators of its own. -/
theorem exists_tool_decl (p : AgentPlan) (f : Framework) :
    ∃ decorators : List String, (∀ d ∈ decorators, Complete d) ∧
      ∀ t ∈ p.tools, Decl.tool (t.function decorators) ∈ (p.moduleFor f).decls := by
  have hmem : ∀ {decorators : List String} {t : ToolPlan}, t ∈ p.tools →
      Decl.tool (t.function decorators) ∈ p.tools.map fun t => Decl.tool (t.function decorators) :=
    fun ht => List.mem_map_of_mem ht
  have hone : ∀ {cs : List Char}, Bracket.Reader.start.read cs = some Bracket.Reader.start →
      ∀ d ∈ [String.ofList cs], Complete d :=
    fun hcs => List.forall_mem_singleton.mpr (complete_text hcs)
  cases f with
  | adk => exact ⟨[], by simp, fun t ht => by simp [AgentPlan.moduleFor, Adk.module, hmem ht]⟩
  | openAIAgents =>
    exact ⟨["function_tool"], hone (by decide), fun t ht => by
      simp [AgentPlan.moduleFor, OpenAIAgents.module, hmem ht]⟩
  | langGraph =>
    exact ⟨["tool"], hone (by decide), fun t ht => by simp [AgentPlan.moduleFor, LangGraph.module, hmem ht]⟩
  | customAgent => exact ⟨[], by simp, fun t ht => by simp [AgentPlan.moduleFor, Custom.module, hmem ht]⟩

/-- Decorators are lines of code, each complete by itself. -/
theorem complete_decorators {decorators : List String} (h : ∀ d ∈ decorators, Complete d) :
    Complete (joined (decorators.map ("@" ++ ·))) := by
  refine complete_join fun t ht => ?_
  obtain ⟨r, hr, rfl⟩ := List.mem_map.mp ht
  obtain ⟨d, hd, rfl⟩ := List.mem_map.mp hr
  exact (Complete.append (complete_text (by decide)) (h d hd)).append complete_newline

namespace ToolPlan

/-- The header of the function of a tool, up to its docstring. -/
def opening (t : ToolPlan) : String := "def " ++ t.ident ++ "(query: str) -> dict:\n    "

variable {t : ToolPlan}

/-- A description that is not blank becomes the docstring. -/
theorem doc?_function {text : String} (h : t.description = some text) (hblank : Text.blank text = false)
    (decorators : List String) : (Decl.tool (t.function decorators)).doc? = some text := by
  simp [Decl.doc?, function, Function.documented, h, hblank]

/-- Above its docstring the function has its decorators and its header. -/
theorem joined_upperRows (t : ToolPlan) (decorators : List String) :
    joined (Decl.tool (t.function decorators)).upperRows ++ "    " =
      joined (decorators.map ("@" ++ ·)) ++ t.opening := by
  have hrow : ∀ f : Function, f.isAsync = false → f.params = ["query: str"] → f.returns = some "dict" →
      f.headRow ++ "\n" ++ "    " = "def " ++ f.name ++ "(query: str) -> dict:\n    " := by
    intro f hasync hparams hreturns
    have hrest : "(" ++ (", ".intercalate ["query: str"] ++ (")" ++ (resultText (some "dict") ++
        (":" ++ ("\n" ++ "    "))))) = "(query: str) -> dict:\n    " := by decide
    rw [Function.headRow, hasync, hparams, hreturns, ← hrest]
    simp only [Bool.false_eq_true, if_false, String.append_assoc]
  -- a docstring does not change the header
  have hhead : (t.function decorators).headRow ++ "\n" ++ "    " = t.opening := by
    unfold function Function.documented
    split_ifs <;> exact hrow _ rfl rfl rfl
  have hdecorators : (t.function decorators).decorators = decorators := by
    unfold function Function.documented
    split_ifs <;> rfl
  show joined ((t.function decorators).decorators.map ("@" ++ ·) ++ [(t.function decorators).headRow]) ++ "    " = _
  rw [joined_append, hdecorators, String.append_assoc, ← hhead]
  simp [joined]

end ToolPlan

/-! ### The docstring of a tool -/

/-- The tools are planned in the order of their nodes. -/
theorem AgentPlan.getElem?_tools {g : Graph} {i : Nat} {n : Node} (h : (g.ofKind .tool)[i]? = some n)
    (configs : List LaunchConfig) : ∃ ident, (AgentPlan.build g configs).tools[i]? = some (Plan.planTool n ident) := by
  obtain ⟨hi, -⟩ := List.getElem?_eq_some_iff.mp h
  have hident : i < (Plan.toolIdents g).1.length := (Plan.length_toolIdents g).symm ▸ hi
  refine ⟨(Plan.toolIdents g).1[i], ?_⟩
  have hzip : ((g.ofKind .tool).zip (Plan.toolIdents g).1)[i]? = some (n, (Plan.toolIdents g).1[i]) :=
    List.getElem?_zip_eq_some.mpr ⟨h, List.getElem?_eq_getElem hident⟩
  rw [AgentPlan.tools_build, List.getElem?_map, hzip]
  rfl

section Compiled

variable {c : Compiler} {i : Nat} {n : Node} {text : String}

open AgentFlow.Bracket.Reader in
/-- The function of a tool that is described stands in the code behind whole lines of code, and its docstring is a
literal of what cleaning keeps of the description. -/
theorem Compiler.exists_tool_docLiteral (hn : (c.graph.ofKind .tool)[i]? = some n) (htext : n.description = some text)
    (hblank : Text.blank text = false) :
    ∃ t, c.plan.tools[i]? = some t ∧ t.nodeId = n.id ∧ ∃ before after,
      c.compile.code.toList =
        before ++ t.opening.toList ++ docLiteral (keptDoc (Text.trim text.toList)) ++ '\n' :: after ∧
      Text.WholeLines before ∧ start.read before = some start := by
  obtain ⟨ident, ht⟩ := AgentPlan.getElem?_tools hn c.launchConfigs
  refine ⟨Plan.planTool n ident, ht, rfl, ?_⟩
  obtain ⟨decorators, hcomplete, hdecls⟩ := exists_tool_decl c.plan c.framework
  have hdescription : (Plan.planTool n ident).description = some (Text.strip text) := by
    simp [Plan.planTool, Text.stripped, Text.nonBlank, htext, hblank]
  have hdoc := ToolPlan.doc?_function hdescription (Text.blank_strip hblank) decorators
  obtain ⟨before, after, hcode, hlines, hread⟩ := Module.exists_docLiteral c.plain_module.steady c.tidy_module
    (hdecls _ (List.mem_of_getElem? ht)) hdoc
  refine ⟨before ++ (joined (decorators.map ("@" ++ ·))).toList, after, ?_, ?_, ?_⟩
  · -- a description is trimmed once for the plan and once for its docstring
    have htrim : Text.trim (Text.strip text).toList = Text.trim text.toList := by
      rw [Text.strip, String.toList_ofList, Text.trim_trim]
    rw [ToolPlan.joined_upperRows, htrim, String.toList_append, ← List.append_assoc] at hcode
    exact hcode
  · rw [toList_joined]
    exact hlines.append (Text.wholeLines_unlines _)
  · rw [read_append, hread]
    exact (complete_decorators hcomplete).read

open AgentFlow.Bracket.Reader in
/-- **What a tool is documented with.** The function of a tool that is described stands in the code behind whole lines
of code. Its docstring is one literal. If cleaning keeps no null character of the description without the blanks around
it, the docstring stands for what cleaning keeps, with its line ends as they are read. So it stands for the description
itself exactly if no row but the last ends with a blank, none between the first and the last is a fence, and there is no
carriage return and no null character in it. -/
theorem tool_docstring_iff (named : List Char → Option Char) (hn : (c.graph.ofKind .tool)[i]? = some n)
    (htext : n.description = some text) (hblank : Text.blank text = false) :
    ∃ t, c.plan.tools[i]? = some t ∧ t.nodeId = n.id ∧ ∃ before doc after,
      c.compile.code.toList = before ++ t.opening.toList ++ doc ++ '\n' :: after ∧
      Text.WholeLines before ∧ start.read before = some start ∧ (∃ inner, Enclosed true doc inner) ∧
      (∀ value, Denotes named true doc value ↔
        '\x00' ∉ keptDoc (Text.trim text.toList) ∧ value = Literal.newlined (keptDoc (Text.trim text.toList))) ∧
      (Denotes named true doc (Text.trim text.toList) ↔
        Unmarred ((Text.trim text.toList).splitOn '\n') ∧
          '\r' ∉ Text.trim text.toList ∧ '\x00' ∉ Text.trim text.toList) := by
  obtain ⟨t, ht, hid, before, after, hcode, hlines, hread⟩ := Compiler.exists_tool_docLiteral hn htext hblank
  refine ⟨t, ht, hid, before, _, after, hcode, hlines, hread, ⟨_, enclosed_docLiteral _⟩,
    fun value => denotes_docLiteral_iff, ?_⟩
  exact denotes_docLiteral_keptDoc_iff

end Compiled

/-- A tool whose description has a list. -/
def listTool : Node where
  id := "t"
  kind := .tool
  label := "Search"
  description := some "Looks up:\n- words\n- names"

theorem tool_docstring_iff_listTool :
    ∃ t, (Compiler.ofGraph ⟨[listTool], []⟩ .langGraph).plan.tools[0]? = some t ∧ t.nodeId = "t" ∧
      ∃ before doc after,
        (Compiler.ofGraph ⟨[listTool], []⟩ .langGraph).compile.code.toList =
          before ++ t.opening.toList ++ doc ++ '\n' :: after ∧
        Denotes (fun _ => none) true doc "Looks up:\n- words\n- names".toList := by
  obtain ⟨t, ht, hid, before, doc, after, hcode, -, -, -, hdenotes, -⟩ :=
    tool_docstring_iff (c := Compiler.ofGraph ⟨[listTool], []⟩ .langGraph) (i := 0) (n := listTool) (fun _ => none)
      rfl rfl (by decide)
  exact ⟨t, ht, hid, before, doc, after, hcode, (hdenotes _).mpr (by decide)⟩

/-- An agent and a tool whose description shows how to use it. -/
def usageGraph : Graph where
  nodes := [{ id := "a", kind := .agent, label := "Helper" },
    { id := "t", kind := .tool, label := "Search", description := some "Usage:\n```\nsearch\n```\nDone" }]
  edges := []

open AgentFlow.Bracket.Reader in
/-- The fences of a description are lost. -/
theorem description_loses_fences : ∃ before doc after,
    (Compiler.ofGraph usageGraph .adk).compile.code.toList =
      before ++ "def search(query: str) -> dict:\n    ".toList ++ doc ++ '\n' :: after ∧
    start.read before = some start ∧ ∀ named, Denotes named true doc "Usage:\nsearch\nDone".toList ∧
      ¬ Denotes named true doc "Usage:\n```\nsearch\n```\nDone".toList := by
  obtain ⟨t, ht, -, before, after, hcode, -, hread⟩ :=
    Compiler.exists_tool_docLiteral (c := Compiler.ofGraph usageGraph .adk) (i := 0) rfl rfl (by decide)
  have hopening : t.opening = "def search(query: str) -> dict:\n    " := by
    obtain rfl := Option.some.inj ht
    decide
  have hkept : keptDoc (Text.trim "Usage:\n```\nsearch\n```\nDone".toList) = "Usage:\nsearch\nDone".toList := by decide
  rw [hopening, hkept] at hcode
  refine ⟨before, _, after, hcode, hread, fun named => ?_⟩
  rw [denotes_docLiteral_iff, denotes_docLiteral_iff]
  decide

end AgentFlow
