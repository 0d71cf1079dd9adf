import AgentFlow.Proofs.Framework.Brackets
import AgentFlow.Proofs.Plan.Names
import AgentFlow.Proofs.Python.Form

/-!
# When generated code passes the checks of form

The checks of form read code line by line and do not know what a literal is. Text of users reaches a module in
docstrings, where it may take lines of its own, and in literals, which stay on one line. So the code that is compiled of
a graph passes the checks exactly if no line of a docstring looks like a fence or like a header without a colon, and
every name that a docstring or a literal seems to call is imported or seems to be brought in (`compile_passes_iff`).
-/

namespace AgentFlow

open Python Text AgentFlow.Symbol Detect
open Python.Expr (kw kw? says_str says_word says_ident says_raw says_list says_dict says_call says_otherCall says_strs
  says_idents says_strDict)

/-! ### Plans -/

/-- What names are made of, words are made of. -/
theorem Naming.WordLike.wordy {s : String} (h : Naming.WordLike s) : Wordy s := by
  intro c hc
  have hclass : isLetter c = (c.isUpper || Naming.isNameChar c) := by
    show (c.isUpper || c.isLower || c.isDigit || decide (c = '_')) = _
    simp only [Naming.isNameChar, Bool.or_assoc]
  rw [hclass, h c hc, Bool.or_true]

/-- The names of a plan are words, and its identifiers can be bound and are not withheld. -/
structure AgentPlan.Named (p : AgentPlan) : Prop where
  agentName : Wordy p.agentName
  idents : ∀ ident ∈ p.idents, Wordy ident ∧ Naming.Usable ident ∧ Plan.withheld ident = false
  boundTools : p.boundTools ⊆ p.tools.map (·.ident)

/-- Every plan that is built has such names. -/
theorem AgentPlan.named_build (g : Graph) (configs : List LaunchConfig) : (build g configs).Named where
  agentName := by
    have hplaceholder : Wordy "placeholder_agent" := wordy_text (by decide)
    -- without an agent the name is a fixed one
    cases hagent : g.firstOfKind .agent with
    | none =>
      simp only [build, hagent]
      exact hplaceholder
    | some a =>
      simp only [build, hagent]
      exact (Naming.wordLike_identifier a.label "agent").wordy
  idents ident hident := by
    have hword := wordLike_build g configs
    refine ⟨?_, usable_build g configs ident hident, (separate_build g configs).free ident hident⟩
    rcases List.mem_append.mp hident with hident | hident
    · obtain ⟨t, ht, rfl⟩ := List.mem_map.mp hident
      exact (hword.tools t ht).wordy
    · obtain ⟨t, ht, rfl⟩ := List.mem_map.mp hident
      exact (hword.toolsets t ht).wordy
  boundTools := boundTools_subset g configs

/-- The texts of how a tool server is launched. -/
def ToolsetPlan.launchTexts (t : ToolsetPlan) : List String :=
  [t.config.command] ++ t.config.args ++ t.config.env.entries.flatMap fun e => [e.1, e.2]

/-- The texts of a tool server that a module has as literals. -/
def ToolsetPlan.texts (t : ToolsetPlan) (f : Framework) : List String :=
  t.launchTexts ++ t.config.toolFilter ++ (if f = .openAIAgents ∨ f = .customAgent then [t.config.package] else [])

/-- The texts of the agent itself that a module has as literals. -/
def AgentPlan.agentTexts (p : AgentPlan) (f : Framework) : List String :=
  [p.modelFor f, p.instructionText] ++ (if f = .langGraph then [] else p.description.toList)

/-- The texts of a plan that a module has as literals. -/
def AgentPlan.texts (p : AgentPlan) (f : Framework) : List String :=
  p.tools.map (·.title) ++ p.toolsets.flatMap (·.texts f) ++ p.agentTexts f

theorem AgentPlan.ident_mem_idents {p : AgentPlan} {t : ToolPlan} (ht : t ∈ p.tools) : t.ident ∈ p.idents :=
  List.mem_append_left _ (List.mem_map_of_mem ht)

theorem AgentPlan.toolsetIdent_mem_idents {p : AgentPlan} {t : ToolsetPlan} (ht : t ∈ p.toolsets) :
    t.ident ∈ p.idents :=
  List.mem_append_right _ (List.mem_map_of_mem ht)

namespace AgentPlan.Named

variable {p : AgentPlan} (h : p.Named)

include h

/-- No identifier is a name that the checks of form go by. -/
theorem not_form {ident : String} (hident : ident ∈ p.idents) : ident ∉ formNames := by
  have hall : formNames.all Plan.withheld = true := by decide
  intro hform
  have hfree := (h.idents ident hident).2.2
  rw [List.all_eq_true.mp hall ident hform] at hfree
  cases hfree

/-- An identifier may stand before an equals sign. -/
theorem not_lead {ident : String} (hident : ident ∈ p.idents) : ident ≠ "" ∧ ident ∉ leadWords := by
  have hall : leadWords.all Naming.keywords.contains = true := by decide
  obtain ⟨hne, hkeyword⟩ := (h.idents ident hident).2.1
  refine ⟨hne, fun hlead => hkeyword ?_⟩
  simpa using List.all_eq_true.mp hall ident hlead

theorem wordy_boundTools : ∀ ident ∈ p.boundTools, Wordy ident :=
  fun ident hident => (h.idents ident (List.mem_append_left _ (h.boundTools hident))).1

theorem wordy_toolsetIdents : ∀ ident ∈ p.toolsetIdents, Wordy ident :=
  fun ident hident => (h.idents ident (List.mem_append_right _ hident)).1

end AgentPlan.Named

/-! ### Shared parts -/

/-- The declarations have plain rows. -/
def PlainDecls (names ts : List String) (ds : List Decl) : Prop := Python.Plain names ts (ds.flatMap Decl.rows)

section Shared

variable {p : AgentPlan} {names ts us : List String}

namespace PlainDecls

theorem append {ds es : List Decl} (hds : PlainDecls names ts ds) (hes : PlainDecls names us es) :
    PlainDecls names (ts ++ us) (ds ++ es) := by
  rw [PlainDecls, List.flatMap_append]
  exact Python.Plain.append hds hes

theorem appendSilent {ds es : List Decl} (hds : PlainDecls names ts ds) (hes : PlainDecls names [] es) :
    PlainDecls names ts (ds ++ es) :=
  List.append_nil ts ▸ hds.append hes

theorem afterSilent {ds es : List Decl} (hds : PlainDecls names [] ds) (hes : PlainDecls names ts es) :
    PlainDecls names ts (ds ++ es) :=
  hds.append hes

theorem single {d : Decl} (hd : Python.Plain names ts d.rows) : PlainDecls names ts [d] := by
  rwa [PlainDecls, List.flatMap_singleton]

theorem cons {d : Decl} {ds : List Decl} (hd : Python.Plain names ts d.rows) (hds : PlainDecls names [] ds) :
    PlainDecls names ts (d :: ds) :=
  (single hd).appendSilent hds

theorem ite {ds : List Decl} (c : Prop) [Decidable c] (hds : PlainDecls names [] ds) :
    PlainDecls names [] (if c then ds else []) := by
  split_ifs
  · exact hds
  · exact Python.Plain.nil

/-- One declaration for each of a list. -/
theorem map {α : Type} {xs : List α} {decl : α → Decl} {said : α → List String}
    (h : ∀ x ∈ xs, Python.Plain names (said x) (decl x).rows) :
    PlainDecls names (xs.flatMap said) (xs.map decl) := by
  rw [PlainDecls, List.flatMap_map]
  exact Python.Plain.flatMap h

end PlainDecls

/-- A function like those of tools has its decorators, one header and its body. -/
theorem rows_query {f : Function} (hasync : f.isAsync = false) (hparams : f.params = ["query: str"])
    (hreturns : f.returns = some "dict") (hbody : f.body.isEmpty = false) :
    (Decl.tool f).rows =
      f.decorators.map ("@" ++ ·) ++ ["def " ++ f.name ++ String.ofList queryRest] ++ indentedRows 1 f.body := by
  have hhead : f.headRow = "def " ++ f.name ++ String.ofList queryRest := by
    have hrest : "(" ++ (", ".intercalate ["query: str"] ++ (")" ++ (resultText (some "dict") ++ ":"))) =
        String.ofList queryRest := by decide
    rw [Function.headRow, hasync, hparams, hreturns, ← hrest]
    simp only [Bool.false_eq_true, if_false, String.append_assoc]
  show f.decorators.map ("@" ++ ·) ++ [f.headRow]
    ++ ((if f.doc.isNone && f.body.isEmpty then [indent 1 ++ "pass"] else []) ++ indentedRows 1 f.body) = _
  rw [hhead, hbody, Bool.and_false]
  rfl

/-- A docstring makes no difference to the rows of code. -/
theorem rows_function (t : ToolPlan) (decorators : List String) :
    (Decl.tool (t.function decorators)).rows =
      decorators.map ("@" ++ ·) ++ ["def " ++ t.ident ++ String.ofList queryRest]
        ++ indentedRows 1
          ["return \x7b\"status\": \"success\", \"tool\": " ++ quote t.title ++ ", \"query\": query\x7d"] := by
  unfold ToolPlan.function Function.documented
  split_ifs <;> exact rows_query rfl rfl rfl rfl

theorem quiet_prompt : Quiet (quote Plan.samplePrompt) := quiet_quote (by decide)

theorem wordy_agentBinding : Wordy Plan.agentBinding := wordy_text (by decide)

variable (hnames : names ⊆ formNames)

include hnames

/-- The functions of the tools say their titles. -/
theorem plain_tools {decorators : List String} (h : p.Named)
    (hdecorators : p.tools ≠ [] → Python.Plain names [] (decorators.map ("@" ++ ·))) :
    PlainDecls names (p.tools.map (·.title)) (p.tools.map fun t => .tool (t.function decorators)) := by
  have hsaid : p.tools.map (·.title) = p.tools.flatMap fun t => [t.title] := List.map_eq_flatMap
  rw [hsaid]
  refine PlainDecls.map fun t ht => ?_
  have hident := AgentPlan.ident_mem_idents ht
  have hhead := Python.Plain.query hnames (h.idents _ hident).1 (h.not_form hident)
  rw [rows_function]
  refine ((hdecorators (List.ne_nil_of_mem ht)).append hhead).append (.indented hnames ?_ 1)
  exact .quoted hnames (by decide) t.title

/-- The bindings of the toolsets say what their values do. -/
theorem plain_toolsets {value : ToolsetPlan → Expr} {said : ToolsetPlan → List String} (h : p.Named)
    (hvalue : ∀ t ∈ p.toolsets, (value t).Says names (said t) ∧ (value t).layout ≠ .atom "") :
    PlainDecls names (p.toolsets.flatMap said) (p.toolsets.map fun t => .assign t.ident .protocol (value t)) := by
  refine PlainDecls.map fun t ht => ?_
  have hident := AgentPlan.toolsetIdent_mem_idents ht
  exact .assign .protocol hnames (h.idents _ hident).1 (h.not_lead hident) (hvalue t ht).1 (hvalue t ht).2

/-- A binding of a fixed name. -/
theorem plain_binding {x : List Char} {callee : String} {args : List (Option String × Expr)} (role : Role)
    (hx : x.all isLetter = true) (hlead : String.ofList x ≠ "" ∧ String.ofList x ∉ leadWords)
    (h : (Expr.call callee args).Says names ts) :
    Python.Plain names ts (Decl.assign (String.ofList x) role (.call callee args)).rows :=
  .assign role hnames (wordy_text hx) hlead h (by simp [Expr.layout])

omit hnames in
/-- The arguments of an agent that is told its instruction and its description, whatever these are called. -/
theorem argsSay_agent {instruction description : List Char} {last : List (Option String × Expr)} (model : String)
    (h : p.Named) (hinstruction : instruction.all isLetter = true) (hdescription : description.all isLetter = true)
    (hlast : ArgsSay names last []) :
    ArgsSay names
      (kw "name" (.str p.agentName) ++ kw "model" (.str model)
        ++ kw (String.ofList instruction) (.str p.instructionText)
        ++ kw? (String.ofList description) (p.description.map .str) ++ kw "tools" (.idents p.boundTools) ++ last)
      ([model] ++ [p.instructionText] ++ p.description.toList) := by
  refine .appendSilent (.appendSilent (.append (.append (.afterSilent ?_ ?_) ?_) ?_) ?_) hlast
  · exact .kw (by decide) (says_word h.agentName)
  · exact .kw (by decide) (says_str _)
  · exact .kw hinstruction (says_str _)
  · exact .kwText? hdescription
  · exact .kw (by decide) (says_idents h.wordy_boundTools)

/-- The entries of a tool server say how it is launched. -/
theorem itemsSay_launch (t : ToolsetPlan) {rest : List (String × Expr)}
    (hrest : ItemsSay names (layoutEntries rest) ts) :
    ItemsSay names (layoutEntries ([("command", .str t.config.command), ("args", .strs t.config.args),
      ("env", .strDict t.config.env.entries)] ++ rest)) (t.launchTexts ++ ts) := by
  have hcommand : Wordy "command" := wordy_text (by decide)
  have hargs : Wordy "args" := wordy_text (by decide)
  have henv : Wordy "env" := wordy_text (by decide)
  have hentries := ItemsSay.consEntry hcommand (says_str t.config.command) (.consEntry hargs (says_strs t.config.args)
    (.consEntry henv (says_strDict hnames t.config.env.entries) hrest))
  rwa [ToolsetPlan.launchTexts, List.append_assoc, List.append_assoc]

/-- The name that is exported is not one that is looked for. -/
theorem plain_exportDecl : PlainDecls names [] [Plan.exportDecl] := by
  have hall : Wordy "__all__" := wordy_text (by decide)
  refine .single (Python.Plain.unsaid ?_ wordy_agentBinding.isQuiet_quote)
  exact .assign .support hnames hall (by decide) (says_strs _) (by simp [Expr.strs, Expr.layout])

theorem plain_mainFunction {body : List String} (h : Python.Plain names ts (indentedRows 1 body)) :
    Python.Plain names ts (Decl.function (Plan.mainFunction body)).rows := by
  have hhead : Python.Plain names [] ["async def main():"] := .fixed hnames (by decide) .nil
  exact hhead.append h

theorem plain_entryPoint {body : List String} (hbody : body ≠ []) (h : Python.Plain names ts (indentedRows 1 body)) :
    Python.Plain names ts (Decl.entryPoint body).rows := by
  have hhead : Python.Plain names [] ["if __name__ == \"__main__\":"] := .fixed hnames (by decide) .nil
  have hrows : (Decl.entryPoint body).rows = ["if __name__ == \"__main__\":"] ++ indentedRows 1 body := by
    show ["if __name__ == \"__main__\":"] ++ (if body.isEmpty then [indent 1 ++ "pass"] else []) ++ indentedRows 1 body
      ++ [] = _
    rw [if_neg (by simpa using hbody), List.append_nil, List.append_nil]
  rw [hrows]
  exact hhead.append h

/-- The agent is bound and exported, and a program follows. -/
theorem plain_agentProgram {callee : String} {args : List (Option String × Expr)} {body : List String}
    (hagent : (Expr.call callee args).Says names ts) (hbody : EndsSolid body) (h : Python.Plain names [] body) :
    PlainDecls names ts [.assign Plan.agentBinding .agent (.call callee args), Plan.exportDecl, .entryPoint body] := by
  refine .cons (plain_binding hnames .agent (by decide) (by decide) hagent) ?_
  refine .appendSilent (plain_exportDecl hnames) (.single ?_)
  exact plain_entryPoint hnames hbody.ne_nil (.indented hnames h 1)

theorem plain_runMain : Python.Plain names [] (Decl.entryPoint [Plan.runMain]).rows :=
  plain_entryPoint hnames (by simp) (.indented hnames (.fixed hnames (by decide) .nil) 1)

end Shared

/-! ### The Agent Development Kit -/

namespace Adk

variable {p : AgentPlan} {names : List String} (hnames : names ⊆ formNames)

include hnames

/-- A toolset says how its server is launched and which tools it may use. -/
theorem says_toolset (t : ToolsetPlan) : (toolset t).Says names (t.texts .adk) := by
  have htexts : t.texts .adk = t.launchTexts ++ t.config.toolFilter := List.append_nil _
  rw [htexts]
  refine says_otherCall hnames (by decide) (by decide)
    (.append (.kw (by decide) ?_) (.kwUnless (by decide) List.isEmpty_iff.mp (says_strs _)))
  refine says_otherCall hnames (by decide) (by decide) (.kw (by decide) ?_)
  refine says_otherCall hnames (by decide) (by decide) (.append (.append ?_ ?_) ?_)
  · exact .kw (by decide) (says_str _)
  · exact .kw (by decide) (says_strs _)
  · exact .kw (by decide) (says_strDict hnames _)

/-- The agent says its model, its description and its instruction. -/
theorem says_agent (h : p.Named) (hagent : "LlmAgent" ∉ names) :
    (agent p).Says names (p.agentTexts .adk) := by
  have hidents := List.forall_mem_append.mpr ⟨h.wordy_boundTools, h.wordy_toolsetIdents⟩
  -- the description comes before the instruction here
  have htexts : ∀ t, t ∈ [p.modelFor .adk] ++ p.description.toList ++ [p.instructionText] ↔ t ∈ p.agentTexts .adk := by
    intro t
    simp [AgentPlan.agentTexts]
    tauto
  refine .congr ?_ htexts
  refine says_call hnames (by decide) hagent (.appendSilent (.append (.append (.afterSilent ?_ ?_) ?_) ?_) ?_)
  · exact .kw (by decide) (says_word h.agentName)
  · exact .kw (by decide) (says_str _)
  · exact .kwText? (by decide)
  · exact .kw (by decide) (says_str _)
  · exact .kw (by decide) (says_idents hidents)

theorem says_runner (h : p.Named) : (runner p).Says names [] := by
  have hservice : Wordy "session_service" := wordy_text (by decide)
  have hmemory : Wordy "memory_service" := wordy_text (by decide)
  refine says_otherCall hnames (by decide) (by decide) (.appendSilent (.appendSilent (.appendSilent ?_ ?_) ?_) ?_)
  · exact .kw (by decide) (says_ident wordy_agentBinding)
  · exact .kw (by decide) (says_word h.agentName)
  · exact .kw (by decide) (says_ident hservice)
  · exact .kwIf (by decide) (fun _ => rfl) (says_ident hmemory)

omit hnames in
theorem quiet_sessionArgs (h : p.Named) : Quiet (sessionArgs p) := by
  have huser : Wordy "user" := wordy_text (by decide)
  have hlead : Quiet "app_name=" := quiet_text (by decide)
  exact ((hlead.append h.agentName.quiet_quote).append (quiet_text (by decide))).append huser.quiet_quote

theorem plain_eventLoop {loop : String} (hloop : isFixed (loop ++ ":").toList = true) :
    Python.Plain names [] (eventLoop p loop) := by
  refine .appendSilent (.appendSilent (.closed hnames hloop .nil) (.ite _ ?_)) ?_
  · exact .fixed hnames (by decide) .nil
  · exact .fixed hnames (by decide) (.fixed hnames (by decide) .nil)

theorem plain_messageLine : Python.Plain names [] [messageLine] :=
  .quietly hnames (by decide) quiet_prompt .nil

/-- The lines of the main function have no text of users but identifiers. -/
theorem plain_mainBody (h : p.Named) : Python.Plain names [] (indentedRows 1 (mainBody p)) := by
  rw [mainBody, indentedRows_append, indentedRows_append, indentedRows_append, indentedRows_shifted]
  -- the opening, the loop, the end of the attempt and a line for each toolset
  refine .appendSilent (.appendSilent (.appendSilent ?_ ?_) ?_) ?_
  · have hsession : Python.Plain names [] ["session = await session_service.create_session(" ++ sessionArgs p ++ ")"] :=
      .quietly hnames (by decide) (quiet_sessionArgs h) .nil
    have hrest : Python.Plain names [] ["try:"] := .fixed hnames (by decide) .nil
    exact .indented hnames (hsession.append ((plain_messageLine hnames).append hrest)) 1
  · exact .indented hnames (plain_eventLoop hnames (by decide)) 2
  · exact .indented hnames (.fixed hnames (by decide) .nil) 1
  · refine .indented hnames (.map fun ident hident => ?_) 1
    exact .quietly hnames (by decide) (h.wordy_toolsetIdents ident hident).quiet .nil

theorem plain_program (h : p.Named) : PlainDecls names [] (program p) := by
  unfold program
  split_ifs
  · refine .single (plain_entryPoint hnames (by simp) (.indented hnames ?_ 1))
    have hsession : Python.Plain names [] ["session = session_service.create_session_sync(" ++ sessionArgs p ++ ")"] :=
      .quietly hnames (by decide) (quiet_sessionArgs h) .nil
    exact (hsession.append (plain_messageLine hnames)).append (plain_eventLoop hnames (by decide))
  · exact .cons (plain_mainFunction hnames (plain_mainBody hnames h)) (.single (plain_runMain hnames))

omit hnames in
/-- What the module says is what the plan has as literals. -/
theorem plain_module (h : p.Named) (hprogram : EndsInProgram (module p).decls) :
    (module p).Plain (p.texts .adk) where
  header := rfl
  imports := by
    refine Import.neat_collect ?_
    simp only [allWanted_append, and_assoc]
    refine ⟨.ite _ ?_ .nil, ?_, .ite _ ?_ .nil, ?_, .ite _ ?_ .nil⟩
    · exact .neatModule (by decide) .nil
    · exact .neatName (by decide) (.neatName (by decide) (.neatName (by decide) .nil))
    · exact .neatName (by decide) .nil
    · exact .neatName (by decide) .nil
    · exact .neatName (by decide) (.neatName (by decide) (.neatName (by decide) .nil))
  decls := by
    have hnames := (module p).missing_subset
    -- the name of the agent class is imported, so it is not among those that are missing
    have hagent : "LlmAgent" ∉ (module p).missing :=
      Module.not_mem_missing (Import.lists_collect "google.adk.agents" (by simp))
    refine PlainDecls.appendSilent (.appendSilent (.appendSilent (.append (.append (.appendSilent ?_ (.ite _ ?_)) ?_)
      ?_) (.ite _ ?_)) ?_) (plain_program hnames h)
    · exact plain_tools hnames h fun _ => .nil
    · exact .single (.closed hnames (by decide) .nil)
    · exact plain_toolsets hnames h fun t _ => ⟨says_toolset hnames t, by simp [toolset, Expr.layout]⟩
    · refine .cons (plain_binding hnames .agent (by decide) (by decide) (says_agent hnames h hagent)) (.single ?_)
      exact plain_binding hnames .support (by decide) (by decide) (says_otherCall hnames (by decide) (by decide) .nil)
    · refine .single ?_
      exact plain_binding hnames .support (by decide) (by decide) (says_otherCall hnames (by decide) (by decide) .nil)
    · refine .cons (plain_binding hnames .support (by decide) (by decide) (says_runner hnames h)) ?_
      exact plain_exportDecl hnames
  program := hprogram

end Adk

/-! ### The Agents SDK -/

namespace OpenAIAgents

variable {p : AgentPlan} {names : List String} (hnames : names ⊆ formNames)

include hnames

theorem says_server (t : ToolsetPlan) : (server t).Says names (t.texts .openAIAgents) := by
  have htexts : ∀ s, s ∈ [t.config.package] ++ (t.launchTexts ++ []) ++ t.config.toolFilter ↔
      s ∈ t.texts .openAIAgents := by
    intro s
    simp [ToolsetPlan.texts]
    tauto
  refine .congr ?_ htexts
  refine says_otherCall hnames (by decide) (by decide) (.append (.append ?_ ?_) (.kwUnless (by decide) ?_ ?_))
  · exact .kw (by decide) (says_str _)
  · exact .kw (by decide) (says_dict (itemsSay_launch hnames t .nil))
  · exact List.isEmpty_iff.mp
  · exact says_otherCall hnames (by decide) (by decide) (.kw (by decide) (says_strs _))

theorem says_agent (h : p.Named) : (agent p).Says names (p.agentTexts .openAIAgents) :=
  says_otherCall hnames (by decide) (by decide) (argsSay_agent _ h (by decide) (by decide)
    (.kwUnless (by decide) (fun _ => rfl) (says_idents h.wordy_toolsetIdents)))

/-- The lines that run the agent say nothing. -/
theorem plain_runLines (h : p.Named) : Python.Plain names [] (runLines p) := by
  have hsession : Python.Plain names [] ["session = SQLiteSession(" ++ quote p.agentName ++ ")"] :=
    .quietly hnames (by decide) h.agentName.quiet_quote .nil
  have hsaid : Quiet (Plan.agentBinding ++ ", " ++ quote Plan.samplePrompt
      ++ (if p.capabilities.memory then ", session=session" else "")) := by
    refine ((wordy_agentBinding.quiet.append (quiet_text (by decide))).append quiet_prompt).append ?_
    split_ifs <;> exact quiet_text (by decide)
  refine .appendSilent (.appendSilent (.ite _ hsession) ?_) (.fixed hnames (by decide) .nil)
  -- one call or the other, with the same arguments
  by_cases hevents : p.capabilities.events = true
  · rw [if_pos hevents, ← String.append_assoc]
    exact .quietly hnames (by decide) hsaid (.fixed hnames (by decide) (.fixed hnames (by decide) .nil))
  · rw [if_neg hevents, ← String.append_assoc]
    exact .quietly hnames (by decide) hsaid .nil

theorem plain_mainBody (h : p.Named) : Python.Plain names [] (indentedRows 1 (mainBody p)) := by
  unfold mainBody
  split_ifs
  · exact .indented hnames (plain_runLines hnames h) 1
  · rw [indentedRows_append, indentedRows_shifted]
    refine .appendSilent (.indented hnames ?_ 1) (.indented hnames (plain_runLines hnames h) 2)
    refine .fixed hnames (by decide) (.closed hnames (by decide) ?_)
    exact .fixed hnames (by decide) .nil

/-- Tools are decorated, and the decorator is imported where there are tools. -/
theorem plain_decorator (hdecorator : "function_tool" ∉ names) :
    Python.Plain names [] (["function_tool"].map ("@" ++ ·)) where
  inert := by decide
  calls name hname := by
    have hall : formNames.all (fun name => name == "function_tool" || !calls name ("@" ++ "function_tool")) = true := by
      decide
    have hne : name ≠ "function_tool" := fun heq => hdecorator (heq ▸ hname)
    simpa [hne] using List.all_eq_true.mp hall name (hnames hname)

omit hnames in
theorem plain_module (h : p.Named) (hprogram : EndsInProgram (module p).decls) :
    (module p).Plain (p.texts .openAIAgents) where
  header := rfl
  imports := by
    refine Import.neat_collect ?_
    simp only [allWanted_append, and_assoc]
    refine ⟨?_, .ite _ ?_ .nil, ?_, .ite _ .nil ?_, .ite _ ?_ .nil, .ite _ ?_ .nil, .ite _ ?_ .nil⟩
    · exact .neatModule (by decide) .nil
    · exact .neatName (by decide) .nil
    · exact .neatName (by decide) (.neatName (by decide) .nil)
    · exact .neatName (by decide) .nil
    · exact .neatName (by decide) .nil
    · exact .neatName (by decide) .nil
    · exact .neatName (by decide) .nil
  decls := by
    have hnames := (module p).missing_subset
    have hdecorator (htools : p.tools ≠ []) : "function_tool" ∉ (module p).missing :=
      Module.not_mem_missing (Import.lists_collect "agents" (by simp [htools]))
    refine PlainDecls.append (.append ?_ ?_) ?_
    · exact plain_tools hnames h fun htools => plain_decorator hnames (hdecorator htools)
    · exact plain_toolsets hnames h fun t _ => ⟨says_server hnames t, by simp [server, Expr.layout]⟩
    · refine .cons (plain_binding hnames .agent (by decide) (by decide) (says_agent hnames h)) ?_
      refine .appendSilent (plain_exportDecl hnames) (.cons ?_ (.single (plain_runMain hnames)))
      exact plain_mainFunction hnames (plain_mainBody hnames h)
  program := hprogram

end OpenAIAgents

/-! ### LangGraph -/

namespace LangGraph

variable {p : AgentPlan} {names : List String} (hnames : names ⊆ formNames)

include hnames

/-- The client says how each server is launched. -/
theorem says_client (h : p.Named) : (client p).Says names (p.toolsets.flatMap (·.launchTexts)) := by
  have htransport : Wordy "transport" := wordy_text (by decide)
  have hstdio : Wordy "stdio" := wordy_text (by decide)
  refine says_otherCall hnames (by decide) (by decide) (.positional (says_dict (.mapEntries fun t ht => ⟨?_, ?_⟩)))
  · exact (h.idents _ (AgentPlan.toolsetIdent_mem_idents ht)).1
  · have hlast : ItemsSay names (layoutEntries [("transport", .str "stdio")]) ([] ++ []) :=
      .consEntry htransport (says_word hstdio) .nil
    have hentries := itemsSay_launch hnames t hlast
    rw [List.append_nil, List.append_nil] at hentries
    exact says_dict hentries

/-- What is loaded is chosen by the literals of a filter. -/
theorem says_chosen {load : String} (hnewline : '\n' ∉ load.toList) (hload : Silent names load) (filter : List String) :
    (Expr.raw ("[t for t in " ++ load ++ " if t.name in \x7b" ++ ", ".intercalate (filter.map quote) ++ "\x7d]")).Says
      names filter := by
  have hraw : "[t for t in " ++ load ++ " if t.name in \x7b" ++ ", ".intercalate (filter.map quote) ++ "\x7d]" =
      "[t for t in " ++ (load ++ " if t.name in \x7b" ++ ", ".intercalate (filter.map quote)) ++ "\x7d]" := by
    simp only [String.append_assoc]
  rw [hraw]
  refine Expr.says_framed hnames (by decide) (by decide) ?_ fun name hname => ?_
  · simp only [String.toList_append, List.mem_append, not_or]
    exact ⟨⟨hnewline, by decide⟩, Expr.newline_intercalate filter⟩
  · have hbetween : calls name " if t.name in \x7b" = false := calls_of_isQuiet (by decide)
    -- the call is not joined to the words after it
    have hends : endsApart (load ++ " if t.name in \x7b").toList = true := by
      rw [String.toList_append, endsApart_append (by decide)]
      decide
    rw [calls_append (hnames hname) (apart_of_ends hends), calls_append (hnames hname) (apart_of_starts (by decide)),
      hload name hname, hbetween, Expr.calls_intercalate hnames filter hname, Bool.or_self, Bool.false_or]

/-- The tools of a server are loaded by its identifier. -/
theorem says_toolset {t : ToolsetPlan} (ht : Wordy t.ident) : (toolset t).Says names t.config.toolFilter := by
  have hload : Frames "asyncio.run(protocol_client.get_tools(server_name=".toList "))".toList := by decide
  have hquote := (oneLine_quote t.ident).newline
  have hsilent : Silent names (quote t.ident) := silent_of_isQuiet ht.isQuiet_quote
  unfold toolset
  dsimp only
  -- without a filter the tools are taken as they are loaded
  split_ifs with hfilter
  · rw [List.isEmpty_iff.mp hfilter]
    exact Expr.says_framed hnames hload (by decide) hquote hsilent
  · refine says_chosen hnames (hload.oneLine hquote).newline (fun name hname => ?_) _
    exact (hload.calls_framed (hnames hname)).trans (hsilent name hname)

omit hnames in
/-- The tools of a server are spread into a list. -/
theorem says_spread {ident : String} (h : Wordy ident) (hne : ident ≠ "") :
    (Expr.raw ("*" ++ ident)).Says names [] := by
  refine says_raw (OneLine.append (by decide) h.oneLine hne) ?_ fun _ _ => calls_of_isQuiet ?_
  · rw [String.toList_append]
    exact ⟨[], '*', _, rfl, by simp, by decide, by decide, by decide, .inl (by decide)⟩
  · rw [String.toList_append, isQuiet, List.all_append, Bool.and_eq_true]
    exact ⟨by decide, h.isQuiet⟩

theorem says_agent (h : p.Named) (hagent : "create_react_agent" ∉ names) :
    (agent p).Says names (p.agentTexts .langGraph) := by
  have htexts : p.agentTexts .langGraph = [p.modelFor .langGraph] ++ [p.instructionText] := rfl
  have htools : ItemsSay names (layoutItems (p.boundTools.map .ident ++ p.toolsetIdents.map fun id => .raw ("*" ++ id)))
      ([] ++ []) := by
    refine .appendItems (.mapSilent fun ident hident => ?_) (.mapSilent fun ident hident => ?_)
    · exact says_ident (h.wordy_boundTools ident hident)
    · exact says_spread (h.wordy_toolsetIdents ident hident) (h.not_lead (List.mem_append_right _ hident)).1
  rw [htexts]
  refine says_call hnames (by decide) hagent
    (.appendSilent (.appendSilent (.append (.appendSilent ?_ ?_) ?_) ?_) ?_)
  · exact .kw (by decide) (says_str _)
  · exact .kw (by decide) (says_list htools)
  · exact .kw (by decide) (says_str _)
  · exact .kw (by decide) (says_word h.agentName)
  · exact .kwIf (by decide) (fun _ => rfl) (says_otherCall hnames (by decide) (by decide) .nil)

omit hnames in
theorem layout_toolset (t : ToolsetPlan) : (toolset t).layout ≠ .atom "" := by
  unfold toolset
  dsimp only
  split_ifs <;> simp [Expr.layout]

/-- The client is bound where there are tool servers. -/
theorem plain_servers (h : p.Named) : PlainDecls names (p.toolsets.flatMap (·.launchTexts))
    (if !p.toolsets.isEmpty then [.comment Plan.serverComment, .assign "protocol_client" .support (client p)]
      else []) := by
  split_ifs with hservers
  · have hcomment : Python.Plain names [] (Decl.comment Plan.serverComment).rows :=
      .closed hnames (by decide) .nil
    refine (PlainDecls.single hcomment).afterSilent (.single ?_)
    exact plain_binding hnames .support (by decide) (by decide) (says_client hnames h)
  · have hnone : p.toolsets = [] := by simpa using hservers
    rw [hnone]
    exact Python.Plain.nil

theorem plain_program (h : p.Named) : Python.Plain names [] (program p) := by
  have hconfig : Python.Plain names []
      ["config = \x7b\"configurable\": \x7b\"thread_id\": " ++ quote p.agentName ++ "\x7d\x7d"] :=
    .quietly hnames (by decide) h.agentName.quiet_quote .nil
  have hargs : Quiet ("\x7b\"messages\": [\x7b\"role\": \"user\", \"content\": " ++ quote Plan.samplePrompt
      ++ "\x7d]\x7d" ++ (if p.capabilities.memory then ", config" else "")) := by
    refine (((quiet_text (by decide)).append quiet_prompt).append (quiet_text (by decide))).append ?_
    split_ifs <;> exact quiet_text (by decide)
  refine .appendSilent (.ite _ hconfig) ?_
  by_cases hevents : p.capabilities.events = true
  · rw [if_pos hevents]
    exact .quietlyAround hnames (by decide) hargs (.fixed hnames (by decide) .nil)
  · rw [if_neg hevents]
    exact .quietlyAround hnames (by decide) hargs (.fixed hnames (by decide) .nil)

omit hnames in
theorem plain_module (h : p.Named) (hprogram : EndsInProgram (module p).decls) :
    (module p).Plain (p.texts .langGraph) where
  header := rfl
  imports := by
    refine Import.neat_collect ?_
    simp only [allWanted_append, and_assoc]
    refine ⟨.ite _ ?_ .nil, .ite _ .nil ?_, .ite _ ?_ .nil, ?_⟩
    · exact .neatModule (by decide) (.neatName (by decide) .nil)
    · exact .neatName (by decide) .nil
    · exact .neatName (by decide) .nil
    · exact .neatName (by decide) .nil
  decls := by
    have hnames := (module p).missing_subset
    have hagent : "create_react_agent" ∉ (module p).missing :=
      Module.not_mem_missing (Import.lists_collect "langgraph.prebuilt" (by simp))
    -- how servers are launched is said by the client, before any filter
    have htexts : ∀ s, s ∈ p.tools.map (·.title) ++ p.toolsets.flatMap (·.launchTexts)
        ++ p.toolsets.flatMap (·.config.toolFilter) ++ p.agentTexts .langGraph ↔ s ∈ p.texts .langGraph := by
      intro s
      simp only [AgentPlan.texts, ToolsetPlan.texts, reduceCtorEq, or_self, if_false, List.append_nil, List.mem_append,
        List.mem_flatMap, and_or_left, exists_or, or_assoc]
    refine Python.Plain.congr ?_ htexts
    refine PlainDecls.append (.append (.append ?_ ?_) ?_) ?_
    · exact plain_tools hnames h fun _ => .closed hnames (by decide) .nil
    · exact plain_servers hnames h
    · refine plain_toolsets hnames h fun t ht => ⟨says_toolset hnames ?_, ?_⟩
      · exact (h.idents _ (AgentPlan.toolsetIdent_mem_idents ht)).1
      · exact layout_toolset t
    · exact plain_agentProgram hnames (says_agent hnames h hagent) (endsSolid_program p) (plain_program hnames h)
  program := hprogram

end LangGraph

/-! ### No framework -/

namespace Custom

variable {p : AgentPlan} {names : List String} (hnames : names ⊆ formNames)

include hnames

theorem says_server (t : ToolsetPlan) : (server t).Says names (t.texts .customAgent) := by
  have hpackage : Wordy "package" := wordy_text (by decide)
  have hfilter : Wordy "tool_filter" := wordy_text (by decide)
  have htexts : ∀ s, s ∈ t.launchTexts ++ ([t.config.package] ++ (t.config.toolFilter ++ [])) ↔
      s ∈ t.texts .customAgent := by
    intro s
    simp [ToolsetPlan.texts]
    tauto
  refine .congr (says_dict (itemsSay_launch hnames t ?_)) htexts
  exact .consEntry hpackage (says_str _) (.consEntry hfilter (says_strs _) .nil)

theorem says_agent (h : p.Named) : (agent p).Says names (p.agentTexts .customAgent) :=
  says_otherCall hnames (by decide) (by decide) (argsSay_agent _ h (by decide) (by decide)
    (.kw (by decide) (says_idents h.wordy_toolsetIdents)))

theorem plain_runtimeClass : Python.Plain names [] runtimeClass := by
  unfold runtimeClass
  repeat refine .fixed hnames (by decide) ?_
  exact .nil

theorem plain_program : Python.Plain names [] (program p) :=
  .appendSilent (.ite _ (.closed hnames (by decide) .nil)) (.quietlyAround hnames (by decide) quiet_prompt .nil)

omit hnames in
theorem plain_module (h : p.Named) (hprogram : EndsInProgram (module p).decls) :
    (module p).Plain (p.texts .customAgent) where
  header := rfl
  imports := Import.neat_collect (.neatModule (by decide) .nil)
  decls := by
    have hnames := (module p).missing_subset
    refine PlainDecls.append (.append (.afterSilent ?_ ?_) ?_) ?_
    · exact .single (.indented hnames (plain_runtimeClass hnames) 0)
    · exact plain_tools hnames h fun _ => .nil
    · exact plain_toolsets hnames h fun t _ => ⟨says_server hnames t, by simp [server, Expr.layout]⟩
    · exact plain_agentProgram hnames (says_agent hnames h) (endsSolid_program p) (plain_program hnames)
  program := hprogram

end Custom

/-! ### Compiled code -/

/-- Modules for every framework say what the plan has as literals, and nothing else. -/
theorem AgentPlan.Named.plain_moduleFor {p : AgentPlan} (h : p.Named) {f : Framework}
    (hprogram : EndsInProgram (p.moduleFor f).decls) : (p.moduleFor f).Plain (p.texts f) := by
  cases f with
  | adk => exact Adk.plain_module h hprogram
  | openAIAgents => exact OpenAIAgents.plain_module h hprogram
  | langGraph => exact LangGraph.plain_module h hprogram
  | customAgent => exact Custom.plain_module h hprogram

namespace Compiler

variable (c : Compiler)

theorem tidy_module : c.module.Tidy :=
  (AgentPlan.wordLike_build c.graph c.launchConfigs).tidy_moduleFor c.framework

theorem plain_module : c.module.Plain (c.plan.texts c.framework) :=
  (AgentPlan.named_build c.graph c.launchConfigs).plain_moduleFor c.tidy_module.program

theorem problem?_code : Bracket.problem? (Source.clean c.module.render).toList = none :=
  Bracket.problem?_eq_none ⟨.code, c.tidy_module.read_clean_render⟩

end Compiler

/-- **When compiled code passes the checks of form**: no line of a docstring may look like a fence or like a header
without a colon, and a name that the module does not import but a docstring or a literal seems to call must seem to be
brought in by a docstring. No other text of users matters, and nothing that is generated fails. -/
theorem compile_passes_iff (c : Compiler) :
    (∀ f ∈ form c.compile.code, f.severity ≠ .error) ↔
      (∀ l ∈ c.module.docLines, startsWith Source.fence (trimStart l) = false ∧ Pattern.missingColon? l = none) ∧
      ∀ name ∈ c.module.missing,
        (∃ l ∈ c.module.docLines, usedIn name l = true) ∨
            (∃ t ∈ c.plan.texts c.framework, callsQuoted name t = true) →
          ∃ l ∈ c.module.docLines, bringsIn name l = true :=
  c.plain_module.passes_iff c.problem?_code

/-- One agent, with an instruction that speaks of a call. -/
def explainer : Graph where
  nodes := [{ id := "a", kind := .agent, label := "Helper", instruction := some "Explain create_react_agent(model)." }]
  edges := []

/-- A call that a literal only speaks of counts as a use of a name that is not imported. -/
theorem mentioned_call_fails : ∃ f ∈ form (Compiler.ofGraph explainer .adk).compile.code, f.severity = .error := by
  -- if it passed, a docstring would seem to bring the name in, and there is none
  by_contra! hpasses
  have hplain := (Compiler.ofGraph explainer .adk).plain_module
  obtain ⟨-, hnames⟩ := (hplain.passes_iff (Compiler.problem?_code _)).mp hpasses
  have hmissing : "create_react_agent" ∈ (Compiler.ofGraph explainer .adk).module.missing := by decide +kernel
  have hcalled : ∃ t ∈ (Compiler.ofGraph explainer .adk).plan.texts .adk,
      callsQuoted "create_react_agent" t = true := by decide +kernel
  have hunbrought : ∀ l ∈ (Compiler.ofGraph explainer .adk).module.docLines,
      bringsIn "create_react_agent" l = false := by decide +kernel
  obtain ⟨l, hl, hbrings⟩ := hnames _ hmissing (.inr hcalled)
  rw [hunbrought l hl] at hbrings
  cases hbrings

end AgentFlow
