import AgentFlow.Proofs.Framework.Bindings
import AgentFlow.Proofs.Python.Mentions

/-!
# Generated modules are closed

The names that a declaration uses are the callees and the identifiers in its value, however deep they are nested, and
its decorators. In a generated module each of them is imported, or bound by an earlier declaration: what a value needs
is imported under the same conditions as it is written, and the agent is handed identifiers of the tools and toolsets
that are declared before it.
-/

namespace AgentFlow

namespace Python

/-! ### The names that are used -/

mutual

/-- The names that an expression uses, at any depth. -/
def Expr.names : Expr → List String
  | .str _ => []
  | .ident name => [name]
  | .bool _ => []
  | .int _ => []
  | .list items => itemNames items
  | .dict entries => entryNames entries
  | .call callee args => callee :: argNames args
  | .raw text => freeNames text

def itemNames : List Expr → List String
  | [] => []
  | e :: items => e.names ++ itemNames items

def entryNames : List (String × Expr) → List String
  | [] => []
  | (_, e) :: entries => e.names ++ entryNames entries

def argNames : List (Option String × Expr) → List String
  | [] => []
  | (_, e) :: args => e.names ++ argNames args

end

/-- The names that a declaration uses when it is run. -/
def Decl.uses : Decl → List String
  | .assign _ _ value => value.names
  | .tool f => f.decorators
  | .function f => f.decorators
  | .comment _ => []
  | .block _ => []
  | .entryPoint _ => []

/-- Each declaration uses only names that are known or bound by a declaration before it. -/
def ClosedFrom (known : List String) : List Decl → Prop
  | [] => True
  | d :: ds => d.uses ⊆ known ∧ ClosedFrom (known ++ d.bound) ds

/-- Every name that a declaration of the module uses is imported or bound by an earlier declaration. -/
def Module.IsClosed (m : Module) : Prop := ClosedFrom (m.imports.flatMap Import.bound) m.decls

@[simp] theorem argNames_append (args args' : List (Option String × Expr)) :
    argNames (args ++ args') = argNames args ++ argNames args' := by
  induction args with
  | nil => rfl
  | cons a args ih => rw [List.cons_append, argNames, argNames, ih, List.append_assoc]

@[simp] theorem argNames_kw (name : String) (value : Expr) : argNames (Expr.kw name value) = value.names :=
  List.append_nil _

@[simp] theorem argNames_kw? (name : String) (value : Option Expr) :
    argNames (Expr.kw? name value) = (value.map Expr.names).getD [] := by
  cases value with
  | none => rfl
  | some value => exact argNames_kw name value

@[simp] theorem itemNames_append (items items' : List Expr) :
    itemNames (items ++ items') = itemNames items ++ itemNames items' := by
  induction items with
  | nil => rfl
  | cons e items ih => rw [List.cons_append, itemNames, itemNames, ih, List.append_assoc]

@[simp] theorem itemNames_idents (names : List String) : itemNames (names.map .ident) = names := by
  induction names with
  | nil => rfl
  | cons name names ih => rw [List.map_cons, itemNames, ih]; rfl

@[simp] theorem names_strs (items : List String) : (Expr.strs items).names = [] := by
  show itemNames (items.map .str) = []
  induction items with
  | nil => rfl
  | cons s items ih => rw [List.map_cons, itemNames, ih]; rfl

@[simp] theorem names_idents (names : List String) : (Expr.idents names).names = names := itemNames_idents names

@[simp] theorem names_strDict (entries : List (String × String)) : (Expr.strDict entries).names = [] := by
  show entryNames (entries.map fun e => (e.1, .str e.2)) = []
  induction entries with
  | nil => rfl
  | cons e entries ih => rw [List.map_cons, entryNames, ih]; rfl

/-! ### Closed declarations -/

section Declarations

variable {known known' : List String} {ds ds' : List Decl}

/-- Knowing more names does no harm. -/
theorem ClosedFrom.mono (h : ClosedFrom known ds) (hsub : known ⊆ known') : ClosedFrom known' ds := by
  induction ds generalizing known known' with
  | nil => exact trivial
  | cons d ds ih =>
    refine ⟨List.Subset.trans h.1 hsub, ih h.2 ?_⟩
    exact List.append_subset.mpr
      ⟨List.Subset.trans hsub (List.subset_append_left _ _), List.subset_append_right _ _⟩

/-- Declarations may rely on what those before them bind. -/
theorem closedFrom_append :
    ClosedFrom known (ds ++ ds') ↔ ClosedFrom known ds ∧ ClosedFrom (known ++ ds.flatMap Decl.bound) ds' := by
  induction ds generalizing known with
  | nil => simp [ClosedFrom]
  | cons d ds ih => rw [List.cons_append, ClosedFrom, ClosedFrom, ih, List.flatMap_cons, List.append_assoc, and_assoc]

/-- Declarations that rely on nothing but the known names are closed in any order. -/
theorem closedFrom_of_uses (h : ∀ d ∈ ds, d.uses ⊆ known) : ClosedFrom known ds := by
  induction ds generalizing known with
  | nil => exact trivial
  | cons d ds ih =>
    obtain ⟨hd, hds⟩ := List.forall_mem_cons.mp h
    exact ⟨hd, ih fun d' hd' => List.Subset.trans (hds d' hd') (List.subset_append_left _ _)⟩

/-- What is wanted is imported, so it may be used. -/
theorem Module.isClosed_of_wanted {m : Module} {wanted : List (String × Option String)}
    (himports : m.imports = Import.collect wanted) (hwanted : (wanted.map Import.wantedName).Nodup)
    (h : ClosedFrom (wanted.map Import.wantedName) m.decls) : m.IsClosed := by
  rw [Module.IsClosed, himports]
  exact h.mono (Import.bound_collect hwanted).symm.subset

end Declarations

end Python

open Python

section Frameworks

variable {p : AgentPlan} {known : List String}

theorem ToolPlan.decorators_function (t : ToolPlan) (decorators : List String) :
    (t.function decorators).decorators = decorators := by
  unfold ToolPlan.function Function.documented
  split <;> rfl

/-- A tool uses its decorators, which are imported if there are tools at all. -/
theorem closedFrom_tools {decorators : List String} (h : p.tools ≠ [] → decorators ⊆ known) :
    ClosedFrom known (p.tools.map fun t => .tool (t.function decorators)) := by
  refine closedFrom_of_uses fun d hd => ?_
  obtain ⟨t, ht, rfl⟩ := List.mem_map.mp hd
  rw [Decl.uses, ToolPlan.decorators_function]
  exact h (List.ne_nil_of_mem ht)

/-- A toolset uses what its server is made with. -/
theorem closedFrom_toolsets {server : ToolsetPlan → Expr} (h : ∀ t ∈ p.toolsets, (server t).names ⊆ known) :
    ClosedFrom known (p.toolsets.map fun t => .assign t.ident .protocol (server t)) := by
  refine closedFrom_of_uses fun d hd => ?_
  obtain ⟨t, ht, rfl⟩ := List.mem_map.mp hd
  exact h t ht

/-- Imports that are wanted, and declarations that hold the tools, the toolsets and the agent among others. -/
theorem isClosed_of_parts {m : Module} {wanted : List (String × Option String)} {decorators : List String}
    {server : ToolsetPlan → Expr} {agent : Expr} (before between after : List Decl)
    (hbound : p.boundTools ⊆ p.tools.map (·.ident)) (himports : m.imports = Import.collect wanted)
    (hdecls : m.decls = before ++ p.tools.map (fun t => .tool (t.function decorators)) ++ between
      ++ p.toolsets.map (fun t => .assign t.ident .protocol (server t))
      ++ .assign Plan.agentBinding .agent agent :: after)
    (hwanted : (wanted.map Import.wantedName).Nodup)
    (hbefore : ClosedFrom (wanted.map Import.wantedName) before)
    (htools : p.tools ≠ [] → decorators ⊆ wanted.map Import.wantedName)
    (hbetween : ClosedFrom (wanted.map Import.wantedName) between)
    (htoolsets : ∀ t ∈ p.toolsets, (server t).names ⊆ wanted.map Import.wantedName ++ between.flatMap Decl.bound)
    (hagent : agent.names ⊆ wanted.map Import.wantedName ++ before.flatMap Decl.bound
      ++ (p.boundTools ++ p.toolsetIdents))
    (hafter : ClosedFrom (wanted.map Import.wantedName ++ [Plan.agentBinding]) after) : m.IsClosed := by
  refine Module.isClosed_of_wanted himports hwanted ?_
  -- from here on the imports matter only by the names that they make known
  generalize wanted.map Import.wantedName = known at *
  rw [hdecls]
  simp only [closedFrom_append, ClosedFrom, List.flatMap_append, bound_tools, bound_toolsets]
  refine ⟨⟨⟨⟨hbefore, closedFrom_tools fun hne => List.Subset.trans (htools hne) ?_⟩, hbetween.mono ?_⟩,
    closedFrom_toolsets fun t ht => List.Subset.trans (htoolsets t ht) ?_⟩, List.Subset.trans hagent ?_, hafter.mono ?_⟩
  -- what is known to a part is known after the parts before it
  all_goals
    intro name hname
    simp only [List.mem_append, Decl.bound] at hname ⊢
    grind

theorem isEmpty_toolsets_of_mem {t : ToolsetPlan} (h : t ∈ p.toolsets) : p.toolsets.isEmpty = false := by
  simpa using List.ne_nil_of_mem h

/-! ### The Agent Development Kit -/

theorem Adk.names_toolset (t : ToolsetPlan) :
    (Adk.toolset t).names = ["MCPToolset", "StdioConnectionParams", "StdioServerParameters"] := by
  unfold Adk.toolset
  dsimp only
  split_ifs <;> simp [Expr.names]

/-- The agent uses its constructor, the bound tools and the toolsets. -/
theorem Adk.names_agent : (Adk.agent p).names = "LlmAgent" :: (p.boundTools ++ p.toolsetIdents) := by
  cases h : p.description <;> simp [Adk.agent, Expr.names, h]

theorem Adk.names_runner : (Adk.runner p).names =
    ["Runner", Plan.agentBinding, "session_service"] ++ if p.capabilities.memory then ["memory_service"] else [] := by
  unfold Adk.runner
  split_ifs <;> simp [Expr.names]

/-- Every service is made before the runner that is handed it. -/
theorem Adk.isClosed_module (hbound : p.boundTools ⊆ p.tools.map (·.ident)) : (Adk.module p).IsClosed := by
  refine isClosed_of_parts [] _
    ([.assign "session_service" .support (.call "InMemorySessionService" [])]
      ++ (if p.capabilities.memory then [.assign "memory_service" .support (.call "InMemoryMemoryService" [])] else [])
      ++ [.assign "runner" .support (runner p), Plan.exportDecl] ++ program p)
    hbound rfl (by simp only [Adk.module, List.nil_append, List.append_assoc, List.cons_append]; rfl) ?wanted trivial
    (fun _ => List.nil_subset _) ?comment ?toolsets ?agent ?after
  case wanted => cases p.toolsets.isEmpty <;> cases p.capabilities.memory <;> decide
  case comment => split_ifs <;> simp [ClosedFrom, Decl.uses]
  case toolsets =>
    intro t ht
    simp [Adk.names_toolset, isEmpty_toolsets_of_mem ht, Import.wantedName]
  case agent =>
    rw [Adk.names_agent]
    exact List.cons_subset.mpr ⟨by simp [Import.wantedName], List.subset_append_right _ _⟩
  case after =>
    have hprogram : ∀ known, ClosedFrom known (program p) := by
      intro known
      unfold program
      split_ifs <;> simp [ClosedFrom, Decl.uses, Plan.mainFunction]
    simp only [closedFrom_append, hprogram, and_true]
    refine ⟨⟨⟨by simp [Decl.uses, Expr.names, argNames, Import.wantedName], trivial⟩, ?memory⟩, ?runner, ?_, trivial⟩
    case memory =>
      cases p.capabilities.memory with
      | false => exact trivial
      | true => exact ⟨by simp [Decl.uses, Expr.names, argNames, Import.wantedName], trivial⟩
    -- the memory is handed on only if it is asked for, and then it is bound
    case runner =>
      rw [Decl.uses, Adk.names_runner]
      cases p.capabilities.memory <;> simp [Decl.bound, Import.wantedName]
    simp [Decl.uses, Plan.exportDecl]

/-! ### The Agents SDK -/

theorem OpenAIAgents.names_server (t : ToolsetPlan) : (OpenAIAgents.server t).names = "MCPServerStdio" ::
    if t.config.toolFilter.isEmpty then [] else ["create_static_tool_filter"] := by
  unfold OpenAIAgents.server
  dsimp only
  split_ifs <;> simp [Expr.names, entryNames]

theorem OpenAIAgents.names_agent : (OpenAIAgents.agent p).names ⊆ "Agent" :: (p.boundTools ++ p.toolsetIdents) := by
  cases h : p.description <;> cases h' : p.toolsets.isEmpty <;> simp [OpenAIAgents.agent, Expr.names, h, h']

theorem OpenAIAgents.isClosed_module (hbound : p.boundTools ⊆ p.tools.map (·.ident)) :
    (OpenAIAgents.module p).IsClosed := by
  refine isClosed_of_parts [] [] _ hbound rfl (by simp only [List.append_nil]; rfl) ?wanted trivial ?tools trivial
    ?toolsets ?agent ?after
  case wanted =>
    cases p.toolsets.isEmpty <;> cases p.tools.isEmpty <;> cases p.capabilities.memory <;>
      cases (p.toolsets.any fun t => !t.config.toolFilter.isEmpty) <;> decide
  case tools =>
    intro h
    simp [h, Import.wantedName]
  case toolsets =>
    intro t ht
    rw [OpenAIAgents.names_server]
    -- a filter is imported as soon as one toolset has one
    by_cases hfilter : t.config.toolFilter.isEmpty = true
    · simp [hfilter, isEmpty_toolsets_of_mem ht, Import.wantedName]
    · have hany : (p.toolsets.any fun t => !t.config.toolFilter.isEmpty) = true :=
        List.any_eq_true.mpr ⟨t, ht, by simpa using hfilter⟩
      rw [if_pos hany]
      simp [hfilter, isEmpty_toolsets_of_mem ht, Import.wantedName]
  case agent =>
    refine List.Subset.trans OpenAIAgents.names_agent ?_
    exact List.cons_subset.mpr ⟨by simp [Import.wantedName], List.subset_append_right _ _⟩
  case after => simp [ClosedFrom, Decl.uses, Plan.exportDecl, Plan.mainFunction]

/-! ### LangGraph -/

/-- The text that loads the tools of a server names the event loop and the client. -/
theorem LangGraph.reads_load {b : Char} (hb : b = '\n' ∨ b = ' ') (ident : String) :
    (Place.code b []).Reads ("asyncio.run(protocol_client.get_tools(server_name=" ++ quote ident ++ "))")
      ["asyncio", "protocol_client"] (.code ')' []) := by
  have hopen : (Place.code b []).Reads "asyncio.run(protocol_client.get_tools(server_name="
      ["asyncio", "protocol_client"] (.code '=' []) := by
    rcases hb with rfl | rfl <;> exact Place.reads_text (by decide)
  have hclose : (Place.code '"' []).Reads "))" [] (.code ')' []) := Place.reads_text (by decide)
  exact (hopen.append (Place.reads_quote '=' ident)).append hclose

/-- Only the event loop and the client are used from outside, with a filter or without one. -/
theorem LangGraph.names_toolset (t : ToolsetPlan) : (LangGraph.toolset t).names = ["asyncio", "protocol_client"] := by
  unfold LangGraph.toolset
  dsimp only
  -- the call itself, or a comprehension over what it returns
  split_ifs with hfilter
  · have hwords := (LangGraph.reads_load (.inl rfl) t.ident).codeWords_eq
    rw [Expr.names, freeNames, hwords]
    decide
  · have hloop : Place.start.Reads "[t for t in " ["t", "for", "t", "in"] (.code ' ' []) := Place.reads_text (by decide)
    have hload := LangGraph.reads_load (.inr rfl) t.ident
    have htest : (Place.code ')' []).Reads " if t.name in \x7b" ["if", "t", "in"] (.code '\x7b' []) :=
      Place.reads_text (by decide)
    obtain ⟨c, hquotes⟩ := Place.reads_quotes '\x7b' t.config.toolFilter
    have hclose : (Place.code c []).Reads "\x7d]" [] (.code ']' []) := rfl
    have hwords := ((((hloop.append hload).append htest).append hquotes).append hclose).codeWords_eq
    -- the name that the loop assigns is not taken from the module
    rw [Expr.names, freeNames, hwords]
    decide

theorem LangGraph.names_client : (LangGraph.client p).names = ["MultiServerMCPClient"] := by
  have hservers : entryNames (p.toolsets.map LangGraph.server) = [] := by
    induction p.toolsets with
    | nil => rfl
    | cons t ts ih => simp [LangGraph.server, Expr.names, entryNames, ih]
  simp [LangGraph.client, Expr.names, argNames, hservers]

/-- A starred identifier names nothing but itself. -/
theorem freeNames_starred {ident : String} (h : Naming.WordLike ident) : freeNames ("*" ++ ident) ⊆ [ident] := by
  have hstar : Place.start.Reads "*" [] (.code '*' []) := Place.reads_text (by decide)
  have hwords := (hstar.append (Place.reads_word '*' h)).codeWords_eq
  refine List.Subset.trans List.filter_sublist.subset ?_
  rw [hwords]
  simpa using endedWord_subset '*' ident.toList.reverse '\n'

/-- Starred identifiers name nothing but themselves. -/
theorem itemNames_starred {idents : List String} (h : ∀ id ∈ idents, Naming.WordLike id) :
    itemNames (idents.map fun id => .raw ("*" ++ id)) ⊆ idents := by
  induction idents with
  | nil => exact List.nil_subset _
  | cons id idents ih =>
    obtain ⟨hid, hidents⟩ := List.forall_mem_cons.mp h
    refine List.append_subset.mpr ⟨List.Subset.trans (freeNames_starred hid) ?_,
      List.Subset.trans (ih hidents) (List.subset_cons_self _ _)⟩
    exact List.cons_subset.mpr ⟨List.mem_cons_self, List.nil_subset _⟩

theorem LangGraph.names_agent (hp : p.WordLike) : (LangGraph.agent p).names ⊆
    "create_react_agent" :: (if p.capabilities.memory then ["InMemorySaver"] else [])
      ++ (p.boundTools ++ p.toolsetIdents) := by
  have hidents : ∀ id ∈ p.toolsetIdents, Naming.WordLike id := by
    intro id hid
    obtain ⟨t, ht, rfl⟩ := List.mem_map.mp hid
    exact hp.toolsets t ht
  have hstarred := itemNames_starred hidents
  unfold LangGraph.agent
  simp only [Expr.names, argNames_append, argNames_kw, argNames_kw?, itemNames_append, itemNames_idents]
  intro name hname
  have hstars := @hstarred name
  cases hmemory : p.capabilities.memory <;> simp [Expr.names, argNames, hmemory] at hname ⊢ <;> tauto

theorem LangGraph.isClosed_module (hbound : p.boundTools ⊆ p.tools.map (·.ident)) (hp : p.WordLike) :
    (LangGraph.module p).IsClosed := by
  refine isClosed_of_parts [] _ _ hbound rfl rfl ?wanted trivial ?tools ?client ?toolsets ?agent ?after
  case wanted => cases p.toolsets.isEmpty <;> cases p.tools.isEmpty <;> cases p.capabilities.memory <;> decide
  case tools =>
    intro h
    simp [h, Import.wantedName]
  case client =>
    cases p.toolsets.isEmpty with
    | true => exact trivial
    | false => exact ⟨List.nil_subset _, by simp [Decl.uses, LangGraph.names_client, Import.wantedName], trivial⟩
  case toolsets =>
    intro t ht
    simp [LangGraph.names_toolset, isEmpty_toolsets_of_mem ht, Import.wantedName, Decl.bound]
  case agent =>
    refine List.Subset.trans (LangGraph.names_agent hp) (List.append_subset.mpr ⟨?_, List.subset_append_right _ _⟩)
    cases p.capabilities.memory <;> simp [Import.wantedName]
  case after => simp [ClosedFrom, Decl.uses, Plan.exportDecl]

/-! ### No framework -/

theorem Custom.isClosed_module (hbound : p.boundTools ⊆ p.tools.map (·.ident)) : (Custom.module p).IsClosed := by
  refine isClosed_of_parts [.block Custom.runtimeClass] [] _ hbound rfl (by simp only [List.append_nil]; rfl)
    (by decide) ⟨List.nil_subset _, trivial⟩ (fun _ => List.nil_subset _) trivial ?toolsets ?agent ?after
  case toolsets =>
    intro t ht
    simp [Custom.server, Expr.names, entryNames]
  case agent =>
    have hnames : (Custom.agent p).names = "Agent" :: (p.boundTools ++ p.toolsetIdents) := by
      cases h : p.description <;> simp [Custom.agent, Expr.names, h]
    rw [hnames, List.flatMap_singleton, Custom.bound_runtimeClass]
    exact List.cons_subset.mpr ⟨by simp, List.subset_append_right _ _⟩
  case after => simp [ClosedFrom, Decl.uses, Plan.exportDecl]

end Frameworks

/-- **Generated modules are closed.** Whatever the graph, the launch records and the framework are, every callee, every
decorator and every identifier in the declarations of the module, at any depth, is imported or bound by an earlier
declaration. -/
theorem module_is_closed (g : Graph) (configs : List LaunchConfig) (f : Framework) :
    ((AgentPlan.build g configs).moduleFor f).IsClosed := by
  have hbound := AgentPlan.boundTools_subset g configs
  cases f with
  | adk => exact Adk.isClosed_module hbound
  | openAIAgents => exact OpenAIAgents.isClosed_module hbound
  | langGraph => exact LangGraph.isClosed_module hbound (AgentPlan.wordLike_build g configs)
  | customAgent => exact Custom.isClosed_module hbound

end AgentFlow
