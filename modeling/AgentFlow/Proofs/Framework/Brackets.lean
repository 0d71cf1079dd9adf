import AgentFlow.Compiler
import AgentFlow.Proofs.Naming
import AgentFlow.Proofs.Python.Render

/-!
# Generated code has no bracket problem

Text of users reaches a module as a literal, as a docstring or as part of a name, and as nothing else. So the module of
every framework is tidy, and the code that is compiled of a graph reads as code from start to end, whatever its labels,
descriptions and launch fields are.
-/

namespace AgentFlow

open Python AgentFlow.Bracket AgentFlow.Bracket.Reader
open Python.Expr (kw kw? tidy_str tidy_strs tidy_strDict tidy_call tidy_dict tidy_list tidy_idents tidy_ident tidy_raw)

/-- A word has no brackets and no quotes. -/
theorem Naming.WordLike.complete {s : String} (h : WordLike s) : Complete s :=
  complete_of_isPlain fun c hc => isPlain_of_class (by decide) (h c hc)

/-! ### Shared parts -/

/-- What may be left out need not be asked about when it is. -/
theorem forall_mem_ite {α : Type} {P : α → Prop} {as : List α} (c : Prop) [Decidable c] (h : ∀ a ∈ as, P a) :
    ∀ a ∈ (if c then as else []), P a := by
  split_ifs
  · exact h
  · simp

theorem tidy_optional {e : Expr} {value : Option Expr} (he : e.Tidy) (h : value = none ∨ value = some e) :
    ∀ v ∈ value, v.Tidy := by
  rcases h with rfl | rfl
  · simp
  · simpa using he

theorem tidy_optionalText (text : Option String) : ∀ v ∈ text.map Expr.str, v.Tidy := by
  intro v hv
  obtain ⟨s, -, rfl⟩ := Option.map_eq_some_iff.mp hv
  exact tidy_str s

/-- The function of a tool is tidy, since its title and its description are literals. -/
theorem tidy_function {t : ToolPlan} {decorators : List String} (ht : Naming.WordLike t.ident)
    (hdecorators : ∀ d ∈ decorators, Complete d) : (t.function decorators).Tidy := by
  have hparam : Complete "query: str" := complete_text (by decide)
  have hreturns : Complete "dict" := complete_text (by decide)
  refine Function.Tidy.documented ?_ _
  refine ⟨ht.complete, hdecorators, by simpa using hparam, by simpa using hreturns, ?_⟩
  refine complete_indented 1 fun l hl => ?_
  obtain rfl := List.mem_singleton.mp hl
  exact ((separable_quote t.title).wrapped ['\x7b'] (by decide)).separable

/-- The functions of the tools are complete. -/
theorem complete_tools {tools : List ToolPlan} {decorators : List String}
    (h : ∀ t ∈ tools, Naming.WordLike t.ident) (hdecorators : ∀ d ∈ decorators, Complete d) :
    ∀ d ∈ tools.map fun t => Decl.tool (t.function decorators), Complete d.render := by
  intro d hd
  obtain ⟨t, ht, rfl⟩ := List.mem_map.mp hd
  exact (tidy_function (h t ht) hdecorators).render

theorem complete_toolsets {toolsets : List ToolsetPlan} {value : ToolsetPlan → Expr}
    (h : ∀ t ∈ toolsets, Naming.WordLike t.ident) (hvalue : ∀ t ∈ toolsets, (value t).Tidy) :
    ∀ d ∈ toolsets.map fun t => Decl.assign t.ident .protocol (value t), Complete d.render := by
  intro d hd
  obtain ⟨t, ht, rfl⟩ := List.mem_map.mp hd
  exact complete_assign .protocol (h t ht).complete (hvalue t ht)

/-- The main function is complete if each line of its body is. -/
theorem complete_mainFunction {body : List String} (h : ∀ l ∈ body, Separable l) :
    Complete (Decl.function (Plan.mainFunction body)).render := by
  have hname : Complete "main" := complete_text (by decide)
  have htidy : (Plan.mainFunction body).Tidy :=
    ⟨hname, by simp [Plan.mainFunction], by simp [Plan.mainFunction], by simp [Plan.mainFunction],
      complete_indented 1 h⟩
  exact htidy.render

theorem complete_agentBinding : Complete Plan.agentBinding := complete_text (by decide)

theorem complete_agent {value : Expr} (h : value.Tidy) :
    Complete (Decl.assign Plan.agentBinding .agent value).render :=
  complete_assign .agent complete_agentBinding h

theorem complete_exportDecl : Complete Plan.exportDecl.render :=
  complete_assign .support (complete_text (by decide)) (tidy_strs _)

theorem complete_runMain : Complete (Decl.entryPoint [Plan.runMain]).render :=
  complete_entryPoint (separable_cons (by decide) separable_nil)

theorem endsSolid_runMain : EndsSolid [Plan.runMain] := endsSolid_text (by decide)

namespace AgentPlan.WordLike

variable {p : AgentPlan}

theorem complete_boundTools (h : p.WordLike) : ∀ ident ∈ p.boundTools, Complete ident :=
  fun ident hident => (h.boundTools ident hident).complete

theorem complete_toolsetIdents (h : p.WordLike) : ∀ ident ∈ p.toolsetIdents, Complete ident := by
  intro ident hident
  obtain ⟨t, ht, rfl⟩ := List.mem_map.mp hident
  exact (h.toolsets t ht).complete

end AgentPlan.WordLike

/-! ### The Agent Development Kit -/

namespace Adk

variable {p : AgentPlan}

/-- What is launched is written as literals only. -/
theorem tidy_toolset (t : ToolsetPlan) : (toolset t).Tidy := by
  have hserver : (Expr.call "StdioServerParameters" (kw "command" (.str t.config.command)
      ++ kw "args" (.strs t.config.args) ++ kw "env" (.strDict t.config.env.entries))).Tidy := by
    refine tidy_call (by decide) ?_
    simp only [tidyArgs_append, and_assoc]
    refine ⟨?_, ?_, ?_⟩
    · exact tidyArgs_kw (by decide) (tidy_str _)
    · exact tidyArgs_kw (by decide) (tidy_strs _)
    · exact tidyArgs_kw (by decide) (tidy_strDict _)
  refine tidy_call (by decide) (tidyArgs_append.mpr ⟨?_, ?_⟩)
  · exact tidyArgs_kw (by decide) (tidy_call (by decide) (tidyArgs_kw (by decide) hserver))
  · refine tidyArgs_kw? (by decide) (tidy_optional (tidy_strs t.config.toolFilter) ?_)
    split_ifs <;> simp

theorem tidy_agent (h : p.WordLike) : (agent p).Tidy := by
  have htools := tidy_idents (List.forall_mem_append.mpr ⟨h.complete_boundTools, h.complete_toolsetIdents⟩)
  refine tidy_call (by decide) ?_
  simp only [tidyArgs_append, and_assoc]
  refine ⟨?_, ?_, ?_, ?_, ?_⟩
  · exact tidyArgs_kw (by decide) (tidy_str _)
  · exact tidyArgs_kw (by decide) (tidy_str _)
  · exact tidyArgs_kw? (by decide) (tidy_optionalText _)
  · exact tidyArgs_kw (by decide) (tidy_str _)
  · exact tidyArgs_kw (by decide) htools

theorem tidy_runner (p : AgentPlan) : (runner p).Tidy := by
  have hservice : (Expr.ident "session_service").Tidy := tidy_ident (complete_text (by decide))
  have hmemory : (Expr.ident "memory_service").Tidy := tidy_ident (complete_text (by decide))
  refine tidy_call (by decide) ?_
  simp only [tidyArgs_append, and_assoc]
  refine ⟨?_, ?_, ?_, ?_⟩
  · exact tidyArgs_kw (by decide) (tidy_ident complete_agentBinding)
  · exact tidyArgs_kw (by decide) (tidy_str _)
  · exact tidyArgs_kw (by decide) hservice
  · refine tidyArgs_kw? (by decide) (tidy_optional hmemory ?_)
    split_ifs <;> simp

theorem separable_sessionArgs (p : AgentPlan) : Separable (sessionArgs p) := by
  have hlead : Complete "app_name=" := complete_text (by decide)
  have hname : Separable ("app_name=" ++ quote p.agentName) := hlead.append_separable (separable_quote _)
  exact (hname.append_text (by decide)).append_separable (separable_quote _)

theorem separable_runArgs : Separable runArgs := by
  have hlead : Complete "user_id=" := complete_text (by decide)
  have huser : Separable ("user_id=" ++ quote "user") := hlead.append_separable (separable_quote _)
  exact (huser.append_text (by decide)).separable

theorem complete_messageLine : Complete messageLine := (separable_quote _).wrapped ['(', '[', '('] (by decide)

/-- The loop over events opens with its header and closes each bracket on its line. -/
theorem separable_eventLoop {loop : String} (p : AgentPlan) (hloop : Complete loop) :
    ∀ l ∈ eventLoop p loop, Separable l := by
  have hcolon : Complete (loop ++ ":") := hloop.append (complete_text (by decide))
  unfold eventLoop
  simp only [List.forall_mem_append, and_assoc]
  refine ⟨by simpa using hcolon.separable, forall_mem_ite _ ?_, ?_⟩
  · exact separable_cons (by decide) separable_nil
  · exact separable_cons (by decide) (separable_cons (by decide) separable_nil)

theorem separable_mainBody (h : p.WordLike) : ∀ l ∈ mainBody p, Separable l := by
  have hsession : Complete ("session = await session_service.create_session(" ++ sessionArgs p ++ ")") :=
    (separable_sessionArgs p).wrapped ['('] (by decide)
  have hloop : Complete ("async for event in runner.run_async(" ++ runArgs ++ ")") :=
    separable_runArgs.wrapped ['('] (by decide)
  have hindent : Complete "    " := complete_text (by decide)
  have hawait : Complete "    await " := complete_text (by decide)
  have hclose : Complete ".close()" := complete_text (by decide)
  have htry : Complete "try:" := complete_text (by decide)
  unfold mainBody
  simp only [List.forall_mem_append, List.forall_mem_map, and_assoc]
  -- the opening, the loop, the end of the attempt and the closing of each toolset
  refine ⟨?_, ?_, ?_, ?_⟩
  · simpa using ⟨hsession.separable, complete_messageLine.separable, htry.separable⟩
  · exact fun l hl => hindent.append_separable (separable_eventLoop p hloop l hl)
  · exact separable_cons (by decide) separable_nil
  · exact fun ident hident => ((hawait.append (h.complete_toolsetIdents ident hident)).append hclose).separable

/-- The program runs at once, or in a function if there are tool servers to close. -/
theorem complete_program (h : p.WordLike) : ∀ d ∈ program p, Complete d.render := by
  have hsession : Complete ("session = session_service.create_session_sync(" ++ sessionArgs p ++ ")") :=
    (separable_sessionArgs p).wrapped ['('] (by decide)
  have hloop : Complete ("for event in runner.run(" ++ runArgs ++ ")") := separable_runArgs.wrapped ['('] (by decide)
  unfold program
  -- without toolsets the program is the body of the entry point
  split_ifs
  · have hbody := List.forall_mem_append.mpr ⟨List.forall_mem_cons.mpr ⟨hsession.separable,
      List.forall_mem_cons.mpr ⟨complete_messageLine.separable, separable_nil⟩⟩, separable_eventLoop p hloop⟩
    simpa using complete_entryPoint hbody
  · simpa using ⟨complete_mainFunction (separable_mainBody h), complete_runMain⟩

theorem endsSolid_eventLoop (p : AgentPlan) (loop : String) : EndsSolid (eventLoop p loop) := by
  have hlast : EndsSolid ["        print(event.content.parts[0].text)"] := endsSolid_text (by decide)
  exact (hlast.after [_]).after _

/-- Both programs end with a line of code. -/
theorem endsInProgram_program (p : AgentPlan) : EndsInProgram (program p) := by
  unfold program
  split_ifs
  · exact endsInProgram_concat [] ((endsSolid_eventLoop p _).after _)
  · exact endsInProgram_concat [_] endsSolid_runMain

theorem tidy_module (h : p.WordLike) : (module p).Tidy := by
  have hsession : Complete (Decl.assign "session_service" .support (.call "InMemorySessionService" [])).render :=
    complete_assign .support (complete_text (by decide)) (tidy_call (by decide) tidyArgs_nil)
  have hmemory : Complete (Decl.assign "memory_service" .support (.call "InMemoryMemoryService" [])).render :=
    complete_assign .support (complete_text (by decide)) (tidy_call (by decide) tidyArgs_nil)
  have hrunner : Complete (Decl.assign "runner" .support (runner p)).render :=
    complete_assign .support (complete_text (by decide)) (tidy_runner p)
  refine ⟨tidy_collect ?_, ?_, (endsInProgram_program p).after _⟩
  · simp only [allWanted_append, and_assoc]
    refine ⟨.ite _ ?_ .nil, ?_, .ite _ ?_ .nil, ?_, .ite _ ?_ .nil⟩
    · exact .tidyModule (by decide) .nil
    · exact .tidyName (by decide) (.tidyName (by decide) (.tidyName (by decide) .nil))
    · exact .tidyName (by decide) .nil
    · exact .tidyName (by decide) .nil
    · exact .tidyName (by decide) (.tidyName (by decide) (.tidyName (by decide) .nil))
  · unfold module
    simp only [List.forall_mem_append, and_assoc]
    refine ⟨?_, forall_mem_ite _ ?_, ?_, ?_, forall_mem_ite _ ?_, ?_, complete_program h⟩
    · exact complete_tools h.tools (by simp)
    · simpa using complete_comment _
    · exact complete_toolsets h.toolsets fun t _ => tidy_toolset t
    · simpa using ⟨complete_agent (tidy_agent h), hsession⟩
    · simpa using hmemory
    · simpa using ⟨hrunner, complete_exportDecl⟩

end Adk

/-! ### The Agents SDK -/

namespace OpenAIAgents

variable {p : AgentPlan}

theorem tidy_server (t : ToolsetPlan) : (server t).Tidy := by
  have hparams : (Expr.dict [("command", .str t.config.command), ("args", .strs t.config.args),
      ("env", .strDict t.config.env.entries)]).Tidy := tidy_dict (by simp [tidy_str, tidy_strs, tidy_strDict])
  have hfilter : (Expr.call "create_static_tool_filter" (kw "allowed_tool_names" (.strs t.config.toolFilter))).Tidy :=
    tidy_call (by decide) (tidyArgs_kw (by decide) (tidy_strs _))
  refine tidy_call (by decide) ?_
  simp only [tidyArgs_append, and_assoc]
  refine ⟨?_, ?_, ?_⟩
  · exact tidyArgs_kw (by decide) (tidy_str _)
  · exact tidyArgs_kw (by decide) hparams
  · refine tidyArgs_kw? (by decide) (tidy_optional hfilter ?_)
    split_ifs <;> simp

theorem tidy_agent (h : p.WordLike) : (agent p).Tidy := by
  refine tidy_call (by decide) ?_
  simp only [tidyArgs_append, and_assoc]
  refine ⟨?_, ?_, ?_, ?_, ?_, ?_⟩
  · exact tidyArgs_kw (by decide) (tidy_str _)
  · exact tidyArgs_kw (by decide) (tidy_str _)
  · exact tidyArgs_kw (by decide) (tidy_str _)
  · exact tidyArgs_kw? (by decide) (tidy_optionalText _)
  · exact tidyArgs_kw (by decide) (tidy_idents h.complete_boundTools)
  · refine tidyArgs_kw? (by decide) (tidy_optional (tidy_idents h.complete_toolsetIdents) ?_)
    split_ifs <;> simp

/-- The lines that run the agent close their brackets, with and without a session. -/
theorem separable_runLines (p : AgentPlan) : ∀ l ∈ runLines p, Separable l := by
  have hcomma : Complete ", " := complete_text (by decide)
  have hasked : Separable (Plan.agentBinding ++ ", " ++ quote Plan.samplePrompt) :=
    (complete_agentBinding.append hcomma).append_separable (separable_quote _)
  have hargs : Separable (Plan.agentBinding ++ ", " ++ quote Plan.samplePrompt
      ++ (if p.capabilities.memory then ", session=session" else "")) := by
    split_ifs
    · exact (hasked.append_text (by decide)).separable
    · rw [String.append_empty]
      exact hasked
  have hcall : ∀ opening, Wraps opening ")" → Separable (opening ++ (Plan.agentBinding ++ ", "
      ++ quote Plan.samplePrompt ++ (if p.capabilities.memory then ", session=session" else "") ++ ")")) := by
    intro opening hwraps
    rw [← String.append_assoc]
    exact (hwraps _ hargs).separable
  have hsession : Complete ("session = SQLiteSession(" ++ quote p.agentName ++ ")") :=
    (separable_quote _).wrapped ['('] (by decide)
  unfold runLines
  simp only [List.forall_mem_append, and_assoc]
  refine ⟨forall_mem_ite _ (by simpa using hsession.separable), ?_, separable_cons (by decide) separable_nil⟩
  -- the outer choice only: the session argument is settled
  by_cases hevents : p.capabilities.events = true
  · have hstream : Wraps "result = Runner.run_streamed(" ")" := wraps_text ['('] (by decide)
    rw [if_pos hevents, List.forall_mem_cons]
    exact ⟨hcall _ hstream, separable_cons (by decide) (separable_cons (by decide) separable_nil)⟩
  · have hrun : Wraps "result = await Runner.run(" ")" := wraps_text ['('] (by decide)
    rw [if_neg hevents, List.forall_mem_cons]
    exact ⟨hcall _ hrun, separable_nil⟩

theorem separable_mainBody (p : AgentPlan) : ∀ l ∈ mainBody p, Separable l := by
  have hindent : Complete "    " := complete_text (by decide)
  have hstack : Complete "async with AsyncExitStack() as stack:" := complete_text (by decide)
  have hfor : Complete ("    for server in " ++ Plan.agentBinding ++ ".mcp_servers:") :=
    (Complete.append (complete_text (by decide)) complete_agentBinding).append (complete_text (by decide))
  have henter : Complete "        await stack.enter_async_context(server)" := complete_text (by decide)
  unfold mainBody
  split_ifs
  · exact separable_runLines p
  · simp only [List.forall_mem_append, List.forall_mem_map]
    refine ⟨?_, fun l hl => hindent.append_separable (separable_runLines p l hl)⟩
    simpa using ⟨hstack.separable, hfor.separable, henter.separable⟩

theorem tidy_module (h : p.WordLike) : (module p).Tidy := by
  refine ⟨tidy_collect ?_, ?_, (endsInProgram_concat [_, _, _] endsSolid_runMain).after _⟩
  · simp only [allWanted_append, and_assoc]
    refine ⟨?_, .ite _ ?_ .nil, ?_, .ite _ .nil ?_, .ite _ ?_ .nil, .ite _ ?_ .nil, .ite _ ?_ .nil⟩
    · exact .tidyModule (by decide) .nil
    · exact .tidyName (by decide) .nil
    · exact .tidyName (by decide) (.tidyName (by decide) .nil)
    · exact .tidyName (by decide) .nil
    · exact .tidyName (by decide) .nil
    · exact .tidyName (by decide) .nil
    · exact .tidyName (by decide) .nil
  · unfold module
    simp only [List.forall_mem_append, and_assoc]
    refine ⟨?_, ?_, ?_⟩
    · exact complete_tools h.tools (by simpa using complete_text (by decide))
    · exact complete_toolsets h.toolsets fun t _ => tidy_server t
    · simpa using ⟨complete_agent (tidy_agent h), complete_exportDecl, complete_mainFunction (separable_mainBody p),
        complete_runMain⟩

end OpenAIAgents

/-! ### LangGraph -/

namespace LangGraph

variable {p : AgentPlan}

theorem tidy_client (p : AgentPlan) : (client p).Tidy := by
  have hservers : (Expr.dict (p.toolsets.map server)).Tidy := by
    refine tidy_dict fun e he => ?_
    obtain ⟨t, -, rfl⟩ := List.mem_map.mp he
    exact tidy_dict (by simp [tidy_str, tidy_strs, tidy_strDict])
  refine tidy_call (by decide) fun a ha => ?_
  obtain rfl := List.mem_singleton.mp ha
  exact ⟨by simp, hservers⟩

/-- Loading tools is written out, with a filter or without one. -/
theorem tidy_toolset (t : ToolsetPlan) : (toolset t).Tidy := by
  have hload : Complete ("asyncio.run(protocol_client.get_tools(server_name=" ++ quote t.ident ++ "))") :=
    (separable_quote _).wrapped ['(', '('] (by decide)
  have hnames : Separable (", ".intercalate (t.config.toolFilter.map quote)) :=
    separable_intercalate (List.forall_mem_map.mpr fun s _ => separable_quote s)
  have hif : Complete (" if t.name in \x7b" ++ ", ".intercalate (t.config.toolFilter.map quote) ++ "\x7d") :=
    hnames.wrapped ['\x7b'] (by decide)
  have hfiltered : Complete ("[t for t in " ++ ("asyncio.run(protocol_client.get_tools(server_name=" ++ quote t.ident
      ++ "))" ++ (" if t.name in \x7b" ++ ", ".intercalate (t.config.toolFilter.map quote) ++ "\x7d")) ++ "]") :=
    (hload.append hif).separable.wrapped ['['] (by decide)
  unfold toolset
  dsimp only
  split_ifs
  · exact tidy_raw hload.separable
  · -- the last two brackets close different ones, so they are told apart
    have hclose : "\x7d]" = "\x7d" ++ "]" := by decide
    refine tidy_raw ?_
    rw [hclose]
    simp only [String.append_assoc] at hfiltered ⊢
    exact hfiltered.separable

theorem tidy_agent (h : p.WordLike) : (agent p).Tidy := by
  have hstar : Complete "*" := complete_text (by decide)
  have htools : (Expr.list (p.boundTools.map .ident ++ p.toolsetIdents.map fun id => .raw ("*" ++ id))).Tidy := by
    refine tidy_list ?_
    simp only [List.forall_mem_append, List.forall_mem_map]
    exact ⟨fun ident hident => tidy_ident (h.complete_boundTools ident hident),
      fun ident hident => tidy_raw (hstar.append (h.complete_toolsetIdents ident hident)).separable⟩
  have hsaver : (Expr.call "InMemorySaver" []).Tidy := tidy_call (by decide) tidyArgs_nil
  refine tidy_call (by decide) ?_
  simp only [tidyArgs_append, and_assoc]
  refine ⟨?_, ?_, ?_, ?_, ?_⟩
  · exact tidyArgs_kw (by decide) (tidy_str _)
  · exact tidyArgs_kw (by decide) htools
  · exact tidyArgs_kw (by decide) (tidy_str _)
  · exact tidyArgs_kw (by decide) (tidy_str _)
  · refine tidyArgs_kw? (by decide) (tidy_optional hsaver ?_)
    split_ifs <;> simp

theorem separable_program (p : AgentPlan) : ∀ l ∈ program p, Separable l := by
  have hmessage : Complete ("\x7b\"messages\": [\x7b\"role\": \"user\", \"content\": " ++ quote Plan.samplePrompt
      ++ "\x7d]\x7d") := (separable_quote _).wrapped ['\x7b', '[', '\x7b'] (by decide)
  have hconfig : Complete (if p.capabilities.memory then ", config" else "") := by
    split_ifs
    · exact complete_text (by decide)
    · exact complete_empty
  have hargs := (hmessage.append hconfig).separable
  have hthread : Complete ("config = \x7b\"configurable\": \x7b\"thread_id\": " ++ quote p.agentName ++ "\x7d\x7d") :=
    (separable_quote _).wrapped ['\x7b', '\x7b'] (by decide)
  unfold program
  dsimp only
  rw [List.forall_mem_append]
  refine ⟨forall_mem_ite _ (by simpa using hthread.separable), ?_⟩
  -- the updates are printed one by one, or the answer at the end
  by_cases hevents : p.capabilities.events = true
  · have hfor : Complete ("for update in " ++ Plan.agentBinding) :=
      Complete.append (complete_text (by decide)) complete_agentBinding
    have hstream : Wraps ("for update in " ++ Plan.agentBinding ++ ".stream(") ", stream_mode=\"updates\"):" :=
      (wraps_text ['('] (by decide)).after hfor
    rw [if_pos hevents, List.forall_mem_cons]
    exact ⟨(hstream _ hargs).separable, separable_cons (by decide) separable_nil⟩
  · have hresult : Complete ("result = " ++ Plan.agentBinding) :=
      Complete.append (complete_text (by decide)) complete_agentBinding
    have hinvoke : Wraps ("result = " ++ Plan.agentBinding ++ ".invoke(") ")" :=
      (wraps_text ['('] (by decide)).after hresult
    rw [if_neg hevents, List.forall_mem_cons]
    exact ⟨(hinvoke _ hargs).separable, separable_cons (by decide) separable_nil⟩

theorem endsSolid_program (p : AgentPlan) : EndsSolid (program p) := by
  have hupdate : EndsSolid ["    print(update)"] := endsSolid_text (by decide)
  have hresult : EndsSolid ["print(result[\"messages\"][-1].content)"] := endsSolid_text (by decide)
  refine EndsSolid.after ?_ _
  by_cases hevents : p.capabilities.events = true
  · rw [if_pos hevents]
    exact hupdate.after [_]
  · rw [if_neg hevents]
    exact hresult.after [_]

theorem tidy_module (h : p.WordLike) : (module p).Tidy := by
  have hclient : Complete (Decl.assign "protocol_client" .support (client p)).render :=
    complete_assign .support (complete_text (by decide)) (tidy_client p)
  refine ⟨tidy_collect ?_, ?_, (endsInProgram_concat [_, _] (endsSolid_program p)).after _⟩
  · simp only [allWanted_append, and_assoc]
    refine ⟨.ite _ ?_ .nil, .ite _ .nil ?_, .ite _ ?_ .nil, ?_⟩
    · exact .tidyModule (by decide) (.tidyName (by decide) .nil)
    · exact .tidyName (by decide) .nil
    · exact .tidyName (by decide) .nil
    · exact .tidyName (by decide) .nil
  · unfold module
    simp only [List.forall_mem_append, and_assoc]
    refine ⟨?_, forall_mem_ite _ ?_, ?_, ?_⟩
    · exact complete_tools h.tools (by simpa using complete_text (by decide))
    · simpa using ⟨complete_comment _, hclient⟩
    · exact complete_toolsets h.toolsets fun t _ => tidy_toolset t
    · simpa using ⟨complete_agent (tidy_agent h), complete_exportDecl, complete_entryPoint (separable_program p)⟩

end LangGraph

/-! ### No framework -/

namespace Custom

variable {p : AgentPlan}

/-- The class is a list of fixed lines, each complete by itself but for the reply, which takes several. -/
theorem complete_runtimeClass : Complete (Decl.block runtimeClass).render := by
  -- the lines before the reply, its entries and the lines after it
  have hbefore : ∀ l ∈ runtimeClass.take 27, Separable l := by
    repeat refine separable_cons (by decide) ?_
    exact separable_nil
  have hentries : ∀ l ∈ (runtimeClass.drop 28).take 5, Separable l := by
    repeat refine separable_cons (by decide) ?_
    exact separable_nil
  have hafter : ∀ l ∈ runtimeClass.drop 34, Separable l := by
    repeat refine separable_cons (by decide) ?_
    exact separable_nil
  have hreply : Complete ("        reply = \x7b\n" ++ indented 0 ((runtimeClass.drop 28).take 5) ++ "        \x7d\n") :=
    (complete_indented 0 hentries).separable.wrapped ['\x7b'] (by decide)
  have hopening : indented 0 ["        reply = \x7b"] = "        reply = \x7b\n" := by decide
  have hclosing : indented 0 ["        \x7d"] = "        \x7d\n" := by decide
  have hlines : runtimeClass = runtimeClass.take 27 ++ (["        reply = \x7b"]
      ++ (runtimeClass.drop 28).take 5 ++ ["        \x7d"]) ++ runtimeClass.drop 34 := rfl
  have hrender : (Decl.block runtimeClass).render = indented 0 runtimeClass := rfl
  rw [hrender, hlines, indented_append, indented_append, indented_append, indented_append, hopening, hclosing]
  exact ((complete_indented 0 hbefore).append hreply).append (complete_indented 0 hafter)

theorem tidy_server (t : ToolsetPlan) : (server t).Tidy := tidy_dict (by simp [tidy_str, tidy_strs, tidy_strDict])

theorem tidy_agent (h : p.WordLike) : (agent p).Tidy := by
  refine tidy_call (by decide) ?_
  simp only [tidyArgs_append, and_assoc]
  refine ⟨?_, ?_, ?_, ?_, ?_, ?_⟩
  · exact tidyArgs_kw (by decide) (tidy_str _)
  · exact tidyArgs_kw (by decide) (tidy_str _)
  · exact tidyArgs_kw (by decide) (tidy_str _)
  · exact tidyArgs_kw? (by decide) (tidy_optionalText _)
  · exact tidyArgs_kw (by decide) (tidy_idents h.complete_boundTools)
  · exact tidyArgs_kw (by decide) (tidy_idents h.complete_toolsetIdents)

theorem separable_program (p : AgentPlan) : ∀ l ∈ program p, Separable l := by
  have hlisten : Complete (Plan.agentBinding
      ++ ".on_event(lambda kind, payload: print(f\"[\x7bkind\x7d] \x7bpayload\x7d\"))") :=
    complete_agentBinding.append (complete_text (by decide))
  have hrun : Complete (Plan.agentBinding ++ ".run(" ++ quote Plan.samplePrompt ++ ")") :=
    (wraps_text ['('] (by decide)).after complete_agentBinding _ (separable_quote _)
  have hprint : Complete ("print(json.dumps(" ++ (Plan.agentBinding ++ ".run(" ++ quote Plan.samplePrompt ++ ")")
      ++ ", indent=2, default=str))") := hrun.separable.wrapped ['(', '('] (by decide)
  have hclose : "), indent=2, default=str))" = ")" ++ ", indent=2, default=str))" := by decide
  unfold program
  rw [hclose]
  simp only [List.forall_mem_append, String.append_assoc] at hprint ⊢
  exact ⟨forall_mem_ite _ (by simpa using hlisten.separable), by simpa using hprint.separable⟩

theorem endsSolid_program (p : AgentPlan) : EndsSolid (program p) := by
  have hlast : EndsSolid ["print(json.dumps(root_agent.run(\"Hello! What can you do?\"), indent=2, default=str))"] :=
    endsSolid_text (by decide)
  have hline : "print(json.dumps(" ++ Plan.agentBinding ++ ".run(" ++ quote Plan.samplePrompt
      ++ "), indent=2, default=str))"
      = "print(json.dumps(root_agent.run(\"Hello! What can you do?\"), indent=2, default=str))" := by decide
  unfold program
  rw [hline]
  exact hlast.after _

theorem tidy_module (h : p.WordLike) : (module p).Tidy := by
  refine ⟨tidy_collect ?_, ?_, (endsInProgram_concat [_, _] (endsSolid_program p)).after _⟩
  · exact .tidyModule (by decide) .nil
  · unfold module
    simp only [List.forall_mem_append, and_assoc]
    refine ⟨?_, ?_, ?_, ?_⟩
    · simpa using complete_runtimeClass
    · exact complete_tools h.tools (by simp)
    · exact complete_toolsets h.toolsets fun t _ => tidy_server t
    · simpa using ⟨complete_agent (tidy_agent h), complete_exportDecl, complete_entryPoint (separable_program p)⟩

end Custom

/-! ### Compiled code -/

/-- Modules for every framework are tidy if the identifiers are words. -/
theorem AgentPlan.WordLike.tidy_moduleFor {p : AgentPlan} (h : p.WordLike) (f : Framework) : (p.moduleFor f).Tidy := by
  cases f with
  | adk => exact Adk.tidy_module h
  | openAIAgents => exact OpenAIAgents.tidy_module h
  | langGraph => exact LangGraph.tidy_module h
  | customAgent => exact Custom.tidy_module h

/-- **Text of users cannot break the code**: compiled code has no bracket problem, whatever the graph, the framework,
the credential and the launch records are. A strict reader comes to its end in code, so every literal is closed, and on
its line if it is in single quotes. Every literal and every docstring ends where its text does: what follows is read as
if it were not there. -/
theorem compile_wellBracketed (c : Compiler) :
    problem? c.compile.code.toList = none ∧ start.read c.compile.code.toList = some start ∧
      ∀ text, Separable (quote text) ∧ Complete (docstring text) := by
  have hread : start.read c.compile.code.toList = some start :=
    ((AgentPlan.wordLike_build c.graph c.launchConfigs).tidy_moduleFor c.framework).read_clean_render
  exact ⟨problem?_eq_none ⟨.code, hread⟩, hread, fun text => ⟨separable_quote text, complete_docstring text⟩⟩

end AgentFlow
