import AgentFlow.Proofs.Framework.Bindings
import AgentFlow.Proofs.Plan.Labels
import AgentFlow.Proofs.Python.Mentions

/-!
# Labels that shadow names of generated modules

The main function, the runtime class and the entry point of a module are lines of text that mention names of their own:
variables, parameters, and functions that Python provides. Most of them no label can become, because they are reserved,
kept by Python or not written as identifiers are. The others are exposed: if a tool's label has an exposed name for its
slug, then the tool takes the name, and the line that means its own variable or function and the tool get in each
other's way. Toolsets never do: a line that mentions one closes it.
-/

namespace AgentFlow

open Python

/-! ### The lines of a program -/

/-- The lines of text in a declaration. -/
def Python.Decl.textLines : Decl → List String
  | .function f => f.body
  | .block lines => lines
  | .entryPoint body => body
  | .comment _ => []
  | .assign _ _ _ => []
  | .tool _ => []

/-- The lines of the main function, of the runtime class and of the entry point. -/
def AgentPlan.programLines (p : AgentPlan) (f : Framework) : List String :=
  (p.moduleFor f).decls.flatMap Decl.textLines

/-- The names of methods, parameters and variables of the runtime class, and the function that it calls. -/
def Custom.runtimeNames : List String :=
  ["self", "name", "model", "instruction", "description", "fn", "tools", "servers", "list", "on_event", "callback",
   "kind", "payload", "run", "message", "results", "reply", "server"]

/-- The names that the lines for a framework mention and that a label may become. -/
def AgentPlan.exposedNames (p : AgentPlan) : Framework → List String
  | .adk => ["content", "event", "print"]
  | .openAIAgents =>
    (if p.toolsets.isEmpty then [] else ["server"]) ++ (if p.capabilities.events then ["event"] else [])
      ++ ["result", "print"]
  | .langGraph => [if p.capabilities.events then "update" else "result", "print"]
  | .customAgent => Custom.runtimeNames ++ ["print", "str"]

/-- The line that closes the connection of a toolset. -/
def AgentPlan.closingLine (ident : String) : String := "    await " ++ ident ++ ".close()"

/-- No label becomes this word. -/
def Plan.outOfReach (word : String) : Bool :=
  withheld word || Naming.keywords.contains word || word.toList.head? == some '_'

/-- An identifier of the plan is not out of reach. -/
theorem Plan.outOfReach_idents (g : Graph) (configs : List LaunchConfig) {ident : String}
    (h : ident ∈ (toolIdents g).1 ++ toolsetIdents g configs) : outOfReach ident = false := by
  have hhead : ident.toList.head? ≠ some '_' := by
    -- tools and toolsets get their names in the same way
    rcases List.mem_append.mp h with h | h
    · exact Names.head?_of_mem_allocateAll _ slug_ne_empty_of_toolLabels h
    · exact Names.head?_of_mem_allocateAll _ slug_ne_empty_of_toolsetLabels h
  simp [outOfReach, withheld_idents g configs h, (usable_idents g configs h).unkept, hhead]

/-! ### Exposed names -/

/-- Apart from lines that are exempt, these are the words of the lines that are not out of reach. -/
structure Exposes (exempt lines names : List String) : Prop where
  within : ∀ line ∈ lines, line ∈ exempt ∨ ∀ w ∈ codeWords line, w ∈ names ∨ Plan.outOfReach w = true
  mentioned : ∀ name ∈ names, ∃ line ∈ lines, name ∈ codeWords line

/-- The names are the words that are not out of reach. -/
def exposesOnly (words names : List String) : Bool :=
  words.all (fun w => names.contains w || Plan.outOfReach w) && names.all words.contains

section Exposes

variable {exempt lines lines' names names' : List String}

theorem Exposes.congr (h : Exposes exempt lines names) (hnames : ∀ name, name ∈ names ↔ name ∈ names') :
    Exposes exempt lines names' where
  within line hline := (h.within line hline).imp_right fun hw w hmem => (hw w hmem).imp_left (hnames w).mp
  mentioned name hname := h.mentioned name ((hnames name).mpr hname)

/-- Lines together expose what each of them does. -/
theorem Exposes.append (h : Exposes exempt lines names) (h' : Exposes exempt lines' names') :
    Exposes exempt (lines ++ lines') (names ++ names') where
  within line hline := by
    rcases List.mem_append.mp hline with hline | hline
    · exact (h.within line hline).imp_right fun hw w hmem => (hw w hmem).imp_left (List.mem_append_left _)
    · exact (h'.within line hline).imp_right fun hw w hmem => (hw w hmem).imp_left (List.mem_append_right _)
  mentioned name hname := by
    rcases List.mem_append.mp hname with hname | hname
    · obtain ⟨line, hline, hw⟩ := h.mentioned name hname
      exact ⟨line, List.mem_append_left _ hline, hw⟩
    · obtain ⟨line, hline, hw⟩ := h'.mentioned name hname
      exact ⟨line, List.mem_append_right _ hline, hw⟩

theorem Exposes.cons {line : String} (h : Exposes exempt [line] names) (h' : Exposes exempt lines' names') :
    Exposes exempt (line :: lines') (names ++ names') := h.append h'

theorem exposes_nil : Exposes exempt [] [] := ⟨by simp, by simp⟩

/-- Exempt lines expose nothing. -/
theorem exposes_exempt : Exposes exempt exempt [] := ⟨fun _ => .inl, by simp⟩

theorem Exposes.ite (c : Prop) [Decidable c] (h : Exposes exempt lines names) (h' : Exposes exempt lines' names') :
    Exposes exempt (if c then lines else lines') (if c then names else names') := by
  split_ifs
  · exact h
  · exact h'

/-- Indenting lines exposes nothing new. -/
theorem Exposes.indented (h : Exposes [] lines names) : Exposes exempt (lines.map ("    " ++ ·)) names where
  within line hline := by
    obtain ⟨line, hmem, rfl⟩ := List.mem_map.mp hline
    rw [codeWords_indented]
    exact .inr ((h.within line hmem).resolve_left List.not_mem_nil)
  mentioned name hname := by
    obtain ⟨line, hline, hw⟩ := h.mentioned name hname
    exact ⟨_, List.mem_map_of_mem hline, by rwa [codeWords_indented]⟩

/-- Which names are exposed can be decided from the words. -/
theorem exposes_of_words {words : List String} (hwords : lines.flatMap codeWords = words)
    (h : exposesOnly words names = true) : Exposes exempt lines names := by
  obtain ⟨hwithin, hmentioned⟩ := Bool.and_eq_true_iff.mp h
  constructor
  · refine fun line hline => .inr fun w hw => ?_
    have hmem : w ∈ words := hwords ▸ List.mem_flatMap.mpr ⟨line, hline, hw⟩
    simpa using List.all_eq_true.mp hwithin w hmem
  · intro name hname
    have hmem : name ∈ lines.flatMap codeWords := by
      rw [hwords]
      simpa using List.all_eq_true.mp hmentioned name hname
    exact List.mem_flatMap.mp hmem

/-- The lines are these lists of characters. -/
inductive WrittenAs : List String → List (List Char) → Prop
  | nil : WrittenAs [] []
  | cons (cs : List Char) {lines : List String} {texts : List (List Char)} :
    WrittenAs lines texts → WrittenAs (String.ofList cs :: lines) (cs :: texts)

/-- The words of the lines are those of the characters. -/
theorem WrittenAs.codeWords {texts : List (List Char)} (h : WrittenAs lines texts) :
    lines.flatMap codeWords = texts.flatMap fun cs => (Place.start.scan (cs ++ ['\n'])).1 := by
  induction h with
  | nil => rfl
  | cons cs _ ih => rw [List.flatMap_cons, List.flatMap_cons, ih, Python.codeWords, String.toList_ofList]

/-- Lines that are written out are read as lists of characters. -/
theorem exposes_texts {texts : List (List Char)} (hlines : WrittenAs lines texts)
    (h : exposesOnly (texts.flatMap fun cs => (Place.start.scan (cs ++ ['\n'])).1) names = true) :
    Exposes exempt lines names := exposes_of_words hlines.codeWords h

/-- A line that is read in parts exposes names of the words that were read. -/
theorem Python.Place.Reads.exposes {line : String} {words : List String} {b : Char} {w : List Char}
    (hline : Place.start.Reads line words (.code b w)) (names : List String)
    (h : exposesOnly (words ++ endedWord b w '\n') names = true) : Exposes exempt [line] names := by
  refine exposes_of_words ?_ h
  rw [List.flatMap_singleton, hline.codeWords_eq]

end Exposes

/-! ### The frameworks -/

section Frameworks

variable (p : AgentPlan) {exempt : List String}

theorem lines_tools (decorators : List String) :
    (p.tools.map fun t => Decl.tool (t.function decorators)).flatMap Decl.textLines = [] := by
  simp [List.flatMap_map, Decl.textLines]

theorem lines_toolsets (server : ToolsetPlan → Expr) :
    (p.toolsets.map fun t => Decl.assign t.ident .protocol (server t)).flatMap Decl.textLines = [] := by
  simp [List.flatMap_map, Decl.textLines]

theorem reads_agentBinding (b : Char) :
    (Place.code b []).Reads Plan.agentBinding [] (.code b Plan.agentBinding.toList.reverse) :=
  Place.reads_word b (Naming.wordLike_of_all (by decide))

theorem exposes_runMain : Exposes exempt [Plan.runMain] [] := exposes_texts (.cons _ .nil) (by decide)

theorem reads_closingParen : (Place.code '"' []).Reads ")" [] (.code ')' []) := Place.reads_text (by decide)

namespace Adk

theorem reads_sessionArgs : (Place.code '(' []).Reads (sessionArgs p) [] (.code '"' []) := by
  have hname : (Place.code '(' []).Reads "app_name=" [] (.code '=' []) := Place.reads_text (by decide)
  have huser : (Place.code '"' []).Reads ", user_id=" [] (.code '=' []) := Place.reads_text (by decide)
  exact ((hname.append (Place.reads_quote _ _)).append huser).append (Place.reads_quote _ _)

/-- The line that makes a session exposes nothing. -/
theorem exposes_session {call : String} {words : List String} (hcall : Place.start.Reads call words (.code '(' []))
    (h : exposesOnly words [] = true) : Exposes exempt [call ++ sessionArgs p ++ ")"] [] := by
  refine ((hcall.append (reads_sessionArgs p)).append reads_closingParen).exposes [] ?_
  simpa [endedWord] using h

theorem exposes_messageLine : Exposes exempt [messageLine] ["content"] := by
  have hopen : Place.start.Reads "content = types.Content(role=\"user\", parts=[types.Part(text="
      ["content", "types", "types"] (.code '=' []) := Place.reads_text (by decide)
  have hclose : (Place.code '"' []).Reads ")])" [] (.code ')' []) := Place.reads_text (by decide)
  exact ((hopen.append (Place.reads_quote _ _)).append hclose).exposes ["content"] (by decide)

theorem exposes_loop {call : String} {words : List String} (hcall : Place.start.Reads call words (.code '(' []))
    (h : exposesOnly (words ++ ["session", "content"]) ["content", "event"] = true) :
    Exposes exempt [call ++ runArgs ++ ")" ++ ":"] ["content", "event"] := by
  have huser : (Place.code '(' []).Reads "user_id=" [] (.code '=' []) := Place.reads_text (by decide)
  have hmessage : (Place.code '"' []).Reads ", session_id=session.id, new_message=content" ["session"]
      (.code '=' ['t', 'n', 'e', 't', 'n', 'o', 'c']) := Place.reads_text (by decide)
  have hclose : (Place.code '=' ['t', 'n', 'e', 't', 'n', 'o', 'c']).Reads ")" ["content"] (.code ')' []) :=
    Place.reads_text (by decide)
  have hcolon : (Place.code ')' []).Reads ":" [] (.code ':' []) := Place.reads_text (by decide)
  have hargs := (huser.append (Place.reads_quote _ "user")).append hmessage
  refine (((hcall.append hargs).append hclose).append hcolon).exposes _ ?_
  simpa [endedWord, List.append_assoc] using h

/-- Both loops expose the message, the event and the function that prints. -/
theorem exposes_eventLoop {loop : String} (hloop : Exposes exempt [loop ++ ":"] ["content", "event"]) :
    Exposes exempt (eventLoop p loop) ["content", "event", "print"] := by
  have hnote : Exposes exempt ["    print(f\"[\x7bevent.author\x7d] event received\")"] ["print"] :=
    exposes_texts (.cons _ .nil) (by decide)
  have hanswer : Exposes exempt ["    if event.is_final_response() and event.content and event.content.parts:",
      "        print(event.content.parts[0].text)"] ["event", "print"] :=
    exposes_texts (.cons _ (.cons _ .nil)) (by decide)
  have hnoted := hnote.ite (p.capabilities.events = true) exposes_nil
  exact ((hloop.append hnoted).append hanswer).congr fun name => by grind

/-- Only the program itself has lines of text. -/
theorem programLines_eq : p.programLines .adk = (program p).flatMap Decl.textLines := by
  have hcomment : (if (!p.toolsets.isEmpty) = true then [Decl.comment Plan.serverComment]
      else []).flatMap Decl.textLines = [] := by
    split_ifs <;> rfl
  have hmemory : (if p.capabilities.memory then
      [Decl.assign "memory_service" .support (.call "InMemoryMemoryService" [])]
      else []).flatMap Decl.textLines = [] := by
    split_ifs <;> rfl
  simp only [AgentPlan.programLines, AgentPlan.moduleFor, module, List.flatMap_append, lines_tools, lines_toolsets,
    hcomment, hmemory]
  rfl

theorem exposes_entryPoint : Exposes exempt
    (["session = session_service.create_session_sync(" ++ sessionArgs p ++ ")", messageLine]
      ++ eventLoop p ("for event in runner.run(" ++ runArgs ++ ")")) (p.exposedNames .adk) := by
  have hsession : Place.start.Reads "session = session_service.create_session_sync(" ["session", "session_service"]
      (.code '(' []) := Place.reads_text (by decide)
  have hloop : Place.start.Reads "for event in runner.run(" ["for", "event", "in", "runner"] (.code '(' []) :=
    Place.reads_text (by decide)
  have hevents : Exposes exempt _ _ := exposes_eventLoop p (exposes_loop hloop (by decide))
  have hlines := (exposes_session p hsession (by decide)).cons (exposes_messageLine.cons hevents)
  exact hlines.congr fun name => by grind [AgentPlan.exposedNames]

/-- The main function exposes what the entry point does, apart from the lines that close toolsets. -/
theorem exposes_mainBody :
    Exposes (p.toolsetIdents.map AgentPlan.closingLine) (mainBody p) (p.exposedNames .adk) := by
  have hsession : Place.start.Reads "session = await session_service.create_session("
      ["session", "await", "session_service"] (.code '(' []) := Place.reads_text (by decide)
  have hloop : Place.start.Reads "async for event in runner.run_async(" ["async", "for", "event", "in", "runner"]
      (.code '(' []) := Place.reads_text (by decide)
  have htry : Exposes (p.toolsetIdents.map AgentPlan.closingLine) ["try:"] [] :=
    exposes_texts (.cons _ .nil) (by decide)
  have hfinally : Exposes (p.toolsetIdents.map AgentPlan.closingLine) ["finally:"] [] :=
    exposes_texts (.cons _ .nil) (by decide)
  have hopen := (exposes_session p hsession (by decide)).cons (exposes_messageLine.cons htry)
  have hevents : Exposes (p.toolsetIdents.map AgentPlan.closingLine) _ _ :=
    (exposes_eventLoop p (exposes_loop hloop (by decide))).indented
  have hlines := ((hopen.append hevents).append hfinally).append exposes_exempt
  exact hlines.congr fun name => by grind [AgentPlan.exposedNames]

theorem exposes_programLines :
    Exposes (p.toolsetIdents.map AgentPlan.closingLine) (p.programLines .adk) (p.exposedNames .adk) := by
  rw [programLines_eq, program]
  -- without tool servers the entry point runs the agent itself
  split_ifs with hservers
  · rw [List.flatMap_singleton]
    exact exposes_entryPoint p
  · exact ((exposes_mainBody p).append exposes_runMain).congr fun name => by simp

end Adk

namespace OpenAIAgents

theorem exposes_session : Exposes exempt ["session = SQLiteSession(" ++ quote p.agentName ++ ")"] [] := by
  have hopen : Place.start.Reads "session = SQLiteSession(" ["session", "SQLiteSession"] (.code '(' []) :=
    Place.reads_text (by decide)
  exact ((hopen.append (Place.reads_quote _ _)).append reads_closingParen).exposes [] (by decide)

/-- The arguments of a run: the agent, a prompt, and the session if there is one. -/
theorem reads_runArgs (memory : Bool) : (Place.code '(' []).Reads
    (Plan.agentBinding ++ ", " ++ quote Plan.samplePrompt ++ (if memory then ", session=session" else "") ++ ")")
    (Plan.agentBinding :: if memory then ["session"] else []) (.code ')' []) := by
  have hcomma : (Place.code '(' Plan.agentBinding.toList.reverse).Reads ", " [Plan.agentBinding]
      (.code ' ' []) := Place.reads_text (by decide)
  have hopen := ((reads_agentBinding '(').append hcomma).append (Place.reads_quote _ Plan.samplePrompt)
  -- the session, if there is one, is the last word before the parenthesis
  cases memory with
  | false =>
    have hnone : (Place.code '"' []).Reads "" [] (.code '"' []) := rfl
    exact (hopen.append hnone).append reads_closingParen
  | true =>
    have hsession : (Place.code '"' []).Reads ", session=session" [] (.code '=' ['n', 'o', 'i', 's', 's', 'e', 's']) :=
      Place.reads_text (by decide)
    have hclose : (Place.code '=' ['n', 'o', 'i', 's', 's', 'e', 's']).Reads ")" ["session"] (.code ')' []) :=
      Place.reads_text (by decide)
    exact (hopen.append hsession).append hclose

theorem exposes_runLines :
    Exposes exempt (runLines p) ((if p.capabilities.events then ["event"] else []) ++ ["result", "print"]) := by
  have hargs := reads_runArgs p.capabilities.memory
  have hstreamed : Place.start.Reads "result = Runner.run_streamed(" ["result", "Runner"] (.code '(' []) :=
    Place.reads_text (by decide)
  have hplain : Place.start.Reads "result = await Runner.run(" ["result", "await", "Runner"] (.code '(' []) :=
    Place.reads_text (by decide)
  have hevents : Exposes exempt ["async for event in result.stream_events():",
      "    print(f\"[\x7bevent.type\x7d] event received\")"] ["event", "result", "print"] :=
    exposes_texts (.cons _ (.cons _ .nil)) (by decide)
  have hprint : Exposes exempt ["print(result.final_output)"] ["print", "result"] :=
    exposes_texts (.cons _ .nil) (by decide)
  have hrunStreamed : Exposes exempt _ ["result"] :=
    (hstreamed.append hargs).exposes _ (by cases p.capabilities.memory <;> decide)
  have hrun : Exposes exempt _ ["result"] :=
    (hplain.append hargs).exposes _ (by cases p.capabilities.memory <;> decide)
  have hsession : Exposes exempt _ _ := (exposes_session p).ite (p.capabilities.memory = true) exposes_nil
  have hanswer := (hrunStreamed.cons hevents).ite (p.capabilities.events = true) hrun
  exact ((hsession.append hanswer).append hprint).congr fun name => by grind

theorem exposes_programLines : Exposes exempt (p.programLines .openAIAgents) (p.exposedNames .openAIAgents) := by
  have hlines : p.programLines .openAIAgents = mainBody p ++ [Plan.runMain] := by
    simp only [AgentPlan.programLines, AgentPlan.moduleFor, module, List.flatMap_append, lines_tools, lines_toolsets]
    rfl
  have hstack : Exposes exempt ["async with AsyncExitStack() as stack:"] [] := exposes_texts (.cons _ .nil) (by decide)
  have henter : Exposes exempt ["        await stack.enter_async_context(server)"] ["server"] :=
    exposes_texts (.cons _ .nil) (by decide)
  have hopen : Place.start.Reads "    for server in " ["for", "server", "in"] (.code ' ' []) :=
    Place.reads_text (by decide)
  have hattribute : (Place.code ' ' Plan.agentBinding.toList.reverse).Reads ".mcp_servers:" [Plan.agentBinding]
      (.code ':' []) := Place.reads_text (by decide)
  have heach : Exposes exempt _ ["server"] :=
    ((hopen.append (reads_agentBinding ' ')).append hattribute).exposes _ (by decide)
  have hservers := hstack.cons (heach.cons henter)
  have hbody := (exposes_runLines p).ite (p.toolsets.isEmpty = true) (hservers.append (exposes_runLines p).indented)
  rw [hlines]
  exact (hbody.append exposes_runMain).congr fun name => by grind [AgentPlan.exposedNames]

end OpenAIAgents

namespace LangGraph

theorem exposes_config :
    Exposes exempt ["config = \x7b\"configurable\": \x7b\"thread_id\": " ++ quote p.agentName ++ "\x7d\x7d"] [] := by
  have hopen : Place.start.Reads "config = \x7b\"configurable\": \x7b\"thread_id\": " ["config"] (.code ' ' []) :=
    Place.reads_text (by decide)
  have hclose : (Place.code '"' []).Reads "\x7d\x7d" [] (.code '\x7d' []) := Place.reads_text (by decide)
  exact ((hopen.append (Place.reads_quote _ _)).append hclose).exposes [] (by decide)

/-- Where a reader stands after the arguments of a run: in the name of the configuration, if there is one. -/
def afterArgs (memory : Bool) : Place :=
  if memory then .code ' ' ['g', 'i', 'f', 'n', 'o', 'c'] else .code '\x7d' []

/-- The arguments end in the name of the configuration, if it is handed on. -/
theorem reads_args (memory : Bool) : (Place.code '(' []).Reads
    ("\x7b\"messages\": [\x7b\"role\": \"user\", \"content\": " ++ quote Plan.samplePrompt ++ "\x7d]\x7d"
      ++ if memory then ", config" else "") [] (afterArgs memory) := by
  have hopen : (Place.code '(' []).Reads "\x7b\"messages\": [\x7b\"role\": \"user\", \"content\": " [] (.code ' ' []) :=
    Place.reads_text (by decide)
  have hclose : (Place.code '"' []).Reads "\x7d]\x7d" [] (.code '\x7d' []) := Place.reads_text (by decide)
  have hmessage := (hopen.append (Place.reads_quote _ Plan.samplePrompt)).append hclose
  cases memory with
  | false =>
    have hnone : (Place.code '\x7d' []).Reads "" [] (afterArgs false) := rfl
    exact hmessage.append hnone
  | true =>
    have hconfig : (Place.code '\x7d' []).Reads ", config" [] (afterArgs true) := Place.reads_text (by decide)
    exact hmessage.append hconfig

theorem exposes_stream (memory : Bool) : Exposes exempt
    ["for update in " ++ Plan.agentBinding ++ ".stream("
      ++ ("\x7b\"messages\": [\x7b\"role\": \"user\", \"content\": " ++ quote Plan.samplePrompt ++ "\x7d]\x7d"
        ++ if memory then ", config" else "") ++ ", stream_mode=\"updates\"):"] ["update"] := by
  have hopen : Place.start.Reads "for update in " ["for", "update", "in"] (.code ' ' []) := Place.reads_text (by decide)
  have hcall : (Place.code ' ' Plan.agentBinding.toList.reverse).Reads ".stream(" [Plan.agentBinding] (.code '(' []) :=
    Place.reads_text (by decide)
  have hclose : (afterArgs memory).Reads ", stream_mode=\"updates\"):" (if memory then ["config"] else [])
      (.code ':' []) := by
    cases memory <;> exact Place.reads_text (by decide)
  have hline := (((hopen.append (reads_agentBinding ' ')).append hcall).append (reads_args memory)).append hclose
  exact hline.exposes ["update"] (by cases memory <;> decide)

theorem exposes_invoke (memory : Bool) : Exposes exempt
    ["result = " ++ Plan.agentBinding ++ ".invoke("
      ++ ("\x7b\"messages\": [\x7b\"role\": \"user\", \"content\": " ++ quote Plan.samplePrompt ++ "\x7d]\x7d"
        ++ if memory then ", config" else "") ++ ")"] ["result"] := by
  have hopen : Place.start.Reads "result = " ["result"] (.code ' ' []) := Place.reads_text (by decide)
  have hcall : (Place.code ' ' Plan.agentBinding.toList.reverse).Reads ".invoke(" [Plan.agentBinding] (.code '(' []) :=
    Place.reads_text (by decide)
  have hclose : (afterArgs memory).Reads ")" (if memory then ["config"] else []) (.code ')' []) := by
    cases memory <;> exact Place.reads_text (by decide)
  have hline := (((hopen.append (reads_agentBinding ' ')).append hcall).append (reads_args memory)).append hclose
  exact hline.exposes ["result"] (by cases memory <;> decide)

theorem exposes_programLines : Exposes exempt (p.programLines .langGraph) (p.exposedNames .langGraph) := by
  have hlines : p.programLines .langGraph = program p := by
    have hclient : (if (!p.toolsets.isEmpty) = true then
        [Decl.comment Plan.serverComment, .assign "protocol_client" .support (client p)]
        else []).flatMap Decl.textLines = [] := by
      split_ifs <;> rfl
    simp only [AgentPlan.programLines, AgentPlan.moduleFor, module, List.flatMap_append, lines_tools, lines_toolsets,
      hclient]
    exact List.append_nil _
  have hupdate : Exposes exempt ["    print(update)"] ["print", "update"] := exposes_texts (.cons _ .nil) (by decide)
  have hresult : Exposes exempt ["print(result[\"messages\"][-1].content)"] ["print", "result"] :=
    exposes_texts (.cons _ .nil) (by decide)
  have hconfig : Exposes exempt _ _ := (exposes_config p).ite (p.capabilities.memory = true) exposes_nil
  have hanswer := ((exposes_stream p.capabilities.memory).cons hupdate).ite (p.capabilities.events = true)
    ((exposes_invoke p.capabilities.memory).cons hresult)
  rw [hlines]
  exact (hconfig.append hanswer).congr fun name => by grind [AgentPlan.exposedNames]

end LangGraph

namespace Custom

theorem exposes_runtimeClass : Exposes exempt runtimeClass runtimeNames := by
  apply exposes_texts
  · -- one line after the other is turned into its characters
    dsimp only [runtimeClass]
    repeat apply WrittenAs.cons
    exact .nil
  · decide

theorem exposes_programLines : Exposes exempt (p.programLines .customAgent) (p.exposedNames .customAgent) := by
  have hlines : p.programLines .customAgent = runtimeClass ++ program p := by
    simp only [AgentPlan.programLines, AgentPlan.moduleFor, module, List.flatMap_append, lines_tools, lines_toolsets]
    exact congrArg _ (List.append_nil _)
  have hlistener : (Place.code '\n' Plan.agentBinding.toList.reverse).Reads
      ".on_event(lambda kind, payload: print(f\"[\x7bkind\x7d] \x7bpayload\x7d\"))"
      [Plan.agentBinding, "lambda", "kind", "payload", "print"] (.code ')' []) := Place.reads_text (by decide)
  have hlisten : Exposes exempt _ ["kind", "payload", "print"] :=
    ((reads_agentBinding '\n').append hlistener).exposes _ (by decide)
  have hopen : Place.start.Reads "print(json.dumps(" ["print", "json"] (.code '(' []) := Place.reads_text (by decide)
  have hcall : (Place.code '(' Plan.agentBinding.toList.reverse).Reads ".run(" [Plan.agentBinding] (.code '(' []) :=
    Place.reads_text (by decide)
  have hclose : (Place.code '"' []).Reads "), indent=2, default=str))" ["str"] (.code ')' []) :=
    Place.reads_text (by decide)
  have hanswer := ((hopen.append (reads_agentBinding '(')).append hcall).append (Place.reads_quote _ Plan.samplePrompt)
  have hprint : Exposes exempt _ ["print", "str"] := (hanswer.append hclose).exposes _ (by decide)
  have hprogram := (hlisten.ite (p.capabilities.events = true) exposes_nil).append hprint
  have hnames : ["kind", "payload"] ⊆ runtimeNames := by decide
  rw [hlines]
  exact (exposes_runtimeClass.append hprogram).congr fun name => by grind [AgentPlan.exposedNames]

end Custom

/-- Each framework exposes its own names, and no line but the closing ones names a toolset. -/
theorem AgentPlan.exposes_programLines (f : Framework) :
    Exposes (p.toolsetIdents.map closingLine) (p.programLines f) (p.exposedNames f) := by
  cases f with
  | adk => exact Adk.exposes_programLines p
  | openAIAgents => exact OpenAIAgents.exposes_programLines p
  | langGraph => exact LangGraph.exposes_programLines p
  | customAgent => exact Custom.exposes_programLines p

/-- A label becomes this name if it is the label's slug, and not otherwise; no toolset has it. -/
def isWithinReach (name : String) : Bool :=
  Naming.isDirect name && !Plan.reserved.contains name && !"toolset".toList.isSuffixOf name.toList

theorem of_isWithinReach {name : String} (h : isWithinReach name = true) :
    Naming.Direct name ∧ name ∉ Plan.reserved ∧ ¬ "toolset".toList <:+ name.toList := by
  simp only [isWithinReach, Bool.and_eq_true] at h
  obtain ⟨⟨hdirect, hfree⟩, hword⟩ := h
  refine ⟨Naming.direct_of_isDirect hdirect, by simpa using hfree, fun hsuffix => ?_⟩
  rw [List.isSuffixOf_iff_suffix.mpr hsuffix] at hword
  cases hword

/-- A label can become any of the exposed names. -/
theorem AgentPlan.isWithinReach_exposedNames (f : Framework) : (p.exposedNames f).all isWithinReach = true := by
  cases f with
  | adk =>
    show ["content", "event", "print"].all isWithinReach = true
    decide
  | openAIAgents =>
    have hall : ∀ alone events : Bool, ((if alone then [] else ["server"]) ++ (if events then ["event"] else [])
        ++ ["result", "print"]).all isWithinReach = true := by decide
    exact hall p.toolsets.isEmpty p.capabilities.events
  | langGraph =>
    have hall : ∀ events : Bool, [if events then "update" else "result", "print"].all isWithinReach = true := by decide
    exact hall p.capabilities.events
  | customAgent =>
    show (Custom.runtimeNames ++ ["print", "str"]).all isWithinReach = true
    decide

end Frameworks

/-- A line that closes a toolset mentions nothing else. -/
theorem codeWords_closingLine {ident : String} (h : Naming.WordLike ident) :
    codeWords (AgentPlan.closingLine ident) ⊆ ["await", ident] := by
  have hawait : Place.start.Reads "    await " ["await"] (.code ' ' []) := Place.reads_text (by decide)
  have hclose : (Place.code ' ' ident.toList.reverse).Reads ".close()" (endedWord ' ' ident.toList.reverse '.')
      (.code ')' []) := by
    have hdot : ∀ w, (Place.code ' ' w).step '.' = (endedWord ' ' w '.', .code '.' []) := fun _ => rfl
    have hrest : (Place.code '.' []).scan ['c', 'l', 'o', 's', 'e', '(', ')'] = ([], .code ')' []) := by decide
    refine Place.reads_text ?_
    rw [Place.scan_cons, hdot, hrest, List.append_nil]
  have hwords := ((hawait.append (Place.reads_word ' ' h)).append hclose).codeWords_eq
  have hident := endedWord_subset ' ' ident.toList.reverse '.'
  rw [List.reverse_reverse, String.ofList_toList] at hident
  rw [AgentPlan.closingLine, hwords]
  exact List.append_subset.mpr ⟨List.append_subset.mpr ⟨by simp, List.Subset.trans hident (by simp)⟩, List.nil_subset _⟩

section Shadowing

variable (g : Graph) (configs : List LaunchConfig) (f : Framework)

/-- A name of a tool or a toolset that some line mentions is exposed, unless the line closes the toolset. -/
theorem exposed_of_mentioned {ident line : String} (hident : ident ∈ (AgentPlan.build g configs).idents)
    (hline : line ∈ (AgentPlan.build g configs).programLines f) (hmention : ident ∈ codeWords line) :
    ident ∈ (AgentPlan.build g configs).exposedNames f ∨
      ident ∈ (AgentPlan.build g configs).toolsetIdents ∧ line = AgentPlan.closingLine ident := by
  have hreach : Plan.outOfReach ident = false := by
    rw [AgentPlan.idents_build] at hident
    exact Plan.outOfReach_idents g configs hident
  -- the line closes some toolset, or its words are exposed or out of reach
  rcases ((AgentPlan.build g configs).exposes_programLines f).within line hline with hclosing | hwords
  · obtain ⟨other, hother, rfl⟩ := List.mem_map.mp hclosing
    obtain ⟨t, ht, rfl⟩ := List.mem_map.mp hother
    have hword := (AgentPlan.wordLike_build g configs).toolsets t ht
    rcases List.mem_cons.mp (codeWords_closingLine hword hmention) with rfl | hsame
    · exact absurd hreach (by decide)
    · obtain rfl : ident = t.ident := by simpa using hsame
      exact .inr ⟨hother, rfl⟩
  · refine .inl ((hwords ident hmention).resolve_right ?_)
    simp [hreach]

/-- **What labels shadow.** A tool has the name of something that the main function, the runtime class or the entry
point of its module mentions exactly if the name is one of the exposed ones and the slug of a tool's label. A toolset
never has: the only line that mentions it closes it. -/
theorem tool_shadows_iff :
    (∀ name, (name ∈ (AgentPlan.build g configs).tools.map (·.ident) ∧
        name ∈ ((AgentPlan.build g configs).programLines f).flatMap codeWords) ↔
      (name ∈ (AgentPlan.build g configs).exposedNames f ∧ ∃ n ∈ g.ofKind .tool, Naming.slug n.label = name)) ∧
    ∀ name ∈ (AgentPlan.build g configs).toolsetIdents, ∀ line ∈ (AgentPlan.build g configs).programLines f,
      name ∈ codeWords line → line = AgentPlan.closingLine name := by
  have hreach : ∀ name ∈ (AgentPlan.build g configs).exposedNames f, Naming.Direct name ∧ name ∉ Plan.reserved ∧
      ¬ "toolset".toList <:+ name.toList := fun name hname =>
    of_isWithinReach (List.all_eq_true.mp ((AgentPlan.build g configs).isWithinReach_exposedNames f) name hname)
  constructor
  · intro name
    rw [AgentPlan.map_ident_tools]
    constructor
    · rintro ⟨hname, hmention⟩
      obtain ⟨line, hline, hword⟩ := List.mem_flatMap.mp hmention
      have hident : name ∈ (AgentPlan.build g configs).idents := by
        rw [AgentPlan.idents_build]
        exact List.mem_append_left _ hname
      -- the name is exposed, or it is that of a toolset and the line closes it
      rcases exposed_of_mentioned g configs f hident hline hword with hexposed | ⟨htoolset, -⟩
      · obtain ⟨hdirect, hfree, -⟩ := hreach name hexposed
        exact ⟨hexposed, (Plan.mem_toolIdents_iff g hdirect hfree).mp hname⟩
      · -- tools and toolsets have different names
        rw [AgentPlan.toolsetIdents_build] at htoolset
        exact absurd rfl ((List.nodup_append.mp (Plan.nodup_idents g configs)).2.2 name hname name htoolset)
    · rintro ⟨hexposed, htool⟩
      obtain ⟨hdirect, hfree, -⟩ := hreach name hexposed
      refine ⟨(Plan.mem_toolIdents_iff g hdirect hfree).mpr htool, ?_⟩
      exact List.mem_flatMap.mpr (((AgentPlan.build g configs).exposes_programLines f).mentioned name hexposed)
  · intro name hname line hline hmention
    rcases exposed_of_mentioned g configs f (List.mem_append_right _ hname) hline hmention with hexposed | ⟨-, hclosing⟩
    · obtain ⟨hdirect, -, hword⟩ := hreach name hexposed
      rw [AgentPlan.toolsetIdents_build] at hname
      exact absurd hname (Plan.not_mem_toolsetIdents g configs hdirect hword)
    · exact hclosing

end Shadowing

/-- An agent with one tool, which prints. -/
def printTeam : Graph where
  nodes := [{ id := "a", kind := .agent, label := "Helper" }, { id := "t", kind := .tool, label := "Print" }]
  edges := [⟨"1", "a", "t"⟩]

/-- The entry point calls the tool where it means to print the answer. -/
theorem print_shadowed :
    "print" ∈ (AgentPlan.build printTeam []).tools.map (·.ident) ∧
      "print" ∈ ((AgentPlan.build printTeam []).programLines .adk).flatMap codeWords := by
  refine ⟨by decide, ?_⟩
  exact List.mem_flatMap.mpr (((AgentPlan.build printTeam []).exposes_programLines .adk).mentioned "print" (by decide))

end AgentFlow
