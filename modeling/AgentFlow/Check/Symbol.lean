import AgentFlow.Finding
import AgentFlow.Text.Basic

/-!
# Symbols and their imports

Which framework symbols a piece of code uses, and which it imports or defines. Lines are looked at one by one: a line
that imports or is a comment uses nothing.
-/

namespace AgentFlow

/-- A name that a framework provides. -/
structure Symbol where
  name : String
  module : String
  /-- The category of a finding about it. -/
  category : Category
  deriving DecidableEq, Repr

namespace Symbol

/-- The symbols that are checked. None begins with its own end, so occurrences do not overlap. -/
def known : List Symbol :=
  [⟨"LlmAgent", "google.adk.agents", .form⟩,
   ⟨"create_react_agent", "langgraph.prebuilt", .form⟩,
   ⟨"function_tool", "agents", .form⟩,
   ⟨"MCPToolset", "google.adk.tools.mcp_tool.mcp_toolset", .protocol⟩,
   ⟨"StdioConnectionParams", "google.adk.tools.mcp_tool.mcp_session_manager", .protocol⟩,
   ⟨"StdioServerParameters", "mcp", .protocol⟩,
   ⟨"MCPServerStdio", "agents.mcp", .protocol⟩,
   ⟨"MultiServerMCPClient", "langchain_mcp_adapters.client", .protocol⟩,
   ⟨"InMemorySessionService", "google.adk.sessions", .memory⟩,
   ⟨"InMemoryMemoryService", "google.adk.memory", .memory⟩,
   ⟨"InMemorySaver", "langgraph.checkpoint.memory", .memory⟩,
   ⟨"SQLiteSession", "agents", .memory⟩]

/-- A character of a name. -/
def isNameChar (c : Char) : Bool := Text.isAlphanumeric c || c = '_'

/-- The line, without the blanks before it, starts an import. -/
def isImportLine (line : List Char) : Bool := Text.startsWith "from " line || Text.startsWith "import " line

/-- The line brings the name into the module: by an import, or by a definition. -/
def bringsIn (name : String) (line : List Char) : Bool :=
  let l := Text.trimStart line
  (isImportLine l && (Text.splitWhere (fun c => !isNameChar c) l).contains name.toList)
    || Text.startsWith ("class " ++ name) l || Text.startsWith ("def " ++ name ++ "(") l

/-- Some line brings the name into the module. -/
def imported (name : String) (lines : List (List Char)) : Bool := lines.any (bringsIn name)

/-- The name stands somewhere as a call or a decorator, and not inside a longer name or after a dot. -/
def called (name : List Char) (prev : Option Char) : List Char → Bool
  | [] => false
  | c :: cs =>
    (name.isPrefixOf (c :: cs)
      && !prev.any (fun b => isNameChar b || b = '.')
      && (((c :: cs).drop name.length).head? == some '(' || prev == some '@'))
    || called name (some c) cs

/-- The line uses the name. -/
def usedIn (name : String) (line : List Char) : Bool :=
  let l := Text.trimStart line
  !(Text.startsWith "#" l || isImportLine l) && called name.toList none l

/-- The number of the first line that uses the name. -/
def usedAt (name : String) (lines : List (List Char)) : Option Nat := Text.lineWhere (usedIn name) lines

/-- A finding for each symbol of the category that is used and not brought in. -/
def missingImports (category : Category) (lines : List (List Char)) : List Finding :=
  (known.filter fun s => s.category == category).filterMap fun s =>
    match usedAt s.name lines with
    | none => none
    | some line =>
      if imported s.name lines then none
      else
        some { id := "missing-import", category := category, severity := .error,
               message := "'" ++ s.name ++ "' is used but not imported from " ++ s.module,
               line := some line, fixable := true }

end Symbol

end AgentFlow
