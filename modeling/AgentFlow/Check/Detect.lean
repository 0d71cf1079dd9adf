import AgentFlow.Check.Bracket
import AgentFlow.Check.Pattern
import AgentFlow.Check.Selection
import AgentFlow.Check.Symbol
import AgentFlow.Launch.Basic
import AgentFlow.Source

/-!
# Checking code

One detector for each category lists its findings about a piece of code in a fixed order; `detectAll` runs the
selected ones.
-/

namespace AgentFlow

namespace Detect

/-! ### Rules that a pattern decides -/

/-- A finding for the first place where a pattern matches. -/
structure Rule where
  id : String
  category : Category
  severity : Severity
  message : String
  fixable : Bool := false
  pattern : Pattern.Matcher

def rules : List Rule :=
  [{ id := "placeholder-credential", category := .protocol, severity := .error,
     message := "Tool server still uses the placeholder credential", fixable := true,
     pattern := Pattern.literal Launch.placeholderKey },
   { id := "placeholder-package", category := .protocol, severity := .warning,
     message := "Tool server runs the placeholder package",
     pattern := Pattern.literal Launch.placeholderPackage },
   { id := "blocking-sleep", category := .events, severity := .warning,
     message := "Blocking time.sleep call may stall the event loop",
     pattern := Pattern.indented "time.sleep(" },
   { id := "hardcoded-secret", category := .security, severity := .error,
     message := "Credential is hard-coded in source",
     pattern := Pattern.secretAssigned 16 },
   { id := "hardcoded-openai-key", category := .security, severity := .error,
     message := "API key literal found in source",
     pattern := Pattern.keyAfter "sk-" 20 },
   { id := "dynamic-eval", category := .security, severity := .warning,
     message := "Dynamic code evaluation",
     pattern := Pattern.bare ["eval(", "exec("] },
   { id := "shell-injection", category := .security, severity := .warning,
     message := "Subprocess call runs through the shell",
     pattern := Pattern.spaced ["shell", "=", "True"] }]

/-- The finding of a rule. -/
def Rule.finding? (r : Rule) (code : List Char) : Option Finding :=
  (Pattern.find? r.pattern code).map fun line =>
    { id := r.id, category := r.category, severity := r.severity, message := r.message, line := some line,
      fixable := r.fixable }

/-- The findings of the rules of a category. -/
def ruleFindings (category : Category) (code : List Char) : List Finding :=
  (rules.filter fun r => r.category == category).filterMap fun r => r.finding? code

/-- A finding on a line, if there is one. -/
def at? (line : Option Nat) (f : Finding) : List Finding :=
  match line with
  | none => []
  | some l => [{ f with line := some l }]

/-! ### One detector for each category -/

/-- A finding for each header without a colon, on the lines counted from `n`. -/
def missingColons (n : Nat) : List (List Char) → List Finding
  | [] => []
  | l :: ls =>
    (match Pattern.missingColon? l with
      | none => []
      | some name =>
        [{ id := "missing-colon", category := .form, severity := .error,
           message := "Definition of '" ++ String.ofList name ++ "' is missing ':'", line := some n,
           fixable := true }])
      ++ missingColons (n + 1) ls

def form (code : String) : List Finding :=
  let cs := code.toList
  let ls := Text.lines cs
  if cs.all Text.isBlank then
    [{ id := "empty-source", category := .form, severity := .error, message := "Generated code is empty" }]
  else
    at? (Text.lineWhere (fun l => Text.startsWith Source.fence (Text.trimStart l)) ls)
        { id := "markdown-fence", category := .form, severity := .error,
          message := "Markdown code fence in source", fixable := true }
      ++ missingColons 1 ls
      ++ at? (Text.lineWhere (Text.startsWith "\t") ls)
        { id := "tab-indentation", category := .form, severity := .warning,
          message := "Indentation uses tabs", fixable := true }
      ++ (match Bracket.problem? cs with
          | none => []
          | some p =>
            [{ id := "unbalanced-brackets", category := .form, severity := .error, message := p.message,
               line := some p.line, fixable := true }])
      ++ Symbol.missingImports .form ls

def protocol (code : String) : List Finding :=
  let cs := code.toList
  let ls := Text.lines cs
  ruleFindings .protocol cs
    ++ Symbol.missingImports .protocol ls
    ++ (if Text.contains ".close()" cs then []
        else
          at? (Symbol.usedAt "MCPToolset" ls)
            { id := "toolset-not-closed", category := .protocol, severity := .warning,
              message := "Toolset connections are never closed" })

/-- The call that runs the asynchronous main function. -/
def runMain : String := "asyncio.run(main())"

/-- The line, which is not indented, waits for something. -/
def awaits (line : List Char) : Bool :=
  Text.startsWith "await " line || Text.startsWith "async for " line || Text.startsWith "async with " line

def events (code : String) : List Finding :=
  let cs := code.toList
  let ls := Text.lines cs
  ruleFindings .events cs
    ++ (if Text.contains runMain cs then []
        else
          at? (Text.lineWhere (Text.startsWith "async def main(") ls)
            { id := "async-main-not-run", category := .events, severity := .error,
              message := "async main() is defined but never run", fixable := true })
    ++ (if Symbol.imported "asyncio" ls then []
        else
          at? (Text.lineWhere (Text.contains "asyncio.") ls)
            { id := "missing-import", category := .events, severity := .error,
              message := "'asyncio' is used but not imported", fixable := true })
    ++ at? (Text.lineWhere awaits ls)
        { id := "await-outside-async", category := .events, severity := .error,
          message := "'await' used outside an async function", fixable := true }

/-- The line, which is no comment, uses the session service. -/
def usesSessions (line : List Char) : Bool :=
  Text.contains "session_service." line && !Text.startsWith "#" (Text.trimStart line)

def memory (code : String) : List Finding :=
  let cs := code.toList
  let ls := Text.lines cs
  Symbol.missingImports .memory ls
    ++ (if ls.any fun l => Text.startsWith "session_service =" (Text.trimStart l) then []
        else
          at? (Text.lineWhere usesSessions ls)
            { id := "session-service-missing", category := .memory, severity := .error,
              message := "session_service is used but never created" })
    ++ (if Text.contains "maxlen" cs || Text.contains "del self.history" cs then []
        else
          at? (Text.lineWhere (Text.contains "history.append(") ls)
            { id := "unbounded-history", category := .memory, severity := .info,
              message := "Conversation history grows without bound" })

def security (code : String) : List Finding := ruleFindings .security code.toList

/-- The detector of a category. -/
def run : Category → String → List Finding
  | .form => form
  | .protocol => protocol
  | .events => events
  | .memory => memory
  | .security => security
  | .other => fun _ => []

/-- The categories that have a detector, in the order they run. -/
def order : List Category := [.form, .protocol, .events, .memory, .security]

end Detect

/-- The categories that a selection checks, in order. -/
def Selection.detectors (s : Selection) : List Category := Detect.order.filter s.enabled

/-- The findings of the selected detectors about a piece of code. -/
def detectAll (s : Selection) (code : String) : List Finding := s.detectors.flatMap fun c => Detect.run c code

end AgentFlow
