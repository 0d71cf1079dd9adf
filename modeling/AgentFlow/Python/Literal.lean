import AgentFlow.Text.Basic
import AgentFlow.Json.Printer

/-!
# Python string literals

`quote` writes any text as a literal in double quotes on one line, `docstring` as a literal in three double quotes
that may run over several lines.
-/

namespace AgentFlow.Python

/-- A character inside a literal in double quotes. -/
def escapeChar (c : Char) : List Char :=
  if c = '\\' then ['\\', '\\']
  else if c = '"' then ['\\', '"']
  else if c = '\n' then ['\\', 'n']
  else if c = '\r' then ['\\', 'r']
  else if c = '\t' then ['\\', 't']
  else if Text.isControl c then '\\' :: 'u' :: Json.hexFour c.toNat
  else [c]

/-- A literal in double quotes. -/
def quote (s : String) : String := String.ofList ('"' :: s.toList.flatMap escapeChar ++ ['"'])

/-- A character inside a literal in three double quotes. -/
def escapeDocChar (c : Char) : List Char :=
  if c = '\\' then ['\\', '\\']
  else if c = '"' then ['\\', '"']
  else [c]

/-- A literal in three double quotes of a text without the blanks around it. -/
def docstring (s : String) : String :=
  "\"\"\"" ++ String.ofList ((Text.trim s.toList).flatMap escapeDocChar) ++ "\"\"\""

end AgentFlow.Python
