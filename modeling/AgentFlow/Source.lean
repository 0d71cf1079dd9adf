import AgentFlow.Text.Basic

/-!
# Clean source text

Text that a language model returns may be wrapped in Markdown fences. `clean` removes fence lines, blanks at the ends
of lines, empty lines at the start, and empty lines and comments at the end.
-/

namespace AgentFlow.Source

/-- A character of the language name after a fence. -/
def isFenceChar (c : Char) : Bool := Text.isBasicAlnum c || c = '-' || c = '+' || c = '_'

/-- The fence itself. -/
def fence : String := "```"

/-- The line is a Markdown fence, with a language name or without. -/
def isFence (line : List Char) : Bool :=
  let l := Text.trim line
  Text.startsWith fence l && (l.drop 3).all isFenceChar

/-- Some line of the text is a fence. -/
def hasFences (code : String) : Bool := (Text.lines code.toList).any isFence

/-- A line that says nothing at the end of a text: an empty one or a comment. -/
def isTail (line : List Char) : Bool := line.isEmpty || Text.startsWith "#" (Text.trimStart line)

/-- The lines of a clean text. -/
def cleanLines (ls : List (List Char)) : List (List Char) :=
  let ls := (ls.filter fun l => !isFence l).map Text.trimEnd
  (ls.reverse.dropWhile isTail).reverse.dropWhile List.isEmpty

/-- The clean form of a text. -/
def clean (code : String) : String := String.ofList (Text.unlines (cleanLines (Text.lines code.toList)))

end AgentFlow.Source
