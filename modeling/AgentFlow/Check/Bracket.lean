import AgentFlow.Text.Basic

/-!
# Brackets

`Bracket.scan` lists the brackets of Python code with their lines, leaving out comments and string literals, and
`Bracket.problem?` finds the first place where they do not nest. In a literal a backslash takes the next character
with it; a literal in single quotes of either kind ends with its line, one in triple quotes only with the text.
-/

namespace AgentFlow

/-- A bracket and the line it stands on. -/
structure Bracket where
  char : Char
  line : Nat
  deriving DecidableEq, Repr

namespace Bracket

/-- The closing bracket of an opening one. -/
def closer? (c : Char) : Option Char :=
  if c = '(' then some ')'
  else if c = '[' then some ']'
  else if c = '\x7b' then some '\x7d'
  else none

def isOpener (c : Char) : Bool := c = '(' || c = '[' || c = '\x7b'

def isCloser (c : Char) : Bool := c = ')' || c = ']' || c = '\x7d'

/-- Where a scan stands. -/
inductive Mode where
  | code
  /-- Inside a comment. -/
  | comment
  /-- Inside a literal that `quote` ends, once or three times. -/
  | literal (quote : Char) (triple : Bool)
  deriving DecidableEq, Repr

/-- The brackets of the code that starts on `line`. -/
def scan (line : Nat) (mode : Mode) : List Char → List Bracket
  | [] => []
  | c :: cs =>
    match mode with
    | .code =>
      if c = '\n' then scan (line + 1) .code cs
      else if c = '#' then scan line .comment cs
      else if c = '"' || c = '\'' then
        match cs with
        | a :: b :: rest =>
          if a = c && b = c then scan line (.literal c true) rest
          else scan line (.literal c false) (a :: b :: rest)
        | rest => scan line (.literal c false) rest
      else if isOpener c || isCloser c then ⟨c, line⟩ :: scan line .code cs
      else scan line .code cs
    | .comment => if c = '\n' then scan (line + 1) .code cs else scan line .comment cs
    | .literal q triple =>
      if c = '\\' then
        match cs with
        | [] => []
        | _ :: rest => scan line (.literal q triple) rest
      else if c = '\n' then scan (line + 1) (if triple then .literal q triple else .code) cs
      else if c = q then
        if triple then
          match cs with
          | a :: b :: rest =>
            if a = q && b = q then scan line .code rest else scan line (.literal q triple) (a :: b :: rest)
          | rest => scan line (.literal q triple) rest
        else scan line .code cs
      else scan line (.literal q triple) cs

/-- Why brackets do not nest. -/
inductive Problem where
  /-- `opener` is closed by a bracket of another kind. -/
  | mismatch (opener : Bracket) (closer : Bracket)
  | unmatched (closer : Bracket)
  | unclosed (opener : Bracket)
  deriving DecidableEq, Repr

namespace Problem

/-- The line where the problem shows. -/
def line : Problem → Nat
  | .mismatch _ closer => closer.line
  | .unmatched closer => closer.line
  | .unclosed opener => opener.line

def message : Problem → String
  | .mismatch opener closer =>
    "'" ++ opener.char.toString ++ "' opened on line " ++ toString opener.line ++ " is closed by '"
      ++ closer.char.toString ++ "'"
  | .unmatched closer => "Unmatched closing '" ++ closer.char.toString ++ "'"
  | .unclosed opener =>
    "'" ++ opener.char.toString ++ "' opened on line " ++ toString opener.line ++ " is never closed"

end Problem

/-- The first problem of a sequence of brackets; `open_` holds those still open, innermost first. -/
def nest (open_ : List Bracket) : List Bracket → Option Problem
  | [] => open_.head?.map .unclosed
  | b :: bs =>
    if isOpener b.char then nest (b :: open_) bs
    else
      match open_ with
      | [] => some (.unmatched b)
      | o :: os => if closer? o.char = some b.char then nest os bs else some (.mismatch o b)

/-- The first bracket problem of a piece of code. -/
def problem? (code : List Char) : Option Problem := nest [] (scan 1 .code code)

end Bracket

end AgentFlow
