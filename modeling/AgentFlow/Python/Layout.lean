import AgentFlow.Python.Literal
import AgentFlow.Python.Expr

/-!
# Laying out expressions

An expression is laid out as a tree: an atom, or a group of items between an opening and a closing text, each item
with the text that leads to it. The tree is written on one line if it fits, and otherwise with one item per line, a
comma after each; what cannot be broken stays on its line. Widths count bytes of UTF-8.
-/

namespace AgentFlow.Python

/-- What may be broken over lines. -/
inductive Layout where
  | atom (text : String)
  /-- Items between brackets; each comes with its key or keyword. -/
  | group (opening : String) (items : List (String × Layout)) (closing : String)
  deriving Inhabited, Repr

/-- The longest line that is not broken. -/
def maxWidth : Nat := 88

/-- Blanks for `depth` levels. -/
def indent (depth : Nat) : String := String.ofList (List.replicate (4 * depth) ' ')

/-- Columns of `depth` levels. -/
def indentWidth (depth : Nat) : Nat := 4 * depth

/-- The text before the value of an argument. -/
def argLead : Option String → String
  | none => ""
  | some k => k ++ "="

mutual

/-- The layout of an expression. -/
def Expr.layout : Expr → Layout
  | .str s => .atom (quote s)
  | .ident name => .atom name
  | .bool b => .atom (if b then "True" else "False")
  | .int i => .atom (toString i)
  | .list items => .group "[" (layoutItems items) "]"
  | .dict entries => .group "\x7b" (layoutEntries entries) "\x7d"
  | .call callee args => .group (callee ++ "(") (layoutArgs args) ")"
  | .raw text => .atom text

def layoutItems : List Expr → List (String × Layout)
  | [] => []
  | e :: es => ("", e.layout) :: layoutItems es

def layoutEntries : List (String × Expr) → List (String × Layout)
  | [] => []
  | (k, e) :: es => (quote k ++ ": ", e.layout) :: layoutEntries es

def layoutArgs : List (Option String × Expr) → List (String × Layout)
  | [] => []
  | (k, e) :: es => (argLead k, e.layout) :: layoutArgs es

end

mutual

/-- The layout on one line. -/
def Layout.flat : Layout → String
  | .atom text => text
  | .group opening items closing => opening ++ flatItems items ++ closing

def flatItems : List (String × Layout) → String
  | [] => ""
  | [(lead, l)] => lead ++ l.flat
  | (lead, l) :: rest => lead ++ l.flat ++ ", " ++ flatItems rest

end

mutual

/-- The layout from column `column` on, later lines `depth` levels deep. -/
def Layout.render (depth column : Nat) : Layout → String
  | .atom text => text
  | .group opening items closing =>
    let flat := opening ++ flatItems items ++ closing
    if column + flat.utf8ByteSize ≤ maxWidth || items.isEmpty then flat
    else opening ++ "\n" ++ renderItems (depth + 1) items ++ indent depth ++ closing

/-- One item per line. -/
def renderItems (depth : Nat) : List (String × Layout) → String
  | [] => ""
  | (lead, l) :: rest =>
    indent depth ++ lead ++ l.render depth (indentWidth depth + lead.utf8ByteSize) ++ ",\n"
      ++ renderItems depth rest

end

/-- An expression from column `column` on, later lines `depth` levels deep. -/
def Expr.render (e : Expr) (depth column : Nat) : String := e.layout.render depth column

end AgentFlow.Python
