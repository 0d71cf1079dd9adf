import AgentFlow.Python.Layout
import AgentFlow.Python.Module

/-!
# The text of a module

Definitions stand two blank lines apart from their neighbors and plain bindings one; a comment belongs to what
follows it. The text ends with one newline.
-/

namespace AgentFlow.Python

/-- Lines at a depth, blank ones left empty. -/
def indented (depth : Nat) (ls : List String) : String :=
  String.join (ls.map fun l => if Text.blank l then "\n" else indent depth ++ l ++ "\n")

/-- The lines of imports: of modules first, then of names. -/
def renderImports (imports : List Import) : String :=
  let (plain, named) := imports.partition fun i => i.names.isEmpty
  String.join (plain.map fun i => "import " ++ i.module ++ "\n")
    ++ String.join (named.map fun i => "from " ++ i.module ++ " import " ++ ", ".intercalate i.names ++ "\n")

/-- The text of a function. -/
def Function.render (f : Function) : String :=
  String.join (f.decorators.map fun d => "@" ++ d ++ "\n")
    ++ (if f.isAsync then "async def " else "def ") ++ f.name ++ "(" ++ ", ".intercalate f.params ++ ")"
    ++ (match f.returns with
        | none => ""
        | some r => " -> " ++ r)
    ++ ":\n"
    ++ (match f.doc with
        | none => if f.body.isEmpty then indent 1 ++ "pass\n" else ""
        | some doc => indent 1 ++ docstring doc ++ "\n")
    ++ indented 1 f.body

namespace Decl

/-- A declaration that stands apart from its neighbors. -/
def isDefinition : Decl → Bool
  | .tool _ => true
  | .function _ => true
  | .block _ => true
  | .entryPoint _ => true
  | .comment _ => false
  | .assign _ _ _ => false

def isComment : Decl → Bool
  | .comment _ => true
  | _ => false

/-- The text of a declaration. -/
def render : Decl → String
  | .comment text => String.join ((Text.lines text.toList).map fun l => "# " ++ String.ofList l ++ "\n")
  | .assign name _ value => name ++ " = " ++ value.render 0 (name.utf8ByteSize + 3) ++ "\n"
  | .tool f => f.render
  | .function f => f.render
  | .block ls => indented 0 ls
  | .entryPoint body =>
    "if __name__ == \"__main__\":\n" ++ (if body.isEmpty then indent 1 ++ "pass\n" else "") ++ indented 1 body

/-- The newlines between `prev` and `d`, which `next` follows. -/
def gap (prev : Option Decl) (d : Decl) (next : Option Decl) : String :=
  match prev with
  | none => "\n\n"
  | some p =>
    if p.isComment then ""
    else if p.isDefinition || d.isDefinition || (d.isComment && next.any isDefinition) then "\n\n"
    else "\n"

end Decl

/-- `out` with the declarations after it; `prev` is the declaration that it ends with. -/
def renderDecls (out : String) (prev : Option Decl) : List Decl → String
  | [] => out
  | d :: ds =>
    let gap := if out = "" then "" else d.gap prev ds.head?
    renderDecls (out ++ gap ++ d.render) (some d) ds

/-- The docstring and the imports of a module. -/
def Module.renderHead (m : Module) : String :=
  let head :=
    match m.header with
    | none => ""
    | some text => docstring text ++ "\n"
  if m.imports.isEmpty then head
  else head ++ (if head = "" then "" else "\n") ++ renderImports m.imports

/-- The text of a module. -/
def Module.render (m : Module) : String :=
  String.ofList (Text.trimEnd (renderDecls m.renderHead none m.decls).toList) ++ "\n"

end AgentFlow.Python
