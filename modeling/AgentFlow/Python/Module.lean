import AgentFlow.Python.Expr
import AgentFlow.Text.Basic

/-!
# Python modules

A module is a docstring, imports and declarations. What a declaration is for is part of it, so that a module can be
asked for its agent, its tools and its entry point without reading its text.
-/

namespace AgentFlow.Python

/-- An import line; without names it imports the module itself. -/
structure Import where
  module : String
  names : List String
  deriving DecidableEq, Repr

namespace Import

/-- `import module`, once. -/
def addModule (imports : List Import) (module : String) : List Import :=
  if imports.any fun i => i.module == module && i.names.isEmpty then imports
  else imports ++ [⟨module, []⟩]

/-- `from module import name`, names of one module on one line. -/
def addName (module name : String) : List Import → List Import
  | [] => [⟨module, [name]⟩]
  | i :: is =>
    if i.module = module ∧ !i.names.isEmpty then
      (if i.names.contains name then i else { i with names := i.names ++ [name] }) :: is
    else i :: addName module name is

/-- One more import: of a name from a module, or of a module. -/
def add (imports : List Import) (wanted : String × Option String) : List Import :=
  match wanted.2 with
  | none => addModule imports wanted.1
  | some name => addName wanted.1 name imports

/-- The import lines for what is wanted. -/
def collect (wanted : List (String × Option String)) : List Import := wanted.foldl add []

end Import

/-- A function. Parameters, result and body are text. -/
structure Function where
  name : String
  decorators : List String := []
  isAsync : Bool := false
  params : List String := []
  returns : Option String := none
  doc : Option String := none
  body : List String := []
  deriving DecidableEq, Repr

/-- The function with a docstring, unless that is blank. -/
def Function.documented (f : Function) (doc : String) : Function :=
  if Text.blank doc then f else { f with doc := some doc }

/-- What a binding is for. -/
inductive Role where
  /-- A bridge to a tool server. -/
  | protocol
  /-- The agent. -/
  | agent
  /-- Services, runners and the like. -/
  | support
  deriving DecidableEq, Repr

/-- A statement at the top level of a module. -/
inductive Decl where
  | comment (text : String)
  | assign (name : String) (role : Role) (value : Expr)
  /-- A function that the agent may call. -/
  | tool (f : Function)
  | function (f : Function)
  /-- Lines that stand as they are. -/
  | block (lines : List String)
  /-- What runs when the module is the program. -/
  | entryPoint (body : List String)
  deriving Inhabited, Repr

/-- A module. -/
structure Module where
  header : Option String := none
  imports : List Import := []
  decls : List Decl := []
  deriving Repr

namespace Module

/-- The bindings with a role, in order. -/
def bindings (m : Module) (role : Role) : List (String × Expr) :=
  m.decls.filterMap fun d =>
    match d with
    | .assign name r value => if r = role then some (name, value) else none
    | _ => none

/-- The names of the tools, in order. -/
def toolNames (m : Module) : List String :=
  m.decls.filterMap fun d =>
    match d with
    | .tool f => some f.name
    | _ => none

/-- The module can run as a program. -/
def hasEntryPoint (m : Module) : Bool :=
  m.decls.any fun d =>
    match d with
    | .entryPoint _ => true
    | _ => false

end Module

end AgentFlow.Python
