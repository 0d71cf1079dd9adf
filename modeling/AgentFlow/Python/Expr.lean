/-!
# Python expressions

The expressions that generated modules are made of.
-/

namespace AgentFlow.Python

/-- An expression. An argument of a call has a keyword or not. -/
inductive Expr where
  | str (s : String)
  | ident (name : String)
  | bool (b : Bool)
  | int (i : Int)
  | list (items : List Expr)
  /-- A dictionary with string literals as keys, in this order. -/
  | dict (entries : List (String × Expr))
  | call (callee : String) (args : List (Option String × Expr))
  /-- Text that stands as it is. -/
  | raw (text : String)
  deriving Inhabited, Repr

namespace Expr

/-- A list of string literals. -/
def strs (items : List String) : Expr := .list (items.map .str)

/-- A list of names. -/
def idents (names : List String) : Expr := .list (names.map .ident)

/-- A dictionary of string literals. -/
def strDict (entries : List (String × String)) : Expr := .dict (entries.map fun e => (e.1, .str e.2))

/-- An argument with a keyword. -/
def kw (name : String) (value : Expr) : List (Option String × Expr) := [(some name, value)]

/-- An argument with a keyword, if there is a value. -/
def kw? (name : String) (value : Option Expr) : List (Option String × Expr) :=
  match value with
  | none => []
  | some v => kw name v

/-- The value of the first argument of a call with the keyword. -/
def keyword? (name : String) : Expr → Option Expr
  | .call _ args => (args.find? fun a => a.1 == some name).map (·.2)
  | _ => none

end Expr

end AgentFlow.Python
