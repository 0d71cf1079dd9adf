import AgentFlow.Json.Number

/-!
# JSON values

A value as it stands in a text: members of an object keep their order, and a name may occur twice. Numbers keep
their spelling. A text may also escape half of a surrogate pair, which names no character: what holds it can be
skipped but not read, and `unreadable` stands for it.
-/

namespace AgentFlow

/-- A JSON value. -/
inductive Json where
  | null
  | bool (b : Bool)
  | num (n : Json.Number)
  | str (s : String)
  | arr (items : List Json)
  | obj (members : List (String × Json))
  /-- A string that names no text, or an object with such a name. -/
  | unreadable
  deriving Repr, Inhabited

namespace Json

/-! ### Building values -/

def nat (n : Nat) : Json := .num (.ofNat n)

def int (i : Int) : Json := .num (.ofInt i)

/-- An array of strings. -/
def strs (items : List String) : Json := .arr (items.map .str)

/-- A value, or null for none. -/
def option (f : α → Json) : Option α → Json
  | none => .null
  | some a => f a

/-- A member, left out when there is no value. -/
def member? (name : String) (f : α → Json) : Option α → List (String × Json)
  | none => []
  | some a => [(name, f a)]

/-! ### Looking into values -/

/-- The last member called `name`. -/
def get? (name : String) : Json → Option Json
  | .obj members => (members.reverse.find? fun m => m.1 == name).map (·.2)
  | _ => none

def str? : Json → Option String
  | .str s => some s
  | _ => none

def arr? : Json → Option (List Json)
  | .arr items => some items
  | _ => none

mutual

/-- The value nests at most `depth` arrays and objects, and all its strings and numbers can be read. -/
def loads : Nat → Json → Bool
  | _, .null => true
  | _, .bool _ => true
  | _, .num n => n.float?.isSome
  | _, .str _ => true
  | depth, .arr items =>
    match depth with
    | 0 => false
    | d + 1 => loadsAll d items
  | depth, .obj members =>
    match depth with
    | 0 => false
    | d + 1 => loadsMembers d members
  | _, .unreadable => false

def loadsAll : Nat → List Json → Bool
  | _, [] => true
  | d, v :: vs => loads d v && loadsAll d vs

def loadsMembers : Nat → List (String × Json) → Bool
  | _, [] => true
  | d, (_, v) :: ms => loads d v && loadsMembers d ms

end

/-- Nesting allowed in a value that is loaded as it stands. -/
def maxDepth : Nat := 127

end Json

end AgentFlow
