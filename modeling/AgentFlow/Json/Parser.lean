import AgentFlow.Json.Value
import AgentFlow.Json.Lexer

/-!
# Reading JSON

The parser is a pushdown machine over the tokens: it keeps the arrays and objects that are still open, innermost
first, so a text may nest to any depth.
-/

namespace AgentFlow.Json

namespace Parser

/-- A name, if it can be read. -/
abbrev Name := Option String

/-- An array or object that is still open, its finished parts in reverse. -/
inductive Frame where
  | arr (items : List Json)
  /-- `name` is the member whose value is being read. -/
  | obj (members : List (Name × Json)) (name : Name)

/-- Where the parser stands; `stack` is what is open around that place. -/
inductive State where
  /-- A value must follow. -/
  | value (stack : List Frame)
  /-- An array was opened: a value or its end follows. -/
  | arrStart (stack : List Frame)
  /-- An object was opened: a name or its end follows. -/
  | objStart (stack : List Frame)
  /-- After a comma in an object: a name must follow. -/
  | name (members : List (Name × Json)) (stack : List Frame)
  | colon (members : List (Name × Json)) (name : Name) (stack : List Frame)
  /-- A value is complete. -/
  | after (v : Json) (stack : List Frame)

/-- The object of the members given in reverse; unreadable if one of the names is. -/
def object (members : List (Name × Json)) : Json :=
  match members.reverse.mapM fun (m : Name × Json) => m.1.map fun name => (name, m.2) with
  | some members => .obj members
  | none => .unreadable

/-- The value of a token that is a whole value. -/
def scalar? : Token → Option Json
  | .null => some .null
  | .bool b => some (.bool b)
  | .num n => some (.num n)
  | .str (some s) => some (.str s)
  | .str none => some .unreadable
  | _ => none

/-- A token where a value must stand. -/
def begin (stack : List Frame) : Token → Option State
  | .arrOpen => some (.arrStart stack)
  | .objOpen => some (.objStart stack)
  | t => (scalar? t).map fun v => .after v stack

/-- The state after one more token. -/
def step : State → Token → Option State
  | .value stack, t => begin stack t
  | .arrStart stack, .arrClose => some (.after (.arr []) stack)
  | .arrStart stack, t => begin (.arr [] :: stack) t
  | .objStart stack, .objClose => some (.after (.obj []) stack)
  | .objStart stack, .str name => some (.colon [] name stack)
  | .name members stack, .str name => some (.colon members name stack)
  | .colon members name stack, .colon => some (.value (.obj members name :: stack))
  | .after v (.arr items :: stack), .comma => some (.value (.arr (v :: items) :: stack))
  | .after v (.arr items :: stack), .arrClose => some (.after (.arr (v :: items).reverse) stack)
  | .after v (.obj members name :: stack), .comma => some (.name ((name, v) :: members) stack)
  | .after v (.obj members name :: stack), .objClose =>
    some (.after (object ((name, v) :: members)) stack)
  | _, _ => none

def run : State → List Token → Option State
  | s, [] => some s
  | s, t :: ts =>
    match step s t with
    | none => none
    | some s => run s ts

/-- The value when the tokens end here. -/
def finish : State → Option Json
  | .after v [] => some v
  | _ => none

end Parser

/-- The value that the tokens spell. -/
def ofTokens? (ts : List Token) : Option Json := (Parser.run (.value []) ts).bind Parser.finish

/-- The one value that a text spells, with only blanks around it. -/
def parse? (text : String) : Option Json := (tokens? text.toList).bind ofTokens?

/-- The value that a text spells, if all of it can be loaded: at most `maxDepth` levels, and every number a
double. -/
def load? (text : String) : Option Json := (parse? text).filter (loads maxDepth)

end AgentFlow.Json
