import AgentFlow.Json.Value

/-!
# Writing JSON

Values are written without blanks. A string escapes quotes, backslashes and the characters below the blank.
-/

namespace AgentFlow.Json

/-- The hexadecimal digit of a number below 16. -/
def hexDigit (n : Nat) : Char := if n < 10 then Char.ofNat (48 + n) else Char.ofNat (87 + n)

/-- A number as four hexadecimal digits. -/
def hexFour (n : Nat) : List Char :=
  [hexDigit (n / 4096 % 16), hexDigit (n / 256 % 16), hexDigit (n / 16 % 16), hexDigit (n % 16)]

/-- A character inside a string literal. -/
def escapeChar (c : Char) : List Char :=
  if c = '"' then ['\\', '"']
  else if c = '\\' then ['\\', '\\']
  else if c = '\n' then ['\\', 'n']
  else if c = '\r' then ['\\', 'r']
  else if c = '\t' then ['\\', 't']
  else if c = '\x08' then ['\\', 'b']
  else if c = '\x0c' then ['\\', 'f']
  else if c.toNat < 0x20 then '\\' :: 'u' :: hexFour c.toNat
  else [c]

/-- The literal of a string. -/
def quoted (s : String) : String := "\"" ++ String.ofList (s.toList.flatMap escapeChar) ++ "\""

mutual

/-- The text of a value. -/
def print : Json → String
  | .null => "null"
  | .bool true => "true"
  | .bool false => "false"
  | .num n => String.ofList n.toChars
  | .str s => quoted s
  | .arr items => "[" ++ printItems items ++ "]"
  | .obj members => "\x7b" ++ printMembers members ++ "\x7d"
  | .unreadable => "\"\\ud800\""

def printItems : List Json → String
  | [] => ""
  | [v] => print v
  | v :: vs => print v ++ "," ++ printItems vs

def printMembers : List (String × Json) → String
  | [] => ""
  | [(name, v)] => quoted name ++ ":" ++ print v
  | (name, v) :: ms => quoted name ++ ":" ++ print v ++ "," ++ printMembers ms

end

end AgentFlow.Json
