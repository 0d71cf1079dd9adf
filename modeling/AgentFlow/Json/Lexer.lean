import AgentFlow.Json.Number

/-!
# JSON tokens

The lexer reads one character at a time: `Lexer.step` moves between the states below, and a token is added when
it is complete. A string is first a list of pieces, a character or an escaped UTF-16 unit each; `Piece.text?`
joins the surrogate pairs.
-/

namespace AgentFlow.Json

/-- A part of a string literal: a character, or a UTF-16 unit written as an escape. -/
inductive Piece where
  | char (c : Char)
  | unit (n : Nat)
  deriving DecidableEq, Repr

/-- First half of a surrogate pair. -/
def isHighUnit (n : Nat) : Bool := 0xd800 ≤ n && n ≤ 0xdbff

/-- Second half of a surrogate pair. -/
def isLowUnit (n : Nat) : Bool := 0xdc00 ≤ n && n ≤ 0xdfff

/-- The characters that the pieces name, if every surrogate has its other half. -/
def Piece.chars? : List Piece → Option (List Char)
  | [] => some []
  | .char c :: ps => (Piece.chars? ps).map (c :: ·)
  | .unit n :: .unit m :: ps =>
    if isHighUnit n then
      if isLowUnit m then
        (Piece.chars? ps).map (Char.ofNat (0x10000 + (n - 0xd800) * 0x400 + (m - 0xdc00)) :: ·)
      else none
    else if isLowUnit n then none
    else (Piece.chars? (.unit m :: ps)).map (Char.ofNat n :: ·)
  | .unit n :: ps =>
    if isHighUnit n || isLowUnit n then none
    else (Piece.chars? ps).map (Char.ofNat n :: ·)

/-- The text that the pieces name. -/
def Piece.text? (ps : List Piece) : Option String := (Piece.chars? ps).map String.ofList

/-- A lexical unit of JSON. -/
inductive Token where
  | arrOpen
  | arrClose
  | objOpen
  | objClose
  | comma
  | colon
  | null
  | bool (b : Bool)
  | num (n : Number)
  /-- A string; none if its escapes name no text. -/
  | str (s : Option String)
  deriving DecidableEq, Repr

namespace Lexer

/-- Where the lexer stands. What is read so far of a token is kept in reverse. -/
inductive Mode where
  /-- Between tokens. -/
  | idle
  | string (pieces : List Piece)
  /-- After a backslash. -/
  | escape (pieces : List Piece)
  /-- `left` more hexadecimal digits belong to the unit. -/
  | hex (pieces : List Piece) (left : Nat) (unit : Nat)
  | number (chars : List Char)
  | word (chars : List Char)
  deriving Repr

/-- The lexer between two characters; `done` holds the tokens in reverse. -/
structure State where
  mode : Mode
  done : List Token
  deriving Repr

/-- The blanks of JSON. -/
def isSpace (c : Char) : Bool := c = ' ' || c = '\t' || c = '\n' || c = '\r'

def isNumberChar (c : Char) : Bool := c.isDigit || c = '-' || c = '+' || c = '.' || c = 'e' || c = 'E'

/-- The token of a run of letters. -/
def word? (cs : List Char) : Option Token :=
  if cs = "null".toList then some .null
  else if cs = "true".toList then some (.bool true)
  else if cs = "false".toList then some (.bool false)
  else none

/-- The token of a character that stands for itself. -/
def mark? (c : Char) : Option Token :=
  if c = '[' then some .arrOpen
  else if c = ']' then some .arrClose
  else if c = '\x7b' then some .objOpen
  else if c = '\x7d' then some .objClose
  else if c = ',' then some .comma
  else if c = ':' then some .colon
  else none

/-- A character between tokens. -/
def start (done : List Token) (c : Char) : Option State :=
  if isSpace c then some ⟨.idle, done⟩
  else if c = '"' then some ⟨.string [], done⟩
  else if c = '-' || c.isDigit then some ⟨.number [c], done⟩
  else if c.isLower then some ⟨.word [c], done⟩
  else (mark? c).map fun t => ⟨.idle, t :: done⟩

/-- The character that a one-letter escape stands for. -/
def escaped? (c : Char) : Option Char :=
  if c = '"' || c = '\\' || c = '/' then some c
  else if c = 'b' then some '\x08'
  else if c = 'f' then some '\x0c'
  else if c = 'n' then some '\n'
  else if c = 'r' then some '\r'
  else if c = 't' then some '\t'
  else none

def hexValue? (c : Char) : Option Nat :=
  if c.isDigit then some (c.toNat - '0'.toNat)
  else if 'a' ≤ c && c ≤ 'f' then some (c.toNat - 'a'.toNat + 10)
  else if 'A' ≤ c && c ≤ 'F' then some (c.toNat - 'A'.toNat + 10)
  else none

/-- The state after one more character, or none where JSON cannot hold it. -/
def step (s : State) (c : Char) : Option State :=
  match s.mode with
  | .idle => start s.done c
  | .string ps =>
    if c = '"' then some ⟨.idle, .str (Piece.text? ps.reverse) :: s.done⟩
    else if c = '\\' then some ⟨.escape ps, s.done⟩
    else if c.toNat < 0x20 then none
    else some ⟨.string (.char c :: ps), s.done⟩
  | .escape ps =>
    if c = 'u' then some ⟨.hex ps 4 0, s.done⟩
    else (escaped? c).map fun e => ⟨.string (.char e :: ps), s.done⟩
  | .hex ps left unit =>
    (hexValue? c).map fun h =>
      if left ≤ 1 then ⟨.string (.unit (16 * unit + h) :: ps), s.done⟩
      else ⟨.hex ps (left - 1) (16 * unit + h), s.done⟩
  | .number cs =>
    if isNumberChar c then some ⟨.number (c :: cs), s.done⟩
    else (Number.ofChars? cs.reverse).bind fun n => start (.num n :: s.done) c
  | .word cs =>
    if c.isLower then some ⟨.word (c :: cs), s.done⟩
    else (word? cs.reverse).bind fun t => start (t :: s.done) c

def run : State → List Char → Option State
  | s, [] => some s
  | s, c :: cs =>
    match step s c with
    | none => none
    | some s => run s cs

/-- The tokens when the text ends here. -/
def finish (s : State) : Option (List Token) :=
  match s.mode with
  | .idle => some s.done.reverse
  | .number cs => (Number.ofChars? cs.reverse).map fun n => (.num n :: s.done).reverse
  | .word cs => (word? cs.reverse).map fun t => (t :: s.done).reverse
  | _ => none

end Lexer

/-- The tokens of a text. -/
def tokens? (cs : List Char) : Option (List Token) := (Lexer.run ⟨.idle, []⟩ cs).bind Lexer.finish

end AgentFlow.Json
