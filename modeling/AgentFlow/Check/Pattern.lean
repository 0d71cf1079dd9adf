import AgentFlow.Text.Basic

/-!
# Patterns in code

Each pattern is a function that looks at one place of a text: it gets the character before that place and the text
from there on, and answers with the length of the match. `find?` takes the first place that matches and answers
with the line on which the match ends.
-/

namespace AgentFlow.Pattern

/-- A pattern at one place of a text. -/
abbrev Matcher := Option Char → List Char → Option Nat

/-- The position of the last character of the first match, counted from `pos`; `prev` is the character before. -/
def findEnd? (m : Matcher) (prev : Option Char) (pos : Nat) : List Char → Option Nat
  | [] => none
  | c :: cs =>
    match m prev (c :: cs) with
    | some n => some (pos + n - 1)
    | none => findEnd? m (some c) (pos + 1) cs

/-- The line of a position, counted from 1. -/
def lineOf (code : List Char) (pos : Nat) : Nat := (code.take pos).count '\n' + 1

/-- The line on which the first match ends. -/
def find? (m : Matcher) (code : List Char) : Option Nat := (findEnd? m none 0 code).map (lineOf code)

/-- The character before is no word character. -/
def atWordStart (prev : Option Char) : Bool := !prev.any Text.isWordChar

/-- A given text. -/
def literal (text : String) : Matcher := fun _ cs =>
  if Text.startsWith text cs then some text.length else none

/-- At the start of a line, blanks, possibly over several lines, and then the text. -/
def indented (text : String) : Matcher := fun prev cs =>
  let blanks := cs.takeWhile Text.isBlank
  if (prev.isNone || prev = some '\n') && !blanks.isEmpty && Text.startsWith text (Text.trimStart cs) then
    some (blanks.length + text.length)
  else none

/-- One of the texts, not as part of a longer name or after a dot. -/
def bare (texts : List String) : Matcher := fun prev cs =>
  if atWordStart prev && prev != some '.' then
    (texts.find? fun t => Text.startsWith t cs).map (·.length)
  else none

/-- The texts in order, with any blanks between them. -/
def spaced : List String → Matcher
  | [], _, _ => some 0
  | [t], _, cs => if Text.startsWith t cs then some t.length else none
  | t :: ts, prev, cs =>
    if Text.startsWith t cs then
      let rest := cs.drop t.length
      let blanks := rest.takeWhile Text.isBlank
      (spaced ts prev (Text.trimStart rest)).map (t.length + blanks.length + ·)
    else none

/-! ### Secrets -/

/-- A character of a key. -/
def isKeyChar (c : Char) : Bool := Text.isBasicAlnum c || c = '_' || c = '-'

/-- After the text, which starts a word, at least `least` characters of a key. -/
def keyAfter (text : String) (least : Nat) : Matcher := fun prev cs =>
  if atWordStart prev && Text.startsWith text cs then
    let n := ((cs.drop text.length).takeWhile isKeyChar).length
    if least ≤ n then some (text.length + n) else none
  else none

/-- A character with the basic Latin letter that it equals up to case: two letters outside the basic alphabet equal
one. -/
def foldCase (c : Char) : Char :=
  if c.toNat = 0x17f then 's'
  else if c.toNat = 0x212a then 'k'
  else c.toLower

/-- What names of secrets contain. -/
def secretWords : List String := ["apikey", "api_key", "secret", "token", "password"]

/-- The name looks like that of a secret. -/
def namesSecret (word : List Char) : Bool :=
  let low := word.map foldCase
  secretWords.any fun s => Text.contains s low

def isQuote (c : Char) : Bool := c = '"' || c = '\''

/-- The length of a quoted key of at least `least` characters. -/
def quotedKey (least : Nat) : List Char → Option Nat
  | [] => none
  | q :: cs =>
    if isQuote q then
      let key := cs.takeWhile fun c => isKeyChar (foldCase c)
      match cs.drop key.length with
      | e :: _ => if isQuote e && least ≤ key.length then some (key.length + 2) else none
      | [] => none
    else none

/-- A quoted key given to a name that looks like that of a secret. -/
def secretAssigned (least : Nat) : Matcher := fun prev cs =>
  let word := cs.takeWhile Text.isWordChar
  if atWordStart prev && namesSecret word then
    let rest := cs.drop word.length
    let before := rest.takeWhile Text.isBlank
    match Text.trimStart rest with
    | '=' :: rest =>
      let after := rest.takeWhile Text.isBlank
      (quotedKey least (Text.trimStart rest)).map (word.length + before.length + 1 + after.length + ·)
    | _ => none
  else none

/-! ### Definitions -/

/-- What is left after a word and at least one blank. -/
def afterWord? (word : String) (cs : List Char) : Option (List Char) :=
  if Text.startsWith word cs then
    let rest := cs.drop word.length
    if (rest.takeWhile Text.isBlank).isEmpty then none else some (Text.trimStart rest)
  else none

/-- Nothing but blanks, or a result annotation without a colon. -/
def endsHeader (cs : List Char) : Bool :=
  let rest := Text.trimStart cs
  rest.isEmpty
    || (Text.startsWith "->" rest && !(rest.drop 2).isEmpty && (rest.drop 2).all fun c => c != ':' && c != '#')

/-- Some closing parenthesis is followed by the end of a header. -/
def closesHeader : List Char → Bool
  | [] => false
  | c :: cs => (c = ')' && endsHeader cs) || closesHeader cs

/-- The name of the function or class whose header the line is, if nothing but the colon is missing. -/
def missingColon? (line : List Char) : Option (List Char) :=
  let cs := Text.trimStart line
  let cs := (afterWord? "async" cs).getD cs
  match (afterWord? "def" cs).or (afterWord? "class" cs) with
  | none => none
  | some cs =>
    let name := cs.takeWhile Text.isWordChar
    let rest := cs.drop name.length
    let header := endsHeader rest
      || (match Text.trimStart rest with
          | '(' :: inside => closesHeader inside
          | _ => false)
    if !name.isEmpty && header then some name else none

end AgentFlow.Pattern
