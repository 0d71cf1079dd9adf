import AgentFlow.Text.Class

/-!
# Cutting and searching text

Operations on the characters of a text: trimming blanks, splitting into words and lines, searching for a
fragment and replacing it. A line ends at a newline, with a carriage return directly before that newline left
out; the last line needs no newline.
-/

namespace AgentFlow.Text

/-! ### Blanks -/

def trimStart (cs : List Char) : List Char := cs.dropWhile isBlank

def trimEnd (cs : List Char) : List Char := (cs.reverse.dropWhile isBlank).reverse

def trim (cs : List Char) : List Char := trimEnd (trimStart cs)

/-- `s` without the blanks around it. -/
def strip (s : String) : String := String.ofList (trim s.toList)

/-- `s` holds blanks only. -/
def blank (s : String) : Bool := s.toList.all isBlank

/-- A text that says something, as it stands. -/
def nonBlank (text : Option String) : Option String := text.filter fun s => !blank s

/-- A text that says something, without the blanks around it. -/
def stripped (text : Option String) : Option String := (nonBlank text).map strip

/-! ### Pieces -/

/-- The pieces between the characters that satisfy `p`; there is always one. -/
def splitWhere (p : Char → Bool) : List Char → List (List Char)
  | [] => [[]]
  | c :: cs =>
    if p c then [] :: splitWhere p cs
    else
      match splitWhere p cs with
      | [] => [[c]]
      | w :: ws => (c :: w) :: ws

/-- The words of a text: its non-empty pieces between blanks. -/
def words (cs : List Char) : List (List Char) :=
  (splitWhere isBlank cs).filter fun w => !w.isEmpty

/-- The lines of a text. -/
def lines : List Char → List (List Char)
  | [] => []
  | '\n' :: cs => [] :: lines cs
  | '\r' :: '\n' :: cs => [] :: lines cs
  | c :: cs =>
    match lines cs with
    | [] => [[c]]
    | l :: ls => (c :: l) :: ls

/-- Each line with a newline after it. -/
def unlines (ls : List (List Char)) : List Char := ls.flatMap fun l => l ++ ['\n']

/-! ### Fragments -/

/-- `cs` begins with the fragment. -/
def startsWith (fragment : String) (cs : List Char) : Bool := fragment.toList.isPrefixOf cs

/-- The fragment occurs somewhere in `cs`. -/
def occurs (fragment : List Char) : List Char → Bool
  | [] => fragment.isEmpty
  | c :: cs => fragment.isPrefixOf (c :: cs) || occurs fragment cs

/-- The fragment occurs somewhere in `cs`. -/
def contains (fragment : String) (cs : List Char) : Bool := occurs fragment.toList cs

/-- Replaces from left to right; `skip` characters of an occurrence already replaced are still to be left
out. -/
def replaceFrom (old new : List Char) : Nat → List Char → List Char
  | _, [] => []
  | skip + 1, _ :: cs => replaceFrom old new skip cs
  | 0, c :: cs =>
    if old.isPrefixOf (c :: cs) then new ++ replaceFrom old new (old.length - 1) cs
    else c :: replaceFrom old new 0 cs

/-- Every occurrence of the non-empty fragment `old`, from left to right, becomes `new`. -/
def replace (old new : List Char) (cs : List Char) : List Char := replaceFrom old new 0 cs

/-- The number of the first line that satisfies `p`, counted from 1. -/
def lineWhere (p : List Char → Bool) (ls : List (List Char)) : Option Nat :=
  (ls.findIdx? p).map (· + 1)

/-! ### Letters -/

/-- A letter or digit of the basic Latin alphabet. -/
def isBasicAlnum (c : Char) : Bool := c.isAlpha || c.isDigit

/-- The lower case of a character, where it begins with a basic Latin letter. No other character's lower case
holds such a letter, so a search for basic Latin words finds the same in the text lowered this way. -/
def lowerLatin (c : Char) : List Char :=
  if c.toNat = 0x130 then ['i', Char.ofNat 0x307]
  else if c.toNat = 0x212a then ['k']
  else [c.toLower]

/-- The text lowered for a search for basic Latin words. -/
def lowered (cs : List Char) : List Char := cs.flatMap lowerLatin

end AgentFlow.Text
