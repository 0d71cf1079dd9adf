import AgentFlow.Text.Alphabetic
import AgentFlow.Text.Mark
import AgentFlow.Text.Numeral

/-!
# Classes of characters

Blank characters, control characters, word characters and alphanumeric characters, over all of Unicode.
A word character may stand in an identifier; it is alphabetic, a mark, a decimal digit, a connecting
punctuation or a joiner. An alphanumeric character is alphabetic or any numeral: the two classes differ both
ways. Word characters are those of edition 16 of the standard, alphanumeric characters those of edition 17.
-/

namespace AgentFlow.Text

/-- `n` lies in one of the ranges. -/
def inRanges (ranges : List (Nat × Nat)) (n : Nat) : Bool :=
  ranges.any fun r => r.1 ≤ n && n ≤ r.2

/-- The characters with the property White_Space. -/
def isBlank (c : Char) : Bool :=
  inRanges [(0x9, 0xd), (0x20, 0x20), (0x85, 0x85), (0xa0, 0xa0), (0x1680, 0x1680), (0x2000, 0x200a),
    (0x2028, 0x2029), (0x202f, 0x202f), (0x205f, 0x205f), (0x3000, 0x3000)] c.toNat

/-- The control characters: both blocks of codes without a glyph. -/
def isControl (c : Char) : Bool :=
  c.toNat < 0x20 || (0x7f ≤ c.toNat && c.toNat ≤ 0x9f)

/-- Connecting punctuation, the underscore first, and the two joiners. -/
def isConnector (c : Char) : Bool :=
  inRanges [(0x5f, 0x5f), (0x200c, 0x200d), (0x203f, 0x2040), (0x2054, 0x2054), (0xfe33, 0xfe34),
    (0xfe4d, 0xfe4f), (0xff3f, 0xff3f)] c.toNat

/-- A letter of any script. Below `0x80` these are the Latin letters. -/
def isAlphabetic (c : Char) : Bool :=
  if c.toNat < 0x80 then c.isAlpha else inRanges alphabeticRanges c.toNat

/-- A decimal digit of any script. -/
def isDecimalDigit (c : Char) : Bool :=
  if c.toNat < 0x80 then c.isDigit else inRanges digitRanges c.toNat

/-- A character of a word. -/
def isWordChar (c : Char) : Bool :=
  isAlphabetic c || isDecimalDigit c || isConnector c || inRanges markRanges c.toNat

/-- A letter or a digit that edition 17 of the standard adds. -/
def isRecent (c : Char) : Bool :=
  inRanges recentAlphabeticRanges c.toNat || inRanges recentDigitRanges c.toNat

/-- A letter or a numeral of any kind. -/
def isAlphanumeric (c : Char) : Bool :=
  isAlphabetic c || isDecimalDigit c || inRanges numeralRanges c.toNat || isRecent c

end AgentFlow.Text
