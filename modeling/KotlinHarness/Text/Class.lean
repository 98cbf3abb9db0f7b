/-
  Character classes used by every reader of this library.

  Two families meet here.  Pattern classes describe what a scanner accepts: `isWord` is a letter,
  mark, decimal digit, connector or join control, `isDecimal` any decimal digit of Unicode,
  `isSpace` the property White_Space.  Identifier classes describe class names: `isAlphabetic` and
  `isAlphanumeric`.  Patterns follow edition 16 of Unicode, identifiers edition 17, so a letter of
  the newer edition alone may stand in a class name and is no word character.  ASCII is decided by
  cases, everything else by the tables of `Text.Ranges`.
-/
import KotlinHarness.Text.Ranges

namespace KotlinHarness.Text

/-- Whether the code point of `c` lies in one of the closed ranges. -/
def inRanges (ranges : List (Nat × Nat)) (c : Char) : Bool :=
  ranges.any fun range => range.1 ≤ c.toNat && c.toNat ≤ range.2

/-- The first 128 code points. -/
def isAscii (c : Char) : Bool := c.toNat < 128

/-- White_Space: the blanks, line separators and fixed-width spaces of Unicode. -/
def isSpace (c : Char) : Bool :=
  let n := c.toNat
  (9 ≤ n && n ≤ 13) || n == 32 || n == 0x85 || n == 0xA0 || n == 0x1680
    || (0x2000 ≤ n && n ≤ 0x200A) || n == 0x2028 || n == 0x2029 || n == 0x202F || n == 0x205F
    || n == 0x3000

/-- Decimal digits of every script. -/
def isDecimal (c : Char) : Bool :=
  if isAscii c then c.isDigit else inRanges decimalRanges c

/-- Connector punctuation (general category Pc) outside ASCII. -/
def isConnector (c : Char) : Bool :=
  let n := c.toNat
  n == 0x203F || n == 0x2040 || n == 0x2054 || n == 0xFE33 || n == 0xFE34
    || (0xFE4D ≤ n && n ≤ 0xFE4F) || n == 0xFF3F

/-- The two join controls, zero-width non-joiner and joiner. -/
def isJoinControl (c : Char) : Bool := c.toNat == 0x200C || c.toNat == 0x200D

/-- Characters with property Alphabetic. -/
def isAlphabetic (c : Char) : Bool :=
  if isAscii c then c.isAlpha
  else inRanges alphabeticRanges c || inRanges newAlphabeticRanges c

/-- Numbers of every kind. -/
def isNumeric (c : Char) : Bool :=
  if isAscii c then c.isDigit else inRanges numericRanges c || inRanges newNumericRanges c

/-- Alphabetic characters and numbers of every kind. -/
def isAlphanumeric (c : Char) : Bool := isAlphabetic c || isNumeric c

/-- Word characters: alphabetic characters, marks, decimal digits, connectors and join controls. -/
def isWord (c : Char) : Bool :=
  if isAscii c then c.isAlphanum || c == '_'
  else inRanges alphabeticRanges c || inRanges markRanges c || inRanges decimalRanges c
    || isConnector c || isJoinControl c

/-- Word characters and the dot, the characters of a dotted name. -/
def isDotted (c : Char) : Bool := isWord c || c == '.'

end KotlinHarness.Text
