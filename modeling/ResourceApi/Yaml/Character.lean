/-!
# Characters of YAML texts

Which characters end a line, which separate, which may stand in a text at all, and which are shown
as they are when a text is written.
-/

namespace ResourceApi.Yaml

/-- The line feed, the next line mark, and the line and paragraph separators end a line. -/
def isBreak (c : Char) : Bool := c = '\n' || c = '\x85' || c = '\u2028' || c = '\u2029'

/-- Blanks, tabs and line ends. -/
def isSpace (c : Char) : Bool := c = ' ' || c = '\t' || isBreak c

/-- Ranges of the characters that may stand in a text. -/
def readableRanges : List (Nat × Nat) := [
  (0x9, 0xA), (0xD, 0xD), (0x20, 0x7E), (0x85, 0x85), (0xA0, 0xD7FF), (0xE000, 0xFFFD),
  (0x10000, 0x10FFFF)]

/-- May the character stand in a text? -/
def isReadable (c : Char) : Bool := readableRanges.any fun r => r.1 ≤ c.toNat && c.toNat ≤ r.2

/-- Ranges of the characters that are written as they are outside double quotes. -/
def shownRanges : List (Nat × Nat) := [
  (0xA, 0xA), (0x20, 0x7E), (0x85, 0x85), (0xA0, 0xD7FF), (0xE000, 0xFEFE), (0xFF00, 0xFFFD),
  (0x10000, 0x10FFFE)]

/-- Is the character written as it is outside double quotes? -/
def isShown (c : Char) : Bool := shownRanges.any fun r => r.1 ≤ c.toNat && c.toNat ≤ r.2

/-- Ranges of the characters that are written as they are inside double quotes, the quote, the
backslash and the line ends left aside. -/
def quotedRanges : List (Nat × Nat) := [
  (0x20, 0x7E), (0xA0, 0xD7FF), (0xE000, 0xFEFE), (0xFF00, 0xFFFD)]

/-- Is the character written as it is inside double quotes? -/
def isShownInQuotes (c : Char) : Bool :=
  c != '"' && c != '\\' && !isBreak c &&
    quotedRanges.any fun r => r.1 ≤ c.toNat && c.toNat ≤ r.2

end ResourceApi.Yaml
