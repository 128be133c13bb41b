import UntypedLambda.Text.CharRange

/-!
# Blank characters

The characters that separate tokens and are stripped from the ends of a line:
the ASCII separators and controls, and the spaces and line ends of Unicode.
-/

namespace UntypedLambda.Blank

/-- The twenty-nine blank characters. -/
def ranges : CharRanges :=
  [(0x09, 0x0D), (0x1C, 0x20), (0x85, 0x85), (0xA0, 0xA0), (0x1680, 0x1680), (0x2000, 0x200A),
    (0x2028, 0x2029), (0x202F, 0x202F), (0x205F, 0x205F), (0x3000, 0x3000)]

/-- Whether a character is blank. -/
def isBlank (c : Char) : Bool :=
  ranges.contains c

/-- Characters without the blank ones at the end. -/
def stripRight (characters : List Char) : List Char :=
  (characters.reverse.dropWhile isBlank).reverse

/-- Characters without the blank ones at either end. -/
def strip (characters : List Char) : List Char :=
  stripRight (characters.dropWhile isBlank)

/-- A text without the blank characters at either end. -/
def stripped (text : String) : String :=
  String.ofList (strip text.toList)

end UntypedLambda.Blank
