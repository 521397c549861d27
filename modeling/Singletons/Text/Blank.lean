/-
Blank text. A text is blank when it holds nothing but white space, the empty text included; names and
aliases that are blank carry no information. White space is the Unicode property `White_Space`.
-/

namespace Singletons.Text

/-- The ranges of the Unicode property `White_Space`, both ends included, in increasing order. -/
def whiteRanges : List (Nat × Nat) :=
  [(0x09, 0x0D), (0x20, 0x20), (0x85, 0x85), (0xA0, 0xA0), (0x1680, 0x1680), (0x2000, 0x200A),
    (0x2028, 0x2029), (0x202F, 0x202F), (0x205F, 0x205F), (0x3000, 0x3000)]

/-- Whether a character is white space. -/
def isWhite (c : Char) : Bool := whiteRanges.any fun r => r.1 ≤ c.toNat && c.toNat ≤ r.2

/-- Whether a text is blank. -/
def isBlank (s : String) : Bool := s.toList.all isWhite

/-- A text without the white space at its two ends. -/
def trim (s : String) : String :=
  String.ofList ((s.toList.dropWhile isWhite).reverse.dropWhile isWhite).reverse

/-- Whether a character is white space among the ASCII characters. -/
def isAsciiWhite (c : Char) : Bool := c == ' ' || c == '\t' || c == '\n' || c == '\x0c' || c == '\r'

example : isBlank " \t\u3000\u2029" = true := by decide
example : isBlank "\u200b" = false := by decide

end Singletons.Text
