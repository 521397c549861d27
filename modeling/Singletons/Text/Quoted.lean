import Singletons.Text.Glyph

/-
Quoted texts and lists of them, as reports show names. Every character without a glyph of its own,
the quote and the backslash are written as an escape, so that a quoted text is one line and shows
where it ends.
-/

namespace Singletons.Text.Quoted

/-- The digits of a number in base sixteen, lower case. -/
def hex (n : Nat) : String := String.ofList (Nat.toDigits 16 n)

/-- A character as it stands between quotes. -/
def encodeChar (c : Char) : String :=
  if c = '\x00' then "\\0"
  else if c = '\t' then "\\t"
  else if c = '\r' then "\\r"
  else if c = '\n' then "\\n"
  else if c = '"' then "\\\""
  else if c = '\\' then "\\\\"
  else if hasGlyph c then String.singleton c
  else "\\u\x7b" ++ hex c.toNat ++ "\x7d"

/-- A text between quotes. -/
def encode (s : String) : String := "\"" ++ String.join (s.toList.map encodeChar) ++ "\""

/-- A list of texts between brackets, each quoted. -/
def encodeList (l : List String) : String := "[" ++ ", ".intercalate (l.map encode) ++ "]"

example : encodeList ["a", "b"] = "[\"a\", \"b\"]" := by cbv
example : encode "\x01\"" = "\"\\u\x7b1\x7d\\\"\"" := by cbv

end Singletons.Text.Quoted
