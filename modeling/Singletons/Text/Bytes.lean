/-
Texts as UTF-8 bytes. Positions in a text are byte offsets; a slice is taken only between offsets
at which characters begin or the text ends, and is refused elsewhere.
-/

namespace Singletons.Text

abbrev Bytes := List UInt8

/-- The bytes of a text. -/
def toBytes (s : String) : Bytes := s.toByteArray.data.toList

/-- The text of the given bytes, if they are the bytes of one. -/
def ofBytes? (b : Bytes) : Option String := String.fromUTF8? ⟨b.toArray⟩

/-- The text of the given bytes, empty if they are the bytes of none. -/
def ofBytes (b : Bytes) : String := (ofBytes? b).getD ""

namespace Bytes

/-- Whether a byte goes on with a character that a byte before it began. -/
def isContinuation (b : UInt8) : Bool := b &&& 0xC0 == 0x80

/-- Whether an offset lies between two characters, or at an end of the text. -/
def isBoundary (t : Bytes) (i : Nat) : Bool :=
  i == 0 || i == t.length || (t[i]?.map fun b => !isContinuation b).getD false

/-- The bytes from offset `i` up to offset `j`. -/
def slice? (t : Bytes) (i j : Nat) : Option Bytes :=
  if i ≤ j && isBoundary t i && isBoundary t j then some ((t.take j).drop i) else none

/-- The bytes with those from offset `i` up to offset `j` replaced. -/
def replace? (t : Bytes) (i j : Nat) (r : Bytes) : Option Bytes :=
  if i ≤ j && isBoundary t i && isBoundary t j then some (t.take i ++ r ++ t.drop j) else none

/-- The offset of the first occurrence of a pattern. -/
def find? (pattern : Bytes) : Bytes → Option Nat
  | [] => if pattern.isEmpty then some 0 else none
  | b :: t => if pattern.isPrefixOf (b :: t) then some 0 else (find? pattern t).map (· + 1)

/-- What comes before and after the first occurrence of a separator. -/
def splitOnce? (separator t : Bytes) : Option (Bytes × Bytes) :=
  (find? separator t).map fun i => (t.take i, t.drop (i + separator.length))

end Bytes

end Singletons.Text
