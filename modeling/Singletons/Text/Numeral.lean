/-
Decimal integers within bounds. A numeral is an optional sign and at least one ASCII digit; the
minus sign is read only where negative numbers are meant. Digits are read from left to right, and
the first that does not fit ends the reading.
-/

namespace Singletons.Text.Numeral

/-- Why a text is no numeral within the bounds. -/
inductive Fault where
  | empty
  | invalidDigit
  | tooLarge
  | tooSmall
deriving DecidableEq

def Fault.message : Fault → String
  | empty => "cannot parse integer from empty string"
  | invalidDigit => "invalid digit found in string"
  | tooLarge => "number too large to fit in target type"
  | tooSmall => "number too small to fit in target type"

/-- The numbers between two bounds, both included. -/
structure Bounds where
  least : Int
  greatest : Int
deriving DecidableEq

namespace Bounds

/-- The numbers of `bits` bits. -/
def unsigned (bits : Nat) : Bounds := ⟨0, Int.ofNat (Nat.pow 2 bits) - 1⟩

/-- The numbers of `bits` bits in two's complement. -/
def signed (bits : Nat) : Bounds :=
  ⟨-Int.ofNat (Nat.pow 2 (bits - 1)), Int.ofNat (Nat.pow 2 (bits - 1)) - 1⟩

/-- Whether a number lies between the bounds. -/
def admits (b : Bounds) (n : Int) : Bool := b.least ≤ n && n ≤ b.greatest

end Bounds

/-- The value of a digit. -/
def digit? (c : Char) : Option Nat := if c.isDigit then some (c.toNat - '0'.toNat) else none

/-- Reads digits onto `sofar`; each step must stay within the bounds. -/
def readDigits (b : Bounds) (negative : Bool) : List Char → Int → Except Fault Int
  | [], sofar => .ok sofar
  | c :: rest, sofar =>
    match digit? c with
    | none => .error .invalidDigit
    | some d =>
      if negative then
        if sofar * 10 - d < b.least then .error .tooSmall else readDigits b negative rest (sofar * 10 - d)
      else if sofar * 10 + d > b.greatest then .error .tooLarge
      else readDigits b negative rest (sofar * 10 + d)

/-- Reads a numeral. -/
def read (b : Bounds) (s : String) : Except Fault Int :=
  match s.toList with
  | [] => .error .empty
  | ['+'] | ['-'] => .error .invalidDigit
  | '+' :: digits => readDigits b false digits 0
  | '-' :: digits => if b.least < 0 then readDigits b true digits 0 else .error .invalidDigit
  | digits => readDigits b false digits 0

end Singletons.Text.Numeral
