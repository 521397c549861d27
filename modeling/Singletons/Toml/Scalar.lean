import Singletons.Text.Numeral
import Singletons.Toml.Node

/-
Numbers and date-times of TOML. Digits stand for numbers in bases up to sixteen, in both cases, and
may be grouped by single underscores between them; a decimal number has no leading zero; whole
numbers fit in 64 bits. Months have their days, leap years included, and a minute may have a
sixty-first second.
-/

namespace Singletons.Toml

/-- The value of a digit in a base up to sixteen. -/
def digitValue (c : Char) : Nat :=
  if c.isDigit then c.toNat - '0'.toNat else c.toLower.toNat - 'a'.toNat + 10

def isHexDigit (c : Char) : Bool := c.isDigit || ('a' ≤ c.toLower && c.toLower ≤ 'f')

/-- The number that digits write in a base. -/
def ofDigits (base : Nat) (digits : List Char) : Nat :=
  digits.foldl (fun n c => n * base + digitValue c) 0

example : ofDigits 16 ['f', 'F'] = 255 := by decide

/-- The digits after a digit, without the underscores that group them. -/
def ungroupedTail (p : Char → Bool) : List Char → Option (List Char)
  | [] => some []
  | '_' :: d :: rest => if p d then (ungroupedTail p rest).map (d :: ·) else none
  | d :: rest => if p d then (ungroupedTail p rest).map (d :: ·) else none

/-- The digits of a number without the underscores that group them. -/
def ungrouped (p : Char → Bool) : List Char → Option (List Char)
  | [] => none
  | d :: rest => if p d then (ungroupedTail p rest).map (d :: ·) else none

/-- A sign and what follows it. -/
def splitSign : List Char → Bool × List Char
  | '-' :: rest => (true, rest)
  | '+' :: rest => (false, rest)
  | rest => (false, rest)

/-- Digits of a decimal number: no leading zero, except for zero itself. -/
def decimalDigits (cs : List Char) : Option (List Char) :=
  match ungrouped Char.isDigit cs with
  | some ('0' :: _ :: _) => none
  | r => r

/-- A number of 64 bits with a sign. -/
def fit64 (n : Int) : Option Int := if (Text.Numeral.Bounds.signed 64).admits n then some n else none

/-- Reads a whole number. -/
def whole? (cs : List Char) : Option Int :=
  match cs with
  | '0' :: 'x' :: rest => (ungrouped isHexDigit rest).bind fun ds => fit64 (ofDigits 16 ds)
  | '0' :: 'o' :: rest => (ungrouped (fun c => '0' ≤ c && c ≤ '7') rest).bind fun ds => fit64 (ofDigits 8 ds)
  | '0' :: 'b' :: rest => (ungrouped (fun c => c == '0' || c == '1') rest).bind fun ds => fit64 (ofDigits 2 ds)
  | _ =>
    let (negative, rest) := splitSign cs
    (decimalDigits rest).bind fun ds => fit64 (if negative then -(ofDigits 10 ds) else ofDigits 10 ds)

/-- Whether `digits · 10 ^ exponent` rounds to infinity in double precision. -/
def overflows (digits : Nat) (exponent : Int) : Bool :=
  let limit := Nat.pow 2 1024 - Nat.pow 2 970
  if digits = 0 then false
  else if exponent > 400 then true
  else if exponent ≥ 0 then digits * Nat.pow 10 exponent.toNat ≥ limit
  -- fewer binary digits than decimal places: the number is less than one
  else if digits.log2 < (-exponent).toNat then false
  else digits ≥ limit * Nat.pow 10 (-exponent).toNat

/-- Whether characters write a fraction: a fractional part, an exponent, or both. A positive fraction
must not round to infinity. -/
def isFraction (cs : List Char) : Bool :=
  let (negative, rest) := splitSign cs
  if rest == "inf".toList || rest == "nan".toList then true
  else
    let isExponent (c : Char) := c == 'e' || c == 'E'
    let mantissa := rest.takeWhile fun c => !isExponent c
    let power := rest.dropWhile fun c => !isExponent c
    let before := mantissa.takeWhile (· != '.')
    let after := mantissa.dropWhile (· != '.')
    match decimalDigits before with
    | none => false
    | some whole =>
      let part : Option (List Char) :=
        match after with
        | [] => some []
        | _ :: ds => ungrouped Char.isDigit ds
      let exponent : Option Int :=
        match power with
        | [] => some 0
        | _ :: signed =>
          let (down, ds) := splitSign signed
          (ungrouped Char.isDigit ds).map fun ds => if down then -(ofDigits 10 ds) else ofDigits 10 ds
      match part, exponent with
      | some ds, some e =>
        !(after.isEmpty && power.isEmpty) &&
          (negative || !overflows (ofDigits 10 (whole ++ ds)) (e - ds.length))
      | _, _ => false

/-! ## Date-times -/

/-- The number of two digits, if it lies within bounds. -/
def twoDigits (least greatest : Nat) (a b : Char) : Option Nat :=
  if a.isDigit && b.isDigit then
    let n := ofDigits 10 [a, b]
    if least ≤ n && n ≤ greatest then some n else none
  else none

def isLeapYear (y : Nat) : Bool := y % 4 == 0 && (y % 100 != 0 || y % 400 == 0)

def daysInMonth (y m : Nat) : Nat :=
  match m with
  | 2 => if isLeapYear y then 29 else 28
  | 4 | 6 | 9 | 11 => 30
  | _ => 31

/-- Reads a date, `YYYY-MM-DD`, and gives it with what follows. -/
def date? : List Char → Option (String × List Char)
  | a :: b :: c :: d :: '-' :: e :: f :: '-' :: g :: h :: rest =>
    if [a, b, c, d].all Char.isDigit then
      (twoDigits 1 12 e f).bind fun month =>
        (twoDigits 1 (daysInMonth (ofDigits 10 [a, b, c, d]) month) g h).map fun _ =>
          (String.ofList [a, b, c, d, '-', e, f, '-', g, h], rest)
    else none
  | _ => none

/-- The decimal fraction of a second in its normal form: nine digits at most, no zeros at the end. -/
def secondFraction (digits : List Char) : String :=
  let kept := ((digits.take 9).reverse.dropWhile (· == '0')).reverse
  if kept.isEmpty then "" else String.ofList ('.' :: kept)

/-- Reads a time, `HH:MM:SS` with an optional fraction, and gives it with what follows. -/
def time? : List Char → Option (String × List Char)
  | a :: b :: ':' :: c :: d :: ':' :: e :: f :: rest =>
    (twoDigits 0 23 a b).bind fun _ => (twoDigits 0 59 c d).bind fun _ => (twoDigits 0 60 e f).bind fun _ =>
      let plain := String.ofList [a, b, ':', c, d, ':', e, f]
      match rest with
      | '.' :: more =>
        let digits := more.takeWhile Char.isDigit
        if digits.isEmpty then none
        else some (plain ++ secondFraction digits, more.dropWhile Char.isDigit)
      | _ => some (plain, rest)
  | _ => none

/-- Reads the end of a date-time: nothing, or how far it is from universal time. -/
def zone? : List Char → Option String
  | [] => some ""
  | ['Z'] | ['z'] => some "Z"
  | [s, a, b, ':', c, d] =>
    if s == '+' || s == '-' then
      (twoDigits 0 23 a b).bind fun hours => (twoDigits 0 59 c d).map fun minutes =>
        let sign := if hours == 0 && minutes == 0 then '+' else s
        String.ofList [sign, a, b, ':', c, d]
    else none
  | _ => none

/-- Reads a date, a time, or both, and gives it in its normal form. -/
def moment? (cs : List Char) : Option String :=
  match date? cs with
  | some (date, []) => some date
  | some (date, delimiter :: rest) =>
    if delimiter == 'T' || delimiter == 't' || delimiter == ' ' then
      (time? rest).bind fun (time, rest) => (zone? rest).map fun zone => date ++ "T" ++ time ++ zone
    else none
  | none =>
    match time? cs with
    | some (time, []) => some time
    | _ => none

/-! ## Words -/

/-- Whether a character may stand in a number or a date-time. -/
def isScalarChar (c : Char) : Bool :=
  c.isAlphanum || c == '+' || c == '-' || c == '_' || c == '.' || c == ':'

/-- The value that a run of characters writes: a truth value, a date-time, a fraction or a whole
number. -/
def scalarOf? (cs : List Char) : Option Value :=
  if cs == "true".toList then some (.flag true)
  else if cs == "false".toList then some (.flag false)
  else
    match moment? cs with
    | some m => some (.moment m)
    | none =>
      if isFraction cs then some (.fraction (String.ofList cs))
      else (whole? cs).map .whole

/-- Reads a value that is no text, list or table. A date may be followed by a space and a time. -/
def scalar? (cs : List Char) : Option (Value × List Char) :=
  let word := cs.takeWhile isScalarChar
  let rest := cs.dropWhile isScalarChar
  let alone := (scalarOf? word).map fun v => (v, rest)
  -- the space that may stand between a date and a time ends every other word
  match date? word, rest with
  | some (_, []), ' ' :: more =>
    match moment? (word ++ ' ' :: more.takeWhile isScalarChar) with
    | some m => some (.moment m, more.dropWhile isScalarChar)
    | none => alone
  | _, _ => alone

end Singletons.Toml
