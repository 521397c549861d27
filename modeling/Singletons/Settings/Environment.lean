import Singletons.Settings.Layer
import Singletons.Text.Numeral
import Singletons.Toml.Quoted
import Singletons.Toml.Scalar

/-
Settings in environment variables. A variable whose name begins with the prefix, whatever its case,
sets what the rest of its name leads to, section by section. Its value is read as structured data,
much like a document; a value that cannot be read to its end that way is the text it is.
-/

namespace Singletons.Settings

open Text

namespace EnvironmentValue

/-- Whether a character may stand in a word. -/
def isWordChar (c : Char) : Bool := !(c == ',' || c == '{' || c == '\x7d' || c == '[' || c == ']')

/-- Whether a character may stand in a key. -/
def isKeyChar (c : Char) : Bool := c.isAlphanum || c == '_' || c == '-'

/-- The characters between two quotes and what follows them; a backslash keeps the next character. -/
def quoted? : List Char → Option (List Char × List Char)
  | [] => none
  | '"' :: rest => some ([], rest)
  | '\\' :: c :: rest => (quoted? rest).map fun (t, r) => ('\\' :: c :: t, r)
  | c :: rest => (quoted? rest).map fun (t, r) => (c :: t, r)

/-- The text that quoted characters stand for. -/
def unescape? : (limit : Nat) → List Char → Option (List Char)
  | 0, _ => none
  | limit + 1, cs =>
    match cs with
    | [] => some []
    | '\\' :: rest => (Toml.escape? rest).bind fun (c, rest) => (unescape? limit rest).map (c :: ·)
    | c :: rest => (unescape? limit rest).map (c :: ·)

/-- The characters that lie within the first bytes of a text. -/
def withinBytes : Nat → List Char → List Char
  | _, [] => []
  | n, c :: rest => if c.utf8Size ≤ n then c :: withinBytes (n - c.utf8Size) rest else []

/-- The quoted characters that count. Where there is an escape, of what stands before the first one
only as many bytes count as it has characters, so that ASCII text counts in full. -/
def counted (inner : List Char) : List Char :=
  let before := inner.takeWhile (· != '\\')
  match inner.dropWhile (· != '\\') with
  | [] => before
  | escapes => withinBytes before.length before ++ escapes

/-- Reads a quoted text; control characters other than the tab stand in none. -/
def quotedText? (cs : List Char) : Option (String × List Char) :=
  match cs with
  | '"' :: rest =>
    (quoted? rest).bind fun (inner, rest) =>
      if inner.all Toml.isPlain then
        (unescape? (inner.length + 1) (counted inner)).map fun t => (String.ofList t, rest)
      else none
  | _ => none

def key? (cs : List Char) : Option (String × List Char) :=
  match cs with
  | '"' :: _ => quotedText? cs
  | _ =>
    let k := cs.takeWhile isKeyChar
    if k.isEmpty then none else some (String.ofList k, cs.dropWhile isKeyChar)

/-- Whether characters write a decimal fraction: digits around a point, at least one of them, and
perhaps an exponent. -/
def isFraction (cs : List Char) : Bool :=
  let unsigned := (Toml.splitSign cs).2
  let isExponent (c : Char) := c == 'e' || c == 'E'
  let mantissa := unsigned.takeWhile fun c => !isExponent c
  let before := mantissa.takeWhile Char.isDigit
  let rest := mantissa.dropWhile Char.isDigit
  let power :=
    match unsigned.dropWhile fun c => !isExponent c with
    | [] => true
    | _ :: signed =>
      let digits := (Toml.splitSign signed).2
      !digits.isEmpty && digits.all Char.isDigit
  match rest with
  | '.' :: after => after.all Char.isDigit && !(before.isEmpty && after.isEmpty) && power
  | _ => false

/-- The number or text that a word is. -/
def ofWord (w : String) : Layer :=
  if w.toList.contains '.' && isFraction w.toList then .fraction
  else
    match Numeral.read (.unsigned 64) w with
    | .ok n => .whole n
    | .error _ =>
      match Numeral.read (.signed 64) w with
      | .ok n => .whole n
      | .error _ => .text w

mutual

/-- Reads a value and what follows it. The number bounds the values, one in another or one after the
other. -/
def value? : Nat → List Char → Option (Layer × List Char)
  | 0, _ => none
  | limit + 1, cs =>
    let read : Option (Layer × List Char) :=
      match cs.dropWhile isAsciiWhite with
      | 't' :: 'r' :: 'u' :: 'e' :: rest => some (.flag true, rest)
      | 'f' :: 'a' :: 'l' :: 's' :: 'e' :: rest => some (.flag false, rest)
      | '{' :: rest => (pairs? limit rest).map fun (rows, r) => (.ofRows rows, r)
      | '[' :: rest => (items? limit rest).map fun (items, r) => (.list items, r)
      | '"' :: rest => (quotedText? ('"' :: rest)).map fun (t, r) => (.text t, r)
      | '\'' :: rest =>
        match rest with
        | c :: '\'' :: rest => some (.text c.toString, rest)
        | _ => none
      | cs => some (ofWord (trim (String.ofList (cs.takeWhile isWordChar))), cs.dropWhile isWordChar)
    read.map fun (v, rest) => (v, rest.dropWhile isAsciiWhite)

/-- Reads the rest of a list; a comma may follow the last item. -/
def items? : Nat → List Char → Option (List Layer × List Char)
  | 0, _ => none
  | limit + 1, cs =>
    match cs with
    | ']' :: rest => some ([], rest)
    | cs =>
      (value? limit cs).bind fun (v, rest) =>
        match rest with
        | ',' :: rest => (items? limit rest).map fun (vs, r) => (v :: vs, r)
        | ']' :: rest => some ([v], rest)
        | _ => none

/-- Reads the rest of a section; a comma may follow the last field. -/
def pairs? : Nat → List Char → Option (List (String × Layer) × List Char)
  | 0, _ => none
  | limit + 1, cs =>
    match cs with
    | '\x7d' :: rest => some ([], rest)
    | cs =>
      (key? (cs.dropWhile isAsciiWhite)).bind fun (k, rest) =>
        match rest.dropWhile isAsciiWhite with
        | '=' :: rest =>
          (value? limit rest).bind fun (v, rest) =>
            match rest with
            | ',' :: rest => (pairs? limit rest).map fun (ps, r) => ((k, v) :: ps, r)
            | '\x7d' :: rest => some ([(k, v)], rest)
            | _ => none
        | _ => none

end

/-- What the value of a variable stands for. -/
def read (s : String) : Layer :=
  match value? (2 * s.length + 2) s.toList with
  | some (v, []) => v
  | _ => .text s

end EnvironmentValue

/-- What is left of a name after a prefix, compared without regard to the case of ASCII letters. -/
def stripPrefix? : (start name : List Char) → Option (List Char)
  | [], name => some name
  | _ :: _, [] => none
  | p :: start, c :: name => if p.toLower == c.toLower then stripPrefix? start name else none

/-- The parts of a name, which pairs of underscores and dots separate. -/
def nameParts : List Char → List (List Char)
  | [] => [[]]
  | '_' :: '_' :: rest => [] :: nameParts rest
  | '.' :: rest => [] :: nameParts rest
  | c :: rest =>
    match nameParts rest with
    | part :: parts => (c.toLower :: part) :: parts
    | [] => [[c.toLower]]

/-- The settings that a variable sets, if its name is one of a setting. White space around the name,
and around what is left of it after the prefix, counts for nothing. -/
def ofVariable (start name value : String) : Option Layer :=
  (stripPrefix? start.toList (trim name).toList).bind fun rest =>
    let parts := nameParts (trim (String.ofList rest)).toList
    if parts.any List.isEmpty then none
    else some (parts.foldr (fun part l => .fields [(String.ofList part, l)]) (EnvironmentValue.read value))

/-- The layer of all variables; a later one lies over an earlier one. -/
def ofEnvironment (start : String) (environment : List (String × String)) : Layer :=
  (environment.filterMap fun v => ofVariable start v.1 v.2).foldl (fun lower upper => upper.onto lower) (.fields [])

end Singletons.Settings
