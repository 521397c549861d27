import Singletons.Toml.Scalar

/-
Texts and keys of TOML documents. A text stands between double quotes, with escapes, or between
single quotes, without; tripled quotes let it run over several lines. Control characters other than
the tab stand in no text.
-/

namespace Singletons.Toml

/-- Whether a character is a space within a line. -/
def isGap (c : Char) : Bool := c == ' ' || c == '\t'

/-- Whether a character may stand in a text or a comment as it is. -/
def isPlain (c : Char) : Bool := c == '\t' || (0x20 ≤ c.toNat && c.toNat != 0x7F)

/-- What is left after a line break, if there is one. -/
def lineBreak? : List Char → Option (List Char)
  | '\n' :: rest => some rest
  | '\r' :: '\n' :: rest => some rest
  | _ => none

/-- What is left after spaces and line breaks. -/
def skipSpace : List Char → List Char
  | ' ' :: rest => skipSpace rest
  | '\t' :: rest => skipSpace rest
  | '\n' :: rest => skipSpace rest
  | '\r' :: '\n' :: rest => skipSpace rest
  | cs => cs

/-- The character whose number some digits write in base sixteen. -/
def charOfHex? (digits : List Char) : Option Char :=
  if digits.all isHexDigit then
    let n := ofDigits 16 digits
    if h : n.isValidChar then some ⟨n.toUInt32, by
      have hn : n < 0x110000 := by rcases h with h | ⟨_, h⟩ <;> omega
      simpa [UInt32.isValidChar, Nat.toUInt32, Nat.mod_eq_of_lt (show n < 4294967296 by omega)] using h⟩
    else none
  else none

/-- The character that a backslash and a letter stand for. -/
def escaped? : Char → Option Char
  | 'b' => some '\x08'
  | 't' => some '\t'
  | 'n' => some '\n'
  | 'f' => some '\x0c'
  | 'r' => some '\r'
  | '"' => some '"'
  | '\\' => some '\\'
  | _ => none

/-- Reads what follows a backslash: the character it stands for, and the rest. -/
def escape? : List Char → Option (Char × List Char)
  | 'u' :: a :: b :: c :: d :: rest => (charOfHex? [a, b, c, d]).map (·, rest)
  | 'U' :: a :: b :: c :: d :: e :: f :: g :: h :: rest => (charOfHex? [a, b, c, d, e, f, g, h]).map (·, rest)
  | e :: rest => (escaped? e).map (·, rest)
  | [] => none

/-- Reads the rest of a text between double quotes. -/
def basic? : (limit : Nat) → List Char → Option (List Char × List Char)
  | 0, _ => none
  | limit + 1, cs =>
    match cs with
    | [] => none
    | '"' :: rest => some ([], rest)
    | '\\' :: rest => (escape? rest).bind fun (c, rest) => (basic? limit rest).map fun (t, r) => (c :: t, r)
    | c :: rest => if isPlain c then (basic? limit rest).map fun (t, r) => (c :: t, r) else none

/-- Reads the rest of a text between single quotes. -/
def literal? : List Char → Option (List Char × List Char)
  | [] => none
  | '\'' :: rest => some ([], rest)
  | c :: rest => if isPlain c then (literal? rest).map fun (t, r) => (c :: t, r) else none

/-- Reads the rest of a text between tripled quotes. Up to two quotes before the closing ones belong
to the text; between double quotes a backslash at the end of a line hides the break and all space
after it. -/
def multiline? (quote : Char) : (limit : Nat) → List Char → Option (List Char × List Char)
  | 0, _ => none
  | limit + 1, cs =>
    let goOn (c : Char) (rest : List Char) := (multiline? quote limit rest).map fun (t, r) => (c :: t, r)
    match lineBreak? cs with
    | some rest => goOn '\n' rest
    | none =>
      match cs with
      | [] => none
      | c :: rest =>
        if c == quote then
          let quotes := (cs.takeWhile (· == quote)).length
          if quotes < 3 then goOn c rest
          else
            let kept := min (quotes - 3) 2
            some (List.replicate kept quote, cs.drop (3 + kept))
        else if c == '\\' && quote == '"' then
          if (lineBreak? (rest.dropWhile isGap)).isSome then
            multiline? quote limit (skipSpace rest)
          else (escape? rest).bind fun (c, rest) => goOn c rest
        else if isPlain c then goOn c rest
        else none

/-- Reads a text in any of its four forms. -/
def text? (cs : List Char) : Option (String × List Char) :=
  let open3 (rest : List Char) := (lineBreak? rest).getD rest
  let read : Option (List Char × List Char) :=
    match cs with
    | '"' :: '"' :: '"' :: rest => multiline? '"' cs.length (open3 rest)
    | '\'' :: '\'' :: '\'' :: rest => multiline? '\'' cs.length (open3 rest)
    | '"' :: rest => basic? cs.length rest
    | '\'' :: rest => literal? rest
    | _ => none
  read.map fun (t, rest) => (String.ofList t, rest)

/-- Whether a character may stand in a key without quotes. -/
def isBare (c : Char) : Bool := c.isAlphanum || c == '-' || c == '_'

/-- Reads one part of a key. -/
def keyPart? (cs : List Char) : Option (String × List Char) :=
  match cs with
  | '"' :: rest => (basic? cs.length rest).map fun (t, r) => (String.ofList t, r)
  | '\'' :: rest => (literal? rest).map fun (t, r) => (String.ofList t, r)
  | _ =>
    let part := cs.takeWhile isBare
    if part.isEmpty then none else some (String.ofList part, cs.dropWhile isBare)

/-- Reads a key: parts with dots between them. -/
def keyParts? : (limit : Nat) → List Char → Option (List String × List Char)
  | 0, _ => none
  | limit + 1, cs =>
    (keyPart? (cs.dropWhile isGap)).bind fun (part, rest) =>
      match rest.dropWhile isGap with
      | '.' :: more => (keyParts? limit more).map fun (parts, r) => (part :: parts, r)
      | rest => some ([part], rest)

/-- The greatest depth to which keys and values may be nested. -/
def depthLimit : Nat := 79

/-- Reads a key of a depth that is allowed. -/
def key? (cs : List Char) : Option (List String × List Char) := keyParts? depthLimit cs

/-! ## Writing -/

/-- The length of the longest run of a character. -/
def longestRun (q : Char) (cs : List Char) : Nat :=
  (cs.foldl (fun (best, run) c => if c == q then (max best (run + 1), run + 1) else (best, 0)) (0, 0)).1

/-- Whether a character can be written only as an escape. -/
def needsEscape (c : Char) : Bool := (c.toNat < 0x20 && c != '\t' && c != '\n') || c.toNat == 0x7F

/-- Four hexadecimal digits of a number. -/
def hex4 (n : Nat) : String :=
  let digits := (Nat.toDigits 16 n).map Char.toUpper
  String.ofList (List.replicate (4 - digits.length) '0' ++ digits)

/-- A character between double quotes; `multiline` keeps line breaks as they are. -/
def encodeChar (multiline : Bool) (c : Char) : String :=
  if c == '\x08' then "\\b"
  else if c == '\t' then "\\t"
  else if c == '\n' then (if multiline then "\n" else "\\n")
  else if c == '\x0c' then "\\f"
  else if c == '\r' then "\\r"
  else if c == '"' then "\\\""
  else if c == '\\' then "\\\\"
  else if needsEscape c then "\\u" ++ hex4 c.toNat
  else c.toString

/-- The text between tripled double quotes: every third quote of a run is escaped. -/
def encodeMultiline : List Char → (run : Nat) → String
  | [], _ => ""
  | c :: rest, run =>
    if c == '"' then
      if run < 2 then "\"" ++ encodeMultiline rest (run + 1) else "\\\"" ++ encodeMultiline rest 0
    else encodeChar true c ++ encodeMultiline rest 0

/-- A text as it is written: between double quotes if it needs no escape there, else between single
quotes, else between tripled ones, else with escapes. -/
def encodeText (s : String) : String :=
  let cs := s.toList
  let codes := cs.any needsEscape
  let backslash := cs.contains '\\'
  let breaks := cs.contains '\n'
  let doubles := longestRun '"' cs
  let singles := longestRun '\'' cs
  let opening := if breaks then "\n" else ""
  if !codes && !backslash && doubles == 0 && !breaks then
    "\"" ++ String.join (cs.map (encodeChar false)) ++ "\""
  else if !codes && singles == 0 && !breaks then "'" ++ s ++ "'"
  else if !codes && !backslash && doubles ≤ 2 then
    "\"\"\"" ++ opening ++ encodeMultiline cs 0 ++ "\"\"\""
  else if !codes && singles ≤ 2 then "'''" ++ opening ++ s ++ "'''"
  else if breaks then "\"\"\"" ++ opening ++ encodeMultiline cs 0 ++ "\"\"\""
  else "\"" ++ String.join (cs.map (encodeChar false)) ++ "\""

/-- A key as it is written: bare if it can be, else quoted on one line. -/
def encodeKey (s : String) : String :=
  let cs := s.toList
  if !cs.isEmpty && cs.all isBare then s
  else
    let codes := cs.any needsEscape || cs.contains '\n'
    if !codes && !cs.contains '\\' && !cs.contains '"' then "\"" ++ String.join (cs.map (encodeChar false)) ++ "\""
    else if !codes && !cs.contains '\'' then "'" ++ s ++ "'"
    else "\"" ++ String.join (cs.map (encodeChar false)) ++ "\""

end Singletons.Toml
