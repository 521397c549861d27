import Singletons.Toml.Quoted
import Singletons.Toml.Scalar
import Singletons.Toml.Node

/-
The statements of TOML documents, line by line: headers of tables, headers of tables in a series,
and keys with their values. Lists may run over several lines and carry comments; inline tables stay
on one line. Nesting is limited.
-/

namespace Singletons.Toml

/-- A statement of a document. -/
inductive Statement where
  | header (key : List String)
  | seriesHeader (key : List String)
  | pair (key : List String) (value : Value)

/-- What is left after a comment, if one begins here. -/
def skipComment : List Char → List Char
  | '#' :: rest => rest.dropWhile isPlain
  | cs => cs

/-- What is left after the end of a line, before which spaces and a comment may stand. -/
def lineEnd? (cs : List Char) : Option (List Char) :=
  match skipComment (cs.dropWhile isGap) with
  | [] => some []
  | rest => lineBreak? rest

/-- What is left after spaces, comments and line breaks; the number bounds the lines. -/
def skipLines : Nat → List Char → List Char
  | 0, cs => cs
  | limit + 1, cs =>
    match lineBreak? (skipComment (cs.dropWhile isGap)) with
    | some rest => skipLines limit rest
    | none => skipComment (cs.dropWhile isGap)

mutual

/-- Reads a value; `depth` is how deep lists and tables may still be nested, and `limit` bounds the
items of a list or table. -/
def value? : (depth : Nat) → (limit : Nat) → List Char → Option (Value × List Char)
  | depth, limit, cs =>
    match cs with
    | '"' :: _ | '\'' :: _ => (text? cs).map fun (t, r) => (.text t, r)
    | '[' :: rest =>
      match depth with
      | 0 => none
      | depth + 1 => (items? depth limit limit rest).map fun (vs, r) => (.list vs, r)
    | '{' :: rest =>
      match depth with
      | 0 => none
      | depth + 1 =>
        match rest.dropWhile isGap with
        | '\x7d' :: rest => some (.table [], rest)
        | _ =>
          (pairs? depth limit limit rest).bind fun (ps, r) =>
            (Node.ofPairs? ps).map fun n => (n.toValue, r)
    | _ => scalar? cs
termination_by depth _ _ => (depth, 2, 0)

/-- Reads the rest of a list; a comma may follow the last item. -/
def items? : (depth : Nat) → (limit : Nat) → (left : Nat) → List Char → Option (List Value × List Char)
  | _, _, 0, _ => none
  | depth, limit, left + 1, cs =>
    match skipLines limit cs with
    | ']' :: rest => some ([], rest)
    | start =>
      (value? depth limit start).bind fun (v, rest) =>
        match skipLines limit rest with
        | ',' :: more => (items? depth limit left more).map fun (vs, r) => (v :: vs, r)
        | ']' :: rest => some ([v], rest)
        | _ => none
termination_by depth _ left _ => (depth, 3, left)

/-- Reads the rest of an inline table that is not empty. -/
def pairs? : (depth : Nat) → (limit : Nat) → (left : Nat) → List Char →
    Option (List (List String × Value) × List Char)
  | _, _, 0, _ => none
  | depth, limit, left + 1, cs =>
    (key? cs).bind fun (k, rest) =>
      match rest with
      | '=' :: rest =>
        (value? depth limit (rest.dropWhile isGap)).bind fun (v, rest) =>
          match rest.dropWhile isGap with
          | ',' :: more => (pairs? depth limit left more).map fun (ps, r) => ((k, v) :: ps, r)
          | '\x7d' :: rest => some ([(k, v)], rest)
          | _ => none
      | _ => none
termination_by depth _ left _ => (depth, 3, left)

end

/-- Reads the statement that begins here. -/
def statement? (cs : List Char) : Option (Statement × List Char) :=
  match cs with
  | '[' :: '[' :: rest =>
    (key? rest).bind fun (k, rest) =>
      match rest with
      | ']' :: ']' :: rest => some (.seriesHeader k, rest)
      | _ => none
  | '[' :: rest =>
    (key? rest).bind fun (k, rest) =>
      match rest with
      | ']' :: rest => some (.header k, rest)
      | _ => none
  | _ =>
    (key? cs).bind fun (k, rest) =>
      match rest with
      | '=' :: rest =>
        (value? depthLimit cs.length (rest.dropWhile isGap)).map fun (v, r) => (.pair k v, r)
      | _ => none

/-- Reads all statements; the number bounds them. -/
def statements? : Nat → List Char → Option (List Statement)
  | 0, _ => none
  | limit + 1, cs =>
    match skipLines (cs.length + 1) cs with
    | [] => some []
    | start =>
      (statement? start).bind fun (s, rest) =>
        (lineEnd? rest).bind fun rest => (statements? limit rest).map (s :: ·)

end Singletons.Toml
