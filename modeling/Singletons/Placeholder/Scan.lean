import Singletons.Text.Bytes
import Singletons.Directory

/-
The syntax of placeholders: an opening and a closing delimiter, an optional separator between a key
and its default, and the search for the delimiter that closes a placeholder. Inside a placeholder
further openings are counted, so that placeholders can be nested. When the closing delimiter is a
bracket and the opening one ends with its partner, the partner alone counts as an opening.
-/

namespace Singletons

/-- How placeholders are written and what they stand for. -/
structure Placeholders where
  opening : String := "$\x7b"
  closing : String := "\x7d"
  /-- What separates a key from its default; without one there are no defaults. -/
  separator : Option String := some ":"
  /-- Whether a placeholder that nothing resolves is left in place. -/
  lenient : Bool := false
  properties : Directory String := .empty
deriving DecidableEq

namespace Placeholders

open Text

/-- The partner of a closing bracket. -/
def partner? : String → Option Char
  | "\x7d" => some '{'
  | "]" => some '['
  | ")" => some '('
  | _ => none

/-- What counts as an opening inside a placeholder. -/
def inner (opening closing : String) : String :=
  match partner? closing with
  | some bracket => if opening.toList.getLast? == some bracket then bracket.toString else opening
  | none => opening

/-- What the search for a closing delimiter comes to. -/
inductive Scan where
  /-- The delimiter begins at an offset. -/
  | closed (offset : Nat)
  /-- The text ends first. -/
  | unclosed
  /-- An opening without bytes is found again and again. -/
  | endless
deriving DecidableEq

/-- Searches `rest`, which begins at `offset`, for the delimiter that closes a placeholder, while
`nested` inner ones are open. The search goes byte by byte. -/
def closingIn (closing inner : Bytes) (rest : Bytes) (offset nested : Nat) : Scan :=
  match rest with
  | [] => .unclosed
  | b :: tail =>
    if closing.isPrefixOf (b :: tail) then
      match nested with
      | 0 => .closed offset
      | nested + 1 =>
        closingIn closing inner ((b :: tail).drop closing.length) (offset + closing.length) nested
    else if inner.isPrefixOf (b :: tail) then
      if inner = [] then .endless
      else closingIn closing inner ((b :: tail).drop inner.length) (offset + inner.length) (nested + 1)
    else closingIn closing inner tail (offset + 1) nested
termination_by (rest.length, nested)
decreasing_by
  · rcases _hc : closing.length with _ | k
    · simp only [List.drop_zero]
      exact Prod.Lex.right _ (by omega)
    · exact Prod.Lex.left _ _ (by simp only [List.drop_succ_cons, List.length_drop, List.length_cons]; omega)
  · rename_i hne
    have hpos : 0 < inner.length := List.length_pos_iff.2 hne
    exact Prod.Lex.left _ _ (by rw [List.length_drop]; simp only [List.length_cons]; omega)
  · exact Prod.Lex.left _ _ (by simp)

/-- Where the placeholder closes that opens at offset `start` of a text. -/
def closingAt (p : Placeholders) (text : Bytes) (start : Nat) : Scan :=
  let body := start + (toBytes p.opening).length
  closingIn (toBytes p.closing) (toBytes (inner p.opening p.closing)) (text.drop body) body 0

end Placeholders

end Singletons
