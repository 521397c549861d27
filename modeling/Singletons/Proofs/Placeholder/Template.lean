import Singletons.Placeholder.Scan

/-
Templates: texts with holes, each of which holds a template again. A template is written with `${` and `}`
around the holes. Its evaluation reads properties that are templates as well: a hole is evaluated to a key,
and stands for the property of that key or for the default that the key gives. This is what placeholders
mean, without offsets and without text that is rewritten.
-/

namespace Singletons

/-- A text without the characters that enclose holes. -/
structure Literal where
  text : String
  plain : '$' ∉ text.toList ∧ '{' ∉ text.toList ∧ '}' ∉ text.toList

inductive Template where
  | done
  | literal (l : Literal) (rest : Template)
  | hole (body rest : Template)

namespace Template

/-- The text of a template. -/
def render : Template → String
  | done => ""
  | literal l rest => l.text ++ rest.render
  | hole body rest => "$\x7b" ++ body.render ++ "\x7d" ++ rest.render

/-- Why a template has no value. -/
inductive Flaw where
  /-- The text of a hole is being evaluated already. -/
  | circular (body : String)
  /-- The key has no property and gives no default. -/
  | unresolvable (key : String)
deriving DecidableEq

/-- What a key stands for. -/
inductive Meaning where
  | property (t : Template)
  | default (text : String)

/-- What stands before and after the first colon. -/
def splitAtColon? (key : String) : Option (String × String) :=
  if ':' ∈ key.toList then
    some (.ofList (key.toList.takeWhile (· ≠ ':')), .ofList (key.toList.dropWhile (· ≠ ':')).tail)
  else none

/-- What a key stands for: its property, or the property named before the first colon, or the text after
it. -/
def meaning? (properties : Directory Template) (key : String) : Option Meaning :=
  match properties.get? key with
  | some t => some (.property t)
  | none =>
    (splitAtColon? key).map fun (name, text) =>
      match properties.get? name with
      | some t => .property t
      | none => .default text

/-- The value of a template while the holes with the texts `active` are being evaluated. There is no value
if the evaluation does not come to an end. -/
def eval (properties : Directory Template) (active : List String) : Template → ExceptT Flaw Option String
  | done => pure ""
  | literal l rest => do return l.text ++ (← rest |>.eval properties active)
  | hole body rest => do
    let value ←
      (if body.render ∈ active then throw (.circular body.render)
      else do
        let key ← body |>.eval properties (body.render :: active)
        match meaning? properties key with
        | some (.property t) => t |>.eval properties (body.render :: active)
        | some (.default text) => pure text
        | none => throw (.unresolvable key))
    return value ++ (← rest |>.eval properties active)
partial_fixpoint

/-- The placeholders whose properties are the texts of templates. -/
def placeholders (properties : Directory Template) : Placeholders where
  opening := "$\x7b"
  closing := "\x7d"
  separator := some ":"
  lenient := false
  properties := properties.map render

end Template

end Singletons
