import Singletons.Placeholder.Scan
import Singletons.Alias.Resolve

/-
Resolving placeholders. The placeholders of a text are replaced from left to right. The body of a
placeholder is resolved first and yields a key; the property of that key, or the default that the
body gives, is resolved in turn and takes the placeholder's place. A body that is being resolved
already is refused. Bodies can still grow without end; a resolution that does not come to an end has
no outcome.
-/

namespace Singletons.Placeholders

open Text

/-- Why a text does not resolve. -/
inductive Fault where
  /-- The body of a placeholder is being resolved already. -/
  | circular (body : String)
  /-- No property and no default answers to a key; `value` is the text at hand. -/
  | unresolved (key value : String)
  /-- A slice would cut a character. -/
  | split
deriving DecidableEq

/-- The text that a key stands for: its property, or the property of what stands before the first
separator, or what stands after it. -/
def lookup? (p : Placeholders) (key : Bytes) : Option Bytes :=
  match p.properties.get? (ofBytes key) with
  | some v => some (toBytes v)
  | none =>
    match p.separator with
    | none => none
    | some separator =>
      (Bytes.splitOnce? (toBytes separator) key).map fun (name, default) =>
        match p.properties.get? (ofBytes name) with
        | some v => toBytes v
        | none => default

/-- Where the first placeholder opens at or after `next`. -/
def nextOpening? (p : Placeholders) (text : Bytes) (next : Nat) : Option Nat :=
  if next ≤ text.length && Bytes.isBoundary text next then
    (Bytes.find? (toBytes p.opening) (text.drop next)).map (next + ·)
  else none

/-- What an opening comes to. -/
inductive Opened where
  /-- A placeholder to resolve, whose closing delimiter ends at the offset `past`. -/
  | placeholder (body : Bytes) (past : Nat)
  /-- The resolution of the text is over. -/
  | finished (outcome : Except Fault Bytes)
  /-- The search for the closing delimiter does not come to an end. -/
  | endless

/-- What the opening at `start` comes to while the bodies `visiting` are being resolved. -/
def openedAt (p : Placeholders) (text : Bytes) (start : Nat) (visiting : List Bytes) : Opened :=
  match p.closingAt text start with
  | .endless => .endless
  | .unclosed => .finished (.ok text)
  | .closed stop =>
    match Bytes.slice? text (start + (toBytes p.opening).length) stop with
    | none => .finished (.error .split)
    | some body =>
      if visiting.contains body then .finished (.error (.circular (ofBytes body)))
      else .placeholder body (stop + (toBytes p.closing).length)

/-- Resolves the placeholder that opens at `opens`, if there is one, and all that follow it; `value` is
the text before any replacement and `text` the text now. -/
def resolveFrom (p : Placeholders) (value text : Bytes) (opens : Option Nat) (visiting : List Bytes) :
    Option (Except Fault Bytes) :=
  match opens with
  | none => some (.ok text)
  | some start =>
    match p.openedAt text start visiting with
    | .endless => none
    | .finished outcome => some outcome
    | .placeholder body past => do
      -- the body is resolved to a key before the key is looked up
      match ← (p |>.resolveFrom body body (p.nextOpening? body 0) (body :: visiting)) with
      | .error e => some (.error e)
      | .ok key =>
        match p.lookup? key with
        | none =>
          if p.lenient then p |>.resolveFrom value text (p.nextOpening? text past) visiting
          else some (.error (.unresolved (ofBytes key) (ofBytes value)))
        | some found =>
          match ← (p |>.resolveFrom found found (p.nextOpening? found 0) (body :: visiting)) with
          | .error e => some (.error e)
          | .ok replacement =>
            match Bytes.replace? text start past replacement with
            | none => some (.error .split)
            | some text' =>
              -- the replacement is resolved already and is not searched again
              p |>.resolveFrom value text' (p.nextOpening? text' (start + replacement.length)) visiting
partial_fixpoint

/-- Resolves a text while the bodies `visiting` are being resolved. -/
def resolveBytes (p : Placeholders) (value : Bytes) (visiting : List Bytes) : Option (Except Fault Bytes) :=
  p.resolveFrom value value (p.nextOpening? value 0) visiting

/-- Resolves the placeholders of a text. A resolution that does not come to an end gives no answer;
`endlessPlaceholder` stands for it. -/
def resolve (p : Placeholders) (value : String) : Except Failure String :=
  match p.resolveBytes (toBytes value) [] with
  | some (.ok text) => .ok (ofBytes text)
  | some (.error (.circular body)) => .error (.configuration (.circularPlaceholder body) none)
  | some (.error (.unresolved key v)) => .error (.configuration (.unresolvedPlaceholder key v) none)
  | some (.error .split) => .error (.configuration (.splitPlaceholder value) none)
  | none => .error (.configuration (.endlessPlaceholder value) none)

/-- The placeholders as a resolver of names, which reports the names it leaves unresolved. -/
def resolver (p : Placeholders) : Resolver := fun value =>
  match p.resolve value with
  | .ok text => ⟨some text, []⟩
  | .error f => ⟨none, [.nameUnresolved value f]⟩

/-- The placeholders with one more property. -/
def withProperty (p : Placeholders) (key value : String) : Placeholders :=
  { p with properties := p.properties.insert key value }

end Singletons.Placeholders
