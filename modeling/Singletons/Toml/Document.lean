import Singletons.Toml.Statement

/-
TOML documents as a whole: the tree that the statements of a text build, header by header.
-/

namespace Singletons.Toml

/-- A document under construction: what is built, and the path that the last header opened. -/
structure Draft where
  node : Node := .root
  path : List String := []

namespace Draft

/-- The draft after one more statement, unless that statement goes against an earlier one. -/
def add? (d : Draft) : Statement → Option Draft
  | .header key =>
    match key.reverse with
    | [] => none
    | last :: before =>
      (Node.update false (Node.openTable last) before.reverse d.node).map fun node => ⟨node, key⟩
  | .seriesHeader key =>
    match key.reverse with
    | [] => none
    | last :: before =>
      (Node.update false (Node.openInSeries last) before.reverse d.node).map fun node => ⟨node, key⟩
  | .pair key v => (Node.update false (Node.writeAt key v) d.path d.node).map fun node => { d with node }

end Draft

/-- The value of a text, if it is a document. A byte order mark may come first. -/
def parse? (s : String) : Option Value :=
  let cs :=
    match s.toList with
    | '\ufeff' :: rest => rest
    | cs => cs
  (statements? (cs.length + 1) cs).bind fun statements =>
    (statements.foldlM Draft.add? {}).map fun d => d.node.toValue

end Singletons.Toml
