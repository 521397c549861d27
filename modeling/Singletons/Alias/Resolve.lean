import Singletons.Alias.Basic

/-
Resolving the aliases with a resolver of names. Every link is resolved on both sides, in the order
of the aliases; a link with a side that does not resolve, or with two sides that become equal, is
dropped. The links resolved so far and those still to come stand in one working table, and the
table replaces the old one only if no link met a conflict or closed a circle.
-/

namespace Singletons

/-- What turns a name into another, or finds that it cannot, with the events it reports. -/
abbrev Resolver := String → Logged (Option String)

namespace Aliases

/-- The working table after the link from `a` to `registered` is replaced by one from
`newAlias` to `newName`. An alias that stays in place is checked while its old link is still there;
one that moves leaves its place first. -/
def relink (overriding : Bool) (working : Directory Name) (a registered newAlias newName : Name) :
    Logged (Except Failure (Directory Name)) :=
  if newAlias = a then
    if registered = newName then ⟨.ok working, []⟩
    else ⟨link working newName a, []⟩
  else
    match working.get? newAlias with
    | none => ⟨link (working.erase a) newName newAlias, []⟩
    | some existing =>
      -- a link that is there already makes this one needless
      if existing = newName then ⟨.ok (working.erase a), []⟩
      else if overriding then
        ⟨link (working.erase a) newName newAlias, [.resolvedAliasOverridden newAlias existing newName]⟩
      else ⟨.error (.conflict (.resolvedAliasTaken newAlias a newName existing)), []⟩

/-- The working table after the link from `a` to `registered` is resolved. -/
def resolveLink (overriding : Bool) (resolve : Resolver) (working : Directory Name)
    (a registered : Name) : Logged (Except Failure (Directory Name)) :=
  let left := resolve a
  let right := resolve registered
  let resolved : Logged (Except Failure (Directory Name)) :=
    match left.value, right.value with
    | some newAlias, some newName =>
      if newAlias = newName then ⟨.ok (working.erase a), []⟩
      else relink overriding working a registered newAlias newName
    | _, _ => ⟨.ok (working.erase a), []⟩
  ⟨resolved.value, left.events ++ right.events ++ resolved.events⟩

/-- The working table after all links of a list are resolved, or the first failure. -/
def resolveLinks (overriding : Bool) (resolve : Resolver) :
    List (Name × Name) → Directory Name → Logged (Except Failure (Directory Name))
  | [], working => ⟨.ok working, []⟩
  | (a, registered) :: rest, working =>
    let one := resolveLink overriding resolve working a registered
    match one.value with
    | .error f => ⟨.error f, one.events⟩
    | .ok working' =>
      let others := resolveLinks overriding resolve rest working'
      ⟨others.value, one.events ++ others.events⟩

/-- Resolves every link with a resolver, or changes nothing. -/
def resolve (m : Aliases) (r : Resolver) : Logged (Except Failure Aliases) :=
  let resolved := resolveLinks m.overriding r m.entries.rows m.entries
  ⟨resolved.value.map fun entries => { m with entries }, resolved.events⟩

end Aliases

end Singletons
