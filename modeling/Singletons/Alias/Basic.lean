import Singletons.Directory
import Singletons.Relation
import Singletons.Event

/-
Aliases: names that stand for other names. An alias may stand for a name that is an alias itself;
following the links from a name leads to its canonical name, the first that is no alias. Every
change checks that no link closes a circle, so the way to the canonical name never comes back.
-/

namespace Singletons

/-- The links of the aliases, each from an alias to the name it stands for, and whether an alias may
be redirected to another name. -/
structure Aliases where
  entries : Directory Name := .empty
  overriding : Bool := true
deriving DecidableEq

namespace Aliases

/-- The name that an alias stands for directly. -/
def target? (m : Aliases) (a : Name) : Option Name := m.entries.get? a

/-- Whether a name is an alias. -/
def isAlias (m : Aliases) (n : Name) : Bool := (m.target? n).isSome

/-- The number of aliases. -/
def size (m : Aliases) : Nat := m.entries.size

/-- The name that at most `steps` links lead to from `n`. -/
def follow (m : Aliases) : (steps : Nat) → (n : Name) → Name
  | 0, n => n
  | steps + 1, n =>
    match m.target? n with
    | none => n
    | some next => m.follow steps next

/-- The canonical form of a name: where the links from it end. A way without circles has no more
links than there are aliases. -/
def canonical (m : Aliases) (n : Name) : Name := m.follow m.size n

/-- The links read backwards: from each name to the aliases that stand for it directly. -/
def inverse (entries : Directory Name) : Relation :=
  ⟨entries.rows.map fun r => (r.2, r.1), by
    unfold List.Nodup
    rw [List.pairwise_map]
    refine entries.sorted.imp ?_
    rintro ⟨a, n⟩ ⟨b, k⟩ h e
    simp only [Prod.mk.injEq] at e
    obtain ⟨-, rfl⟩ := e
    exact String.lt_irrefl _ h⟩

/-- Whether links lead from `a` to `n`. The search goes backwards, from `n` to the aliases of `n`,
then to theirs. -/
def linked (entries : Directory Name) (a n : Name) : Bool := (inverse entries).leadsTo id n a

/-- Whether `a` stands for `n`, directly or through other aliases. -/
def standsFor (m : Aliases) (a n : Name) : Bool := linked m.entries a n

/-- Every alias that stands for `n`, directly or not; an alias comes before the aliases of it. -/
def aliasesOf (m : Aliases) (n : Name) : List Name := (inverse m.entries).below n

/-- Adds the link from the alias `a` to `name`, in place of an earlier one, unless `name` leads to `a`
already. -/
def link (entries : Directory Name) (name a : Name) : Except Failure (Directory Name) :=
  if linked entries name a then .error (.circularAlias name a)
  else .ok (entries.insert a name)

/-- Makes the alias `a` stand for `name`. Neither may be blank. A name registered as its own alias loses
the link it had; a link that is there already stays; a different link is replaced if redirecting is
allowed and is in conflict otherwise. -/
def register (m : Aliases) (name a : Name) : Logged (Except Failure Aliases) :=
  if Text.isBlank name then ⟨.error (.configuration (.blank "name") none), []⟩
  else if Text.isBlank a then ⟨.error (.configuration (.blank "alias") none), []⟩
  else if a = name then
    if m.isAlias a then ⟨.ok { m with entries := m.entries.erase a }, [.aliasCleared a]⟩
    else ⟨.ok m, []⟩
  else
    let write (before : List Event) : Logged (Except Failure Aliases) :=
      match link m.entries name a with
      | .error f => ⟨.error f, before⟩
      | .ok entries => ⟨.ok { m with entries }, before ++ [.aliasRegistered a name]⟩
    match m.target? a with
    | none => write []
    | some registered =>
      if registered = name then ⟨.ok m, []⟩
      else if m.overriding then write [.aliasOverridden a registered name]
      else ⟨.error (.conflict (.aliasTaken a name registered)), []⟩

/-- Drops the link of an alias. -/
def remove (m : Aliases) (a : Name) : Except Failure Aliases :=
  if m.isAlias a then .ok { m with entries := m.entries.erase a }
  else .error (.notFound (.unknownAlias a))

end Aliases

end Singletons
