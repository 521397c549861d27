import Singletons.Alias.Resolve
import Singletons.Cache.Basic
import Singletons.Graph

/-
The registry: aliases, cache, graph of dependencies, disposal callbacks and the hook on produced
objects. Every name that an operation is given is taken in its canonical form before it reaches the
cache or the graph.
-/

namespace Singletons

/-- The policies of a registry, fixed when it is made. -/
structure Policy where
  /-- Whether an alias may be redirected to another name. -/
  overrideAliases : Bool := true
  /-- Whether creations are accepted again once all singletons are destroyed. -/
  reopen : Bool := false
deriving DecidableEq

structure Registry where
  aliases : Aliases := {}
  cache : Cache := {}
  graph : Graph := {}
  /-- The callbacks that dispose of names, in the order in which names first got one. -/
  disposals : Table Callback := .empty
  /-- The hook on produced objects; without one they pass unchanged. -/
  hook : Option Callback := none
  /-- Whether creations are accepted again once all singletons are destroyed. -/
  reopen : Bool := false
  /-- Whether the registry was shut down. -/
  shutDown : Bool := false

namespace Registry

/-- The registry without names that follows a policy. -/
def ofPolicy (p : Policy) : Registry where
  aliases := { overriding := p.overrideAliases }
  reopen := p.reopen

/-- The canonical form of a name. -/
def canonical (r : Registry) (n : Name) : Name := r.aliases.canonical n

/-- Whether `candidate` depends on `name`, directly or through others. -/
def isDependent (r : Registry) (name candidate : Name) : Bool :=
  r.graph.isDependent name (r.canonical candidate) r.canonical

/-- The object kept for the producer that a name, with or without marks, leads to. -/
def produced? (r : Registry) (n : Name) : Option Value := r.cache.produced? (r.canonical n.unmarked)

/-- Whether a disposal callback is registered for a name. -/
def hasDisposal (r : Registry) (n : Name) : Bool := r.disposals.contains (r.canonical n)

/-- The short description of a registry. -/
def summary (r : Registry) : String :=
  s!"SingletonRegistry \x7b aliases: {r.aliases.size}, singletons: {r.cache.count}, disposables: {r.disposals.size}, graph: {r.graph.summary} \x7d"

/-- The short description of a registry together with whether it was shut down. -/
def contextSummary (r : Registry) : String :=
  s!"RegistryContext \x7b registry: {r.summary}, shut_down: {r.shutDown} \x7d"

end Registry

end Singletons
