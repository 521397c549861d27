import Singletons.Registry.Basic

/-
Queries: requests that read the registry and change nothing. Each is answered in one step.
-/

namespace Singletons

/-- The answer to a request. -/
inductive Answer where
  | done
  | flag (b : Bool)
  | number (n : Nat)
  | text (s : String)
  | names (l : List Name)
  | state (l : Lifecycle)
  /-- The result of a look-up: nothing cached, or a value. -/
  | found (v : Option Value)
  /-- A value that was made or found. -/
  | value (v : Value)
deriving DecidableEq

/-- The value that an answer carries. -/
def Answer.toValue : Answer → Value
  | found (some v) | value v => v
  | _ => none

inductive Query where
  | isAlias (n : Name)
  /-- Whether the alias `a` stands for `name`. -/
  | standsFor (name a : Name)
  | aliasesOf (n : Name)
  | canonical (n : Name)
  | aliasCount
  | allowsOverriding
  /-- The value of a complete name, which is taken as it is. -/
  | complete (key : Name)
  | contains (n : Name)
  | state (n : Name)
  | isInCreation (n : Name)
  | names
  | count
  /-- Whether a name, taken as it is, is exempt from the watch for reentry. -/
  | isExempt (key : Name)
  | isInDestruction
  | produced (n : Name)
  | isDependent (name candidate : Name)
  | dependentsOf (n : Name)
  | dependenciesOf (n : Name)
  | hasDependents (n : Name)
  /-- The parts of a name, which is taken as it is. -/
  | partsOf (key : Name)
  | edgeCount
  | hasDisposal (n : Name)
  | isShutDown
  | summary
  | cacheSummary
  | contextSummary
deriving DecidableEq

namespace Query

/-- Whether a query reads what the singleton mutex guards. Slots, aliases, edges and disposal
callbacks can be read without it. -/
def isGuarded : Query → Bool
  | names | count | isInDestruction | produced _ | summary | contextSummary => true
  | _ => false

def answer (r : Registry) : Query → Answer
  | isAlias n => .flag (r.aliases.isAlias n)
  | standsFor n a => .flag (r.aliases.standsFor a n)
  | aliasesOf n => .names (r.aliases.aliasesOf n)
  | canonical n => .text (r.canonical n)
  | aliasCount => .number r.aliases.size
  | allowsOverriding => .flag r.aliases.overriding
  | complete k => .found (r.cache.complete? k)
  | contains n => .flag (r.cache.contains (r.canonical n))
  | state n => .state (r.cache.lifecycle (r.canonical n))
  | isInCreation n => .flag (r.cache.isInCreation (r.canonical n))
  | names => .names r.cache.names
  | count => .number r.cache.count
  | isExempt k => .flag (r.cache.isExempt k)
  | isInDestruction => .flag r.cache.inDestruction
  | produced n => .found (r.produced? n)
  | isDependent n c => .flag (r.isDependent n c)
  | dependentsOf n => .names (r.graph.dependentsOf (r.canonical n))
  | dependenciesOf n => .names (r.graph.dependenciesOf (r.canonical n))
  | hasDependents n => .flag (r.graph.hasDependents (r.canonical n))
  | partsOf k => .names (r.graph.partsOf k)
  | edgeCount => .number r.graph.edgeCount
  | hasDisposal n => .flag (r.hasDisposal n)
  | isShutDown => .flag r.shutDown
  | summary => .text r.summary
  | cacheSummary => .text r.cache.summary
  | contextSummary => .text r.contextSummary

end Query

end Singletons
