import Singletons.Relation
import Singletons.Event

/-
The graph of dependencies. It records which names depend on which, in both directions, and which
names are part of which. A part is also something its whole depends on, so that wholes and
dependents can be destroyed first. Cycles are allowed.
-/

namespace Singletons

/-- Dependencies and containment between canonical names. -/
structure Graph where
  /-- From a name to the names that depend on it. -/
  dependents : Relation := .empty
  /-- From a name to the names that it depends on. -/
  dependencies : Relation := .empty
  /-- From a whole to its parts. -/
  parts : Relation := .empty
deriving DecidableEq

namespace Graph

/-- The graph without edges. -/
def empty : Graph := {}

/-- Records that `dependent` depends on `name`. -/
def addDependency (g : Graph) (name dependent : Name) : Logged Graph :=
  if g.dependents.holds name dependent then ⟨g, []⟩
  else
    ⟨{ g with
        dependents := g.dependents.add name dependent
        dependencies := g.dependencies.add dependent name },
      [.dependencyRegistered name dependent]⟩

/-- Records that `part` is part of `whole`; the whole then depends on the part. -/
def addPart (g : Graph) (whole part : Name) : Logged Graph :=
  if g.parts.holds whole part then ⟨g, []⟩
  else { g with parts := g.parts.add whole part }.addDependency part whole

/-- Whether `candidate` depends on `name`, directly or through others, where every name met is taken
in its `canonical` form. -/
def isDependent (g : Graph) (name candidate : Name) (canonical : Name → Name) : Bool :=
  g.dependents.leadsTo canonical name candidate

/-- The names that depend on `n`, first recorded first. -/
def dependentsOf (g : Graph) (n : Name) : List Name := g.dependents.images n

/-- The names that `n` depends on, first recorded first. -/
def dependenciesOf (g : Graph) (n : Name) : List Name := g.dependencies.images n

/-- The parts of `n`, first recorded first. -/
def partsOf (g : Graph) (n : Name) : List Name := g.parts.images n

/-- Whether a name depends on `n`. -/
def hasDependents (g : Graph) (n : Name) : Bool := !(g.dependentsOf n).isEmpty

/-- Takes the dependents of `n` out of the graph. Their own record of depending on `n` stays. -/
def takeDependents (g : Graph) (n : Name) : List Name × Graph :=
  (g.dependentsOf n, { g with dependents := g.dependents.dropFrom n })

/-- Takes the parts of `n` out of the graph. -/
def takeParts (g : Graph) (n : Name) : List Name × Graph :=
  (g.partsOf n, { g with parts := g.parts.dropFrom n })

/-- Forgets `n` as a dependent, as a part and as something that depends on others. -/
def purge (g : Graph) (n : Name) : Graph where
  parts := g.parts.dropInto n
  dependents := g.dependents.dropInto n
  dependencies := g.dependencies.dropFrom n

/-- The number of edges, each direction of a dependency counted by itself. -/
def edgeCount (g : Graph) : Nat := g.parts.size + g.dependents.size + g.dependencies.size

/-- Whether nothing is recorded. -/
def isEmpty (g : Graph) : Bool := g.edgeCount == 0

/-- The short description of a graph. -/
def summary (g : Graph) : String := s!"DependencyGraph \x7b edges: {g.edgeCount} \x7d"

end Graph

end Singletons
