import Singletons.Registry.Basic

/-
Teardown: destroying names together with what depends on them. The work is an agenda of tasks.
Destroying a name forgets its value, then destroys its dependents, then disposes of it, then
destroys its parts. Dependents and parts are taken out of the graph as they are put on the agenda,
so a name that is reached twice is disposed of once and a cycle comes to an end.
-/

namespace Singletons

/-- A task of a teardown; the names after `destroy` are canonical. -/
inductive Task where
  /-- Forget the value of a name and all that belongs to it. -/
  | destroy (n : Name)
  /-- Put the dependents of `n` first, then its disposal and its parts. -/
  | dependents (n : Name) (disposal : Option Callback)
  /-- Run the disposal callback of `n`. -/
  | dispose (n : Name) (disposal : Callback)
  /-- Put the parts of `n` first. -/
  | parts (n : Name)
  /-- Drop `n` from the edges that are left. -/
  | purge (n : Name)
  /-- Empty the registry, at the end of the destruction of all names. -/
  | empty
deriving DecidableEq

namespace Task

/-- Whether a task writes what the singleton mutex guards. -/
def isGuarded : Task → Bool
  | destroy _ | empty => true
  | _ => false

/-- What a task comes to: a changed registry with the tasks to do next, or a callback to run. -/
inductive Course where
  | on (r : Registry) (tasks : List Task) (events : List Event)
  | run (n : Name) (disposal : Callback)

def course (r : Registry) : Task → Course
  | destroy n =>
    let c := r.canonical n
    -- the disposal leaves the table now, so that a way back to this name does not run it again
    .on { r with cache := r.cache.remove c, disposals := r.disposals.erase c }
      [.dependents c (r.disposals.get? c)] []
  | dependents n disposal =>
    let (names, graph) := r.graph.takeDependents n
    .on { r with graph }
      (names.map .destroy ++ (disposal.map (.dispose n)).toList ++ [.parts n, .purge n])
      (if names.isEmpty then [] else [.destroyingDependents n names])
  | dispose n disposal => .run n disposal
  | parts n =>
    let (names, graph) := r.graph.takeParts n
    .on { r with graph } (names.map .destroy) []
  | purge n => .on { r with graph := r.graph.purge n } [] []
  | empty =>
    .on { r with graph := .empty, disposals := .empty, cache := r.cache.clear r.reopen } [] [.cleared]

end Task

namespace Registry

/-- The tasks that destroy every name with a disposal callback, last registered first, and then
empty the registry. -/
def agendaOfAll (r : Registry) : List Task := r.disposals.keys.reverse.map .destroy ++ [.empty]

end Registry

end Singletons
