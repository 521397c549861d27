import Singletons.Failure

/-
Context for foreign failures. A source gains the words of the one who met it: the new failure keeps
the source and, except for a failed creation, repeats its text after the context.
-/

namespace Singletons.Source

/-- The words of a context followed by those of the source. -/
def inContext (s : Source) (context : String) : String := s!"{context}: {Failure.sourceMessage s}"

/-- A failure of the surroundings, met in a context. -/
def asInfrastructure (s : Source) (context : String) : Failure :=
  .infrastructure (s.inContext context) (some s)

/-- A failure of input or output, met in a context. -/
def asIo (s : Source) (context : String) : Failure := .io (s.inContext context) (some s)

/-- A fault of the settings, met in a context. -/
def asConfiguration (s : Source) (context : String) : Failure :=
  .configuration (.said (s.inContext context)) (some s)

/-- A failure while the singleton `n` is created; the context alone is the text. -/
def asCreation (s : Source) (n : Name) (context : String) : Failure :=
  .creationFailed n (.said context) (some s) []

end Singletons.Source
