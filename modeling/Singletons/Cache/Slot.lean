import Singletons.Instance

/-
Slots: what the cache holds for one name. A name starts absent; it may have an early producer
before its creation starts, is in creation while the callback for it runs, and is complete
afterwards. While it is in creation an early reference may be available to those who ask for it.
-/

namespace Singletons

/-- A value of a singleton: an instance, or deliberately none. -/
abbrev Value := Option Instance

/-- What can be observed of the life of a name. -/
inductive Lifecycle where
  | absent
  | earlyReferenceAvailable
  | inCreation
  | complete
deriving DecidableEq

namespace Lifecycle

def label : Lifecycle → String
  | absent => "absent"
  | earlyReferenceAvailable => "early-reference-available"
  | inCreation => "in-creation"
  | complete => "complete"

def isComplete : Lifecycle → Bool
  | complete => true
  | _ => false

def isInCreation : Lifecycle → Bool
  | inCreation => true
  | _ => false

/-- The state of a name that nothing is known about. -/
def initial : Lifecycle := absent

/-- All states, in the order of a life. -/
def all : List Lifecycle := [absent, earlyReferenceAvailable, inCreation, complete]

end Lifecycle

/-- The early reference to a name in creation. -/
inductive Early where
  /-- There is nothing to hand out. -/
  | unavailable
  /-- A producer of the reference has not been asked yet. -/
  | pending (producer : Callback)
  /-- The reference that was handed out. -/
  | exposed (value : Value)
deriving DecidableEq

/-- What the cache holds for a name. -/
inductive Slot where
  /-- An early producer, ahead of any creation. -/
  | early (producer : Callback)
  | inCreation (reference : Early)
  | complete (value : Value)
deriving DecidableEq

namespace Slot

def lifecycle : Slot → Lifecycle
  | early _ => .earlyReferenceAvailable
  | inCreation _ => .inCreation
  | complete _ => .complete

/-- The slot with a producer of early references registered: it replaces what could be handed out
before and is of no use to a complete name. -/
def withProducer (producer : Callback) : Option Slot → Slot
  | none | some (early _) => early producer
  | some (inCreation _) => inCreation (.pending producer)
  | some (complete v) => complete v

/-- The early producer that outlives a creation without result: one that was never asked. -/
def survivor : Slot → Option Callback
  | inCreation (.pending producer) => some producer
  | _ => none

end Slot

end Singletons
