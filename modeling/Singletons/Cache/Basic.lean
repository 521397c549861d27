import Singletons.Cache.Slot
import Singletons.Table
import Singletons.Roster
import Singletons.Event

/-
The cache of singletons: the slots, the completed names in the order of completion, the objects
that producers yielded, and the bookkeeping of creations. The functions here are the single steps
from which requests are built; none of them runs a callback.
-/

namespace Singletons

structure Cache where
  /-- What is held for each name. -/
  slots : Table Slot := .empty
  /-- The names whose creation is not watched for reentry. -/
  exempt : Roster := .empty
  /-- The complete names, first completed first. -/
  completed : Roster := .empty
  /-- Whether the destruction of all singletons has begun. -/
  inDestruction : Bool := false
  /-- The failures suppressed since the outermost creation under way began. -/
  suppressed : Option (List Failure) := none
  /-- The object that the producer of a name yielded. -/
  produced : Table Value := .empty
  /-- The names for whose object the hook has been started and has not returned. -/
  inHook : Roster := .empty

namespace Cache

/-- The cache without names. -/
def empty : Cache := {}

/-! ## Queries -/

/-- The value of a complete name. The outer option tells whether the name is complete. -/
def complete? (c : Cache) (n : Name) : Option Value :=
  match c.slots.get? n with
  | some (.complete v) => some v
  | _ => none

/-- Whether a name is complete. -/
def contains (c : Cache) (n : Name) : Bool := (c.complete? n).isSome

/-- The state of a name. -/
def lifecycle (c : Cache) (n : Name) : Lifecycle :=
  match c.slots.get? n with
  | some s => s.lifecycle
  | none => .absent

/-- Whether the creation of a name is under way. -/
def isInCreation (c : Cache) (n : Name) : Bool := (c.lifecycle n).isInCreation

/-- The complete names, first completed first. -/
def names (c : Cache) : List Name := c.completed.names

/-- The number of complete names. -/
def count (c : Cache) : Nat := c.completed.size

/-- Whether a name is exempt from the watch for reentry. -/
def isExempt (c : Cache) (n : Name) : Bool := c.exempt.contains n

/-- The short description of a cache. -/
def summary (c : Cache) : String :=
  s!"SingletonCache \x7b slots: {c.slots.size}, exempt: {c.exempt.size} \x7d"

/-! ## Changes -/

def setSlot (c : Cache) (n : Name) (s : Slot) : Cache := { c with slots := c.slots.insert n s }

/-- Gives a name its value. -/
def complete (c : Cache) (n : Name) (v : Value) : Cache :=
  { c with slots := c.slots.insert n (.complete v), completed := c.completed.add n }

/-- Registers an instance made elsewhere, unless the name is complete. -/
def register (c : Cache) (n : Name) (v : Value) : Except Failure Cache :=
  if c.contains n then .error (.conflict (.bound n)) else .ok (c.complete n v)

/-- Registers a producer of early references. -/
def registerEarly (c : Cache) (n : Name) (producer : Callback) : Cache :=
  c.setSlot n (.withProducer producer (c.slots.get? n))

/-- Removes every trace of a name, the object of its producer included. -/
def remove (c : Cache) (n : Name) : Cache :=
  { c with slots := c.slots.erase n, completed := c.completed.remove n, produced := c.produced.erase n }

/-- Empties the cache; with `reset`, creations are accepted again. -/
def clear (c : Cache) (reset : Bool) : Cache :=
  { c with
    slots := .empty
    completed := .empty
    produced := .empty
    inHook := .empty
    inDestruction := c.inDestruction && !reset }

/-- Exempts a name from the watch for reentry, or lifts the exemption. -/
def setExempt (c : Cache) (n : Name) (exempt : Bool) : Cache :=
  { c with exempt := if exempt then c.exempt.add n else c.exempt.remove n }

/-- Records a failure that the creation under way suppressed, and tells whether there is one. -/
def suppress (c : Cache) (f : Failure) : Bool × Cache :=
  match c.suppressed with
  | some fs => (true, { c with suppressed := some (fs ++ [f]) })
  | none => (false, c)

def setInDestruction (c : Cache) (b : Bool) : Cache := { c with inDestruction := b }

/-! ## Creations -/

/-- Marks a name as being created. A name marked already is requested by its own creation. -/
def mark (c : Cache) (n : Name) : Except Failure Cache :=
  match c.slots.get? n with
  | none => .ok (c.setSlot n (.inCreation .unavailable))
  | some (.early producer) => .ok (c.setSlot n (.inCreation (.pending producer)))
  | some (.inCreation _) => .error (.currentlyInCreation n .requested)
  | some (.complete _) => .error (.conflict (.complete n))

/-- A creation that has begun: whether its name was marked, and whether it is the outermost one,
which collects the suppressed failures. -/
structure Window where
  name : Name
  marked : Bool
  outermost : Bool
deriving DecidableEq

/-- Begins the creation of a name. An exempt name is not marked. -/
def openWindow (c : Cache) (n : Name) : Except Failure (Window × Cache) :=
  let marked := !c.isExempt n
  match if marked then c.mark n else .ok c with
  | .error f => .error f
  | .ok c' =>
    match c'.suppressed with
    | none => .ok (⟨n, marked, true⟩, { c' with suppressed := some [] })
    | some _ => .ok (⟨n, marked, false⟩, c')

/-- Ends a creation with a value. -/
def closeWith (c : Cache) (w : Window) (v : Value) : Cache :=
  let done := c.complete w.name v
  if w.outermost then { done with suppressed := none } else done

/-- The failures that a creation has collected. -/
def collected (c : Cache) (w : Window) : List Failure :=
  if w.outermost then c.suppressed.getD [] else []

/-- Ends a creation without a value: its name is no longer marked. The early producer that survives
has yet to be put back by `restore`. -/
def abandon (c : Cache) (w : Window) : Cache × Option Callback :=
  let freed := if w.outermost then { c with suppressed := none } else c
  if w.marked then
    match freed.slots.get? w.name with
    | some (.inCreation e) =>
      ({ freed with slots := freed.slots.erase w.name }, (Slot.inCreation e).survivor)
    | _ => (freed, none)
  else (freed, none)

/-- Puts an early producer back that a creation left behind. -/
def restore (c : Cache) (n : Name) (producer : Callback) : Cache := c.setSlot n (.early producer)

/-- Hands out `v`, which an early producer of `n` yielded, and keeps it for later requests. If
another reference was exposed meanwhile, that one counts; if `n` is no longer in creation, nothing is
kept. -/
def expose (c : Cache) (n : Name) (v : Value) : Logged Value × Cache :=
  match c.slots.get? n with
  | some (.inCreation (.pending _)) => (⟨v, [.earlyExposed n]⟩, c.setSlot n (.inCreation (.exposed v)))
  | some (.inCreation (.exposed w)) => (⟨w, []⟩, c)
  | _ => (⟨v, [.earlyExposed n]⟩, c)

/-! ## Produced objects -/

/-- The object kept for the producer of a name. -/
def produced? (c : Cache) (n : Name) : Option Value := c.produced.get? n

/-- Keeps an object for the producer of a name, as long as the name is complete. -/
def keep (c : Cache) (n : Name) (v : Value) : Cache :=
  if c.contains n then { c with produced := c.produced.insert n v } else c

/-- Whether the hook may not be started for a name: it is in creation, or the hook is under way. -/
def hookBarred (c : Cache) (n : Name) : Bool := c.isInCreation n || c.inHook.contains n

def beginHook (c : Cache) (n : Name) : Cache := { c with inHook := c.inHook.add n }

def endHook (c : Cache) (n : Name) : Cache := { c with inHook := c.inHook.remove n }

end Cache

end Singletons
