import Singletons.Level
import Singletons.Text.Quoted

/-
Events that registry operations report. An event records what happened; its level, message and
fields are derived. `Logged` pairs the result of an operation with the events on the way to it.
-/

namespace Singletons

/-- Something worth reporting. -/
inductive Event where
  | aliasCleared (a : Name)
  | aliasOverridden (a previous name : Name)
  | aliasRegistered (a name : Name)
  | resolvedAliasOverridden (a previous name : Name)
  | nameUnresolved (value : String) (failure : Failure)
  | dependencyRegistered (name dependent : Name)
  | cachedReturned (name : Name)
  | earlyExposed (name : Name)
  | creating (name : Name)
  | appearedMeanwhile (name : Name)
  | disposalRegistered (name : Name)
  | destroyingAll (count : Nat)
  | destroyingDependents (name : Name) (dependents : List Name)
  | disposed (name : Name)
  | disposalFailed (name : Name) (failure : Failure)
  | cleared
  | producedReturned (name : Name)
  | rawReturned (name : Name)
  | shuttingDown
  | alreadyShutDown
  | initialized (aliases : Nat)
  | settingsLoaded (path : String)
  | settingsMissing (path : String)

namespace Event

def level : Event → Level
  | dependencyRegistered .. | cachedReturned _ | earlyExposed _ | producedReturned _ => .trace
  | aliasCleared _ | aliasRegistered .. | nameUnresolved .. | creating _ | appearedMeanwhile _
  | disposalRegistered _ | destroyingDependents .. | disposed _ | cleared | rawReturned _
  | alreadyShutDown => .debug
  | destroyingAll _ | shuttingDown | initialized _ | settingsLoaded _ => .info
  | aliasOverridden .. | resolvedAliasOverridden .. | settingsMissing _ => .warn
  | disposalFailed .. => .error

def message : Event → String
  | aliasCleared _ => "Alias cleared by self-registration"
  | aliasOverridden .. => "Overriding alias registration"
  | aliasRegistered .. => "Alias registered"
  | resolvedAliasOverridden .. => "Overriding alias during placeholder resolution"
  | nameUnresolved .. => "Name left unresolved"
  | dependencyRegistered .. => "Dependency registered"
  | cachedReturned _ => "Returning cached singleton instance"
  | earlyExposed _ => "Exposing early reference to singleton in creation"
  | creating _ => "Creating shared instance of singleton"
  | appearedMeanwhile _ => "Singleton appeared during failed creation, using it"
  | disposalRegistered _ => "Disposal handle registered"
  | destroyingAll _ => "Destroying singletons"
  | destroyingDependents .. => "Destroying dependents first"
  | disposed _ => "Singleton disposed"
  | disposalFailed .. => "Disposal handle failed"
  | cleared => "Singleton registry cleared"
  | producedReturned _ => "Returning cached produced object"
  | rawReturned _ => "Returning produced object before post-processing"
  | shuttingDown => "Shutting down singleton registry"
  | alreadyShutDown => "Registry already shut down"
  | initialized _ => "Singleton registry initialized"
  | settingsLoaded p => s!"Configuration loaded from {p}"
  | settingsMissing p => s!"Configuration file not found: {p}"

/-- The details of an event, by field. -/
def fields : Event → List (String × String)
  | aliasCleared a => [("alias", a)]
  | aliasOverridden a p n | resolvedAliasOverridden a p n => [("alias", a), ("previous", p), ("name", n)]
  | aliasRegistered a n => [("alias", a), ("name", n)]
  | nameUnresolved v f => [("value", v), ("error", f.message)]
  | dependencyRegistered n d => [("name", n), ("dependent", d)]
  | cachedReturned n | earlyExposed n | creating n | appearedMeanwhile n | disposalRegistered n
  | disposed n | producedReturned n | rawReturned n => [("name", n)]
  | destroyingAll c => [("count", toString c)]
  | destroyingDependents n ds => [("name", n), ("dependents", Text.Quoted.encodeList ds)]
  | disposalFailed n f => [("name", n), ("error", f.message)]
  | initialized c => [("aliases", toString c)]
  | cleared | shuttingDown | alreadyShutDown | settingsLoaded _ | settingsMissing _ => []

end Event

/-- A result and the events reported on the way to it, in order. -/
structure Logged (α : Type) where
  value : α
  events : List Event := []

end Singletons
