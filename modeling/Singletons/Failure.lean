import Singletons.Name

/-
Failures of registry operations. A failure records its cause; `Failure.message` words it. A failed
creation carries what made it fail and the failures that were suppressed while it was under way.
-/

namespace Singletons

/-- Why a registration conflicts with an earlier one. -/
inductive Conflict where
  /-- The alias stands for another name and may not be redirected. -/
  | aliasTaken (a name registered : Name)
  /-- The alias that another one resolved to stands for another name. -/
  | resolvedAliasTaken (resolved a name registered : Name)
  /-- An object is bound to the name. -/
  | bound (name : Name)
  /-- The creation of the name had ended when its marking was asked for. -/
  | complete (name : Name)
  /-- A conflict in a caller's words. -/
  | said (text : String)
deriving DecidableEq

def Conflict.message : Conflict → String
  | aliasTaken a n r =>
    s!"Cannot register alias '{a}' for name '{n}': It is already registered for name '{r}'"
  | resolvedAliasTaken v o n r =>
    s!"Cannot register resolved alias '{v}' (original: '{o}') for name '{n}': It is already registered for name '{r}'"
  | bound n => s!"Could not register object under name '{n}': there is already an object bound"
  | complete n => s!"Singleton '{n}' is already complete"
  | said t => t

/-- What was asked for and is not there. -/
inductive Missing where
  | unknownAlias (a : Name)
  | producer (name : Name)
  /-- A thing in a caller's words. -/
  | said (text : String)
deriving DecidableEq

def Missing.message : Missing → String
  | unknownAlias a => s!"alias '{a}'"
  | producer n => s!"producer '{n}'"
  | said t => t

/-- Why a request meets a name that is still being created. -/
inductive Reentry where
  /-- The name was requested again by its own creation. -/
  | requested
  /-- The producer of the name yielded nothing before its own creation ended. -/
  | yieldedNothing
  /-- A reason in a caller's words. -/
  | said (text : String)
deriving DecidableEq

def Reentry.message : Reentry → String
  | requested =>
    "Requested singleton is currently in creation: Is there an unresolvable circular reference?"
  | yieldedNothing => "Producer which is currently in creation returned no value"
  | said t => t

/-- The part of a creation that failed. -/
inductive Breakdown where
  /-- The callback that makes the instance. -/
  | callback
  /-- The instance is asked to produce an object and is no producer. -/
  | notAProducer
  /-- The producer. -/
  | producer
  /-- The hook on an object that is not kept. -/
  | hook
  /-- The hook on the object that is kept for a producer. -/
  | singletonHook
  /-- A failure in a caller's words. -/
  | said (text : String)
deriving DecidableEq

def Breakdown.message : Breakdown → String
  | callback => "Production callback failed"
  | notAProducer => "Singleton instance is not an object producer"
  | producer => "Producer threw error on object creation"
  | hook => "Post-processing of producer's object failed"
  | singletonHook => "Post-processing of producer's singleton object failed"
  | said t => t

/-- What is wrong with a setting, or with a text that settings give a meaning to. -/
inductive Misconfiguration where
  /-- The name or alias to register is blank; `what` says which. -/
  | blank (what : String)
  | unknownLevel (text : String)
  | noLogFiles
  | emptyDelimiter
  | emptySeparator
  | blankAlias (a name : Name)
  /-- A placeholder whose body is being resolved already. -/
  | circularPlaceholder (body : String)
  /-- A placeholder without a property and without a default. -/
  | unresolvedPlaceholder (key value : String)
  /-- Placeholders whose resolution does not come to an end. -/
  | endlessPlaceholder (value : String)
  /-- A delimiter that was found inside a character. -/
  | splitPlaceholder (value : String)
  /-- The sources of settings do not combine into settings. -/
  | unreadable
  /-- A fault in a caller's words. -/
  | said (text : String)
deriving DecidableEq

def Misconfiguration.message : Misconfiguration → String
  | blank what => s!"'{what}' must not be empty"
  | unknownLevel t => s!"Invalid log level: {t}. Use trace, debug, info, warn, or error"
  | noLogFiles => "Maximum log files cannot be 0 when file output is enabled"
  | emptyDelimiter => "Placeholder prefix and suffix cannot be empty"
  | emptySeparator => "Placeholder value separator cannot be empty; omit it to disable defaults"
  | blankAlias a n => s!"Alias declaration '{a}' -> '{n}' has an empty side"
  | circularPlaceholder b => s!"Circular placeholder reference '{b}' in property definitions"
  | unresolvedPlaceholder k v => s!"Could not resolve placeholder '{k}' in value \"{v}\""
  | endlessPlaceholder v => s!"Placeholders in value \"{v}\" do not come to an end"
  | splitPlaceholder v => s!"Placeholder delimiters split a character in value \"{v}\""
  | unreadable => "Failed to extract configuration"
  | said t => t

mutual

/-- A failure of a registry operation. -/
inductive Failure where
  /-- A registration that an earlier one stands in the way of. -/
  | conflict (why : Conflict)
  /-- The alias would lead back to itself. -/
  | circularAlias (name a : Name)
  | notFound (what : Missing)
  /-- A request for a name whose creation is under way on the same stack. -/
  | currentlyInCreation (name : Name) (why : Reentry)
  /-- A creation asked for while all singletons are being destroyed. -/
  | creationNotAllowed (name : Name)
  | creationFailed (name : Name) (what : Breakdown) (source : Option Source) (related : List Failure)
  | configuration (what : Misconfiguration) (source : Option Source)
  | io (text : String) (source : Option Source)
  | infrastructure (text : String) (source : Option Source)
  /-- A failure of no other kind, known by its source. -/
  | generic (source : Source)

/-- What a failure stems from: another failure, or something foreign that is known by its text. -/
inductive Source where
  | failure (f : Failure)
  | foreign (text : String)

end

instance : Inhabited Source := ⟨.foreign ""⟩

instance : Inhabited Failure := ⟨.generic (.foreign "")⟩

namespace Failure

/-- The note on how many failures are related to a failed creation. -/
def relatedNote : Nat → String
  | 0 => ""
  | 1 => " (1 related cause)"
  | n => s!" ({n} related causes)"

mutual

/-- The text of a failure. -/
def message : Failure → String
  | conflict why => s!"Conflict: {why.message}"
  | circularAlias n a =>
    s!"Cannot register alias '{a}' for name '{n}': Circular reference - '{n}' is a direct or indirect alias for '{a}' already"
  | notFound what => s!"Not found: {what.message}"
  | currentlyInCreation n why => s!"Singleton '{n}' is currently in creation: {why.message}"
  | creationNotAllowed n =>
    s!"Singleton '{n}' creation not allowed while singletons of this registry are in destruction (do not request a singleton from a disposal handle)"
  | creationFailed n what _ related =>
    s!"Error creating singleton '{n}': {what.message}{relatedNote related.length}"
  | configuration what _ => s!"Configuration error: {what.message}"
  | io t _ => s!"I/O error: {t}"
  | infrastructure t _ => s!"Infrastructure error: {t}"
  | generic source => s!"Generic error: {sourceMessage source}"

/-- The text of a source. -/
def sourceMessage : Source → String
  | .failure f => message f
  | .foreign t => t

end

/-- A failure in a caller's words alone. -/
def ofText (text : String) : Failure := generic (.foreign text)

/-- The failure to find an instance of one type under a name. -/
def wrongType (n : Name) (type : String) : Failure := ofText s!"Singleton '{n}' is not of type {type}"

/-- What a failure stems from. -/
def source? : Failure → Option Source
  | creationFailed _ _ s _ | configuration _ s | io _ s | infrastructure _ s => s
  | generic s => some s
  | _ => none

/-- The failures related to a failed creation; no other failure has any. -/
def related : Failure → List Failure
  | creationFailed _ _ _ r => r
  | _ => []

def isCurrentlyInCreation : Failure → Bool
  | currentlyInCreation .. => true
  | _ => false

def isCreationNotAllowed : Failure → Bool
  | creationNotAllowed .. => true
  | _ => false

def isCreationFailed : Failure → Bool
  | creationFailed .. => true
  | _ => false

def isConflict : Failure → Bool
  | conflict .. => true
  | _ => false

/-- Adds related failures to a failed creation and leaves every other failure as it is. -/
def withRelated (more : List Failure) : Failure → Failure
  | creationFailed n what s r => creationFailed n what s (r ++ more)
  | f => f

/-- A failure of the callback for `n`, as the creation of `n` reports it: failures that speak of
creation pass, all others become the source of a failed creation. -/
def ofCreation (n : Name) (f : Failure) : Failure :=
  if f.isCreationFailed || f.isCurrentlyInCreation || f.isCreationNotAllowed then f
  else creationFailed n .callback (some (.failure f)) []

/-- A failure of the producer of `n`: a name met in its own creation passes, all else becomes the
source of a failed creation. -/
def ofProducer (n : Name) (f : Failure) : Failure :=
  if f.isCurrentlyInCreation then f else creationFailed n .producer (some (.failure f)) []

theorem related_withRelated_of_isCreationFailed {f : Failure} (h : f.isCreationFailed = true)
    (more : List Failure) : (f.withRelated more).related = f.related ++ more := by
  cases f <;> simp_all [isCreationFailed, withRelated, related]

end Failure

end Singletons
