import Singletons.Registry.Query

/-
Changes: requests that change the registry in one step and run no callback. A change that fails
leaves the registry as it was.
-/

namespace Singletons

inductive Change where
  | registerAlias (name a : Name)
  | removeAlias (a : Name)
  | resolveAliases (resolver : Resolver)
  | registerSingleton (n : Name) (v : Value)
  | registerEarly (n : Name) (producer : Callback)
  | removeSingleton (n : Name)
  | setExempt (n : Name) (exempt : Bool)
  | suppress (f : Failure)
  /-- Removes a name, taken as it is, from the cache. -/
  | evict (key : Name)
  | clear (reset : Bool)
  | closeForCreation
  | openForCreation
  | addDependency (name dependent : Name)
  | addPart (whole part : Name)
  | registerDisposal (n : Name) (dispose : Callback)
  | setHook (hook : Option Callback)

namespace Change

/-- Whether a change writes what the singleton mutex guards. -/
def isGuarded : Change → Bool
  | registerSingleton .. | registerEarly .. | removeSingleton _ | suppress _ | evict _ | clear _
  | closeForCreation | openForCreation => true
  | _ => false

/-- The outcome of a change: an answer or a failure, the registry after it, and what is reported. -/
structure Effect where
  outcome : Except Failure Answer
  registry : Registry
  events : List Event := []

def apply (r : Registry) : Change → Effect
  | registerAlias n a =>
    let w := r.aliases.register n a
    match w.value with
    | .ok aliases => ⟨.ok .done, { r with aliases }, w.events⟩
    | .error f => ⟨.error f, r, w.events⟩
  | removeAlias a =>
    match r.aliases.remove a with
    | .ok aliases => ⟨.ok .done, { r with aliases }, []⟩
    | .error f => ⟨.error f, r, []⟩
  | resolveAliases resolver =>
    let w := r.aliases.resolve resolver
    match w.value with
    | .ok aliases => ⟨.ok .done, { r with aliases }, w.events⟩
    | .error f => ⟨.error f, r, w.events⟩
  | registerSingleton n v =>
    match r.cache.register (r.canonical n) v with
    | .ok cache => ⟨.ok .done, { r with cache }, []⟩
    | .error f => ⟨.error f, r, []⟩
  | registerEarly n p => ⟨.ok .done, { r with cache := r.cache.registerEarly (r.canonical n) p }, []⟩
  | removeSingleton n => ⟨.ok .done, { r with cache := r.cache.remove (r.canonical n) }, []⟩
  | setExempt n e => ⟨.ok .done, { r with cache := r.cache.setExempt (r.canonical n) e }, []⟩
  | suppress f =>
    let (kept, cache) := r.cache.suppress f
    ⟨.ok (.flag kept), { r with cache }, []⟩
  | evict k => ⟨.ok .done, { r with cache := r.cache.remove k }, []⟩
  | clear reset => ⟨.ok .done, { r with cache := r.cache.clear reset }, []⟩
  | closeForCreation => ⟨.ok .done, { r with cache := r.cache.setInDestruction true }, []⟩
  | openForCreation => ⟨.ok .done, { r with cache := r.cache.setInDestruction false }, []⟩
  | addDependency n d =>
    let w := r.graph.addDependency (r.canonical n) (r.canonical d)
    ⟨.ok .done, { r with graph := w.value }, w.events⟩
  | addPart n p =>
    let w := r.graph.addPart (r.canonical n) (r.canonical p)
    ⟨.ok .done, { r with graph := w.value }, w.events⟩
  | registerDisposal n d =>
    ⟨.ok .done, { r with disposals := r.disposals.insert (r.canonical n) d },
      [.disposalRegistered (r.canonical n)]⟩
  | setHook hook => ⟨.ok .done, { r with hook }, []⟩

end Change

end Singletons
