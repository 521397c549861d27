import Singletons.Settings.Basic

/-
Building a registry from settings: the declared aliases are registered in order, then the
placeholders in all of them are resolved in one pass, which happens as a whole or not at all.
-/

namespace Singletons.Settings

/-- Registers declared aliases one after the other. -/
def declareAll : List Declaration → Aliases → Logged (Except Failure Aliases)
  | [], m => ⟨.ok m, []⟩
  | d :: rest, m =>
    let one := m.register d.name d.byname
    match one.value with
    | .error f => ⟨.error f, one.events⟩
    | .ok m =>
      let others := declareAll rest m
      ⟨others.value, one.events ++ others.events⟩

/-- The registry that settings describe. -/
def bootstrap (s : Settings) : Logged (Except Failure Registry) :=
  match s.validate with
  | .error f => ⟨.error f, []⟩
  | .ok () =>
    let r := Registry.ofPolicy s.policy
    let declared := declareAll s.aliases r.aliases
    match declared.value with
    | .error f => ⟨.error f, declared.events⟩
    | .ok m =>
      let resolved : Logged (Except Failure Aliases) :=
        if s.aliases.isEmpty then ⟨.ok m, []⟩ else m.resolve s.placeholders.resolver
      match resolved.value with
      | .error f => ⟨.error f, declared.events ++ resolved.events⟩
      | .ok aliases =>
        ⟨.ok { r with aliases }, declared.events ++ resolved.events ++ [.initialized aliases.size]⟩

end Singletons.Settings
