import Singletons.Proofs.Alias.Acyclic

/-
Any calls that register, remove or resolve aliases, one after the other from the empty map. A call that
fails leaves the map as it was, so all maps on the way are `Reached`, and their links are acyclic. The way
from a name along the links therefore ends, and `canonical` is where it ends.
-/

namespace Singletons

namespace Aliases

/-- A call that may change the links. -/
inductive Call where
  | register (name a : Name)
  | remove (a : Name)
  | resolve (resolver : Resolver)

/-- What a call comes to. -/
def Call.outcome (m : Aliases) : Call → Except Failure Aliases
  | register name a => (m.register name a).value
  | remove a => m.remove a
  | resolve resolver => (m.resolve resolver).value

/-- The alias map after a call, which is the one before it if the call fails. -/
def after (m : Aliases) (c : Call) : Aliases :=
  match c.outcome m with
  | .ok m' => m'
  | .error _ => m

variable {m m' : Aliases}

theorem Reached.of_outcome {c : Call} (h : Reached m) (hc : c.outcome m = .ok m') : Reached m' := by
  cases c with
  | register name a => exact h.register name a hc
  | remove a => exact h.remove a hc
  | resolve resolver => exact h.resolve resolver hc

theorem Reached.after (h : Reached m) (c : Call) : Reached (m.after c) := by
  unfold Aliases.after
  split
  · rename_i m' hc
    exact h.of_outcome hc
  · exact h

theorem Reached.afterAll (h : Reached m) (calls : List Call) : Reached (calls.foldl Aliases.after m) := by
  induction calls generalizing m with
  | nil => exact h
  | cons c calls ih => exact ih (h.after c)

/-- Whatever calls led to an alias map, no links lead from a name back to it. So following the links from
any name comes to an end: at its canonical name, which is no alias and its own canonical name. -/
theorem acyclic_of_calls (overriding : Bool) (calls : List Call) :
    let m : Aliases := calls.foldl Aliases.after { overriding }
    (∀ n, ¬ Relation.TransGen (Links m.entries) n n) ∧
      ∀ n, (∃ steps, m.target? (m.follow steps n) = none ∧ m.canonical n = m.follow steps n) ∧
        m.isAlias (m.canonical n) = false ∧ m.canonical (m.canonical n) = m.canonical n := by
  intro m
  have hacyclic : Acyclic m.entries := ((Reached.empty overriding).afterAll calls).acyclic
  refine ⟨hacyclic, fun n => ?_⟩
  have hend : m.target? (m.canonical n) = none := hacyclic.target?_canonical n
  refine ⟨⟨m.size, hend, rfl⟩, ?_, hacyclic.canonical_canonical n⟩
  unfold isAlias
  rw [hend]
  rfl

end Aliases

end Singletons
