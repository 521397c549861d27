import Singletons.Proofs.Relation.Search
import Singletons.Registry.Basic

/-
What depends on a name through others. The graph answers by a search that expands each name once, whatever the
cycles and whatever the function that brings names to their canonical form; the answer is the existence of a way
along the recorded dependents, spelled out name by name.
-/

namespace Singletons

namespace Relation

variable {α : Type}

/-- Some number of steps in a row is a sequence that starts and ends at the right places. -/
theorem reflTransGen_iff_exists_seq {step : α → α → Prop} {a b : α} : Relation.ReflTransGen step a b ↔
    ∃ (len : Nat) (k : Nat → α), k 0 = a ∧ (∀ i < len, step (k i) (k (i + 1))) ∧ k len = b := by
  constructor
  · intro h
    induction h using Relation.ReflTransGen.head_induction_on with
    | refl => exact ⟨0, fun _ => b, rfl, by simp, rfl⟩
    | @head a c hfirst _ ih =>
      obtain ⟨len, k, rfl, hsteps, hend⟩ := ih
      refine ⟨len + 1, fun i => i.casesOn a k, rfl, fun i hi => ?_, hend⟩
      cases i with
      | zero => exact hfirst
      | succ i => exact hsteps i (Nat.lt_of_succ_lt_succ hi)
  · rintro ⟨len, k, rfl, hsteps, rfl⟩
    induction len with
    | zero => exact .refl
    | succ len ih => exact .tail (ih fun i hi => hsteps i (Nat.lt_succ_of_lt hi)) (hsteps len (Nat.lt_succ_self len))

end Relation

/-- The steps of the search for what depends on a name go from a name to the canonical form of a recorded
dependent. -/
theorem Graph.next_dependents_iff (g : Graph) (canonical : Name → Name) (a b : Name) :
    Relation.Next g.dependents.pairs canonical a b ↔ ∃ d ∈ g.dependentsOf a, b = canonical d := by
  simp only [Relation.Next, Graph.dependentsOf, Relation.mem_images, eq_comm]

/-- The search for what depends on a name, which comes to an end on every graph, finds exactly the candidates
that a sequence of names leads to: it starts at the canonical form of the name, goes on from a name to the
canonical form of a recorded dependent of it, and has the candidate among the recorded dependents of its last
name. -/
theorem Graph.isDependent_iff (g : Graph) (name candidate : Name) (canonical : Name → Name) :
    g.isDependent name candidate canonical = true ↔
      ∃ (len : Nat) (k : Nat → Name), k 0 = canonical name ∧
        (∀ i < len, ∃ d ∈ g.dependentsOf (k i), k (i + 1) = canonical d) ∧
        candidate ∈ g.dependentsOf (k len) := by
  have hmem (n : Name) : (n, candidate) ∈ g.dependents.pairs ↔ candidate ∈ g.dependentsOf n :=
    (Relation.mem_images ..).symm
  simp only [Graph.isDependent, Relation.leadsTo_iff, Relation.reflTransGen_iff_exists_seq,
    Graph.next_dependents_iff, hmem]
  constructor
  · rintro ⟨_, ⟨len, k, hstart, hsteps, rfl⟩, hlast⟩
    exact ⟨len, k, hstart, hsteps, hlast⟩
  · rintro ⟨len, k, hstart, hsteps, hlast⟩
    exact ⟨k len, ⟨len, k, hstart, hsteps, rfl⟩, hlast⟩

end Singletons
