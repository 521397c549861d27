import Singletons.Proofs.Machine.Run
import Singletons.Proofs.Machine.Deed
import Singletons.Proofs.Alias.Acyclic

/-
The aliases along a run. Only a change writes them, and it does so by one of the three calls that keep
them `Reached`; so in every state that requests lead to the links of the aliases are acyclic.
-/

namespace Singletons

variable {ω : Type}

namespace Aliases.Reached

variable {r r' : Registry}

theorem apply (hr : r.aliases.Reached) (c : Change) : (c.apply r).registry.aliases.Reached := by
  cases c with
  | registerAlias name a =>
    simp only [Change.apply]
    split
    · rename_i aliases hdone; exact hr.register name a hdone
    · exact hr
  | removeAlias a =>
    simp only [Change.apply]
    split
    · rename_i aliases hdone; exact hr.remove a hdone
    · exact hr
  | resolveAliases resolver =>
    simp only [Change.apply]
    split
    · rename_i aliases hdone; exact hr.resolve resolver hdone
    · exact hr
  | registerSingleton n v =>
    simp only [Change.apply]
    split <;> exact hr
  | _ => exact hr

theorem of_course {task : Task} {tasks : List Task} {events : List Event} (hr : r.aliases.Reached)
    (hc : task.course r = .on r' tasks events) : r'.aliases.Reached := by
  cases task <;> cases hc <;> exact hr

theorem step {h : Host ω} {id : ThreadId} {s s' : Shared ω} {t t' : Thread ω} (hr : s.registry.aliases.Reached)
    (hs : t.step h id s = some (s', t')) : s'.registry.aliases.Reached := by
  cases Thread.step_deed hs with
  | idle registry before after open_ torn =>
    obtain ⟨b, hb⟩ := registry
    rw [hb]
    exact hr
  | change c fs admitted registry => rw [registry]; exact hr.apply c
  | task task rest tasks events fs admitted course => exact hr.of_course course
  | _ => simp_all only [Shared.Recached]

end Aliases.Reached

namespace Machine

/-- In every state that a run leads to, the aliases are such as calls lead to. -/
theorem Run.aliases_reached {h : Host ω} {r : Registry} {w : ω} {programs : List (Program ω)}
    {past : List (Moment ω)} {m : Machine ω} (halias : r.aliases.Reached)
    (hr : Run h (ofPrograms r w programs) past m) : m.shared.registry.aliases.Reached := by
  refine hr.reachable.invariant (fun m => m.shared.registry.aliases.Reached) halias fun m m' id hm hs => ?_
  obtain ⟨t, s', t', -, hst, rfl⟩ := step_eq_some_iff.1 hs
  exact hm.step hst

end Machine

end Singletons
