import Singletons.Proofs.Teardown.Crossing
import Singletons.Proofs.Machine.Aliases

/-
Which disposal callbacks the destruction of all names calls: those of the names that are no aliases, each
once, whatever the graph. A callback is looked up under the canonical form of the name that it was
registered for, so it is out of reach once that name has become an alias.
-/

namespace Singletons

namespace Destroys

variable {r r' : Registry} {ns : List Name} {log : List (Name × Callback)}

theorem mem_rows (hd : Destroys r ns log r') {row : Name × Callback} (hrow : row ∈ r'.disposals.rows) :
    row ∈ r.disposals.rows :=
  hd.perm.mem_iff.1 (List.mem_append.2 (.inr hrow))

/-- Only the callbacks of canonical names are called. -/
theorem canonical_of_mem (hd : Destroys r ns log r') (hcanon : ∀ n, r.canonical (r.canonical n) = r.canonical n)
    {row : Name × Callback} (hrow : row ∈ log) : r.canonical row.1 = row.1 := by
  induction hd with
  | nil r => cases hrow
  | @cons r r₁ r₂ r₃ n c ns log₁ log₂ log₃ canonical hd₁ hd₂ hd₃ ih₁ ih₂ ih₃ =>
    have h₁ : ∀ k, (r₁.withoutParts c).canonical k = r.canonical k := hd₁.canonical_eq
    have h₂ : ∀ k, (r₂.purge c).canonical k = r.canonical k := fun k => (hd₂.canonical_eq k).trans (h₁ k)
    simp only [List.mem_append] at hrow
    rcases hrow with ((hrow | hrow) | hrow) | hrow
    · exact ih₁ hcanon hrow
    · obtain ⟨d, -, rfl⟩ := Option.map_eq_some_iff.1 (Option.mem_toList.1 hrow)
      rw [← canonical]
      exact hcanon n
    · exact (h₁ row.1).symm.trans (ih₂ (fun k => by rw [h₁, h₁, hcanon]) hrow)
    · exact (h₂ row.1).symm.trans (ih₃ (fun k => by rw [h₂, h₂, hcanon]) hrow)

/-- The canonical forms of the names destroyed have no callbacks left. -/
theorem ne_canonical_of_mem (hd : Destroys r ns log r') {n : Name} (hn : n ∈ ns) {row : Name × Callback}
    (hrow : row ∈ r'.disposals.rows) : row.1 ≠ r.canonical n := by
  induction hd with
  | nil r => cases hn
  | @cons r r₁ r₂ r₃ k c ns log₁ log₂ log₃ canonical hd₁ hd₂ hd₃ ih₁ ih₂ ih₃ =>
    rcases List.mem_cons.1 hn with rfl | hn
    · have hleft : row ∈ (r.disposals.erase c).rows := hd₁.mem_rows (hd₂.mem_rows (hd₃.mem_rows hrow))
      rw [canonical]
      simpa using (List.mem_filter.1 hleft).2
    · have hsame : (r₂.purge c).canonical n = r.canonical n := (hd₂.canonical_eq n).trans (hd₁.canonical_eq n)
      rw [← hsame]
      exact ih₃ hn hrow

/-- If all names with a callback are destroyed, the callbacks of canonical names are called, and no others. -/
theorem perm_of_keys (hd : Destroys r ns log r') (hcanon : ∀ n, r.canonical (r.canonical n) = r.canonical n)
    (hall : ∀ n ∈ r.disposals.keys, n ∈ ns) :
    log.Perm (r.disposals.rows.filter fun row => r.canonical row.1 = row.1) := by
  have hlog : (log.filter fun row => r.canonical row.1 = row.1) = log :=
    List.filter_eq_self.2 fun row hrow => by simpa using hd.canonical_of_mem hcanon hrow
  have hleft : (r'.disposals.rows.filter fun row => r.canonical row.1 = row.1) = [] := by
    refine List.filter_eq_nil_iff.2 fun row hrow hself => ?_
    have hkey : row.1 ∈ r.disposals.keys := List.mem_map.2 ⟨row, hd.mem_rows hrow, rfl⟩
    exact hd.ne_canonical_of_mem (hall _ hkey) hrow (by simpa using Eq.symm (of_decide_eq_true hself))
  have hperm := hd.perm.filter fun row => r.canonical row.1 = row.1
  rwa [List.filter_append, hlog, hleft, List.append_nil] at hperm

end Destroys

namespace Aliases

theorem Acyclic.canonical_eq_self_iff {m : Aliases} (h : Acyclic m.entries) (n : Name) :
    m.canonical n = n ↔ m.isAlias n = false := by
  unfold isAlias
  rw [Option.isSome_eq_false_iff, Option.isNone_iff_eq_none]
  constructor
  · intro hn
    rw [← hn]
    exact h.target?_canonical n
  · exact fun hn => follow_of_target?_eq_none hn _

end Aliases

namespace Machine

variable {ω : Type} {h : Host ω} {m : Machine ω} {id : ThreadId} {fs : List (Frame ω)} {past : List (Moment ω)}

/-- The destruction of all names comes to a reply in any state that requests lead to, if the disposal
callbacks issue no request. It calls the callbacks of the names that are no aliases by then, each once, and
no others; only after a callback that panics the rest is dropped. -/
theorem Run.destroyAll_disposes {r : Registry} {w : ω} {programs : List (Program ω)} (halias : r.aliases.Reached)
    (hr : Run h (ofPrograms r w programs) past m) (hadmits : m.shared.mutex.admits id = true)
    (hquiet : ∀ row ∈ m.shared.registry.disposals.rows, (h.program row.2 .plain).Quiet)
    (ht : m.threads[id]? = some ⟨.point (.start .destroyAll), fs⟩) :
    ∃ log, log.Perm (m.shared.registry.disposals.rows.filter fun row => !m.shared.registry.aliases.isAlias row.1) ∧
      ∃ seg m' reply, Run h m seg m' ∧ (∀ e ∈ seg, e.mover = id) ∧
        m'.threads[id]? = some ⟨.reply reply, fs⟩ ∧ disposals seg <+: log ∧
        ((∀ row ∈ log, (h.program row.2 .plain).Settles) → reply = .ok .done ∧ disposals seg = log) := by
  have hacyclic := (hr.aliases_reached halias).acyclic
  let closed : Registry := { m.shared.registry with cache := m.shared.registry.cache.setInDestruction true }
  obtain ⟨log, r', hd⟩ := Destroys.total closed closed.disposals.keys.reverse
  have hlog := hd.perm_of_keys hacyclic.canonical_canonical fun n hn => List.mem_reverse.2 hn
  have hrows : (closed.disposals.rows.filter fun row => closed.canonical row.1 = row.1) =
      m.shared.registry.disposals.rows.filter fun row => !m.shared.registry.aliases.isAlias row.1 :=
    List.filter_congr fun row _ => by
      rw [Bool.eq_iff_iff, decide_eq_true_eq, Bool.not_eq_true']
      exact hacyclic.canonical_eq_self_iff row.1
  refine ⟨log, hrows ▸ hlog, ?_⟩
  have hperforms : Thread.Performs h id fs m.shared ⟨.point (.start .destroyAll), fs⟩ log _ _ :=
    hd.performs_destroyAll rfl
      (fun row hrow => hquiet row (List.mem_filter.1 (hlog.mem_iff.1 hrow)).1) hadmits
  by_cases hsettle : ∀ row ∈ log, (h.program row.2 .plain).Settles
  · obtain ⟨s', -, halone⟩ := hperforms.alone hsettle
    obtain ⟨seg, m', hrun, hm, hreply, -, hcalled⟩ := run_to_reply ht halone
    exact ⟨seg, m', _, hrun, hm, hreply, hcalled ▸ List.prefix_rfl, fun _ => ⟨rfl, hcalled⟩⟩
  · obtain ⟨seg, m', reply, hrun, hm, hreply, hpre⟩ := run_of_performs ht hperforms
    exact ⟨seg, m', reply, hrun, hm, hreply, hpre, fun hall => absurd hall hsettle⟩

/-- A caller that registers the disposal of `a` and of `c`, makes `a` an alias of `b`, and asks for the
destruction of all names. -/
def aliasingCaller : Program Unit :=
  [.change (.registerDisposal "a" 0), .change (.registerDisposal "c" 1), .change (.registerAlias "b" "a"),
    .destroyAll].foldr (fun request rest => .request request fun _ => rest) (.finish (.ok .done))

/-- The run of the caller up to the registration of the alias. -/
def aliasingRun : List (Moment Unit) × Machine Unit :=
  (ofPrograms {} () [aliasingCaller]).drive Graph.returningHost (List.replicate 7 0) []

/-- The state after the registration of the alias. -/
def aliased : Machine Unit where
  shared :=
    { aliasingRun.2.shared with
      registry := { aliasingRun.2.shared.registry with aliases := { entries := Directory.empty.insert "a" "b" } } }
  threads := [⟨.reply (.ok .done), [.caller fun _ => .request .destroyAll fun _ => .finish (.ok .done)]⟩]

/-- The search for a circle does not evaluate by itself, so the step that registers the alias is proved. -/
theorem step_aliasingRun : aliasingRun.2.step Graph.returningHost 0 = some aliased := by
  refine step_eq_some_iff.2 ⟨_, _, _, rfl, ?_, rfl⟩
  have hregister : aliasingRun.2.shared.registry.aliases.register "b" "a" = _ :=
    Aliases.register_first true (by decide) (by decide) (by decide)
  show Thread.stepStart Graph.returningHost 0 aliasingRun.2.shared _ (.change (.registerAlias "b" "a")) = _
  simp only [Thread.stepStart, Change.isGuarded, Change.apply, hregister, Bool.false_and, Bool.false_eq_true, if_false]
  rfl

/-- The run of the caller up to the destruction. -/
def aliasedRun : List (Moment Unit) × Machine Unit :=
  aliased.drive Graph.returningHost [0, 0] (⟨aliasingRun.2, 0⟩ :: aliasingRun.1)

theorem run_aliasedRun : Run Graph.returningHost (ofPrograms {} () [aliasingCaller]) aliasedRun.1 aliasedRun.2 :=
  .drive _ (.step 0 (.drive _ .start) step_aliasingRun)

theorem destroyAll_disposes_aliasedRun :
    aliasedRun.2.threads = [⟨.point (.start .destroyAll), [.caller fun _ => .finish (.ok .done)]⟩] ∧
      ∃ seg m', Run Graph.returningHost aliasedRun.2 seg m' ∧ (disposals seg).Perm [("c", 1)] := by
  have hsettle : ∀ c o, (Graph.returningHost.program c o).Settles := fun _ _ => .ok _
  have hadmits : aliasedRun.2.shared.mutex.admits 0 = true := rfl
  have ht : aliasedRun.2.threads[0]? =
      some ⟨.point (.start .destroyAll), [.caller fun _ => .finish (.ok .done)]⟩ := rfl
  obtain ⟨log, hlog, seg, m', reply, hr, -, -, -, hall⟩ := Run.destroyAll_disposes (.empty true) run_aliasedRun hadmits
    (fun _ _ => (hsettle _ _).quiet) ht
  obtain ⟨-, hcalled⟩ := hall fun _ _ => hsettle _ _
  refine ⟨rfl, seg, m', hr, ?_⟩
  rw [hcalled]
  exact hlog

/-- The rest of the run, up to the end of the caller. -/
def lossyRun : List (Moment Unit) × Machine Unit :=
  aliasedRun.2.drive Graph.returningHost (List.replicate 20 0) []

/-- The callback of `a` is in the table when the destruction of all names begins, and is never called, as
`a` has become an alias; afterwards the table is empty. -/
theorem disposal_of_alias_lost :
    Run Graph.returningHost (ofPrograms {} () [aliasingCaller]) aliasedRun.1 aliasedRun.2 ∧
      aliasedRun.2.threads = [⟨.point (.start .destroyAll), [.caller fun _ => .finish (.ok .done)]⟩] ∧
      aliasedRun.2.shared.registry.disposals.rows = [("a", 0), ("c", 1)] ∧
      Run Graph.returningHost aliasedRun.2 lossyRun.1 lossyRun.2 ∧ lossyRun.2.isOver = true ∧
      disposals lossyRun.1 = [("c", 1)] ∧ lossyRun.2.shared.registry.disposals.rows = [] :=
  ⟨run_aliasedRun, rfl, by decide, .drive _ .start, by decide, by decide, by decide⟩

end Machine

end Singletons
