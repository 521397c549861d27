import Singletons.Proofs.Teardown.Crossing
import Singletons.Proofs.Graph.Agreement

/-
The destruction of a name in any registry that requests lead to: it ends, it takes away the names that the
edges lead to from the canonical form, and it leaves everything else as it was.

By itself a destruction leaves the dependencies of others on a destroyed name in place. In a registry that
requests led to there are none: what depends on a name is among its dependents, and so is destroyed as well.
-/

namespace Singletons

namespace Table

variable {α : Type}

/-- If some rows and a table without some names make the table up, they are the rows of these names. -/
theorem perm_rows_of_without {t : Table α} {ns : List Name} {rows : List (Name × α)}
    (hp : (rows ++ (t.without ns).rows).Perm t.rows) : rows.Perm (t.rows.filter fun row => row.1 ∈ ns) := by
  have hrest : (t.without ns).rows = t.rows.filter fun row => !decide (row.1 ∈ ns) :=
    List.filter_congr fun row _ => by simp
  rw [hrest] at hp
  exact (List.perm_append_right_iff _).1 (hp.trans (List.filter_append_perm _ _).symm)

end Table

/-- A registry in which whatever depends on a destroyed name was destroyed as well is left without the names
that were destroyed. -/
theorem Stripped.eq_without {ns : List Name} {r r' : Registry} (hs : Stripped ns r r')
    (hall : ∀ a b, (b, a) ∈ r.graph.dependencies.pairs → a ∈ ns → b ∈ ns) : r' = r.without ns := by
  have hdependencies : r'.graph.dependencies = r.graph.dependencies.without ns := by
    rw [hs.dependencies]
    refine Relation.drop_congr fun ⟨b, a⟩ hp => ?_
    rw [Bool.eq_iff_iff]
    simp only [decide_eq_true_eq, Bool.or_eq_true]
    exact ⟨.inl, fun h => h.elim id (hall a b hp)⟩
  have hgraph : r'.graph = r.graph.without ns := by
    show Graph.mk r'.graph.dependents r'.graph.dependencies r'.graph.parts = _
    rw [hs.dependents, hdependencies, hs.parts]
    rfl
  rw [hs.others, hs.cache, hgraph, hs.disposals]
  rfl

namespace Machine

variable {ω : Type} {h : Host ω} {m : Machine ω} {id : ThreadId} {fs : List (Frame ω)} {past : List (Moment ω)}

/-- The destruction of a name ends, if the alias map stays as it is, disposal callbacks settle, and no other
thread is amid a teardown. The thread that asked for it takes its steps up to the reply, calls the disposal
callback of each name reached that has one once, and no other; and the registry is left without the names
reached, and otherwise as it was. -/
theorem Run.destroy_without_reached {r : Registry} {w : ω} {programs : List (Program ω)} {x : Name}
    (halias : r.aliases.Reached) (hgraph : r.graph = .empty) (hr : Run h (ofPrograms r w programs) past m)
    (hfixed : ∀ e ∈ ⟨m, id⟩ :: past, e.shared.registry.aliases = r.aliases)
    (hsettle : ∀ e ∈ ⟨m, id⟩ :: past, ∀ row ∈ e.shared.registry.disposals.rows, (h.program row.2 .plain).Settles)
    (hidle : ∀ (j : ThreadId) (t : Thread ω), m.threads[j]? = some t → j ≠ id → t.pending = [])
    (hadmits : m.shared.mutex.admits id = true) (ht : m.threads[id]? = some ⟨.point (.start (.destroy x)), fs⟩) :
    ∃ names : List Name,
      (∀ n, n ∈ names ↔ m.shared.registry.graph.Reaches (m.shared.registry.canonical x) n) ∧
      ∃ seg m', Run h m seg m' ∧ (∀ e ∈ seg, e.mover = id) ∧
        m'.threads = m.threads.set id ⟨.reply (.ok .done), fs⟩ ∧
        m'.shared.registry = m.shared.registry.without names ∧
        (disposals seg).Perm (m.shared.registry.disposals.rows.filter fun row => row.1 ∈ names) := by
  obtain ⟨hcalm, hagreed⟩ := hr.agreed halias hgraph (fun e he => hfixed e (List.mem_cons_of_mem _ he))
    fun e he => hsettle e (List.mem_cons_of_mem _ he)
  have hcanon : ∀ a b, m.shared.registry.graph.Leads a b → m.shared.registry.canonical b = b := fun a b =>
    hagreed.canonical_of_leads (hfixed _ (List.mem_cons_self ..))
  have hnone : ∀ (j : ThreadId) (t : Thread ω), m.threads[j]? = some t → t.pending = [] := by
    intro j t hj
    by_cases hji : j = id
    · subst hji
      cases ht.symm.trans hj
      exact (hcalm _ (List.mem_of_getElem? ht)).pending_start
    · exact hidle j t hj hji
  obtain ⟨log, r', hd⟩ := Destroys.total m.shared.registry [x]
  obtain ⟨names, hnames, hstripped, hperm⟩ := hd.closed hcanon
  have hcalled : ∀ row ∈ log, (h.program row.2 .plain).Settles := fun row hrow =>
    hsettle _ (List.mem_cons_self ..) row (hperm.mem_iff.1 (List.mem_append.2 (.inl hrow)))
  have hperforms : Thread.Performs h id fs m.shared ⟨.point (.start (.destroy x)), fs⟩ log _ _ :=
    hd.performs_destroy (fun row hrow => (hcalled row hrow).quiet) hadmits
  obtain ⟨s', ⟨hregistry, -⟩, ha⟩ := hperforms.alone hcalled
  obtain ⟨seg, m', hrun, hm, -, rfl, hlog⟩ := run_to_reply ht ha
  have hreached : ∀ n, n ∈ names ↔ m.shared.registry.graph.Reaches (m.shared.registry.canonical x) n := by
    intro n
    rw [hnames]
    exact ⟨fun ⟨k, hk, hkn⟩ => List.mem_singleton.1 hk ▸ hkn, fun hxn => ⟨x, List.mem_singleton_self x, hxn⟩⟩
  refine ⟨names, hreached, seg, _, hrun, hm, rfl, ?_, ?_⟩
  · refine hregistry.trans (hstripped.eq_without fun a b hba ha => ?_)
    exact (hreached b).2 (((hreached a).1 ha).tail (.inl (hagreed.dependents_of_idle hnone hba)))
  · rw [hlog]
    rw [hstripped.disposals] at hperm
    exact Table.perm_rows_of_without hperm

/-- A caller that records `a` and `b` as dependents of each other and `c` as a part of `b`, registers the
disposal of `a`, `c` and `d`, and asks for the destruction of `a`. -/
def cyclicCaller : Program Unit :=
  [.change (.addDependency "a" "b"), .change (.addDependency "b" "a"), .change (.addPart "b" "c"),
    .change (.registerDisposal "a" 0), .change (.registerDisposal "c" 1), .change (.registerDisposal "d" 2),
    .destroy "a"].foldr (fun request rest => .request request fun _ => rest) (.finish (.ok .done))

/-- The run of the caller up to the destruction. -/
def cyclicRun : List (Moment Unit) × Machine Unit :=
  (ofPrograms {} () [cyclicCaller]).drive Graph.returningHost (List.replicate 19 0) []

theorem destroy_without_reached_cyclicRun :
    (∀ e ∈ ⟨cyclicRun.2, 0⟩ :: cyclicRun.1, e.shared.registry.aliases = {}) ∧
      cyclicRun.2.threads = [⟨.point (.start (.destroy "a")), [.caller fun _ => .finish (.ok .done)]⟩] ∧
      ∃ seg m', Run Graph.returningHost cyclicRun.2 seg m' ∧ (disposals seg).Perm [("a", 0), ("c", 1)] := by
  have hrun : Run Graph.returningHost (ofPrograms {} () [cyclicCaller]) cyclicRun.1 cyclicRun.2 := Run.drive _ .start
  have hfixed : ∀ e ∈ ⟨cyclicRun.2, 0⟩ :: cyclicRun.1, e.shared.registry.aliases = {} := by decide
  have hthreads : cyclicRun.2.threads =
      [⟨.point (.start (.destroy "a")), [.caller fun _ => .finish (.ok .done)]⟩] := rfl
  have hidle : ∀ (j : ThreadId) (t : Thread Unit), cyclicRun.2.threads[j]? = some t → j ≠ 0 → t.pending = [] := by
    intro j t hj hne
    obtain ⟨k, rfl⟩ := Nat.exists_eq_succ_of_ne_zero hne
    rw [hthreads] at hj
    cases hj
  obtain ⟨names, hnames, seg, m', hr, -, -, -, hlog⟩ := Run.destroy_without_reached (.empty true) rfl hrun hfixed
    (fun _ _ _ _ => .ok _) hidle rfl (by rw [hthreads]; rfl)
  refine ⟨hfixed, hthreads, seg, m', hr, hlog.trans (.of_eq ?_)⟩
  -- the edges lead from `a` to `b` and on to its part `c`, and nowhere else
  have hedges : ∀ p ∈ cyclicRun.2.shared.registry.graph.dependents.pairs ++
      cyclicRun.2.shared.registry.graph.parts.pairs, p.2 ∈ ["a", "b", "c"] := by decide
  have ha : "a" ∈ names := (hnames _).2 .refl
  have hab : cyclicRun.2.shared.registry.graph.Leads "a" "b" := .inl (by decide)
  have hbc : cyclicRun.2.shared.registry.graph.Leads "b" "c" := .inr (by decide)
  have hc : "c" ∈ names := (hnames _).2 (.tail (.single hab) hbc)
  have hd : "d" ∉ names := by
    intro hd
    have hclosed : ∀ k ∈ ["a", "b", "c"], ∀ l, cyclicRun.2.shared.registry.graph.Leads k l → l ∈ ["a", "b", "c"] :=
      fun k _ l hkl => hedges (k, l) (List.mem_append.2 hkl)
    exact absurd (((hnames _).1 hd).mem_of_closed hclosed (by decide)) (by decide)
  rw [show cyclicRun.2.shared.registry.disposals.rows = [("a", 0), ("c", 1), ("d", 2)] by decide]
  simp [ha, hc, hd]

end Machine

end Singletons
