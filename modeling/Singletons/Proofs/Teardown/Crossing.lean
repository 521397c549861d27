import Singletons.Proofs.Teardown.Order

/-
Which graphs are torn down in order: those without crossings, and no others. If a name is crossed, the
destruction that begins with it disposes first of the name that it depends on, and so does its request
to the machine.
-/

namespace Singletons

namespace Graph

/-- The edges that a teardown follows once the dependents of `n` were taken out. -/
theorem leads_takeDependents {g : Graph} {n a b : Name} :
    (g.takeDependents n).2.Leads a b ↔ (g.HasDependent a b ∧ a ≠ n) ∨ (a, b) ∈ g.parts.pairs := by
  unfold Leads takeDependents
  rw [Relation.mem_pairs_dropFrom]
  rfl

/-- What a name reaches, one of its dependents reaches without the edges to the dependents of `n`, if `n`
has the name as a dependent: the last such edge begins the way anew. -/
theorem Reaches.of_last {g : Graph} {n x a : Name} (hnx : g.HasDependent n x) (hr : g.Reaches x a) :
    ∃ y, g.HasDependent n y ∧ (g.takeDependents n).2.Reaches y a := by
  induction hr with
  | refl => exact ⟨x, hnx, .refl⟩
  | @tail b c _ hbc ih =>
    obtain ⟨y, hny, hyb⟩ := ih
    rcases hbc with hbc | hbc
    · by_cases hb : b = n
      · subst hb; exact ⟨c, hbc, .refl⟩
      · exact ⟨y, hny, hyb.tail (leads_takeDependents.2 (.inl ⟨hbc, hb⟩))⟩
    · exact ⟨y, hny, hyb.tail (leads_takeDependents.2 (.inr hbc))⟩

end Graph

namespace Destroys

variable {r r' : Registry} {log : List (Name × Callback)} {a b x : Name} {d d' : Callback}

/-- A destruction that begins with a crossed name is out of order. -/
theorem not_inOrder (hd : Destroys r [b] log r') (hcanon : ∀ a b, r.graph.Leads a b → r.canonical b = b)
    (hb : r.canonical b = b) (hba : r.graph.Depends b a) (hbx : r.graph.HasDependent b x)
    (hxa : r.graph.Reaches x a) (hdb : r.disposals.get? b = some d) (hda : (a, d') ∈ r.disposals.rows) :
    ¬ r.graph.InOrder log := by
  intro hlog
  cases hd with
  | @cons _ r₁ r₂ _ _ c _ log₁ log₂ log₃ canonical hd₁ hd₂ hd₃ =>
    rw [hb] at canonical
    subst canonical
    have hself : r.disposalOf b = [(b, d)] := by
      unfold Registry.disposalOf; rw [hdb]; rfl
    rw [hself] at hlog
    have hi : (log₁ ++ [(b, d)] ++ log₂ ++ log₃)[log₁.length]? = some (b, d) := by simp
    by_cases hab : a = b
    · subst hab
      exact Nat.lt_irrefl _ (hlog _ _ a a d d hi hi hba)
    · -- a dependent of `b` leads to `a`, so the callback of `a` is called while `b` waits
      obtain ⟨y, hby, hya⟩ := hxa.of_last hbx
      have hle : ∀ k l, ((r.forget b).withoutDependents b).graph.Leads k l → r.graph.Leads k l := fun _ _ =>
        leads_of_withoutDependents
      obtain ⟨gone, hgone, hs, hperm⟩ := hd₁.closed fun k l hkl => hcanon k l (hle k l hkl)
      have ha : a ∈ gone := by
        refine (hgone a).2 ⟨y, (Relation.mem_images ..).2 hby, ?_⟩
        have halias : ((r.forget b).withoutDependents b).canonical y = y := hcanon b y (.inl hby)
        rw [halias]
        exact hya
      have hrow : (a, d') ∈ ((r.forget b).withoutDependents b).disposals.rows := by
        refine List.mem_filter.2 ⟨hda, ?_⟩
        simpa using hab
      have hcalled : (a, d') ∈ log₁ := by
        rcases List.mem_append.1 (hperm.mem_iff.2 hrow) with h | h
        · exact h
        · rw [hs.disposals] at h
          have := (List.mem_filter.1 h).2
          simp only [ha, not_true_eq_false, decide_false, Bool.false_eq_true] at this
      obtain ⟨j, hj⟩ := List.mem_iff_getElem?.1 hcalled
      have hjlt : j < log₁.length := (List.getElem?_eq_some_iff.1 hj).1
      have hj' : (log₁ ++ [(b, d)] ++ log₂ ++ log₃)[j]? = some (a, d') := by
        rw [List.append_assoc, List.append_assoc, List.getElem?_append_left hjlt, hj]
      have := hlog _ _ b a d d' hi hj' hba
      omega

end Destroys

namespace Graph

/-- Every name of a graph is in canonical form. -/
def IsCanonical (g : Graph) (aliases : Aliases) : Prop :=
  ∀ p ∈ g.dependents.pairs ++ g.parts.pairs, aliases.canonical p.1 = p.1 ∧ aliases.canonical p.2 = p.2

instance (g : Graph) (aliases : Aliases) : Decidable (g.IsCanonical aliases) :=
  inferInstanceAs (Decidable (∀ p ∈ _, _))

theorem IsCanonical.of_leads {g : Graph} {aliases : Aliases} (hg : g.IsCanonical aliases) {a b : Name}
    (hab : g.Leads a b) : aliases.canonical a = a ∧ aliases.canonical b = b :=
  hg (a, b) (List.mem_append.2 hab)

theorem InOrder.of_prefix {g : Graph} {log log' : List (Name × Callback)} (hlog : g.InOrder log)
    (hpre : log' <+: log) : g.InOrder log' := by
  obtain ⟨more, rfl⟩ := hpre
  intro i j b a d d' hi hj hba
  have hilt := (List.getElem?_eq_some_iff.1 hi).1
  have hjlt := (List.getElem?_eq_some_iff.1 hj).1
  exact hlog i j b a d d' (by rw [List.getElem?_append_left hilt, hi])
    (by rw [List.getElem?_append_left hjlt, hj]) hba

/-- Whether every teardown of the graph comes in order: whoever asks for the destruction of a name or of
all names, whatever disposal callbacks are registered, as long as they issue no request, and whatever waits
for the reply. -/
def TornDownInOrder (g : Graph) (aliases : Aliases) : Prop :=
  ∀ (ω : Type) (h : Host ω) (m : Machine ω) (id : ThreadId) (request : Request) (fs : List (Frame ω)),
    (request = .destroyAll ∨ ∃ x, request = .destroy x) → m.shared.registry.graph = g →
    m.shared.registry.aliases = aliases → m.shared.mutex.admits id = true →
    (∀ row ∈ m.shared.registry.disposals.rows, (h.program row.2 .plain).Quiet) →
    m.threads[id]? = some ⟨.point (.start request), fs⟩ →
    ∃ seg m' reply, Machine.Run h m seg m' ∧ (∀ e ∈ seg, e.mover = id) ∧
      m'.threads[id]? = some ⟨.reply reply, fs⟩ ∧ g.InOrder (disposals seg)

end Graph

namespace Machine

variable {ω : Type} {h : Host ω} {m : Machine ω} {id : ThreadId} {fs : List (Frame ω)}

/-- The destruction that a request asks for, and the run that performs it. -/
theorem exists_destroys {request : Request} (hrequest : request = .destroyAll ∨ ∃ x, request = .destroy x)
    (hcanon : ∀ a b, m.shared.registry.graph.Leads a b → m.shared.registry.canonical b = b)
    (hadmits : m.shared.mutex.admits id = true)
    (hquiet : ∀ row ∈ m.shared.registry.disposals.rows, (h.program row.2 .plain).Quiet)
    (ht : m.threads[id]? = some ⟨.point (.start request), fs⟩) :
    ∃ r ns log r', r.graph = m.shared.registry.graph ∧ r.aliases = m.shared.registry.aliases ∧
      Destroys r ns log r' ∧ ∃ seg m' reply, Run h m seg m' ∧ (∀ e ∈ seg, e.mover = id) ∧
        m'.threads[id]? = some ⟨.reply reply, fs⟩ ∧ disposals seg <+: log := by
  rcases hrequest with rfl | ⟨x, rfl⟩
  · let r : Registry := { m.shared.registry with cache := m.shared.registry.cache.setInDestruction true }
    obtain ⟨log, r', hd⟩ := Destroys.total r r.disposals.keys.reverse
    obtain ⟨gone, -, -, hperm⟩ := hd.closed hcanon
    have hcalled : ∀ row ∈ log, (h.program row.2 .plain).Quiet := fun row hrow =>
      hquiet row (hperm.mem_iff.1 (List.mem_append.2 (.inl hrow)))
    exact ⟨r, _, log, r', rfl, rfl, hd, run_of_performs ht (Destroys.performs_destroyAll rfl hd hcalled hadmits)⟩
  · obtain ⟨log, r', hd⟩ := Destroys.total m.shared.registry [x]
    obtain ⟨gone, -, -, hperm⟩ := hd.closed hcanon
    have hcalled : ∀ row ∈ log, (h.program row.2 .plain).Quiet := fun row hrow =>
      hquiet row (hperm.mem_iff.1 (List.mem_append.2 (.inl hrow)))
    exact ⟨_, _, log, r', rfl, rfl, hd, run_of_performs ht (hd.performs_destroy hcalled hadmits)⟩

end Machine

namespace Graph

variable {g : Graph} {aliases : Aliases}

/-- Callers whose disposal callbacks return at once. -/
def returningHost : Host Unit where
  program _ _ := .finish (.ok .done)
  observe _ w := w

/-- A graph in which a name is crossed is torn down out of order from there, if the two names have disposal
callbacks. -/
theorem not_tornDownInOrder_of_crossed (hg : g.IsCanonical aliases) (hcross : g.Crossed) :
    ¬ g.TornDownInOrder aliases := by
  obtain ⟨a, b, x, hba, hbx, hxa⟩ := hcross
  intro hall
  let table : Table Callback := (Table.empty.insert b 0).insert a 0
  let r : Registry := { aliases, graph := g, disposals := table }
  let m : Machine Unit :=
    { shared := { registry := r, world := () }, threads := [⟨.point (.start (.destroy b)), []⟩] }
  have hsettle : ∀ c o, (returningHost.program c o).Settles := fun _ _ => .ok _
  obtain ⟨seg₁, m₁, reply, hr₁, hm₁, hreply₁, hlog₁⟩ :=
    hall Unit returningHost m 0 (.destroy b) [] (.inr ⟨b, rfl⟩) rfl rfl rfl (fun _ _ => (hsettle _ _).quiet) rfl
  obtain ⟨log, r', hd⟩ := Destroys.total r [b]
  have hperforms : Thread.Performs returningHost 0 [] m.shared ⟨.point (.start (.destroy b)), []⟩ log _ _ :=
    hd.performs_destroy (fun _ _ => (hsettle _ _).quiet) rfl
  obtain ⟨s', -, hw⟩ := hperforms.alone fun _ _ => hsettle _ _
  obtain ⟨seg₂, m₂, hr₂, hm₂, hreply₂, -, hlog₂⟩ := Machine.run_to_reply (m := m) rfl hw
  -- the thread alone has only one way to its end
  obtain ⟨rfl, -⟩ := hr₁.eq_of_stuck hr₂ hm₁ hm₂ (Machine.step_eq_none_of_reply hreply₁)
    (Machine.step_eq_none_of_reply hreply₂)
  rw [hlog₂] at hlog₁
  have hdb : r.disposals.get? b = some 0 := by
    show table.get? b = some 0
    simp [table, Table.get?_insert]
  have hda : (a, 0) ∈ r.disposals.rows := Table.mem_rows_of_get? (Table.get?_insert_self ..)
  exact hd.not_inOrder (fun k l hkl => (hg.of_leads hkl).2) (hg.of_leads (.inl hbx)).1 hba hbx hxa hdb hda hlog₁

/-- Teardowns of a graph come in order exactly if no name is crossed. -/
theorem tornDownInOrder_iff (hg : g.IsCanonical aliases) : g.TornDownInOrder aliases ↔ ¬ g.Crossed := by
  constructor
  · intro hall hcross
    exact not_tornDownInOrder_of_crossed hg hcross hall
  · intro hcross ω h m id request fs hrequest hgraph haliases hadmits hquiet ht
    have hcanon : ∀ a b, m.shared.registry.graph.Leads a b → m.shared.registry.canonical b = b := by
      intro a b hab
      rw [hgraph] at hab
      unfold Registry.canonical
      rw [haliases]
      exact (hg.of_leads hab).2
    obtain ⟨r, ns, log, r', hrg, hra, hd, seg, m', reply, hr, hm, hreply, hpre⟩ :=
      Machine.exists_destroys hrequest hcanon hadmits hquiet ht
    have horder : r.graph.InOrder log := by
      refine hd.inOrder (by rw [hrg, hgraph]; exact hcross) fun a b hab => ?_
      unfold Registry.canonical
      rw [hra]
      exact hcanon a b (hrg ▸ hab)
    rw [hrg, hgraph] at horder
    exact ⟨seg, m', reply, hr, hm, hreply, horder.of_prefix hpre⟩

/-- A chain of dependents is torn down in order. -/
theorem tornDownInOrder_chain :
    (empty.addDependency "a" "b").value.IsCanonical {} ∧ (empty.addDependency "a" "b").value.TornDownInOrder {} := by
  have hg : (empty.addDependency "a" "b").value.IsCanonical {} := by decide
  refine ⟨hg, (tornDownInOrder_iff hg).2 ?_⟩
  rintro ⟨a, b, x, hba, hbx, hxa⟩
  have hedge : ∀ k l, (empty.addDependency "a" "b").value.HasDependent k l → k = "a" ∧ l = "b" := by
    intro k l hkl
    simpa [HasDependent, addDependency, empty, Relation.holds, Relation.empty, Relation.add] using hkl
  obtain ⟨rfl, rfl⟩ := hedge b x hbx
  -- only `b` has something to depend on, and `a` is not `b`
  obtain ⟨c, -, hca⟩ := Relation.TransGen.tail'_iff.1 hba
  exact absurd (hedge c _ hca).2 (by decide)

/-- `y` depends on `c`, `d` depends on `y`, and `c` is part of `d`. -/
def bypass : Graph := (((empty.addDependency "y" "d").value.addDependency "c" "y").value.addPart "d" "c").value

/-- The destruction of all names of `bypass` is requested, whose disposal callbacks were registered in the
order `d`, `c`, `y`. -/
def bypassStart : Machine Unit where
  shared :=
    { registry := { graph := bypass, disposals := ((Table.empty.insert "d" 0).insert "c" 1).insert "y" 2 }
      world := () }
  threads := [⟨.point (.start .destroyAll), []⟩]

/-- The run of the request to its reply. -/
def bypassRun : List (Moment Unit) × Machine Unit := bypassStart.drive returningHost (List.replicate 60 0) []

/-- Nothing in `bypass` depends on itself, and yet its teardown disposes of `c` before `y`: the callback of
`y` waits for `d`, which takes its part `c` along. -/
theorem bypass_out_of_order :
    bypass.IsCanonical {} ∧ (∀ n, ¬ bypass.Depends n n) ∧
      Machine.Run returningHost bypassStart bypassRun.1 bypassRun.2 ∧ bypassRun.2.isOver = true ∧
      disposals bypassRun.1 = [("d", 0), ("c", 1), ("y", 2)] ∧ ¬ bypass.InOrder (disposals bypassRun.1) := by
  have hlog : disposals bypassRun.1 = [("d", 0), ("c", 1), ("y", 2)] := by decide
  refine ⟨by decide, fun n hn => ?_, .drive _ .start, by decide, hlog, fun horder => ?_⟩
  · -- every edge leads on in the order `c`, `y`, `d`
    let rank : Name → Nat := fun k => if k = "c" then 0 else if k = "y" then 1 else 2
    have hedge : ∀ p ∈ bypass.dependents.pairs, rank p.1 < rank p.2 := by decide
    have hrank : ∀ k l, bypass.Depends l k → rank k < rank l := by
      intro k l hkl
      induction hkl with
      | single hab => exact hedge _ hab
      | tail _ hbc ih => exact Nat.lt_trans ih (hedge _ hbc)
    exact Nat.lt_irrefl _ (hrank n n hn)
  · have hyc : bypass.Depends "y" "c" := .single (by show ("c", "y") ∈ bypass.dependents.pairs; decide)
    have := horder 2 1 "y" "c" 2 1 (by rw [hlog]; rfl) (by rw [hlog]; rfl) hyc
    omega

end Graph

end Singletons
