import Singletons.Proofs.Machine.Alone

/-
Teardown as a recursion over names. `Destroys` says what the destruction of some names in a row leads to
and which disposal callbacks it calls: for each name, its dependents are destroyed before its callback is
called, and its parts afterwards, each time in what is left of the graph. Every list of names has such a
destruction, because each edge is followed once, and a thread that works on an agenda alone performs it.
-/

namespace Singletons

namespace Relation

theorem length_filter_imagesIn (n : Name) : ∀ pairs : List (Name × Name),
    (pairs.filter fun p => p.1 ≠ n).length + (imagesIn pairs n).length = pairs.length
  | [] => rfl
  | p :: pairs => by
    have ih := length_filter_imagesIn n pairs
    unfold imagesIn at ih ⊢
    by_cases hp : p.1 = n
    · rw [List.filter_cons_of_neg (by simpa using hp), List.filterMap_cons, if_pos hp]
      simp only [List.length_cons]
      omega
    · rw [List.filter_cons_of_pos (by simpa using hp), List.filterMap_cons, if_neg hp]
      simp only [List.length_cons]
      omega

theorem size_dropFrom (r : Relation) (n : Name) : (r.dropFrom n).size + (r.images n).length = r.size :=
  length_filter_imagesIn n r.pairs

theorem size_dropInto_le (r : Relation) (n : Name) : (r.dropInto n).size ≤ r.size := List.length_filter_le ..

end Relation

namespace Registry

/-- The registry after a canonical name has left the cache and the table of disposal callbacks. -/
def forget (r : Registry) (n : Name) : Registry :=
  { r with cache := r.cache.remove n, disposals := r.disposals.erase n }

/-- The registry after the dependents of a name were taken out of the graph. -/
def withoutDependents (r : Registry) (n : Name) : Registry := { r with graph := (r.graph.takeDependents n).2 }

/-- The registry after the parts of a name were taken out of the graph. -/
def withoutParts (r : Registry) (n : Name) : Registry := { r with graph := (r.graph.takeParts n).2 }

/-- The registry after a name was dropped from the edges that were left. -/
def purge (r : Registry) (n : Name) : Registry := { r with graph := r.graph.purge n }

/-- The disposal callback of a canonical name, if it has one, together with the name. -/
def disposalOf (r : Registry) (n : Name) : List (Name × Callback) := ((r.disposals.get? n).map (n, ·)).toList

/-- The number of edges that a teardown may follow. -/
def edges (r : Registry) : Nat := r.graph.dependents.size + r.graph.parts.size

variable {r : Registry} {n : Name}

theorem edges_withoutDependents :
    ((r.forget n).withoutDependents n).edges + (r.graph.dependentsOf n).length = r.edges := by
  have := r.graph.dependents.size_dropFrom n
  simp only [edges, withoutDependents, forget, Graph.takeDependents, Graph.dependentsOf]
  omega

theorem edges_withoutParts : (r.withoutParts n).edges + (r.graph.partsOf n).length = r.edges := by
  have := r.graph.parts.size_dropFrom n
  simp only [edges, withoutParts, Graph.takeParts, Graph.partsOf]
  omega

theorem edges_purge_le : (r.purge n).edges ≤ r.edges := by
  have := r.graph.dependents.size_dropInto_le n
  have := r.graph.parts.size_dropInto_le n
  simp only [edges, purge, Graph.purge]
  omega

end Registry

/-- The destruction of some names one after the other, with the disposal callbacks that it calls. -/
inductive Destroys : Registry → List Name → List (Name × Callback) → Registry → Prop where
  | nil (r : Registry) : Destroys r [] [] r
  | cons {r r₁ r₂ r₃ : Registry} {n c : Name} {ns : List Name} {log₁ log₂ log₃ : List (Name × Callback)}
      (canonical : r.canonical n = c)
      (dependents : Destroys ((r.forget c).withoutDependents c) (r.graph.dependentsOf c) log₁ r₁)
      (parts : Destroys (r₁.withoutParts c) (r₁.graph.partsOf c) log₂ r₂)
      (others : Destroys (r₂.purge c) ns log₃ r₃) :
      Destroys r (n :: ns) (log₁ ++ r.disposalOf c ++ log₂ ++ log₃) r₃

namespace Destroys

/-- Every list of names can be destroyed: following an edge takes it out of the graph. -/
theorem exists_of_edges_le (limit : Nat) : ∀ {r : Registry} (ns : List Name), r.edges ≤ limit →
    ∃ log r', Destroys r ns log r' ∧ r'.edges ≤ r.edges := by
  induction limit using Nat.strongRecOn with
  | ind limit ih =>
    -- the names that edges lead to, destroyed in a graph without these edges
    have hbelow : ∀ {r : Registry} (names : List Name), r.edges + names.length ≤ limit →
        ∃ log r', Destroys r names log r' ∧ r'.edges ≤ r.edges := by
      intro r names hle
      cases names with
      | nil => exact ⟨[], r, .nil r, Nat.le_refl _⟩
      | cons n names =>
        rw [List.length_cons] at hle
        exact ih r.edges (by omega) (n :: names) (Nat.le_refl _)
    intro r ns
    induction ns generalizing r with
    | nil => exact fun _ => ⟨[], r, .nil r, Nat.le_refl _⟩
    | cons n ns ihns =>
      intro hle
      have hdependents := r.edges_withoutDependents (n := r.canonical n)
      obtain ⟨log₁, r₁, hd₁, hle₁⟩ := hbelow (r := (r.forget (r.canonical n)).withoutDependents (r.canonical n))
        (r.graph.dependentsOf (r.canonical n)) (by omega)
      have hparts := r₁.edges_withoutParts (n := r.canonical n)
      obtain ⟨log₂, r₂, hd₂, hle₂⟩ := hbelow (r := r₁.withoutParts (r.canonical n))
        (r₁.graph.partsOf (r.canonical n)) (by omega)
      have hpurge := r₂.edges_purge_le (n := r.canonical n)
      obtain ⟨log₃, r₃, hd₃, hle₃⟩ := ihns (r := r₂.purge (r.canonical n)) (by omega)
      exact ⟨_, r₃, .cons rfl hd₁ hd₂ hd₃, by omega⟩

/-- Destruction terminates on every graph, cyclic or not. -/
theorem total (r : Registry) (ns : List Name) : ∃ log r', Destroys r ns log r' := by
  obtain ⟨log, r', hd, -⟩ := exists_of_edges_le r.edges ns (Nat.le_refl _)
  exact ⟨log, r', hd⟩

variable {ω : Type} {h : Host ω} {id : ThreadId} {s : Shared ω} {fs : List (Frame ω)} {r r' : Registry}
  {ns : List Name} {log : List (Name × Callback)}

/-- A task that calls nobody is one step. -/
theorem step_agenda (task : Task) {tasks rest : List Task} {events : List Event}
    (ha : s.mutex.admits id = true) (hc : task.course s.registry = .on r tasks events) :
    Thread.step h id s ⟨.point (.agenda (task :: rest)), fs⟩ =
      some ({ s with registry := r }.report h events, ⟨.point (.agenda (tasks ++ rest)), fs⟩) := by
  simp only [Thread.step, Thread.stepPoint, ha, Bool.not_true, Bool.and_false, Bool.false_eq_true, if_false, hc,
    Thread.goto]

/-- A name is forgotten, and its dependents are put before everything else that is to be done with it. -/
theorem step_agenda_destroy {n c : Name} (hc : s.registry.canonical n = c) (ha : s.mutex.admits id = true)
    (rest : List Task) :
    Thread.step h id s ⟨.point (.agenda (.destroy n :: rest)), fs⟩ =
      some ({ s with registry := s.registry.forget c },
        ⟨.point (.agenda (.dependents c (s.registry.disposals.get? c) :: rest)), fs⟩) := by
  rw [step_agenda (.destroy n) ha rfl, hc]
  rfl

theorem step_agenda_dependents (c : Name) (d : Option Callback) (ha : s.mutex.admits id = true) (rest : List Task) :
    ∃ events, Thread.step h id s ⟨.point (.agenda (.dependents c d :: rest)), fs⟩ =
      some ({ s with registry := s.registry.withoutDependents c }.report h events,
        ⟨.point (.agenda ((s.registry.graph.dependentsOf c).map .destroy ++
          ((d.map (Task.dispose c)).toList ++ (.parts c :: .purge c :: rest)))), fs⟩) := by
  rw [step_agenda (.dependents c d) ha rfl]
  simp only [List.append_assoc, List.cons_append, List.nil_append]
  exact ⟨_, rfl⟩

theorem step_agenda_parts (c : Name) (ha : s.mutex.admits id = true) (rest : List Task) :
    Thread.step h id s ⟨.point (.agenda (.parts c :: rest)), fs⟩ =
      some ({ s with registry := s.registry.withoutParts c },
        ⟨.point (.agenda ((s.registry.graph.partsOf c).map .destroy ++ rest)), fs⟩) :=
  step_agenda (.parts c) ha rfl

theorem step_agenda_purge (c : Name) (ha : s.mutex.admits id = true) (rest : List Task) :
    Thread.step h id s ⟨.point (.agenda (.purge c :: rest)), fs⟩ =
      some ({ s with registry := s.registry.purge c }, ⟨.point (.agenda rest), fs⟩) :=
  step_agenda (.purge c) ha rfl

/-- The disposal of a name is one call, or nothing if the name has no disposal callback. -/
theorem performs_disposal {c : Name} {d : Option Callback} (hlog : (d.map (c, ·)).toList = log)
    (hquiet : ∀ row ∈ log, (h.program row.2 .plain).Quiet) (rest : List Task) :
    Thread.Performs h id fs s ⟨.point (.agenda ((d.map (Task.dispose c)).toList ++ rest)), fs⟩ log
      (fun s' => s'.registry = s.registry ∧ s'.mutex = s.mutex) ⟨.point (.agenda rest), fs⟩ := by
  subst hlog
  cases d with
  | none => exact .done ⟨rfl, rfl⟩
  | some d =>
    rcases Thread.alone_of_quiet (hquiet (c, d) (List.mem_cons_self ..)) s c d rest fs with
      ⟨s', hs', ha⟩ | ⟨hpanic, s', text, ha⟩
    · exact .inl ⟨s', hs', .step rfl ha⟩
    · exact .inr ⟨⟨(c, d), List.mem_cons_self .., hpanic⟩, [(c, d)], s', text, List.prefix_rfl, .step rfl ha⟩

/-- A thread alone that has names to destroy performs their destruction and goes on with the rest of its
agenda, unless a callback panics. -/
theorem performs (hd : Destroys r ns log r') (hquiet : ∀ row ∈ log, (h.program row.2 .plain).Quiet)
    (hs : s.registry = r) (ha : s.mutex.admits id = true) (rest : List Task) :
    Thread.Performs h id fs s ⟨.point (.agenda (ns.map .destroy ++ rest)), fs⟩ log
      (fun s' => s'.registry = r' ∧ s'.mutex = s.mutex) ⟨.point (.agenda rest), fs⟩ := by
  induction hd generalizing s rest with
  | nil r => exact .done ⟨hs, rfl⟩
  | @cons r r₁ r₂ r₃ n c ns log₁ log₂ log₃ canonical _ _ _ ih₁ ih₂ ih₃ =>
    subst hs
    have hquiet₁ : ∀ row ∈ log₁, (h.program row.2 .plain).Quiet := fun row hr => hquiet row (by simp [hr])
    have hquiet₂ : ∀ row ∈ log₂, (h.program row.2 .plain).Quiet := fun row hr => hquiet row (by simp [hr])
    have hquiet₃ : ∀ row ∈ log₃, (h.program row.2 .plain).Quiet := fun row hr => hquiet row (by simp [hr])
    have hquiet₀ : ∀ row ∈ s.registry.disposalOf c, (h.program row.2 .plain).Quiet :=
      fun row hr => hquiet row (by simp [hr])
    let d := s.registry.disposals.get? c
    let others := ns.map Task.destroy ++ rest
    let s₀ : Shared ω := { s with registry := s.registry.forget c }
    obtain ⟨events, hdependents⟩ := step_agenda_dependents (h := h) (s := s₀) c d ha others
    let s₁ : Shared ω := { s₀ with registry := s₀.registry.withoutDependents c }.report h events
    rw [List.append_assoc, List.append_assoc]
    refine .quiet rfl (step_agenda_destroy canonical ha others) (.quiet rfl hdependents ?_)
    -- the dependents, and the callback of the name itself
    refine (ih₁ (s := s₁) hquiet₁ rfl ha _).trans ?_
    rintro s₂ ⟨hr₂, hm₂⟩
    refine (performs_disposal (d := d) rfl hquiet₀ _).trans ?_
    rintro s₃ ⟨hr₃, hm₃⟩
    -- the parts, the last edges and the other names
    have ha₃ : s₃.mutex.admits id = true := by rw [hm₃, hm₂]; exact ha
    obtain rfl : s₃.registry = r₁ := hr₃.trans hr₂
    refine .quiet rfl (step_agenda_parts c ha₃ (.purge c :: others)) ?_
    refine (ih₂ (s := { s₃ with registry := s₃.registry.withoutParts c }) hquiet₂ rfl ha₃ _).trans ?_
    rintro s₄ ⟨rfl, hm₄⟩
    have ha₄ : s₄.mutex.admits id = true := by rw [hm₄]; exact ha₃
    have hm : s.mutex = s₄.mutex := by rw [hm₄, hm₃, hm₂]; rfl
    rw [hm]
    exact .quiet rfl (step_agenda_purge c ha₄ others)
      (ih₃ (s := { s₄ with registry := s₄.registry.purge c }) hquiet₃ rfl ha₄ rest)

/-- A thread alone answers the request to destroy a name. -/
theorem performs_destroy {x : Name} (hd : Destroys s.registry [x] log r')
    (hquiet : ∀ row ∈ log, (h.program row.2 .plain).Quiet) (ha : s.mutex.admits id = true) :
    Thread.Performs h id fs s ⟨.point (.start (.destroy x)), fs⟩ log
      (fun s' => s'.registry = r' ∧ s'.mutex = s.mutex) ⟨.reply (.ok .done), fs⟩ := by
  rw [← List.append_nil log]
  refine .quiet rfl rfl ((hd.performs hquiet rfl ha []).trans ?_)
  intro s' hs'
  exact .quiet rfl rfl (.done hs')

/-- A thread alone answers the request to destroy all names: it closes the cache, destroys the names with a
disposal callback, last registered first, and empties what is left. -/
theorem performs_destroyAll (hr : r = { s.registry with cache := s.registry.cache.setInDestruction true })
    (hd : Destroys r r.disposals.keys.reverse log r') (hquiet : ∀ row ∈ log, (h.program row.2 .plain).Quiet)
    (ha : s.mutex.admits id = true) :
    Thread.Performs h id fs s ⟨.point (.start .destroyAll), fs⟩ log
      (fun s' => s'.registry = { r' with graph := .empty, disposals := .empty, cache := r'.cache.clear r'.reopen } ∧
        s'.mutex = s.mutex) ⟨.reply (.ok .done), fs⟩ := by
  subst hr
  let s₀ : Shared ω := s.withCache (s.registry.cache.setInDestruction true)
  let s₁ : Shared ω := s₀.report h [.destroyingAll s₀.registry.disposals.size]
  have hclose : Thread.step h id s ⟨.point (.start .destroyAll), fs⟩ = some (s₀, ⟨.point .gather, fs⟩) := by
    simp only [Thread.step, Thread.stepPoint, Thread.stepStart, ha, if_true]
    rfl
  have hgather : Thread.step h id s₀ ⟨.point .gather, fs⟩ =
      some (s₁, ⟨.point (.agenda s₀.registry.agendaOfAll), fs⟩) := rfl
  refine .quiet rfl hclose (.quiet rfl hgather ?_)
  rw [← List.append_nil log]
  refine (hd.performs (s := s₁) hquiet rfl ha [.empty]).trans ?_
  rintro s₂ ⟨hr₂, hm₂⟩
  have ha₂ : s₂.mutex.admits id = true := by rw [hm₂]; exact ha
  refine .quiet rfl (step_agenda .empty ha₂ rfl) (.quiet rfl rfl (.done ⟨?_, hm₂⟩))
  rw [← hr₂]
  rfl

end Destroys

end Singletons
