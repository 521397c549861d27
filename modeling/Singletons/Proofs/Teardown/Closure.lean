import Singletons.Proofs.Teardown.Destroys
import Singletons.Proofs.Teardown.Without
import Mathlib.Logic.Relation

/-
The closure of a destruction: the names destroyed are those that the edges lead to from the names asked
for, and afterwards the registry is what it was without them.

The edges that a destruction inside another one follows are not those of the whole graph: some were taken
out before. `Destroys.closed` therefore speaks of the graph that each destruction begins with, and the
names destroyed inside make the difference up: whatever was purged was destroyed.
-/

namespace Singletons

namespace Graph

/-- The edges that a teardown follows: to a dependent, or to a part. -/
def Leads (g : Graph) (a b : Name) : Prop := (a, b) ∈ g.dependents.pairs ∨ (a, b) ∈ g.parts.pairs

/-- Whether edges lead from one name to another, in any number of steps. -/
def Reaches (g : Graph) : Name → Name → Prop := Relation.ReflTransGen g.Leads

variable {g g' : Graph} {a b : Name}

theorem Reaches.mono (hle : ∀ a b, g.Leads a b → g'.Leads a b) (hr : g.Reaches a b) : g'.Reaches a b :=
  Relation.ReflTransGen.mono hle _ _ hr

/-- Names that no edge leads out of contain whatever they reach. -/
theorem Reaches.mem_of_closed {ns : List Name} (hclosed : ∀ a ∈ ns, ∀ b, g.Leads a b → b ∈ ns) (ha : a ∈ ns)
    (hr : g.Reaches a b) : b ∈ ns := by
  induction hr with
  | refl => exact ha
  | tail _ hedge ih => exact hclosed _ ih _ hedge

end Graph

/-- The registry after the destruction of some names: none of them is left but as something that others
were recorded to depend on. -/
structure Stripped (ns : List Name) (r r' : Registry) : Prop where
  cache : r'.cache = r.cache.without ns
  disposals : r'.disposals = r.disposals.without ns
  dependents : r'.graph.dependents = r.graph.dependents.without ns
  dependencies : r'.graph.dependencies = r.graph.dependencies.drop fun p => p.1 ∈ ns
  parts : r'.graph.parts = r.graph.parts.without ns
  others : r' = { r with cache := r'.cache, graph := r'.graph, disposals := r'.disposals }

namespace Stripped

variable {ns ns₁ ns₂ ns₃ : List Name} {r r₁ r₂ r₃ : Registry} {c : Name}

theorem refl (r : Registry) : Stripped [] r r where
  cache := by simp
  disposals := by simp
  dependents := (Relation.drop_eq_self (by simp)).symm
  dependencies := (Relation.drop_eq_self (by simp)).symm
  parts := (Relation.drop_eq_self (by simp)).symm
  others := rfl

theorem leads_iff (hs : Stripped ns r r₁) {a b : Name} :
    r₁.graph.Leads a b ↔ r.graph.Leads a b ∧ a ∉ ns ∧ b ∉ ns := by
  unfold Graph.Leads
  rw [hs.dependents, hs.parts, Relation.mem_pairs_without, Relation.mem_pairs_without]
  exact or_and_right.symm

theorem canonical_eq (hs : Stripped ns r r₁) (n : Name) : r₁.canonical n = r.canonical n := by
  rw [hs.others]
  rfl

/-- A name is destroyed by taking it out of cache, table and edges, in the order in which its dependents,
its parts and the other names are destroyed in between. -/
theorem cons (h₁ : Stripped ns₁ ((r.forget c).withoutDependents c) r₁) (h₂ : Stripped ns₂ (r₁.withoutParts c) r₂)
    (h₃ : Stripped ns₃ (r₂.purge c) r₃) : Stripped (c :: (ns₁ ++ ns₂ ++ ns₃)) r r₃ where
  cache := by
    rw [h₃.cache]
    simp only [Registry.purge, h₂.cache, Registry.withoutParts, h₁.cache, Registry.withoutDependents,
      Registry.forget, Cache.remove_eq, Cache.without_without, List.append_assoc, List.cons_append, List.nil_append]
  disposals := by
    rw [h₃.disposals]
    simp only [Registry.purge, h₂.disposals, Registry.withoutParts, h₁.disposals, Registry.withoutDependents,
      Registry.forget, Table.erase_eq, Table.without_without, List.append_assoc, List.cons_append, List.nil_append]
  dependents := by
    rw [h₃.dependents]
    simp only [Registry.purge, Graph.purge, h₂.dependents, Registry.withoutParts, Graph.takeParts, h₁.dependents,
      Registry.withoutDependents, Graph.takeDependents, Registry.forget, Relation.dropFrom_eq, Relation.dropInto_eq,
      Relation.without, Relation.drop_drop]
    exact Relation.drop_congr fun p _ => by rw [Bool.eq_iff_iff]; simp; grind
  dependencies := by
    rw [h₃.dependencies]
    simp only [Registry.purge, Graph.purge, h₂.dependencies, Registry.withoutParts, Graph.takeParts, h₁.dependencies,
      Registry.withoutDependents, Graph.takeDependents, Registry.forget, Relation.dropFrom_eq, Relation.drop_drop]
    exact Relation.drop_congr fun p _ => by rw [Bool.eq_iff_iff]; simp; grind
  parts := by
    rw [h₃.parts]
    simp only [Registry.purge, Graph.purge, h₂.parts, Registry.withoutParts, Graph.takeParts, h₁.parts,
      Registry.withoutDependents, Graph.takeDependents, Registry.forget, Relation.dropFrom_eq, Relation.dropInto_eq,
      Relation.without, Relation.drop_drop]
    exact Relation.drop_congr fun p _ => by rw [Bool.eq_iff_iff]; simp; grind
  others := by
    rw [h₃.others, Registry.purge, h₂.others, Registry.withoutParts, h₁.others]
    rfl

end Stripped

namespace Destroys

variable {r r₁ r₂ r' : Registry} {ns gone₁ gone₂ gone₃ : List Name} {log : List (Name × Callback)} {b c n : Name}

/-- Taking edges out leaves fewer. -/
theorem leads_of_withoutDependents {a b : Name} (h : ((r.forget c).withoutDependents c).graph.Leads a b) :
    r.graph.Leads a b := by
  rcases h with h | h
  · exact .inl ((Relation.mem_pairs_dropFrom ..).1 h).1
  · exact .inr h

theorem leads_of_withoutParts {a b : Name} (h : (r.withoutParts c).graph.Leads a b) : r.graph.Leads a b := by
  rcases h with h | h
  · exact .inl h
  · exact .inr ((Relation.mem_pairs_dropFrom ..).1 h).1

theorem leads_of_purge {a b : Name} (h : (r.purge c).graph.Leads a b) : r.graph.Leads a b := by
  rcases h with h | h
  · exact .inl ((Relation.mem_pairs_dropInto ..).1 h).1
  · exact .inr ((Relation.mem_pairs_dropInto ..).1 h).1

/-- The names destroyed at the stages of a destruction are closed under the edges of the whole graph: an
edge that is missing at a later stage was taken out with a name destroyed before. -/
theorem mem_of_leads (hs₁ : Stripped gone₁ ((r.forget c).withoutDependents c) r₁)
    (hs₂ : Stripped gone₂ (r₁.withoutParts c) r₂)
    (hroot₁ : ∀ b ∈ r.graph.dependentsOf c, b ∈ gone₁) (hroot₂ : ∀ b ∈ r₁.graph.partsOf c, b ∈ gone₂)
    (hclosed₁ : ∀ a ∈ gone₁, ∀ b, ((r.forget c).withoutDependents c).graph.Leads a b → b ∈ gone₁)
    (hclosed₂ : ∀ a ∈ gone₂, ∀ b, (r₁.withoutParts c).graph.Leads a b → b ∈ gone₂)
    (hclosed₃ : ∀ a ∈ gone₃, ∀ b, (r₂.purge c).graph.Leads a b → b ∈ gone₃) :
    ∀ a ∈ c :: (gone₁ ++ gone₂ ++ gone₃), ∀ b, r.graph.Leads a b → b ∈ c :: (gone₁ ++ gone₂ ++ gone₃) := by
  have hkept₁ : ∀ a b, r.graph.Leads a b → b ∉ gone₁ → ((r.forget c).withoutDependents c).graph.Leads a b := by
    rintro a b (hab | hab) hb
    · refine .inl ((Relation.mem_pairs_dropFrom ..).2 ⟨hab, ?_⟩)
      rintro rfl
      exact hb (hroot₁ b ((Relation.mem_images ..).2 hab))
    · exact .inr hab
  have hkept₂ : ∀ a b, r₁.graph.Leads a b → b ∉ gone₂ → (r₁.withoutParts c).graph.Leads a b := by
    rintro a b (hab | hab) hb
    · exact .inl hab
    · refine .inr ((Relation.mem_pairs_dropFrom ..).2 ⟨hab, ?_⟩)
      rintro rfl
      exact hb (hroot₂ b ((Relation.mem_images ..).2 hab))
  have hkept₃ : ∀ a b, r₂.graph.Leads a b → b ≠ c → (r₂.purge c).graph.Leads a b := by
    rintro a b (hab | hab) hb
    · exact .inl ((Relation.mem_pairs_dropInto ..).2 ⟨hab, hb⟩)
    · exact .inr ((Relation.mem_pairs_dropInto ..).2 ⟨hab, hb⟩)
  -- dependents and parts of `c` were both taken before the last stage
  have htaken : ∀ b, ¬ (r₁.withoutParts c).graph.Leads c b := by
    rintro b (hcb | hcb)
    · have hcb : (c, b) ∈ r₁.graph.dependents.pairs := hcb
      rw [hs₁.dependents] at hcb
      exact ((Relation.mem_pairs_dropFrom ..).1 ((Relation.mem_pairs_without ..).1 hcb).1).2 rfl
    · exact ((Relation.mem_pairs_dropFrom ..).1 hcb).2 rfl
  intro a ha b hab
  simp only [List.mem_cons, List.mem_append] at ha ⊢
  by_cases hb₁ : b ∈ gone₁
  · exact .inr (.inl (.inl hb₁))
  by_cases hb₂ : b ∈ gone₂
  · exact .inr (.inl (.inr hb₂))
  by_cases hbc : b = c
  · exact .inl hbc
  have hab₁ := hkept₁ a b hab hb₁
  have ha₁ : a ∉ gone₁ := fun ha₁ => hb₁ (hclosed₁ a ha₁ b hab₁)
  have hab₂ := hkept₂ a b (hs₁.leads_iff.2 ⟨hab₁, ha₁, hb₁⟩) hb₂
  have ha₂ : a ∉ gone₂ := fun ha₂ => hb₂ (hclosed₂ a ha₂ b hab₂)
  have hab₃ := hkept₃ a b (hs₂.leads_iff.2 ⟨hab₂, ha₂, hb₂⟩) hbc
  rcases ha with rfl | (ha | ha) | ha
  · exact absurd hab₂ (htaken b)
  · exact absurd ha ha₁
  · exact absurd ha ha₂
  · exact .inr (.inr (hclosed₃ a ha b hab₃))

/-- The names destroyed are those that the names asked for reach. -/
def Covers (r : Registry) (ns gone : List Name) : Prop :=
  ∀ b, b ∈ gone ↔ ∃ n ∈ ns, r.graph.Reaches (r.canonical n) b

theorem Covers.mem (hc : Covers r ns gone₁) {n : Name} (hn : n ∈ ns) (hcanon : r.canonical n = n) : n ∈ gone₁ :=
  (hc n).2 ⟨n, hn, by rw [hcanon]; exact .refl⟩

theorem Covers.closed (hc : Covers r ns gone₁) : ∀ a ∈ gone₁, ∀ b, r.graph.Leads a b → b ∈ gone₁ := by
  intro a ha b hab
  obtain ⟨n, hn, hna⟩ := (hc a).1 ha
  exact (hc b).2 ⟨n, hn, hna.tail hab⟩

/-- The names destroyed along with `c` and before the other names are reached from `c`. -/
theorem Covers.reaches {names : List Name} (hc : Covers r₁ names gone₁)
    (hcanonical : ∀ n, r₁.canonical n = r.canonical n) (hle : ∀ a b, r₁.graph.Leads a b → r.graph.Leads a b)
    (hcanon : ∀ a b, r.graph.Leads a b → r.canonical b = b)
    (hnames : ∀ n ∈ names, r.graph.Leads c n) (hb : b ∈ gone₁) : r.graph.Reaches c b := by
  obtain ⟨n, hn, hnb⟩ := (hc b).1 hb
  have hcn := hnames n hn
  rw [hcanonical, hcanon c n hcn] at hnb
  exact .head hcn (hnb.mono hle)

/-- The stages of a destruction together destroy what its names reach in the whole graph. -/
theorem Covers.cons (hcanonical : r.canonical n = c) (hcanon : ∀ a b, r.graph.Leads a b → r.canonical b = b)
    (hs₁ : Stripped gone₁ ((r.forget c).withoutDependents c) r₁) (hs₂ : Stripped gone₂ (r₁.withoutParts c) r₂)
    (hc₁ : Covers ((r.forget c).withoutDependents c) (r.graph.dependentsOf c) gone₁)
    (hc₂ : Covers (r₁.withoutParts c) (r₁.graph.partsOf c) gone₂) (hc₃ : Covers (r₂.purge c) ns gone₃) :
    Covers r (n :: ns) (c :: (gone₁ ++ gone₂ ++ gone₃)) := by
  have hle₁ : ∀ a b, r₁.graph.Leads a b → r.graph.Leads a b := fun a b hab =>
    leads_of_withoutDependents (hs₁.leads_iff.1 hab).1
  have hle₂ : ∀ a b, r₂.graph.Leads a b → r.graph.Leads a b := fun a b hab =>
    hle₁ a b (leads_of_withoutParts (hs₂.leads_iff.1 hab).1)
  have halias₁ : ∀ k, (r₁.withoutParts c).canonical k = r.canonical k := hs₁.canonical_eq
  have halias₂ : ∀ k, (r₂.purge c).canonical k = r.canonical k := fun k => (hs₂.canonical_eq k).trans (halias₁ k)
  have hleads₁ : ∀ k ∈ r.graph.dependentsOf c, r.graph.Leads c k := fun k hk => .inl ((Relation.mem_images ..).1 hk)
  have hleads₂ : ∀ k ∈ r₁.graph.partsOf c, r.graph.Leads c k := fun k hk =>
    hle₁ c k (.inr ((Relation.mem_images ..).1 hk))
  intro b
  constructor
  · intro hb
    simp only [List.mem_cons, List.mem_append] at hb
    rcases hb with rfl | (hb | hb) | hb
    · exact ⟨n, List.mem_cons_self .., by rw [hcanonical]; exact .refl⟩
    · refine ⟨n, List.mem_cons_self .., ?_⟩
      rw [hcanonical]
      exact hc₁.reaches (fun _ => rfl) (fun _ _ => leads_of_withoutDependents) hcanon hleads₁ hb
    · refine ⟨n, List.mem_cons_self .., ?_⟩
      rw [hcanonical]
      exact hc₂.reaches halias₁ (fun a b hab => hle₁ a b (leads_of_withoutParts hab)) hcanon hleads₂ hb
    · obtain ⟨k, hk, hreach⟩ := (hc₃ b).1 hb
      rw [halias₂] at hreach
      exact ⟨k, List.mem_cons_of_mem _ hk, hreach.mono fun a b hab => hle₂ a b (leads_of_purge hab)⟩
  · rintro ⟨k, hk, hreach⟩
    have hroot₁ : ∀ k ∈ r.graph.dependentsOf c, k ∈ gone₁ := fun k hk => hc₁.mem hk (hcanon c k (hleads₁ k hk))
    have hroot₂ : ∀ k ∈ r₁.graph.partsOf c, k ∈ gone₂ := fun k hk =>
      hc₂.mem hk ((halias₁ k).trans (hcanon c k (hleads₂ k hk)))
    refine hreach.mem_of_closed (mem_of_leads hs₁ hs₂ hroot₁ hroot₂ hc₁.closed hc₂.closed hc₃.closed) ?_
    rcases List.mem_cons.1 hk with rfl | hk
    · rw [hcanonical]
      exact List.mem_cons_self ..
    · have : r.canonical k ∈ gone₃ := (hc₃ _).2 ⟨k, hk, by rw [halias₂]; exact .refl⟩
      simp [this]

/-- The disposal callbacks that are called, and those that are left, are those that were registered. -/
theorem perm (hd : Destroys r ns log r') : (log ++ r'.disposals.rows).Perm r.disposals.rows := by
  induction hd with
  | nil r => exact .refl _
  | @cons r r₁ r₂ r₃ n c ns log₁ log₂ log₃ _ _ _ _ ih₁ ih₂ ih₃ =>
    have htaken : (r.disposalOf c ++ (r.disposals.erase c).rows).Perm r.disposals.rows := r.disposals.perm_erase c
    have h₁ : (log₁ ++ r₁.disposals.rows).Perm (r.disposals.erase c).rows := ih₁
    have h₂ : (log₂ ++ r₂.disposals.rows).Perm r₁.disposals.rows := ih₂
    have h₃ : (log₃ ++ r₃.disposals.rows).Perm r₂.disposals.rows := ih₃
    rw [List.perm_iff_count] at *
    intro row
    have h₁ := h₁ row
    have h₂ := h₂ row
    have h₃ := h₃ row
    have htaken := htaken row
    simp only [List.count_append] at *
    omega

/-- What is destroyed, what is left, and which disposal callbacks are called. -/
theorem closed (hd : Destroys r ns log r') (hcanon : ∀ a b, r.graph.Leads a b → r.canonical b = b) :
    ∃ gone : List Name, (∀ b, b ∈ gone ↔ ∃ n ∈ ns, r.graph.Reaches (r.canonical n) b) ∧ Stripped gone r r' ∧
      (log ++ r'.disposals.rows).Perm r.disposals.rows := by
  suffices hgone : ∃ gone : List Name, (∀ b, b ∈ gone ↔ ∃ n ∈ ns, r.graph.Reaches (r.canonical n) b) ∧
      Stripped gone r r' by
    obtain ⟨gone, hc, hs⟩ := hgone
    exact ⟨gone, hc, hs, hd.perm⟩
  induction hd with
  | nil r => exact ⟨[], by simp, .refl r⟩
  | @cons r r₁ r₂ r₃ n c ns log₁ log₂ log₃ canonical _ _ _ ih₁ ih₂ ih₃ =>
    obtain ⟨gone₁, hc₁, hs₁⟩ := ih₁ fun a b hab => hcanon a b (leads_of_withoutDependents hab)
    have hcanon₁ : ∀ a b, r₁.graph.Leads a b → r₁.canonical b = b := fun a b hab =>
      (hs₁.canonical_eq b).trans (hcanon a b (leads_of_withoutDependents (hs₁.leads_iff.1 hab).1))
    obtain ⟨gone₂, hc₂, hs₂⟩ := ih₂ fun a b hab => hcanon₁ a b (leads_of_withoutParts hab)
    have hcanon₂ : ∀ a b, r₂.graph.Leads a b → r₂.canonical b = b := fun a b hab =>
      (hs₂.canonical_eq b).trans (hcanon₁ a b (leads_of_withoutParts (hs₂.leads_iff.1 hab).1))
    obtain ⟨gone₃, hc₃, hs₃⟩ := ih₃ fun a b hab => hcanon₂ a b (leads_of_purge hab)
    exact ⟨c :: (gone₁ ++ gone₂ ++ gone₃), Covers.cons canonical hcanon hs₁ hs₂ hc₁ hc₂ hc₃, hs₁.cons hs₂ hs₃⟩

end Destroys

end Singletons
