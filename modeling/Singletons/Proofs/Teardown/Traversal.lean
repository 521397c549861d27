import Singletons.Proofs.Teardown.Crossing
import Singletons.Proofs.Teardown.Without
import Mathlib.Data.List.Dedup

/-
Teardown as a traversal. A teardown keeps no record of the names that it has met: it takes edges out of the graph
as it follows them, callbacks out of the table as it meets their names, and drops a name that it has done with
from the edges that are left. Where names have no parts, it calls the same callbacks in the same order as a
depth-first traversal of the graph as it was, which keeps a list of the visited names (`Registry.traversal`).

The simulation (`Trails`) reads what is left of the registry off the visited names: the edges that do not start at
a visited name and do not end at a name that was dropped, and the callbacks of the names that are not visited.
Every name that was dropped is visited, so the edges into it would not have led the traversal anywhere.
-/

namespace Singletons

/-- What a depth-first traversal does with a name: it enters it, and leaves it when all below is done. -/
inductive Visit where
  | enter (n : Name)
  | leave (n : Name)
deriving DecidableEq

/-- How often the names of a list are entered or left; a name that is entered is left later. -/
def Visit.count : List Visit → Nat
  | [] => 0
  | enter _ :: rest => count rest + 2
  | leave _ :: rest => count rest + 1

namespace Relation

/-- The names that a depth-first traversal along pairs leaves, in that order. The names related to one that is
entered are entered in the order of the pairs, before it is left. A name that was visited is skipped. -/
def postorder (pairs : List (Name × Name)) : (pending : List Visit) → (visited : List Name) → List Name
  | [], _ => []
  | .leave n :: rest, visited => n :: postorder pairs rest visited
  | .enter n :: rest, visited =>
    if _hv : visited.contains n then postorder pairs rest visited
    else postorder pairs ((imagesIn pairs n).map .enter ++ .leave n :: rest) (n :: visited)
termination_by pending visited => (unexpanded pairs visited, Visit.count pending)
decreasing_by
  · exact Prod.Lex.right _ (Nat.lt_succ_self _)
  · exact Prod.Lex.right _ (Nat.lt_add_of_pos_right Nat.two_pos)
  · rcases hi : imagesIn pairs n with _ | ⟨m, ms⟩
    · rcases Nat.lt_or_ge (unexpanded pairs (n :: visited)) (unexpanded pairs visited) with h | h
      · exact Prod.Lex.left _ _ h
      · rw [Nat.le_antisymm (unexpanded_le pairs visited n) h]
        exact Prod.Lex.right _ (Nat.lt_succ_self _)
    · have hm : (n, m) ∈ pairs := (mem_imagesIn pairs n m).1 (by rw [hi]; exact List.mem_cons_self)
      exact Prod.Lex.left _ _ (unexpanded_lt (Bool.eq_false_iff.2 _hv) hm rfl)

variable {pairs : List (Name × Name)} {visited : List Name} {n : Name} {rest : List Visit}

theorem postorder_nil : postorder pairs [] visited = [] := by rw [postorder]

theorem postorder_leave : postorder pairs (.leave n :: rest) visited = n :: postorder pairs rest visited := by
  rw [postorder]

theorem postorder_enter_of_mem (hn : n ∈ visited) :
    postorder pairs (.enter n :: rest) visited = postorder pairs rest visited := by
  rw [postorder, dif_pos (by simpa using hn)]

theorem postorder_enter (hn : n ∉ visited) : postorder pairs (.enter n :: rest) visited =
    postorder pairs ((imagesIn pairs n).map .enter ++ .leave n :: rest) (n :: visited) := by
  rw [postorder, dif_neg (by simpa using hn)]

/-- The pairs of a name once some pairs are dropped. -/
theorem images_drop (r : Relation) (t : Name × Name → Bool) (n : Name) :
    (r.drop t).images n = (r.images n).filter fun k => !t (n, k) := by
  unfold images imagesIn drop
  rw [List.filterMap_filter, List.filter_filterMap]
  refine List.filterMap_congr fun p _ => ?_
  obtain ⟨a, b⟩ := p
  by_cases ha : a = n
  · subst ha
    by_cases ht : t (a, b) = true <;> simp [ht, Option.filter]
  · simp [ha]

end Relation

/-- The entries that are left are those of the other names. -/
theorem Table.get?_without {α : Type} (t : Table α) (ns : List Name) (n : Name) :
    (t.without ns).get? n = if n ∈ ns then none else t.get? n := by
  induction ns generalizing t with
  | nil => simp
  | cons c ns ih =>
    rw [← List.singleton_append, ← Table.without_without, ← Table.erase_eq, ih, Table.get?_erase]
    by_cases hc : n = c <;> simp [hc]

namespace Registry

/-- The callbacks of the names that a traversal of the dependents leaves, in that order. -/
def traversalFrom (r : Registry) (pending : List Visit) (visited : List Name) : List (Name × Callback) :=
  (Relation.postorder r.graph.dependents.pairs pending visited).flatMap r.disposalOf

section

variable {r : Registry} {visited : List Name} {n : Name} {rest : List Visit}

theorem traversalFrom_leave :
    r.traversalFrom (.leave n :: rest) visited = r.disposalOf n ++ r.traversalFrom rest visited := by
  simp only [traversalFrom, Relation.postorder_leave, List.flatMap_cons]

theorem traversalFrom_enter_of_mem (hn : n ∈ visited) :
    r.traversalFrom (.enter n :: rest) visited = r.traversalFrom rest visited := by
  simp only [traversalFrom, Relation.postorder_enter_of_mem hn]

theorem traversalFrom_enter (hn : n ∉ visited) : r.traversalFrom (.enter n :: rest) visited =
    r.traversalFrom ((r.graph.dependentsOf n).map .enter ++ .leave n :: rest) (n :: visited) := by
  simp only [traversalFrom, Relation.postorder_enter hn, Graph.dependentsOf, Relation.images]

/-- Visited names in a row are all skipped. -/
theorem traversalFrom_enter_all {names : List Name} (hnames : ∀ n ∈ names, n ∈ visited) :
    r.traversalFrom (names.map .enter ++ rest) visited = r.traversalFrom rest visited := by
  induction names with
  | nil => rfl
  | cons n names ih =>
    obtain ⟨hn, hnames⟩ := List.forall_mem_cons.1 hnames
    rw [List.map_cons, List.cons_append, traversalFrom_enter_of_mem hn, ih hnames]

end

/-- The callbacks that a depth-first traversal of the dependents comes to. It begins at the names with a callback,
last registered first, enters the dependents of a name in the order in which they were recorded, skips the names
that it has visited, and calls the callback of a name after it is through with its dependents. -/
def traversal (r : Registry) : List (Name × Callback) := r.traversalFrom (r.disposals.keys.reverse.map .enter) []

/-- The registry after the disposal callbacks of some names were registered one after the other. -/
def withDisposals (r : Registry) (rows : List (Name × Callback)) : Registry :=
  rows.foldl (fun r row => ((Change.registerDisposal row.1 row.2).apply r).registry) r

/-- The names with a callback, last registered first, are the names that callbacks were registered for, each
taken for its first registration: a callback that is replaced keeps its place. -/
theorem reverse_keys_withDisposals (r : Registry) (rows : List (Name × Callback)) :
    (r.withDisposals rows).disposals.keys.reverse =
      ((rows.map fun row => r.canonical row.1).reverse ++ r.disposals.keys.reverse).dedup := by
  induction rows generalizing r with
  | nil => exact (List.Nodup.dedup (List.nodup_reverse.2 r.disposals.keys_nodup)).symm
  | cons row rows ih =>
    have hkeys : (((Change.registerDisposal row.1 row.2).apply r).registry.disposals.keys.reverse).dedup =
        (r.canonical row.1 :: r.disposals.keys.reverse).dedup := by
      simp only [Change.apply, Table.keys_insert]
      split
      · rename_i h
        rw [List.dedup_cons_of_mem (List.mem_reverse.2 h)]
      · rw [List.reverse_append, List.reverse_singleton, List.singleton_append]
    have hsplit : ((row :: rows).map fun row => r.canonical row.1).reverse ++ r.disposals.keys.reverse =
        (rows.map fun row => r.canonical row.1).reverse ++ (r.canonical row.1 :: r.disposals.keys.reverse) := by
      simp
    rw [hsplit, List.dedup_append, ← hkeys, ← List.dedup_append]
    exact ih _

end Registry

/-- What is left of a registry without parts, once a teardown has met the visited names. -/
structure Trails (start : Registry) (visited : List Name) (r : Registry) : Prop where
  aliases : r.aliases = start.aliases
  parts : r.graph.parts.pairs = []
  dependents : ∃ dropped : List Name, (∀ n ∈ dropped, n ∈ visited) ∧
    r.graph.dependents = start.graph.dependents.drop fun p => p.1 ∈ visited || p.2 ∈ dropped
  disposals : r.disposals = start.disposals.without visited

namespace Trails

variable {start r : Registry} {visited : List Name} {c : Name}

theorem refl (hparts : start.graph.parts.pairs = []) : Trails start [] start where
  aliases := rfl
  parts := hparts
  dependents := ⟨[], by simp, (Relation.drop_eq_self (by simp)).symm⟩
  disposals := (Table.without_nil _).symm

theorem canonical_eq (ht : Trails start visited r) (n : Name) : r.canonical n = start.canonical n := by
  unfold Registry.canonical
  rw [ht.aliases]

theorem partsOf_eq_nil (ht : Trails start visited r) (n : Name) : r.graph.partsOf n = [] := by
  unfold Graph.partsOf Relation.images
  rw [ht.parts]
  rfl

/-- The dependents that are left of a name that is not visited are those that were not dropped. -/
theorem dependentsOf_eq (ht : Trails start visited r) (hc : c ∉ visited) :
    ∃ dropped : List Name, (∀ n ∈ dropped, n ∈ visited) ∧
      r.graph.dependentsOf c = (start.graph.dependentsOf c).filter (· ∉ dropped) := by
  obtain ⟨dropped, hsub, hdependents⟩ := ht.dependents
  refine ⟨dropped, hsub, ?_⟩
  unfold Graph.dependentsOf
  rw [hdependents, Relation.images_drop]
  exact List.filter_congr fun k _ => by simp [hc]

/-- A visited name has no dependents left. -/
theorem dependentsOf_eq_nil (ht : Trails start visited r) (hc : c ∈ visited) : r.graph.dependentsOf c = [] := by
  obtain ⟨dropped, -, hdependents⟩ := ht.dependents
  unfold Graph.dependentsOf
  rw [hdependents, Relation.images_drop]
  exact List.filter_eq_nil_iff.2 fun k _ => by simp [hc]

/-- A name that is not visited still has its callback. -/
theorem disposalOf_eq (ht : Trails start visited r) (hc : c ∉ visited) : r.disposalOf c = start.disposalOf c := by
  unfold Registry.disposalOf
  rw [ht.disposals, Table.get?_without, if_neg hc]

/-- A visited name has no callback left. -/
theorem disposalOf_eq_nil (ht : Trails start visited r) (hc : c ∈ visited) : r.disposalOf c = [] := by
  unfold Registry.disposalOf
  rw [ht.disposals, Table.get?_without, if_pos hc]
  rfl

/-- A name is visited as it is forgotten and its dependents are taken out of the graph. -/
theorem visit (ht : Trails start visited r) (c : Name) :
    Trails start (c :: visited) ((r.forget c).withoutDependents c) where
  aliases := ht.aliases
  parts := ht.parts
  dependents := by
    obtain ⟨dropped, hsub, hdependents⟩ := ht.dependents
    refine ⟨dropped, fun n hn => List.mem_cons_of_mem _ (hsub n hn), ?_⟩
    show r.graph.dependents.dropFrom c = _
    rw [hdependents, Relation.dropFrom_eq, Relation.drop_drop]
    exact Relation.drop_congr fun p _ => by rw [Bool.eq_iff_iff]; simp; tauto
  disposals := by
    show r.disposals.erase c = _
    rw [ht.disposals, Table.erase_eq, Table.without_without]
    exact Table.eq_of_rows (List.filter_congr fun row _ => by simp [and_comm])

/-- It does not matter how often a name is listed as visited. -/
theorem of_mem (ht : Trails start (c :: visited) r) (hc : c ∈ visited) : Trails start visited r := by
  have hsame : ∀ n, n ∈ c :: visited ↔ n ∈ visited := fun n =>
    List.mem_cons.trans ⟨fun hn => hn.elim (fun h => h ▸ hc) id, .inr⟩
  obtain ⟨dropped, hsub, hdependents⟩ := ht.dependents
  exact
    { aliases := ht.aliases
      parts := ht.parts
      dependents := ⟨dropped, fun n hn => (hsame n).1 (hsub n hn), by simpa only [hsame] using hdependents⟩
      disposals := by simpa only [Table.without, hsame] using ht.disposals }

theorem withoutParts (ht : Trails start visited r) (c : Name) : Trails start visited (r.withoutParts c) where
  aliases := ht.aliases
  parts := by
    show (r.graph.parts.pairs.filter _) = []
    rw [ht.parts]
    rfl
  dependents := ht.dependents
  disposals := ht.disposals

/-- A visited name may be dropped from the edges that are left. -/
theorem purge (ht : Trails start visited r) (hc : c ∈ visited) : Trails start visited (r.purge c) where
  aliases := ht.aliases
  parts := by
    show (r.graph.parts.pairs.filter _) = []
    rw [ht.parts]
    rfl
  dependents := by
    obtain ⟨dropped, hsub, hdependents⟩ := ht.dependents
    refine ⟨c :: dropped, List.forall_mem_cons.2 ⟨hc, hsub⟩, ?_⟩
    show r.graph.dependents.dropInto c = _
    rw [hdependents, Relation.dropInto_eq, Relation.drop_drop]
    exact Relation.drop_congr fun p _ => by rw [Bool.eq_iff_iff]; simp; tauto
  disposals := ht.disposals

end Trails

/-- The traversal calls `log` below some names, and has then visited what leaves `r` of the registry. -/
def Follows (start : Registry) (visited names : List Name) (log : List (Name × Callback)) (r : Registry) : Prop :=
  ∃ visited', (∀ n ∈ visited, n ∈ visited') ∧ Trails start visited' r ∧
    ∀ rest, start.traversalFrom (names.map .enter ++ rest) visited = log ++ start.traversalFrom rest visited'

/-- The destruction of the dependents of a name and its own callback follow the traversal of the name. A name that
was visited before has neither any more; one that was not is entered, and left after its dependents. -/
theorem Trails.follows_name {start r r₁ : Registry} {visited : List Name} {c : Name} {log : List (Name × Callback)}
    (ht : Trails start visited r) (hcanon : ∀ a b, start.graph.HasDependent a b → start.canonical b = b)
    (hdependents : ∀ {visited : List Name}, Trails start visited ((r.forget c).withoutDependents c) →
      ∀ full dropped : List Name, full.filter (· ∉ dropped) = r.graph.dependentsOf c → (∀ n ∈ dropped, n ∈ visited) →
      (∀ n ∈ full, start.canonical n = n) → Follows start visited full log r₁) :
    ∃ visited₁, (∀ n ∈ visited, n ∈ visited₁) ∧ c ∈ visited₁ ∧ Trails start visited₁ r₁ ∧
      ∀ rest, start.traversalFrom (.enter c :: rest) visited =
        log ++ r.disposalOf c ++ start.traversalFrom rest visited₁ := by
  by_cases hc : c ∈ visited
  · have hnone : ([] : List Name).filter (· ∉ ([] : List Name)) = r.graph.dependentsOf c :=
      (ht.dependentsOf_eq_nil hc).symm
    obtain ⟨visited₁, hgrows, ht₁, hfollows⟩ := hdependents ((ht.visit c).of_mem hc) [] [] hnone (by simp)
      (by simp)
    refine ⟨visited₁, hgrows, hgrows c hc, ht₁, fun rest => ?_⟩
    rw [Registry.traversalFrom_enter_of_mem hc, ht.disposalOf_eq_nil hc, List.append_nil]
    exact hfollows rest
  · obtain ⟨dropped, hsub, hleft⟩ := ht.dependentsOf_eq hc
    obtain ⟨visited₁, hgrows, ht₁, hfollows⟩ := hdependents (ht.visit c) _ dropped hleft.symm
      (fun n hn => List.mem_cons_of_mem _ (hsub n hn)) fun n hn => hcanon c n ((Relation.mem_images ..).1 hn)
    refine ⟨visited₁, fun n hn => hgrows n (List.mem_cons_of_mem _ hn), hgrows c (List.mem_cons_self ..), ht₁,
      fun rest => ?_⟩
    rw [Registry.traversalFrom_enter hc, hfollows, Registry.traversalFrom_leave, ht.disposalOf_eq hc,
      List.append_assoc]

namespace Destroys

variable {start r r' : Registry} {visited ns : List Name} {log : List (Name × Callback)}

/-- A destruction follows the traversal of the same names, or of more names that were visited. -/
theorem follows (hd : Destroys r ns log r') (ht : Trails start visited r) (full dropped : List Name)
    (hfull : full.filter (· ∉ dropped) = ns) (hsub : ∀ n ∈ dropped, n ∈ visited)
    (hcanon : ∀ a b, start.graph.HasDependent a b → start.canonical b = b)
    (hnames : ∀ n ∈ full, start.canonical n = n) : Follows start visited full log r' := by
  induction hd generalizing visited full dropped with
  | nil r =>
    have hall : ∀ n ∈ full, n ∈ visited := fun n hn => hsub n (by simpa using List.filter_eq_nil_iff.1 hfull n hn)
    exact ⟨visited, fun _ hn => hn, ht, fun rest => Registry.traversalFrom_enter_all hall⟩
  | @cons r r₁ r₂ r₃ n c ns log₁ log₂ log₃ canonical hd₁ hd₂ hd₃ ih₁ ih₂ ih₃ =>
    -- the names before the next one that is destroyed were visited
    obtain ⟨skipped, others, rfl, hskipped, -, hothers⟩ := List.filter_eq_cons_iff.1 hfull
    have hskipped : ∀ k ∈ skipped, k ∈ visited := fun k hk => hsub k (by simpa using hskipped k hk)
    obtain rfl : n = c := by rw [← canonical, ht.canonical_eq, hnames n (by simp)]
    obtain ⟨visited₁, hgrows₁, hn₁, ht₁, hfollows₁⟩ := ht.follows_name hcanon fun ht' => ih₁ ht'
    -- it has no parts
    have hparts : ([] : List Name).filter (· ∉ ([] : List Name)) = r₁.graph.partsOf n := (ht₁.partsOf_eq_nil n).symm
    obtain ⟨visited₂, hgrows₂, ht₂, hfollows₂⟩ := ih₂ (ht₁.withoutParts n) [] [] hparts (by simp) (by simp)
    obtain ⟨visited₃, hgrows₃, ht₃, hfollows₃⟩ := ih₃ (ht₂.purge (hgrows₂ n hn₁)) others dropped hothers
      (fun k hk => hgrows₂ k (hgrows₁ k (hsub k hk))) fun k hk => hnames k (by simp [hk])
    refine ⟨visited₃, fun k hk => hgrows₃ k (hgrows₂ k (hgrows₁ k hk)), ht₃, fun rest => ?_⟩
    calc start.traversalFrom ((skipped ++ n :: others).map .enter ++ rest) visited
        = start.traversalFrom (.enter n :: (others.map .enter ++ rest)) visited := by
          rw [List.map_append, List.append_assoc, Registry.traversalFrom_enter_all hskipped]
          rfl
      _ = log₁ ++ r.disposalOf n ++ (log₂ ++ start.traversalFrom (others.map .enter ++ rest) visited₂) := by
          rw [hfollows₁, ← hfollows₂]
          rfl
      _ = log₁ ++ r.disposalOf n ++ log₂ ++ log₃ ++ start.traversalFrom rest visited₃ := by
          rw [hfollows₃]
          simp only [List.append_assoc]

/-- The destruction of all names with a callback calls what the traversal comes to. -/
theorem eq_traversal (hd : Destroys r r.disposals.keys.reverse log r') (hparts : r.graph.parts.pairs = [])
    (hcanon : ∀ a b, r.graph.HasDependent a b → r.canonical b = b)
    (hkeys : ∀ n ∈ r.disposals.keys, r.canonical n = n) : log = r.traversal := by
  obtain ⟨visited, -, -, hfollows⟩ := hd.follows (.refl hparts) r.disposals.keys.reverse []
    (by simp) (by simp) hcanon fun n hn => hkeys n (List.mem_reverse.1 hn)
  have hend : r.traversalFrom [] visited = [] := by simp only [Registry.traversalFrom, Relation.postorder_nil]; rfl
  rw [← List.append_nil log, ← hend, ← hfollows, List.append_nil]
  rfl

end Destroys

namespace Machine

variable {ω : Type} {h : Host ω} {m : Machine ω} {id : ThreadId} {fs : List (Frame ω)}

/-- Where names have no parts and are all canonical, and disposal callbacks issue no request, the destruction of
all names calls the callbacks in the order of a depth-first traversal with a list of visited names, on every graph
of dependents; only after a callback that panics the rest is dropped. The traversal begins at the names with a
callback, which stand in the order of their first registration. -/
theorem destroyAll_traverses (hadmits : m.shared.mutex.admits id = true)
    (hparts : m.shared.registry.graph.parts.pairs = [])
    (hcanon : ∀ a b, m.shared.registry.graph.HasDependent a b → m.shared.registry.canonical b = b)
    (hkeys : ∀ n ∈ m.shared.registry.disposals.keys, m.shared.registry.canonical n = n)
    (hquiet : ∀ row ∈ m.shared.registry.disposals.rows, (h.program row.2 .plain).Quiet)
    (ht : m.threads[id]? = some ⟨.point (.start .destroyAll), fs⟩) :
    (∀ r rows, m.shared.registry = Registry.withDisposals r rows → m.shared.registry.disposals.keys.reverse =
      ((rows.map fun row => r.canonical row.1).reverse ++ r.disposals.keys.reverse).dedup) ∧
    ∃ seg m' reply, Run h m seg m' ∧ (∀ e ∈ seg, e.mover = id) ∧ m'.threads[id]? = some ⟨.reply reply, fs⟩ ∧
      disposals seg <+: m.shared.registry.traversal ∧
      ((∀ row ∈ m.shared.registry.traversal, (h.program row.2 .plain).Settles) →
        reply = .ok .done ∧ disposals seg = m.shared.registry.traversal) := by
  refine ⟨fun r rows hrows => hrows ▸ r.reverse_keys_withDisposals rows, ?_⟩
  let closed : Registry := { m.shared.registry with cache := m.shared.registry.cache.setInDestruction true }
  obtain ⟨log, r', hd⟩ := Destroys.total closed closed.disposals.keys.reverse
  obtain rfl : log = m.shared.registry.traversal := hd.eq_traversal hparts hcanon hkeys
  have hcalled : ∀ row ∈ m.shared.registry.traversal, (h.program row.2 .plain).Quiet := fun row hrow =>
    hquiet row (hd.perm.mem_iff.1 (List.mem_append.2 (.inl hrow)))
  have hperforms : Thread.Performs h id fs m.shared ⟨.point (.start .destroyAll), fs⟩ m.shared.registry.traversal _ _ :=
    hd.performs_destroyAll rfl hcalled hadmits
  by_cases hsettle : ∀ row ∈ m.shared.registry.traversal, (h.program row.2 .plain).Settles
  · obtain ⟨s', -, halone⟩ := hperforms.alone hsettle
    obtain ⟨seg, m', hrun, hm, hreply, -, hlog⟩ := run_to_reply ht halone
    exact ⟨seg, m', _, hrun, hm, hreply, hlog ▸ List.prefix_rfl, fun _ => ⟨rfl, hlog⟩⟩
  · obtain ⟨seg, m', reply, hrun, hm, hreply, hpre⟩ := run_of_performs ht hperforms
    exact ⟨seg, m', reply, hrun, hm, hreply, hpre, fun hall => absurd hall hsettle⟩

/-- The destruction of all names is requested, where `a` and `b` depend on each other, `c` depends on itself and
on `a`, and the callback of `a` was replaced. -/
def tangledStart : Machine Unit where
  shared :=
    { registry :=
        Registry.withDisposals
          { graph := [("a", "b"), ("b", "a"), ("c", "c"), ("a", "c")].foldl
              (fun g edge => (g.addDependency edge.1 edge.2).value) .empty }
          [("a", 0), ("b", 1), ("c", 2), ("a", 3)]
      world := () }
  threads := [⟨.point (.start .destroyAll), []⟩]

theorem destroyAll_traverses_tangledStart :
    tangledStart.shared.registry.graph.parts.pairs = [] ∧
      ∃ seg m', Run Graph.returningHost tangledStart seg m' ∧ disposals seg = [("c", 2), ("a", 3), ("b", 1)] := by
  have hsettle : ∀ c o, (Graph.returningHost.program c o).Settles := fun _ _ => .ok _
  have hself : ∀ n, tangledStart.shared.registry.canonical n = n := fun n => rfl
  have ht : tangledStart.threads[0]? = some ⟨.point (.start .destroyAll), []⟩ := rfl
  have hadmits : tangledStart.shared.mutex.admits 0 = true := rfl
  obtain ⟨-, seg, m', reply, hr, -, -, -, hall⟩ := destroyAll_traverses hadmits rfl (fun _ b _ => hself b)
    (fun n _ => hself n) (fun row _ => (hsettle row.2 .plain).quiet) ht
  refine ⟨rfl, seg, m', hr, (hall fun _ _ => hsettle _ _).2.trans ?_⟩
  have hpairs : tangledStart.shared.registry.graph.dependents.pairs =
      [("a", "b"), ("b", "a"), ("c", "c"), ("a", "c")] := by decide
  have hkeys : tangledStart.shared.registry.disposals.keys = ["a", "b", "c"] := by decide
  -- `c` is left first, then `b` is entered, which `a` comes before
  have hleft : Relation.postorder [("a", "b"), ("b", "a"), ("c", "c"), ("a", "c")] (["a", "b", "c"].reverse.map .enter)
      [] = ["c", "a", "b"] := by
    simp [Relation.postorder, Relation.imagesIn]
  rw [Registry.traversal, Registry.traversalFrom, hpairs, hkeys, hleft]
  decide

end Machine

end Singletons
