import Singletons.Registry.Basic

/-
A registry without some names: tables, rosters and edges with every row of these names struck out and
the order of the others kept. Taking out some names and then others takes out all of them.
-/

namespace Singletons

namespace Table

variable {α : Type}

theorem eq_of_rows : ∀ {t u : Table α}, t.rows = u.rows → t = u
  | ⟨_, _⟩, ⟨_, _⟩, rfl => rfl

/-- A table without the rows of some names. -/
def without (t : Table α) (ns : List Name) : Table α :=
  ⟨t.rows.filter fun row => row.1 ∉ ns, (List.filter_sublist.map Prod.fst).nodup t.nodup⟩

@[simp] theorem without_nil (t : Table α) : t.without [] = t := eq_of_rows (by simp [without])

theorem erase_eq (t : Table α) (n : Name) : t.erase n = t.without [n] :=
  eq_of_rows (by simp [erase, without])

theorem without_without (t : Table α) (ns ks : List Name) : (t.without ns).without ks = t.without (ns ++ ks) :=
  eq_of_rows (by
    simp only [without, List.filter_filter, List.mem_append, not_or]
    exact List.filter_congr fun row _ => by rw [Bool.eq_iff_iff]; simp [and_comm])

theorem mem_rows_of_get? {t : Table α} {n : Name} {a : α} (h : t.get? n = some a) : (n, a) ∈ t.rows := by
  obtain ⟨l₁, l₂, hrows, -⟩ := List.lookup_eq_some_iff.1 h
  rw [hrows]
  simp

theorem perm_lookup_filter (n : Name) : ∀ (rows : List (Name × α)), (rows.map Prod.fst).Nodup →
    (((rows.lookup n).map (n, ·)).toList ++ rows.filter fun row => row.1 ≠ n).Perm rows
  | [], _ => .refl _
  | (k, a) :: rows, hn => by
    rw [List.map_cons, List.nodup_cons] at hn
    by_cases hk : n = k
    · subst hk
      have hrest : (rows.filter fun row => row.1 ≠ n) = rows := by
        rw [List.filter_eq_self]
        intro row hrow
        have : row.1 ≠ n := fun heq => hn.1 (List.mem_map.2 ⟨row, hrow, heq⟩)
        simpa using this
      rw [lookup_cons_self, List.filter_cons_of_neg (by simp), hrest]
      exact .refl _
    · rw [lookup_cons_of_ne rows hk, List.filter_cons_of_pos (by simpa using Ne.symm hk)]
      exact List.perm_middle.trans ((perm_lookup_filter n rows hn.2).cons _)

/-- The row of a name and the rows without it make the table up. -/
theorem perm_erase (t : Table α) (n : Name) :
    (((t.get? n).map (n, ·)).toList ++ (t.erase n).rows).Perm t.rows :=
  perm_lookup_filter n t.rows t.nodup

end Table

namespace Roster

theorem eq_of_names : ∀ {r s : Roster}, r.names = s.names → r = s
  | ⟨_, _⟩, ⟨_, _⟩, rfl => rfl

/-- A roster without some names. -/
def without (r : Roster) (ns : List Name) : Roster :=
  ⟨r.names.filter (· ∉ ns), List.filter_sublist.nodup r.nodup⟩

@[simp] theorem without_nil (r : Roster) : r.without [] = r := eq_of_names (by simp [without])

theorem remove_eq (r : Roster) (n : Name) : r.remove n = r.without [n] :=
  eq_of_names (by simp [remove, without])

theorem without_without (r : Roster) (ns ks : List Name) : (r.without ns).without ks = r.without (ns ++ ks) :=
  eq_of_names (by
    simp only [without, List.filter_filter, List.mem_append, not_or]
    exact List.filter_congr fun n _ => by rw [Bool.eq_iff_iff]; simp [and_comm])

end Roster

namespace Cache

/-- A cache without the slots, the completions and the produced objects of some names. -/
def without (c : Cache) (ns : List Name) : Cache :=
  { c with
    slots := c.slots.without ns
    completed := c.completed.without ns
    produced := c.produced.without ns }

@[simp] theorem without_nil (c : Cache) : c.without [] = c := by simp [without]

theorem remove_eq (c : Cache) (n : Name) : c.remove n = c.without [n] := by
  simp [remove, without, Table.erase_eq, Roster.remove_eq]

theorem without_without (c : Cache) (ns ks : List Name) : (c.without ns).without ks = c.without (ns ++ ks) := by
  simp [without, Table.without_without, Roster.without_without]

end Cache

namespace Relation

theorem eq_of_pairs : ∀ {r s : Relation}, r.pairs = s.pairs → r = s
  | ⟨_, _⟩, ⟨_, _⟩, rfl => rfl

/-- A relation without the pairs that satisfy a test. -/
def drop (r : Relation) (p : Name × Name → Bool) : Relation :=
  ⟨r.pairs.filter fun pair => !p pair, List.filter_sublist.nodup r.nodup⟩

/-- A relation without the pairs that some names occur in. -/
def without (r : Relation) (ns : List Name) : Relation := r.drop fun p => p.1 ∈ ns || p.2 ∈ ns

theorem mem_pairs_drop (r : Relation) (t : Name × Name → Bool) (p : Name × Name) :
    p ∈ (r.drop t).pairs ↔ p ∈ r.pairs ∧ t p = false := by
  simp [drop]

theorem mem_pairs_without (r : Relation) (ns : List Name) (p : Name × Name) :
    p ∈ (r.without ns).pairs ↔ p ∈ r.pairs ∧ p.1 ∉ ns ∧ p.2 ∉ ns := by
  simp [without, mem_pairs_drop]

theorem drop_eq_self {r : Relation} {t : Name × Name → Bool} (h : ∀ p ∈ r.pairs, t p = false) : r.drop t = r :=
  eq_of_pairs (List.filter_eq_self.2 fun p hp => by rw [h p hp]; rfl)

theorem drop_drop (r : Relation) (t u : Name × Name → Bool) : (r.drop t).drop u = r.drop fun p => t p || u p :=
  eq_of_pairs (by
    simp only [drop, List.filter_filter, Bool.not_or]
    exact List.filter_congr fun p _ => Bool.and_comm ..)

theorem drop_congr {r : Relation} {t u : Name × Name → Bool} (h : ∀ p ∈ r.pairs, t p = u p) : r.drop t = r.drop u :=
  eq_of_pairs (List.filter_congr fun p hp => by rw [h p hp])

theorem dropFrom_eq (r : Relation) (n : Name) : r.dropFrom n = r.drop fun p => p.1 == n :=
  eq_of_pairs (List.filter_congr fun p _ => by rw [Bool.eq_iff_iff]; simp)

theorem dropInto_eq (r : Relation) (n : Name) : r.dropInto n = r.drop fun p => p.2 == n :=
  eq_of_pairs (List.filter_congr fun p _ => by rw [Bool.eq_iff_iff]; simp)

end Relation

namespace Graph

/-- A graph without the edges that some names occur in. -/
def without (g : Graph) (ns : List Name) : Graph where
  dependents := g.dependents.without ns
  dependencies := g.dependencies.without ns
  parts := g.parts.without ns

end Graph

namespace Registry

/-- A registry without some names. -/
def without (r : Registry) (ns : List Name) : Registry :=
  { r with cache := r.cache.without ns, graph := r.graph.without ns, disposals := r.disposals.without ns }

end Registry

end Singletons
