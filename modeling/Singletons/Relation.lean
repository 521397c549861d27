import Singletons.Name

/-
Finite relations between names, as pairs in the order in which they were recorded, and the search
along them. `leadsTo` asks whether a name can be reached through at least one pair, where each name
met on the way may be mapped to another before the search goes on; it terminates on every relation, cyclic
or not, because each name is expanded once.
-/

namespace Singletons

/-- A finite relation between names: pairs without repetition, first recorded first. -/
structure Relation where
  pairs : List (Name × Name)
  nodup : pairs.Nodup
deriving DecidableEq

namespace Relation

/-- The relation without pairs. -/
def empty : Relation := ⟨[], List.nodup_nil⟩

/-- The names that a list of pairs relates to `n`, in order. -/
def imagesIn (pairs : List (Name × Name)) (n : Name) : List Name :=
  pairs.filterMap fun p => if p.1 = n then some p.2 else none

/-- The names related to `n`, in the order in which they were recorded. -/
def images (r : Relation) (n : Name) : List Name := imagesIn r.pairs n

/-- The number of pairs. -/
def size (r : Relation) : Nat := r.pairs.length

/-- Whether a pair is recorded. -/
def holds (r : Relation) (a b : Name) : Bool := r.pairs.contains (a, b)

/-- Records a pair, after the others if it is new. -/
def add (r : Relation) (a b : Name) : Relation :=
  if h : (a, b) ∈ r.pairs then r
  else ⟨r.pairs ++ [(a, b)], by
    rw [List.nodup_append]
    refine ⟨r.nodup, by simp, fun x hx y hy => ?_⟩
    simp only [List.mem_singleton] at hy
    subst hy
    rintro rfl
    exact h hx⟩

/-- Drops every pair that starts at `n`. -/
def dropFrom (r : Relation) (n : Name) : Relation :=
  ⟨r.pairs.filter fun p => p.1 ≠ n, List.filter_sublist.nodup r.nodup⟩

/-- Drops every pair that ends at `n`. -/
def dropInto (r : Relation) (n : Name) : Relation :=
  ⟨r.pairs.filter fun p => p.2 ≠ n, List.filter_sublist.nodup r.nodup⟩

/-! ## Which pairs are recorded -/

theorem holds_iff (r : Relation) (a b : Name) : r.holds a b = true ↔ (a, b) ∈ r.pairs := by
  simp [holds]

theorem mem_imagesIn (pairs : List (Name × Name)) (n m : Name) : m ∈ imagesIn pairs n ↔ (n, m) ∈ pairs := by
  simp only [imagesIn, List.mem_filterMap, Option.ite_none_right_eq_some, Option.some.injEq]
  constructor
  · rintro ⟨⟨a, b⟩, h, rfl, rfl⟩; exact h
  · intro h; exact ⟨(n, m), h, rfl, rfl⟩

theorem mem_images (r : Relation) (n m : Name) : m ∈ r.images n ↔ (n, m) ∈ r.pairs :=
  mem_imagesIn r.pairs n m

theorem mem_pairs_add (r : Relation) (a b : Name) (p : Name × Name) :
    p ∈ (r.add a b).pairs ↔ p = (a, b) ∨ p ∈ r.pairs := by
  unfold add
  split
  · rename_i h
    constructor
    · exact .inr
    · rintro (rfl | h')
      · exact h
      · exact h'
  · simp [or_comm]

theorem mem_pairs_dropFrom (r : Relation) (n : Name) (p : Name × Name) :
    p ∈ (r.dropFrom n).pairs ↔ p ∈ r.pairs ∧ p.1 ≠ n := by
  simp [dropFrom]

theorem mem_pairs_dropInto (r : Relation) (n : Name) (p : Name × Name) :
    p ∈ (r.dropInto n).pairs ↔ p ∈ r.pairs ∧ p.2 ≠ n := by
  simp [dropInto]

/-! ## Searching -/

/-- The number of pairs that start at a name not yet expanded. -/
def unexpanded (pairs : List (Name × Name)) (seen : List Name) : Nat :=
  (pairs.filter fun p => !seen.contains p.1).length

theorem unexpanded_lt {pairs : List (Name × Name)} {seen : List Name} {n : Name}
    (hn : seen.contains n = false) {p : Name × Name} (hp : p ∈ pairs) (he : p.1 = n) :
    unexpanded pairs (n :: seen) < unexpanded pairs seen := by
  unfold unexpanded
  have hsub : (pairs.filter fun p => !(n :: seen).contains p.1) =
      (pairs.filter fun p => !seen.contains p.1).filter fun p => !(p.1 == n) := by
    rw [List.filter_filter]
    apply List.filter_congr
    intro q _
    simp only [List.contains_cons, Bool.not_or]
  rw [hsub]
  have hmem : p ∈ pairs.filter fun p => !seen.contains p.1 := by
    rw [List.mem_filter]; exact ⟨hp, by rw [he, hn]; rfl⟩
  have := List.length_filter_lt_length_iff_exists (l := pairs.filter fun p => !seen.contains p.1)
    (p := fun p => !(p.1 == n))
  exact this.2 ⟨p, hmem, by simp [he]⟩

theorem unexpanded_le (pairs : List (Name × Name)) (seen : List Name) (n : Name) :
    unexpanded pairs (n :: seen) ≤ unexpanded pairs seen := by
  unfold unexpanded
  have hsub : (pairs.filter fun p => !(n :: seen).contains p.1) =
      (pairs.filter fun p => !seen.contains p.1).filter fun p => !(p.1 == n) := by
    rw [List.filter_filter]
    apply List.filter_congr
    intro q _
    simp only [List.contains_cons, Bool.not_or]
  rw [hsub]
  exact List.length_filter_le ..

/-- Whether the search that still has to expand `pending`, and has expanded `seen`, comes to a name
that is related to `goal`. Each name related to an expanded one is mapped by `f` and expanded in
its turn. -/
def search (pairs : List (Name × Name)) (f : Name → Name) (goal : Name) :
    (pending seen : List Name) → Bool
  | [], _ => false
  | n :: rest, seen =>
    if _hs : seen.contains n then search pairs f goal rest seen
    else
      if (imagesIn pairs n).contains goal then true
      else search pairs f goal ((imagesIn pairs n).map f ++ rest) (n :: seen)
termination_by pending seen => (unexpanded pairs seen, pending.length)
decreasing_by
  · exact Prod.Lex.right _ (by simp)
  · rcases hi : imagesIn pairs n with _ | ⟨m, ms⟩
    · rcases Nat.lt_or_ge (unexpanded pairs (n :: seen)) (unexpanded pairs seen) with h | h
      · exact Prod.Lex.left _ _ h
      · have := Nat.le_antisymm (unexpanded_le pairs seen n) h
        rw [this]
        exact Prod.Lex.right _ (by simp)
    · have hm : (n, m) ∈ pairs := (mem_imagesIn pairs n m).1 (by rw [hi]; exact List.mem_cons_self)
      exact Prod.Lex.left _ _ (unexpanded_lt (by simpa using _hs) hm rfl)

/-- Whether the pairs lead from `start` to `goal`: some name that the search from `f start` expands
is related to `goal`. -/
def leadsTo (r : Relation) (f : Name → Name) (start goal : Name) : Bool :=
  search r.pairs f goal [f start] []

/-! ## Collecting -/

/-- The names that a traversal meets below the names of `pending`, each before the names related to
it, after those met already. A name is met once. -/
def collect (pairs : List (Name × Name)) : (pending met : List Name) → List Name
  | [], met => met
  | n :: rest, met =>
    if _hs : met.contains n then collect pairs rest met
    else collect pairs (imagesIn pairs n ++ rest) (met ++ [n])
termination_by pending met => (unexpanded pairs met, pending.length)
decreasing_by
  · exact Prod.Lex.right _ (by simp)
  · have hperm : unexpanded pairs (met ++ [n]) = unexpanded pairs (n :: met) := by
      unfold unexpanded
      congr 2
      funext q
      rw [Bool.eq_iff_iff]
      simp [or_comm]
    rw [hperm]
    rcases hi : imagesIn pairs n with _ | ⟨m, ms⟩
    · rcases Nat.lt_or_ge (unexpanded pairs (n :: met)) (unexpanded pairs met) with h | h
      · exact Prod.Lex.left _ _ h
      · have := Nat.le_antisymm (unexpanded_le pairs met n) h
        rw [this]
        exact Prod.Lex.right _ (by simp)
    · have hm : (n, m) ∈ pairs := (mem_imagesIn pairs n m).1 (by rw [hi]; exact List.mem_cons_self)
      exact Prod.Lex.left _ _ (unexpanded_lt (by simpa using _hs) hm rfl)

/-- The names related to `n`, those related to them, and so on, depth first. -/
def below (r : Relation) (n : Name) : List Name := collect r.pairs (r.images n) []

end Relation

end Singletons
