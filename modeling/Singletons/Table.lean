import Singletons.Name

/-
Tables keyed by names in the order of first insertion. A new key goes to the end, a key that is
already there keeps its place and takes the new entry, and erasing a key closes the gap. Each
operation is described through `get?` and `keys`.
-/

namespace Singletons

/-- A table from names to entries, in the order in which the names were first inserted. -/
structure Table (α : Type) where
  rows : List (Name × α)
  nodup : (rows.map Prod.fst).Nodup
deriving DecidableEq

namespace Table

variable {α : Type}

/-- The table without rows. -/
def empty : Table α := ⟨[], List.nodup_nil⟩

/-- The entry of a name. -/
def get? (t : Table α) (n : Name) : Option α := t.rows.lookup n

/-- The names of a table, first inserted first. -/
def keys (t : Table α) : List Name := t.rows.map Prod.fst

/-- The number of rows. -/
def size (t : Table α) : Nat := t.rows.length

/-- Whether a name has an entry. -/
def contains (t : Table α) (n : Name) : Bool := t.keys.contains n

/-- Gives a name the entry `a`, in its old place if it has one and at the end otherwise. -/
def insert (t : Table α) (n : Name) (a : α) : Table α :=
  if h : n ∈ t.keys then
    ⟨t.rows.map fun r => if r.1 = n then (n, a) else r, by
      have : (t.rows.map fun r => if r.1 = n then (n, a) else r).map Prod.fst = t.rows.map Prod.fst := by
        rw [List.map_map]
        apply List.map_congr_left
        intro r _
        simp only [Function.comp_apply]
        split
        · rename_i e; exact e.symm
        · rfl
      rw [this]; exact t.nodup⟩
  else
    ⟨t.rows ++ [(n, a)], by
      rw [List.map_append, List.nodup_append]
      refine ⟨t.nodup, by simp, fun x hx y hy => ?_⟩
      simp only [List.map_cons, List.map_nil, List.mem_singleton] at hy
      subst hy
      rintro rfl
      exact h hx⟩

/-- Drops the row of a name. -/
def erase (t : Table α) (n : Name) : Table α :=
  ⟨t.rows.filter fun r => r.1 ≠ n, (List.filter_sublist.map Prod.fst).nodup t.nodup⟩

/-! ## Looking up -/

theorem lookup_cons_self (l : List (Name × α)) (n : Name) (a : α) : ((n, a) :: l).lookup n = some a := by
  rw [List.lookup_cons]; simp

theorem lookup_cons_of_ne (l : List (Name × α)) {n m : Name} (h : m ≠ n) (a : α) :
    ((n, a) :: l).lookup m = l.lookup m := by
  rw [List.lookup_cons, show (m == n) = false by simpa using h]

theorem lookup_isSome_iff (l : List (Name × α)) (n : Name) :
    (l.lookup n).isSome = true ↔ n ∈ l.map Prod.fst := by
  induction l with
  | nil => simp
  | cons r l ih =>
    obtain ⟨m, a⟩ := r
    by_cases h : n = m
    · subst h; simp
    · rw [lookup_cons_of_ne l h, ih]; simp [h]

theorem get?_isSome_iff (t : Table α) (n : Name) : (t.get? n).isSome = true ↔ n ∈ t.keys :=
  lookup_isSome_iff t.rows n

theorem get?_eq_none_iff (t : Table α) (n : Name) : t.get? n = none ↔ n ∉ t.keys := by
  rw [← get?_isSome_iff]; cases t.get? n <;> simp

@[simp] theorem get?_empty (n : Name) : (empty : Table α).get? n = none := rfl

theorem lookup_replace_self (l : List (Name × α)) (n : Name) (a : α) (h : n ∈ l.map Prod.fst) :
    (l.map fun r => if r.1 = n then (n, a) else r).lookup n = some a := by
  induction l with
  | nil => simp at h
  | cons r l ih =>
    obtain ⟨k, b⟩ := r
    simp only [List.map_cons]
    by_cases hk : k = n
    · rw [if_pos hk, lookup_cons_self]
    · rw [if_neg hk, lookup_cons_of_ne _ (Ne.symm hk)]
      refine ih ?_
      simpa [Ne.symm hk] using h

theorem lookup_replace_of_ne (l : List (Name × α)) {n m : Name} (h : m ≠ n) (a : α) :
    (l.map fun r => if r.1 = n then (n, a) else r).lookup m = l.lookup m := by
  induction l with
  | nil => rfl
  | cons r l ih =>
    obtain ⟨k, b⟩ := r
    simp only [List.map_cons]
    by_cases hk : k = n
    · rw [if_pos hk, lookup_cons_of_ne _ h, ih, lookup_cons_of_ne l (by rw [hk]; exact h)]
    · rw [if_neg hk]
      by_cases hm : m = k
      · subst hm; rw [lookup_cons_self, lookup_cons_self]
      · rw [lookup_cons_of_ne _ hm, lookup_cons_of_ne _ hm, ih]

@[simp] theorem get?_insert_self (t : Table α) (n : Name) (a : α) : (t.insert n a).get? n = some a := by
  unfold insert get?
  split
  · rename_i h; exact lookup_replace_self t.rows n a h
  · rename_i h
    have hn : t.rows.lookup n = none := (get?_eq_none_iff t n).2 h
    simp only [List.lookup_append, hn, lookup_cons_self, Option.none_or]

theorem get?_insert_of_ne (t : Table α) {n m : Name} (h : m ≠ n) (a : α) :
    (t.insert n a).get? m = t.get? m := by
  unfold insert get?
  split
  · exact lookup_replace_of_ne t.rows h a
  · simp only [List.lookup_append, lookup_cons_of_ne _ h, List.lookup_nil, Option.or_none]

/-- An inserted entry is found under its name, and nothing else changes. -/
theorem get?_insert (t : Table α) (n m : Name) (a : α) :
    (t.insert n a).get? m = if m = n then some a else t.get? m := by
  split
  · rename_i h; rw [h, get?_insert_self]
  · rename_i h; exact get?_insert_of_ne t h a

theorem lookup_filter_ne (l : List (Name × α)) (n m : Name) :
    (l.filter fun r => r.1 ≠ n).lookup m = if m = n then none else l.lookup m := by
  induction l with
  | nil => simp
  | cons r l ih =>
    obtain ⟨k, a⟩ := r
    rw [List.filter_cons]
    by_cases hk : k = n
    · subst hk
      simp only [ne_eq, not_true_eq_false, decide_false, Bool.false_eq_true, if_false]
      rw [show (fun r : Name × α => decide (¬r.fst = k)) = fun r => decide (r.fst ≠ k) from rfl, ih]
      by_cases hm : m = k
      · simp [hm]
      · rw [if_neg hm, if_neg hm, lookup_cons_of_ne l hm]
    · simp only [ne_eq, hk, not_false_eq_true, decide_true, if_true]
      by_cases hm : m = k
      · subst hm; rw [lookup_cons_self, lookup_cons_self, if_neg hk]
      · rw [lookup_cons_of_ne _ hm, lookup_cons_of_ne _ hm]; exact ih

/-- An erased name has no entry, and nothing else changes. -/
theorem get?_erase (t : Table α) (n m : Name) :
    (t.erase n).get? m = if m = n then none else t.get? m :=
  lookup_filter_ne t.rows n m

@[simp] theorem get?_erase_self (t : Table α) (n : Name) : (t.erase n).get? n = none := by
  rw [get?_erase, if_pos rfl]

theorem get?_erase_of_ne (t : Table α) {n m : Name} (h : m ≠ n) : (t.erase n).get? m = t.get? m := by
  rw [get?_erase, if_neg h]

/-! ## The order of names -/

/-- Inserting appends a new name and leaves the order of the others alone. -/
theorem keys_insert (t : Table α) (n : Name) (a : α) :
    (t.insert n a).keys = if n ∈ t.keys then t.keys else t.keys ++ [n] := by
  unfold insert
  split
  · rename_i h
    simp only [keys, List.map_map]
    apply List.map_congr_left
    intro r _
    simp only [Function.comp_apply]
    split
    · rename_i e; exact e.symm
    · rfl
  · rename_i h
    simp [keys]

theorem keys_nodup (t : Table α) : t.keys.Nodup := t.nodup

end Table

end Singletons
