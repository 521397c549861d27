import Singletons.Name

/-
Directories: tables keyed by names in the order of the names, which is the order of their code
points. Inserting keeps the rows sorted, so a directory with the same entries has the same rows.
-/

namespace Singletons

/-- A table from names to entries, sorted by name. -/
structure Directory (α : Type) where
  rows : List (Name × α)
  sorted : rows.Pairwise fun a b => a.1 < b.1
deriving DecidableEq

namespace Directory

variable {α : Type}

/-- The directory without rows. -/
def empty : Directory α := ⟨[], List.Pairwise.nil⟩

instance : Inhabited (Directory α) := ⟨empty⟩

/-- The rows with the entry `a` for the name `n`, put before the first greater name. -/
def place (n : Name) (a : α) : List (Name × α) → List (Name × α)
  | [] => [(n, a)]
  | (m, b) :: rest =>
    if n < m then (n, a) :: (m, b) :: rest
    else if n = m then (n, a) :: rest
    else (m, b) :: place n a rest

theorem mem_place {n : Name} {a : α} {l : List (Name × α)} {r : Name × α} (h : r ∈ place n a l) :
    r = (n, a) ∨ r ∈ l := by
  induction l with
  | nil => simpa [place] using h
  | cons s l ih =>
    obtain ⟨m, b⟩ := s
    unfold place at h
    split at h
    · simpa using h
    · split at h
      · rcases List.mem_cons.1 h with h | h
        · exact .inl h
        · exact .inr (List.mem_cons_of_mem _ h)
      · rcases List.mem_cons.1 h with h | h
        · exact .inr (h ▸ List.mem_cons_self)
        · rcases ih h with h | h
          · exact .inl h
          · exact .inr (List.mem_cons_of_mem _ h)

theorem lt_of_not_lt_of_ne {n m : Name} (h : ¬ n < m) (hne : n ≠ m) : m < n := by
  apply Classical.byContradiction
  intro h'
  exact hne (String.le_antisymm (String.not_lt.1 h') (String.not_lt.1 h))

theorem place_sorted (n : Name) (a : α) (l : List (Name × α))
    (h : l.Pairwise fun a b => a.1 < b.1) : (place n a l).Pairwise fun a b => a.1 < b.1 := by
  induction l with
  | nil => simp [place]
  | cons s l ih =>
    obtain ⟨m, b⟩ := s
    rw [List.pairwise_cons] at h
    unfold place
    split
    · rename_i hlt
      rw [List.pairwise_cons, List.pairwise_cons]
      refine ⟨fun r hr => ?_, h⟩
      rcases List.mem_cons.1 hr with rfl | hr
      · exact hlt
      · exact String.lt_trans hlt (h.1 r hr)
    · rename_i hnlt
      split
      · rename_i heq
        subst heq
        rw [List.pairwise_cons]
        exact ⟨h.1, h.2⟩
      · rename_i hne
        rw [List.pairwise_cons]
        refine ⟨fun r hr => ?_, ih h.2⟩
        rcases mem_place hr with rfl | hr
        · exact lt_of_not_lt_of_ne hnlt hne
        · exact h.1 r hr

/-- The entry of a name. -/
def get? (d : Directory α) (n : Name) : Option α := d.rows.lookup n

/-- The names of a directory, in order. -/
def keys (d : Directory α) : List Name := d.rows.map Prod.fst

/-- The number of rows. -/
def size (d : Directory α) : Nat := d.rows.length

/-- Gives a name the entry `a`. -/
def insert (d : Directory α) (n : Name) (a : α) : Directory α :=
  ⟨place n a d.rows, place_sorted n a d.rows d.sorted⟩

/-- Drops the row of a name. -/
def erase (d : Directory α) (n : Name) : Directory α :=
  ⟨d.rows.filter fun r => r.1 ≠ n, d.sorted.sublist List.filter_sublist⟩

/-- The directory with every entry mapped by `f`. -/
def map {β : Type} (f : α → β) (d : Directory α) : Directory β :=
  ⟨d.rows.map fun r => (r.1, f r.2), by rw [List.pairwise_map]; exact d.sorted⟩

/-! ## Looking up -/

theorem place_lookup_self (n : Name) (a : α) (l : List (Name × α)) : (place n a l).lookup n = some a := by
  induction l with
  | nil => simp [place]
  | cons s l ih =>
    obtain ⟨m, b⟩ := s
    unfold place
    split
    · rw [List.lookup_cons]; simp
    · split
      · rw [List.lookup_cons]; simp
      · rename_i hne
        rw [List.lookup_cons, show (n == m) = false by simpa using hne]
        exact ih

theorem place_lookup_of_ne {n m : Name} (h : m ≠ n) (a : α) (l : List (Name × α)) :
    (place n a l).lookup m = l.lookup m := by
  have hb : (m == n) = false := by simpa using h
  induction l with
  | nil => simp [place, List.lookup_cons, hb]
  | cons s l ih =>
    obtain ⟨k, b⟩ := s
    unfold place
    split
    · rw [List.lookup_cons, hb]
    · split
      · rename_i he
        subst he
        rw [List.lookup_cons, hb, List.lookup_cons, hb]
      · rw [List.lookup_cons, List.lookup_cons, ih]

@[simp] theorem get?_empty (n : Name) : (empty : Directory α).get? n = none := rfl

@[simp] theorem get?_insert_self (d : Directory α) (n : Name) (a : α) : (d.insert n a).get? n = some a :=
  place_lookup_self n a d.rows

theorem get?_insert_of_ne (d : Directory α) {n m : Name} (h : m ≠ n) (a : α) :
    (d.insert n a).get? m = d.get? m :=
  place_lookup_of_ne h a d.rows

/-- An inserted entry is found under its name, and nothing else changes. -/
theorem get?_insert (d : Directory α) (n m : Name) (a : α) :
    (d.insert n a).get? m = if m = n then some a else d.get? m := by
  split
  · rename_i h; rw [h, get?_insert_self]
  · rename_i h; exact get?_insert_of_ne d h a

/-- An erased name has no entry, and nothing else changes. -/
theorem get?_erase (d : Directory α) (n m : Name) :
    (d.erase n).get? m = if m = n then none else d.get? m := by
  unfold erase get?
  simp only
  induction d.rows with
  | nil => simp
  | cons s l ih =>
    obtain ⟨k, b⟩ := s
    rw [List.filter_cons]
    by_cases hk : k = n
    · subst hk
      simp only [ne_eq, not_true_eq_false, decide_false, Bool.false_eq_true, if_false]
      rw [List.lookup_cons]
      by_cases hm : m = k
      · simpa [hm] using ih
      · rw [show (m == k) = false by simpa using hm]; exact ih
    · simp only [ne_eq, hk, not_false_eq_true, decide_true, if_true, List.lookup_cons]
      by_cases hm : m = k
      · subst hm; simp [hk]
      · rw [show (m == k) = false by simpa using hm]; exact ih

@[simp] theorem get?_map {β : Type} (f : α → β) (d : Directory α) (n : Name) : (d.map f).get? n = (d.get? n).map f := by
  unfold map get?
  simp only
  induction d.rows with
  | nil => rfl
  | cons r l ih =>
    obtain ⟨k, a⟩ := r
    rw [List.map_cons, List.lookup_cons, List.lookup_cons, ih]
    cases n == k <;> rfl

theorem lookup_eq_some_iff_mem (l : List (Name × α)) (h : l.Pairwise fun a b => a.1 < b.1) (n : Name) (a : α) :
    l.lookup n = some a ↔ (n, a) ∈ l := by
  induction l with
  | nil => simp
  | cons s l ih =>
    obtain ⟨k, b⟩ := s
    rw [List.pairwise_cons] at h
    rw [List.lookup_cons]
    by_cases hn : n = k
    · subst hn
      simp only [beq_self_eq_true, Option.some.injEq, List.mem_cons, Prod.mk.injEq, true_and]
      constructor
      · rintro rfl; exact .inl rfl
      · rintro (rfl | hm)
        · rfl
        · exact absurd (h.1 _ hm) (String.lt_irrefl _)
    · rw [show (n == k) = false by simpa using hn]
      simp only [ih h.2, List.mem_cons, Prod.mk.injEq, hn, false_and, false_or]

/-- The rows of a directory are its entries, each name once. -/
theorem get?_eq_some_iff (d : Directory α) (n : Name) (a : α) : d.get? n = some a ↔ (n, a) ∈ d.rows :=
  lookup_eq_some_iff_mem d.rows d.sorted n a

theorem get?_eq_none_iff (d : Directory α) (n : Name) : d.get? n = none ↔ n ∉ d.keys := by
  constructor
  · intro h hk
    obtain ⟨⟨m, a⟩, hm, rfl⟩ := List.mem_map.1 hk
    rw [(get?_eq_some_iff d m a).2 hm] at h
    cases h
  · intro h
    cases he : d.get? n with
    | none => rfl
    | some a => exact absurd (List.mem_map.2 ⟨_, (get?_eq_some_iff d n a).1 he, rfl⟩) h

theorem get?_isSome_iff (d : Directory α) (n : Name) : (d.get? n).isSome = true ↔ n ∈ d.keys := by
  rw [← Decidable.not_iff_not, ← get?_eq_none_iff]
  cases d.get? n <;> simp

/-! ## Rows in their order -/

theorem place_of_mem {n : Name} {a : α} : ∀ {l : List (Name × α)}, (l.Pairwise fun a b => a.1 < b.1) → (n, a) ∈ l →
    place n a l = l
  | (m, b) :: l, hsorted, hmem => by
    obtain ⟨hlt, hsorted⟩ := List.pairwise_cons.1 hsorted
    rcases List.mem_cons.1 hmem with heq | hmem
    · cases heq
      rw [place, if_neg (String.lt_irrefl n), if_pos rfl]
    · have hm : m < n := hlt (n, a) hmem
      have hn : ¬ n < m := fun hn => String.lt_irrefl m (String.lt_trans hm hn)
      have hne : n ≠ m := fun heq => String.lt_irrefl m (heq ▸ hm)
      rw [place, if_neg hn, if_neg hne, place_of_mem hsorted hmem]

/-- Giving a name the entry that it has changes nothing. -/
theorem insert_of_get? {d : Directory α} {n : Name} {a : α} (h : d.get? n = some a) : d.insert n a = d := by
  cases d with
  | mk rows sorted =>
    simp only [insert, place_of_mem sorted ((get?_eq_some_iff ..).1 h)]

theorem keys_nodup (d : Directory α) : d.keys.Nodup := by
  rw [keys, List.Nodup, List.pairwise_map]
  exact d.sorted.imp fun {a b} (hlt : a.1 < b.1) (heq : a.1 = b.1) => String.lt_irrefl b.1 (heq ▸ hlt)

theorem place_last {n : Name} (a : α) : ∀ {l : List (Name × α)}, (∀ r ∈ l, r.1 < n) → place n a l = l ++ [(n, a)]
  | [], _ => rfl
  | (m, b) :: l, h => by
    have hm : m < n := h (m, b) (List.mem_cons_self ..)
    have hn : ¬ n < m := fun hn => String.lt_irrefl m (String.lt_trans hm hn)
    have hne : n ≠ m := fun heq => String.lt_irrefl m (heq ▸ hm)
    rw [place, if_neg hn, if_neg hne, place_last a fun r hr => h r (List.mem_cons_of_mem _ hr)]
    rfl

/-- Inserting the last rows of a directory, in their order, makes it of what stands before them. -/
theorem foldl_insert : ∀ (rows : List (Name × α)) {d whole : Directory α}, whole.rows = d.rows ++ rows →
    rows.foldl (fun d r => d.insert r.1 r.2) d = whole
  | [], ⟨_, _⟩, ⟨_, _⟩, h => by
    cases h.trans (List.append_nil _)
    rfl
  | (n, a) :: rows, d, whole, h => by
    have hsorted := whole.sorted
    rw [h, List.pairwise_append] at hsorted
    have hlast : (d.insert n a).rows = d.rows ++ [(n, a)] :=
      place_last a fun r hr => hsorted.2.2 r hr (n, a) (List.mem_cons_self ..)
    rw [List.foldl_cons, foldl_insert rows]
    rw [h, hlast, List.append_assoc]
    rfl

end Directory

end Singletons
