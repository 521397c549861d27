import Singletons.Alias.Resolve
import Singletons.Proofs.Relation.Search

/-
Aliases form no circles. Every change of the links is an erasure or an insertion behind the check for a
circle, also in the working table of a resolution, so from the empty map on the links stay acyclic
(`Reached.acyclic`). The way to a canonical name then passes no name twice and ends within as many links
as there are aliases, at a name that is no alias.
-/

namespace Singletons

namespace Aliases

/-- Whether `a` is an alias of `n`. -/
def Links (entries : Directory Name) (a n : Name) : Prop := entries.get? a = some n

/-- Whether no links lead from a name back to it. -/
def Acyclic (entries : Directory Name) : Prop := ∀ n, ¬ Relation.TransGen (Links entries) n n

variable {entries entries' : Directory Name} {a n name : Name}

theorem mem_inverse : (n, a) ∈ (inverse entries).pairs ↔ Links entries a n := by
  unfold inverse Links
  rw [Directory.get?_eq_some_iff, List.mem_map]
  constructor
  · rintro ⟨⟨b, k⟩, hrow, heq⟩
    cases heq
    exact hrow
  · intro hrow
    exact ⟨(a, n), hrow, rfl⟩

/-- The search backwards from a name finds what leads to the name. -/
theorem linked_iff : linked entries a n = true ↔ Relation.TransGen (Links entries) a n := by
  have hback : Relation.Next (inverse entries).pairs id = Function.swap (Links entries) := by
    funext k l
    apply propext
    constructor
    · rintro ⟨m, hm, rfl⟩; exact mem_inverse.1 hm
    · intro h; exact ⟨l, mem_inverse.2 h, rfl⟩
  unfold linked
  rw [Relation.leadsTo_iff, hback, Relation.TransGen.head'_iff]
  constructor
  · rintro ⟨k, hway, hk⟩
    exact ⟨k, mem_inverse.1 hk, Relation.reflTransGen_swap.1 hway⟩
  · rintro ⟨k, hk, hway⟩
    exact ⟨k, Relation.reflTransGen_swap.2 hway, mem_inverse.2 hk⟩

/-- No links lead away from a name that is no alias. -/
theorem linked_eq_false (h : entries.get? a = none) : linked entries a n = false := by
  rw [Bool.eq_false_iff]
  intro hlinked
  obtain ⟨k, hk, -⟩ := Relation.TransGen.head'_iff.1 (linked_iff.1 hlinked)
  unfold Links at hk
  rw [h] at hk
  cases hk

/-- A link to a name that is no alias closes no circle. -/
theorem link_of_get?_eq_none (h : entries.get? name = none) : link entries name a = .ok (entries.insert a name) := by
  rw [link, linked_eq_false h]
  rfl

theorem Acyclic.mono (h : Acyclic entries) (hle : ∀ a n, Links entries' a n → Links entries a n) : Acyclic entries' :=
  fun n hn => h n (Relation.TransGen.mono hle _ _ hn)

theorem Acyclic.empty : Acyclic .empty := by
  intro n hn
  obtain ⟨k, hk, -⟩ := Relation.TransGen.head'_iff.1 hn
  simp [Links] at hk

theorem links_erase_iff {k : Name} : Links (entries.erase a) k n ↔ k ≠ a ∧ Links entries k n := by
  unfold Links
  rw [Directory.get?_erase]
  by_cases hk : k = a <;> simp [hk]

theorem links_insert_iff {k : Name} :
    Links (entries.insert a name) k n ↔ (k = a ∧ n = name) ∨ (k ≠ a ∧ Links entries k n) := by
  unfold Links
  rw [Directory.get?_insert]
  by_cases hk : k = a <;> simp [hk, eq_comm]

theorem Acyclic.erase (h : Acyclic entries) (a : Name) : Acyclic (entries.erase a) :=
  h.mono fun _ _ hkn => (links_erase_iff.1 hkn).2

/-- A way that comes to `a` from another name does so before it takes the link of `a`. -/
theorem transGen_erase_iff {k : Name} (hne : k ≠ a) :
    Relation.TransGen (Links (entries.erase a)) k a ↔ Relation.TransGen (Links entries) k a := by
  constructor
  · exact Relation.TransGen.mono (fun _ _ h => (links_erase_iff.1 h).2) _ _
  · intro hway
    induction hway using Relation.TransGen.head_induction_on with
    | single hka => exact .single (links_erase_iff.2 ⟨hne, hka⟩)
    | @head k l hkl _ ih =>
      have hfirst : Links (entries.erase a) k l := links_erase_iff.2 ⟨hne, hkl⟩
      by_cases hl : l = a
      · subst hl
        exact .single hfirst
      · exact .head hfirst (ih hl)

/-- A way along the links after `a` was linked to `name` is an old one, or one to `a` and on from `name`. -/
theorem transGen_insert {k n : Name} (hway : Relation.TransGen (Links (entries.insert a name)) k n) :
    Relation.TransGen (Links entries) k n ∨
      (Relation.ReflTransGen (Links entries) k a ∧ Relation.ReflTransGen (Links entries) name n) := by
  induction hway with
  | single hkn =>
    rcases links_insert_iff.1 hkn with ⟨rfl, rfl⟩ | ⟨-, h⟩
    · exact .inr ⟨.refl, .refl⟩
    · exact .inl (.single h)
  | @tail b c _ hbc ih =>
    rcases links_insert_iff.1 hbc with ⟨rfl, rfl⟩ | ⟨-, h⟩
    · rcases ih with ih | ⟨hka, -⟩
      · exact .inr ⟨ih.to_reflTransGen, .refl⟩
      · exact .inr ⟨hka, .refl⟩
    · rcases ih with ih | ⟨hka, hname⟩
      · exact .inl (ih.tail h)
      · exact .inr ⟨hka, hname.tail h⟩

/-- A link closes no circle if the name does not lead to the alias. -/
theorem Acyclic.insert (h : Acyclic entries) (hne : name ≠ a)
    (hno : ¬ Relation.TransGen (Links entries) name a) : Acyclic (entries.insert a name) := by
  intro n hn
  rcases transGen_insert hn with hn | ⟨hna, hname⟩
  · exact h n hn
  · rcases Relation.reflTransGen_iff_eq_or_transGen.1 (hname.trans hna) with heq | hway
    · exact hne heq.symm
    · exact hno hway

theorem Acyclic.link (h : Acyclic entries) (hne : name ≠ a) (hl : link entries name a = .ok entries') :
    Acyclic entries' := by
  unfold Aliases.link at hl
  split at hl
  · cases hl
  · rename_i hlinked
    cases hl
    exact h.insert hne fun hway => hlinked (linked_iff.2 hway)

/-! ## Changes of the links -/

variable {m m' : Aliases} {overriding : Bool} {resolver : Resolver} {working working' : Directory Name}

/-- The first alias closes no circle. -/
theorem register_first (overriding : Bool) (hname : Text.isBlank name = false) (ha : Text.isBlank a = false)
    (hne : a ≠ name) : register { overriding } name a =
      ⟨.ok { entries := Directory.empty.insert a name, overriding }, [.aliasRegistered a name]⟩ := by
  unfold register
  rw [hname, ha, if_neg hne, link_of_get?_eq_none (Directory.get?_empty name)]
  rfl

/-- What a registration that succeeds has done: nothing, or it dropped the link of a name that is its own alias, or
it wrote the link behind the check. -/
theorem register_eq_ok (hr : (m.register name a).value = .ok m') :
    Text.isBlank name = false ∧ Text.isBlank a = false ∧
      ((m' = m ∧ (a = name ∨ m.target? a = some name)) ∨
        (a = name ∧ m' = { m with entries := m.entries.erase a }) ∨
        (a ≠ name ∧ (m.target? a = none ∨ m.overriding = true) ∧
          ∃ entries, Aliases.link m.entries name a = .ok entries ∧ m' = { m with entries })) := by
  unfold register at hr
  split at hr
  · cases hr
  rename_i hname
  split at hr
  · cases hr
  rename_i ha
  refine ⟨Bool.eq_false_iff.2 hname, Bool.eq_false_iff.2 ha, ?_⟩
  split at hr
  · rename_i hself
    split at hr
    · cases hr; exact .inr (.inl ⟨hself, rfl⟩)
    · cases hr; exact .inl ⟨rfl, .inl hself⟩
  rename_i hne
  -- both branches that write do so behind the check
  cases hl : Aliases.link m.entries name a with
  | error f =>
    simp only [hl] at hr
    split at hr
    · cases hr
    · rename_i registered htarget
      split at hr
      · rename_i hthere
        cases hr
        exact .inl ⟨rfl, .inr (hthere ▸ htarget)⟩
      · split at hr <;> cases hr
  | ok entries =>
    simp only [hl] at hr
    split at hr
    · rename_i htarget
      cases hr
      exact .inr (.inr ⟨hne, .inl htarget, entries, rfl, rfl⟩)
    · rename_i registered htarget
      split at hr
      · rename_i hthere
        cases hr
        exact .inl ⟨rfl, .inr (hthere ▸ htarget)⟩
      · split at hr
        · rename_i hoverriding
          cases hr
          exact .inr (.inr ⟨hne, .inr hoverriding, entries, rfl, rfl⟩)
        · cases hr

theorem acyclic_register (h : Acyclic m.entries) (hr : (m.register name a).value = .ok m') : Acyclic m'.entries := by
  obtain ⟨-, -, ⟨rfl, -⟩ | ⟨-, rfl⟩ | ⟨hne, -, entries, hl, rfl⟩⟩ := register_eq_ok hr
  · exact h
  · exact h.erase a
  · exact h.link (Ne.symm hne) hl

theorem acyclic_remove (h : Acyclic m.entries) (hr : m.remove a = .ok m') : Acyclic m'.entries := by
  unfold remove at hr
  split at hr
  · cases hr; exact h.erase a
  · cases hr

/-- What a link comes to that gets the form from `k` to `v`, by what stands under `k`. -/
theorem relink_cases (overriding : Bool) (working : Directory Name) (a n k v : Name) :
    (k = a ∧ n = v ∧ (relink overriding working a n k v).value = .ok working) ∨
      (k = a ∧ n ≠ v ∧ (relink overriding working a n k v).value = Aliases.link working v a) ∨
      (k ≠ a ∧ working.get? k = some v ∧ (relink overriding working a n k v).value = .ok (working.erase a)) ∨
      (k ≠ a ∧ working.get? k ≠ some v ∧ (working.get? k = none ∨ overriding = true) ∧
        (relink overriding working a n k v).value = Aliases.link (working.erase a) v k) ∨
      (k ≠ a ∧ overriding = false ∧ ∃ w, working.get? k = some w ∧ w ≠ v ∧
        (relink overriding working a n k v).value = .error (.conflict (.resolvedAliasTaken k a v w))) := by
  unfold relink
  by_cases hk : k = a
  · rw [if_pos hk]
    by_cases hn : n = v
    · rw [if_pos hn]
      exact .inl ⟨hk, hn, rfl⟩
    · rw [if_neg hn]
      exact .inr (.inl ⟨hk, hn, rfl⟩)
  · rw [if_neg hk]
    cases hget : working.get? k with
    | none => exact .inr (.inr (.inr (.inl ⟨hk, nofun, .inl rfl, rfl⟩)))
    | some w =>
      dsimp only
      by_cases hw : w = v
      · rw [if_pos hw]
        exact .inr (.inr (.inl ⟨hk, congrArg some hw, rfl⟩))
      · rw [if_neg hw]
        have hother : some w ≠ some v := fun heq => hw (Option.some.inj heq)
        cases overriding with
        | true => exact .inr (.inr (.inr (.inl ⟨hk, hother, .inr rfl, rfl⟩)))
        | false => exact .inr (.inr (.inr (.inr ⟨hk, rfl, w, rfl, hw, rfl⟩)))

theorem acyclic_relink {registered newAlias newName : Name} (h : Acyclic working) (hne : newAlias ≠ newName)
    (hr : (relink overriding working a registered newAlias newName).value = .ok working') : Acyclic working' := by
  rcases relink_cases overriding working a registered newAlias newName with
    ⟨-, -, hvalue⟩ | ⟨rfl, -, hvalue⟩ | ⟨-, -, hvalue⟩ | ⟨-, -, -, hvalue⟩ | ⟨-, -, w, -, -, hvalue⟩ <;>
    rw [hvalue] at hr
  · cases hr; exact h
  · exact h.link (Ne.symm hne) hr
  · cases hr; exact h.erase a
  · exact (h.erase a).link (Ne.symm hne) hr
  · cases hr

theorem acyclic_resolveLink {registered : Name} (h : Acyclic working)
    (hr : (resolveLink overriding resolver working a registered).value = .ok working') : Acyclic working' := by
  unfold resolveLink at hr
  dsimp only at hr
  split at hr
  · split at hr
    · cases hr; exact h.erase a
    · rename_i hne
      exact acyclic_relink h hne hr
  · cases hr; exact h.erase a

theorem acyclic_resolveLinks : ∀ {rows : List (Name × Name)} {working working' : Directory Name}, Acyclic working →
    (resolveLinks overriding resolver rows working).value = .ok working' → Acyclic working'
  | [], _, _, h, hr => by cases hr; exact h
  | (a, registered) :: rows, working, _, h, hr => by
    simp only [resolveLinks] at hr
    split at hr
    · cases hr
    · rename_i next hone
      exact acyclic_resolveLinks (acyclic_resolveLink h hone) hr

theorem resolve_eq_ok_iff : (m.resolve resolver).value = .ok m' ↔ ∃ entries,
    (resolveLinks m.overriding resolver m.entries.rows m.entries).value = .ok entries ∧ m' = { m with entries } := by
  unfold resolve
  dsimp only
  cases (resolveLinks m.overriding resolver m.entries.rows m.entries).value <;> simp [Except.map, eq_comm]

theorem resolve_eq_error_iff {f : Failure} : (m.resolve resolver).value = .error f ↔
    (resolveLinks m.overriding resolver m.entries.rows m.entries).value = .error f := by
  unfold resolve
  dsimp only
  cases (resolveLinks m.overriding resolver m.entries.rows m.entries).value <;> simp [Except.map]

theorem acyclic_resolve (h : Acyclic m.entries) (hr : (m.resolve resolver).value = .ok m') : Acyclic m'.entries := by
  obtain ⟨entries, hlinks, rfl⟩ := resolve_eq_ok_iff.1 hr
  exact acyclic_resolveLinks h hlinks

/-- The alias maps that some changes lead to from the empty one. -/
inductive Reached : Aliases → Prop where
  | empty (overriding : Bool) : Reached { overriding }
  | register {m m' : Aliases} (name a : Name) (before : Reached m) (done : (m.register name a).value = .ok m') :
      Reached m'
  | remove {m m' : Aliases} (a : Name) (before : Reached m) (done : m.remove a = .ok m') : Reached m'
  | resolve {m m' : Aliases} (resolver : Resolver) (before : Reached m) (done : (m.resolve resolver).value = .ok m') :
      Reached m'

theorem Reached.acyclic (h : Reached m) : Acyclic m.entries := by
  induction h with
  | empty overriding => exact .empty
  | register name a _ done ih => exact acyclic_register ih done
  | remove a _ done ih => exact acyclic_remove ih done
  | resolve resolver _ done ih => exact acyclic_resolve ih done

/-! ## Canonical names -/

theorem follow_of_target?_eq_none (h : m.target? n = none) : ∀ steps, m.follow steps n = n
  | 0 => rfl
  | steps + 1 => by unfold follow; rw [h]

theorem follow_succ (steps : Nat) (h : m.target? (m.follow steps n) = some name) : m.follow (steps + 1) n = name := by
  induction steps generalizing n with
  | zero =>
    have h : m.target? n = some name := h
    unfold follow
    rw [h]
    rfl
  | succ steps ih =>
    rw [follow] at h ⊢
    cases hn : m.target? n with
    | none =>
      rw [hn] at h
      rw [hn] at h
      cases h
    | some next =>
      rw [hn] at h
      exact ih h

theorem follow_succ_of_eq_none (steps : Nat) (h : m.target? (m.follow steps n) = none) :
    m.follow (steps + 1) n = m.follow steps n := by
  induction steps generalizing n with
  | zero => exact follow_of_target?_eq_none h 1
  | succ steps ih =>
    rw [follow] at h ⊢
    cases hn : m.target? n with
    | none =>
      rw [follow, hn]
    | some next =>
      rw [hn] at h
      rw [follow, hn]
      exact ih h

theorem target?_follow_of_le {i j : Nat} (hij : i ≤ j) (h : m.target? (m.follow i n) = none) :
    m.target? (m.follow j n) = none := by
  induction i generalizing n j with
  | zero =>
    have h : m.target? n = none := h
    rw [follow_of_target?_eq_none h]
    exact h
  | succ i ih =>
    obtain ⟨j, rfl⟩ : ∃ k, j = k + 1 := ⟨j - 1, by omega⟩
    rw [follow] at h ⊢
    cases hn : m.target? n with
    | none => exact hn
    | some next =>
      rw [hn] at h
      exact ih (by omega) h

/-- While the way goes on, it leads from each of its names to the later ones. -/
theorem transGen_follow {i j : Nat} (hij : i < j) (h : ∀ k < j, (m.target? (m.follow k n)).isSome = true) :
    Relation.TransGen (Links m.entries) (m.follow i n) (m.follow j n) := by
  have hstep : ∀ k < j, Links m.entries (m.follow k n) (m.follow (k + 1) n) := by
    intro k hk
    obtain ⟨next, hnext⟩ := Option.isSome_iff_exists.1 (h k hk)
    rw [follow_succ k hnext]
    exact hnext
  induction j with
  | zero => omega
  | succ j ih =>
    rcases Nat.lt_or_ge i j with hlt | hge
    · exact .tail (ih hlt (fun k hk => h k (by omega)) fun k hk => hstep k (by omega)) (hstep j (by omega))
    · obtain rfl : i = j := by omega
      exact .single (hstep i (by omega))

/-- A canonical name is no alias: a way that still went on after as many links as there are aliases would
have passed more aliases than there are. -/
theorem Acyclic.target?_canonical (h : Acyclic m.entries) (n : Name) : m.target? (m.canonical n) = none := by
  unfold canonical
  cases hlast : m.target? (m.follow m.size n) with
  | none => rfl
  | some next =>
    exfalso
    have hall : ∀ k ≤ m.size, (m.target? (m.follow k n)).isSome = true := by
      intro k hk
      cases hk' : m.target? (m.follow k n) with
      | some _ => rfl
      | none => rw [target?_follow_of_le hk hk'] at hlast; cases hlast
    have hnodup : ((List.range (m.size + 1)).map (m.follow · n)).Nodup := by
      rw [List.nodup_iff_pairwise_ne, List.pairwise_map]
      refine List.pairwise_lt_range.imp_of_mem fun {i j} _ hj hij heq => ?_
      have hj : j < m.size + 1 := List.mem_range.1 hj
      have hway := transGen_follow hij fun k hk => hall k (by omega)
      rw [heq] at hway
      exact h _ hway
    have hsub : (List.range (m.size + 1)).map (m.follow · n) ⊆ m.entries.keys := by
      intro k hk
      obtain ⟨i, hi, rfl⟩ := List.mem_map.1 hk
      have hi : i < m.size + 1 := List.mem_range.1 hi
      have hsome := hall i (by omega)
      by_cases hkey : m.follow i n ∈ m.entries.keys
      · exact hkey
      · rw [show m.target? (m.follow i n) = none from (Directory.get?_eq_none_iff ..).2 hkey] at hsome
        cases hsome
    have hle := hnodup.length_le_of_subset hsub
    simp only [List.length_map, List.length_range, size, Directory.size, Directory.keys] at hle
    omega

/-- Each link leads to a name with the same canonical name. -/
theorem Acyclic.canonical_of_target? (h : Acyclic m.entries) (hto : m.target? n = some name) :
    m.canonical n = m.canonical name := by
  have hstep : m.follow (m.size + 1) n = m.canonical name := by
    unfold follow
    rw [hto]
    rfl
  rw [← hstep, follow_succ_of_eq_none _ (h.target?_canonical n)]
  rfl

theorem Acyclic.canonical_canonical (h : Acyclic m.entries) (n : Name) :
    m.canonical (m.canonical n) = m.canonical n :=
  follow_of_target?_eq_none (h.target?_canonical n) _

end Aliases

end Singletons
