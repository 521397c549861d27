import Singletons.Relation
import Mathlib.Logic.Relation

/-
What is collected along a relation. A collection meets each name once, and only names that it is led to; when
it is done, whatever is related to a name that it has met has been met as well.
-/

namespace Singletons

namespace Relation

/-- Whether a pair is among some pairs. -/
def Related (pairs : List (Name × Name)) (a b : Name) : Prop := (a, b) ∈ pairs

variable {pairs : List (Name × Name)} {pending met : List Name} {n : Name}

/-- Whatever is collected was met before, or pairs lead to it from a name that was pending. -/
theorem exists_of_mem_collect (h : n ∈ collect pairs pending met) :
    n ∈ met ∨ ∃ p ∈ pending, Relation.ReflTransGen (Related pairs) p n := by
  fun_induction collect pairs pending met with
  | case1 => exact .inl h
  | case2 p rest met _ ih =>
    rcases ih h with h | ⟨q, hq, hway⟩
    · exact .inl h
    · exact .inr ⟨q, List.mem_cons_of_mem _ hq, hway⟩
  | case3 p rest met _ ih =>
    rcases ih h with h | ⟨q, hq, hway⟩
    · rcases List.mem_append.1 h with h | h
      · exact .inl h
      · cases List.mem_singleton.1 h
        exact .inr ⟨n, List.mem_cons_self .., .refl⟩
    · rcases List.mem_append.1 hq with hq | hq
      · exact .inr ⟨p, List.mem_cons_self .., .head ((mem_imagesIn ..).1 hq) hway⟩
      · exact .inr ⟨q, List.mem_cons_of_mem _ hq, hway⟩

/-- A name is met once. -/
theorem nodup_collect (h : met.Nodup) : (collect pairs pending met).Nodup := by
  fun_induction collect pairs pending met with
  | case1 => exact h
  | case2 p rest met _ ih => exact ih h
  | case3 p rest met hp ih =>
    refine ih (List.nodup_append.2 ⟨h, by simp, fun a ha b hb => ?_⟩)
    rintro rfl
    cases List.mem_singleton.1 hb
    exact hp (by simpa using ha)

/-- The names that were met and those that were pending are all collected. -/
theorem mem_collect (h : n ∈ met ∨ n ∈ pending) : n ∈ collect pairs pending met := by
  fun_induction collect pairs pending met with
  | case1 => simpa using h
  | case2 p rest met hp ih =>
    refine ih (h.elim .inl fun h => ?_)
    rcases List.mem_cons.1 h with rfl | h
    · exact .inl (by simpa using hp)
    · exact .inr h
  | case3 p rest met _ ih =>
    refine ih ?_
    rcases h with h | h
    · exact .inl (List.mem_append_left _ h)
    · rcases List.mem_cons.1 h with rfl | h
      · exact .inl (List.mem_append_right _ (List.mem_singleton_self _))
      · exact .inr (List.mem_append_right _ h)

/-- What is collected is closed under the pairs, if all that the names met so far are related to was met or is
pending. -/
theorem collect_closed (hmet : ∀ n ∈ met, ∀ k, (n, k) ∈ pairs → k ∈ met ∨ k ∈ pending) :
    ∀ n ∈ collect pairs pending met, ∀ k, (n, k) ∈ pairs → k ∈ collect pairs pending met := by
  fun_induction collect pairs pending met with
  | case1 met =>
    intro n hn k hk
    exact (hmet n hn k hk).resolve_right List.not_mem_nil
  | case2 p rest met hp ih =>
    refine ih fun n hn k hk => (hmet n hn k hk).elim .inl fun hk => ?_
    rcases List.mem_cons.1 hk with rfl | hk
    · exact .inl (by simpa using hp)
    · exact .inr hk
  | case3 p rest met _ ih =>
    refine ih fun n hn k hk => ?_
    rcases List.mem_append.1 hn with hn | hn
    · rcases hmet n hn k hk with hk | hk
      · exact .inl (List.mem_append_left _ hk)
      · rcases List.mem_cons.1 hk with rfl | hk
        · exact .inl (List.mem_append_right _ (List.mem_singleton_self _))
        · exact .inr (List.mem_append_right _ hk)
    · cases List.mem_singleton.1 hn
      exact .inr (List.mem_append_left _ ((mem_imagesIn ..).2 hk))

/-- The names below a name are those that pairs lead to from it. -/
theorem mem_below_iff (r : Relation) (start : Name) :
    n ∈ r.below start ↔ Relation.TransGen (Related r.pairs) start n := by
  unfold below
  constructor
  · intro h
    rcases exists_of_mem_collect h with h | ⟨p, hp, hway⟩
    · cases h
    · exact .head' ((mem_images ..).1 hp) hway
  · intro hway
    induction hway with
    | single hfirst => exact mem_collect (.inr ((mem_images ..).2 hfirst))
    | tail _ hlast ih => exact collect_closed (by simp) _ ih _ hlast

theorem nodup_below (r : Relation) (start : Name) : (r.below start).Nodup := nodup_collect List.nodup_nil

end Relation

end Singletons
