import Singletons.Relation
import Mathlib.Logic.Relation

/-
What the search along a relation finds. A search succeeds only over a way along the pairs, and one that
fails leaves a set of names that is closed under the pairs and holds no way to the goal.
-/

namespace Singletons

namespace Relation

/-- The steps of a search: along a pair, and then to the form of the name reached. -/
def Next (pairs : List (Name × Name)) (f : Name → Name) (a b : Name) : Prop := ∃ m, (a, m) ∈ pairs ∧ f m = b

variable {pairs : List (Name × Name)} {f : Name → Name} {goal : Name} {pending seen : List Name}

/-- A search succeeds at a name that it has come to. -/
theorem exists_of_search (h : search pairs f goal pending seen = true) :
    ∃ p ∈ pending, ∃ n, Relation.ReflTransGen (Next pairs f) p n ∧ (n, goal) ∈ pairs := by
  fun_induction search pairs f goal pending seen with
  | case1 => cases h
  | case2 n rest seen _ ih =>
    obtain ⟨p, hp, hway⟩ := ih h
    exact ⟨p, List.mem_cons_of_mem _ hp, hway⟩
  | case3 n rest seen _ hgoal =>
    have hgoal : goal ∈ imagesIn pairs n := by simpa using hgoal
    exact ⟨n, List.mem_cons_self .., n, .refl, (mem_imagesIn ..).1 hgoal⟩
  | case4 n rest seen _ _ ih =>
    obtain ⟨p, hp, k, hway, hk⟩ := ih h
    rcases List.mem_append.1 hp with hp | hp
    · obtain ⟨m, hm, rfl⟩ := List.mem_map.1 hp
      exact ⟨n, List.mem_cons_self .., k, .head ⟨m, (mem_imagesIn ..).1 hm, rfl⟩ hway, hk⟩
    · exact ⟨p, List.mem_cons_of_mem _ hp, k, hway, hk⟩

/-- A search that fails has closed up the names that it expanded before. -/
theorem exists_closed_of_search (h : search pairs f goal pending seen = false)
    (hseen : ∀ n ∈ seen, (n, goal) ∉ pairs ∧ ∀ k, Next pairs f n k → k ∈ seen ∨ k ∈ pending) :
    ∃ closed : List Name, (∀ n ∈ pending, n ∈ closed) ∧ (∀ n ∈ seen, n ∈ closed) ∧
      ∀ n ∈ closed, (n, goal) ∉ pairs ∧ ∀ k, Next pairs f n k → k ∈ closed := by
  fun_induction search pairs f goal pending seen with
  | case1 seen =>
    refine ⟨seen, by simp, fun _ hn => hn, fun n hn => ⟨(hseen n hn).1, fun k hk => ?_⟩⟩
    rcases (hseen n hn).2 k hk with hk | hk
    · exact hk
    · cases hk
  | case2 n rest seen hn ih =>
    have hn : n ∈ seen := by simpa using hn
    obtain ⟨closed, hpending, hsub, hclosed⟩ := ih h fun a ha => by
      refine ⟨(hseen a ha).1, fun k hk => ?_⟩
      rcases (hseen a ha).2 k hk with hk | hk
      · exact .inl hk
      · rcases List.mem_cons.1 hk with rfl | hk
        · exact .inl hn
        · exact .inr hk
    exact ⟨closed, List.forall_mem_cons.2 ⟨hsub n hn, hpending⟩, hsub, hclosed⟩
  | case3 => cases h
  | case4 n rest seen _ hgoal ih =>
    obtain ⟨closed, hpending, hsub, hclosed⟩ := ih h fun a ha => by
      rcases List.mem_cons.1 ha with rfl | ha
      · refine ⟨fun hag => hgoal (by simpa using (mem_imagesIn ..).2 hag), ?_⟩
        rintro k ⟨m, hm, rfl⟩
        exact .inr (List.mem_append.2 (.inl (List.mem_map.2 ⟨m, (mem_imagesIn ..).2 hm, rfl⟩)))
      · refine ⟨(hseen a ha).1, fun k hk => ?_⟩
        rcases (hseen a ha).2 k hk with hk | hk
        · exact .inl (List.mem_cons_of_mem _ hk)
        · rcases List.mem_cons.1 hk with rfl | hk
          · exact .inl (List.mem_cons_self ..)
          · exact .inr (List.mem_append.2 (.inr hk))
    have hn : n ∈ closed := hsub n (List.mem_cons_self ..)
    exact ⟨closed, List.forall_mem_cons.2 ⟨hn, fun k hk => hpending k (List.mem_append.2 (.inr hk))⟩,
      fun k hk => hsub k (List.mem_cons_of_mem _ hk), hclosed⟩

/-- The search finds every way along the pairs, and nothing else. -/
theorem leadsTo_iff (r : Relation) (f : Name → Name) (start goal : Name) : r.leadsTo f start goal = true ↔
    ∃ n, Relation.ReflTransGen (Next r.pairs f) (f start) n ∧ (n, goal) ∈ r.pairs := by
  unfold leadsTo
  constructor
  · intro h
    obtain ⟨p, hp, hway⟩ := exists_of_search h
    rwa [List.mem_singleton.1 hp] at hway
  · rintro ⟨n, hway, hn⟩
    cases h : search r.pairs f goal [f start] [] with
    | true => rfl
    | false =>
      obtain ⟨closed, hpending, -, hclosed⟩ := exists_closed_of_search h (by simp)
      have hmem : ∀ k, Relation.ReflTransGen (Next r.pairs f) (f start) k → k ∈ closed := by
        intro k hk
        induction hk with
        | refl => exact hpending _ (List.mem_cons_self ..)
        | tail _ hstep ih => exact (hclosed _ ih).2 _ hstep
      exact absurd hn (hclosed n (hmem n hway)).1

end Relation

end Singletons
