import Singletons.Proofs.Alias.Form

/-
Resolving aliases where none may be redirected. The working table always holds the links that are still to
come and the resolved forms of those that are done (`Worked`): a link that is already there makes another
one needless, and a different link under the same alias ends the resolution. This holds for resolvers that
leave what they come to as it is; then a resolved link that meets one still to come is that very link.
-/

namespace Singletons

namespace Aliases

variable {resolver : Resolver} {rows done : List (Name × Name)} {working working' : Directory Name}
  {a n a' n' k v name : Name}

/-- The old link is gone and the new one is there. -/
theorem get?_relink (hr : (relink false working a n a' n').value = .ok working') (hnext : working.get? a = some n) :
    working'.get? k = some v ↔ (k ≠ a ∧ working.get? k = some v) ∨ (k = a' ∧ v = n') := by
  rcases relink_cases false working a n a' n' with
    ⟨rfl, rfl, hvalue⟩ | ⟨rfl, -, hvalue⟩ | ⟨hne, hthere, hvalue⟩ | ⟨hne, -, hfree, hvalue⟩ | ⟨-, -, w, -, -, hvalue⟩ <;>
    rw [hvalue] at hr
  · cases hr
    by_cases hk : k = a'
    · subst hk; simp [hnext, eq_comm]
    · simp [hk]
  · rw [ok_of_link hr, Directory.get?_insert]
    by_cases hk : k = a' <;> simp [hk, eq_comm]
  · cases hr
    rw [Directory.get?_erase]
    by_cases hka : k = a
    · subst hka; simp [Ne.symm hne]
    · by_cases hk : k = a'
      · subst hk; simp [hka, hthere, eq_comm]
      · simp [hka, hk]
  · have hnone : working.get? a' = none := hfree.resolve_right Bool.false_ne_true
    rw [ok_of_link hr, Directory.get?_insert, Directory.get?_erase]
    by_cases hk : k = a'
    · subst hk; simp [hnone, eq_comm]
    · by_cases hka : k = a
      · subst hka; simp [Ne.symm hne]
      · simp [hk, hka]
  · cases hr

/-- A link that is done leaves what it resolved to in its place. -/
theorem get?_resolveLink (hr : (resolveLink false resolver working a n).value = .ok working')
    (hnext : working.get? a = some n) :
    working'.get? k = some v ↔ (k ≠ a ∧ working.get? k = some v) ∨ ResolvesTo resolver (a, n) k v := by
  rcases resolveLink_cases false resolver working a n with ⟨a', n', hto, heq⟩ | ⟨hnone, heq⟩
  · rw [heq] at hr
    rw [get?_relink hr hnext, hto.iff]
  · rw [heq] at hr
    cases hr
    rw [Directory.get?_erase, or_iff_left (hnone k v)]
    by_cases hk : k = a <;> simp [hk]

/-! ## The working table -/

/-- The working table holds the links of `rows` and what those of `done` resolved to. -/
def Worked (resolver : Resolver) (done rows : List (Name × Name)) (working : Directory Name) : Prop :=
  ∀ k v, working.get? k = some v ↔ (k, v) ∈ rows ∨ ∃ row ∈ done, ResolvesTo resolver row k v

/-- Before the first link it holds the links. -/
theorem Worked.start (entries : Directory Name) : Worked resolver [] entries.rows entries := by
  intro k v
  rw [Directory.get?_eq_some_iff, or_iff_left (by simp)]

theorem Worked.step (hw : Worked resolver done ((a, n) :: rows) working) (hkey : ∀ v, (a, v) ∉ rows)
    (hsteady : ∀ row ∈ done, Steady resolver row)
    (hr : (resolveLink false resolver working a n).value = .ok working') :
    Worked resolver (done ++ [(a, n)]) rows working' := by
  have hnext : working.get? a = some n := (hw a n).2 (.inl (List.mem_cons_self ..))
  have happend : ∀ k v, (∃ row ∈ done ++ [(a, n)], ResolvesTo resolver row k v) ↔
      (∃ row ∈ done, ResolvesTo resolver row k v) ∨ ResolvesTo resolver (a, n) k v := fun _ _ => resolved_append_iff
  intro k v
  rw [get?_resolveLink hr hnext, happend, ← or_assoc]
  by_cases hk : k = a
  · subst hk
    constructor
    · rintro (⟨hk, -⟩ | hto)
      · exact absurd rfl hk
      · exact .inr hto
    · rintro ((hrow | ⟨row, hrow, hto⟩) | hto)
      · exact absurd hrow (hkey v)
      · -- what was resolved to a link from this alias is the link that is there
        obtain rfl : v = n := Option.some.inj (((hw k v).2 (.inr ⟨row, hrow, hto⟩)).symm.trans hnext)
        exact .inr ⟨(hsteady row hrow).left k hto.1, (hsteady row hrow).right v hto.2.1, hto.2.2⟩
      · exact .inr hto
  · have hne : (k, v) ≠ (a, n) := fun heq => hk (congrArg Prod.fst heq)
    rw [hw k v, List.mem_cons, or_iff_right hne, and_iff_right hk]

theorem Worked.run : ∀ {rows done : List (Name × Name)} {working working' : Directory Name},
    Worked resolver done rows working → rows.Pairwise (fun r r' => r.1 < r'.1) →
    (∀ row ∈ done ++ rows, Steady resolver row) → (resolveLinks false resolver rows working).value = .ok working' →
    Worked resolver (done ++ rows) [] working'
  | [], done, working, _, hw, _, _, hr => by
    cases hr
    rwa [List.append_nil]
  | (a, n) :: rows, done, working, working', hw, hsorted, hsteady, hr => by
    obtain ⟨hlt, hsorted⟩ := List.pairwise_cons.1 hsorted
    have hkey : ∀ v, (a, v) ∉ rows := fun v hv => String.lt_irrefl _ (hlt (a, v) hv)
    rw [List.append_cons] at hsteady ⊢
    obtain ⟨next, hone, hr⟩ := resolveLinks_cons_eq_ok_iff.1 hr
    refine Worked.run (hw.step hkey (fun row hrow => hsteady row ?_) hone) hsorted hsteady hr
    exact List.mem_append_left _ (List.mem_append_left _ hrow)

/-- Where no alias may be redirected, resolving replaces the links by what they resolve to. -/
theorem target?_resolve {m m' : Aliases} (hstrict : m.overriding = false)
    (hsteady : ∀ row ∈ m.entries.rows, Steady resolver row) (hr : (m.resolve resolver).value = .ok m') :
    m'.target? k = some v ↔ ∃ row ∈ m.entries.rows, ResolvesTo resolver row k v := by
  obtain ⟨entries, hlinks, rfl⟩ := resolve_eq_ok_iff.1 hr
  rw [hstrict] at hlinks
  have hend := (Worked.start m.entries).run m.entries.sorted hsteady hlinks
  exact (hend k v).trans (or_iff_right List.not_mem_nil)

/-- A resolution where no alias may be redirected is exact. If it succeeds, the links that it leaves are what
the links resolve to whose two sides come to different names: none of these is lost, and no other is there. -/
theorem resolve_exact {m m' : Aliases} (hstrict : m.overriding = false) (hidempotent : Idempotent resolver)
    (hr : (m.resolve resolver).value = .ok m') (k v : Name) :
    m'.target? k = some v ↔ ∃ a n, m.target? a = some n ∧
      (resolver a).value = some k ∧ (resolver n).value = some v ∧ k ≠ v := by
  rw [target?_resolve hstrict (fun row _ => hidempotent.steady row) hr]
  constructor
  · rintro ⟨⟨a, n⟩, hrow, hto⟩
    exact ⟨a, n, (Directory.get?_eq_some_iff ..).2 hrow, hto⟩
  · rintro ⟨a, n, htarget, hto⟩
    exact ⟨(a, n), (Directory.get?_eq_some_iff ..).1 htarget, hto⟩

/-- A resolver that gives two names the same form and cannot resolve a third. -/
def merger : Resolver := fun x =>
  ⟨if x = "first" ∨ x = "second" then some "db" else if x = "gone" then none else some x, []⟩

theorem merger_idempotent : Idempotent merger := by
  intro x y hy
  unfold merger at hy ⊢
  dsimp only at hy ⊢
  split at hy
  · cases hy; decide
  · split at hy
    · cases hy
    · cases hy; simp_all

/-- Two aliases of one name, and an alias of a name that is not resolved. -/
def unmerged : Aliases where
  entries := ((Directory.empty.insert "first" "postgres").insert "lost" "gone").insert "second" "postgres"
  overriding := false

theorem merger_unmerged : (unmerged.resolve merger).value =
    .ok { entries := Directory.empty.insert "db" "postgres", overriding := false } := by
  have hrows : unmerged.entries.rows = [("first", "postgres"), ("lost", "gone"), ("second", "postgres")] := by decide
  have hfirst : (resolveLink false merger unmerged.entries "first" "postgres").value =
      .ok ((unmerged.entries.erase "first").insert "db" "postgres") := by
    rw [resolveLink_of_resolvesTo (k := "db") (v := "postgres") _ _ ⟨rfl, rfl, by decide⟩]
    exact link_of_get?_eq_none rfl
  have hlinks : (resolveLinks false merger unmerged.entries.rows unmerged.entries).value =
      .ok (Directory.empty.insert "db" "postgres") := by
    rw [hrows, resolveLinks_of_ok hfirst]
    rfl
  exact resolve_eq_ok_iff.2 ⟨_, hlinks, rfl⟩

/-- Two links come to one, and the third is dropped. -/
theorem resolve_exact_merged : unmerged.overriding = false ∧ Idempotent merger ∧
    ∃ m', (unmerged.resolve merger).value = .ok m' ∧ m'.target? "db" = some "postgres" ∧ m'.target? "lost" = none := by
  have hexact := resolve_exact rfl merger_idempotent merger_unmerged
  refine ⟨rfl, merger_idempotent, _, merger_unmerged,
    (hexact ..).2 ⟨"first", "postgres", by decide, rfl, rfl, by decide⟩, ?_⟩
  rw [Option.eq_none_iff_forall_ne_some]
  intro v hv
  obtain ⟨a, n, htarget, ha, hn, -⟩ := (hexact ..).1 hv
  have ha : a = "lost" := by
    unfold merger at ha
    grind
  subst ha
  obtain rfl : "gone" = n := Option.some.inj htarget
  cases hn

end Aliases

end Singletons
