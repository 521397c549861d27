import Singletons.Proofs.Alias.Form

/-
Resolving aliases where they may be redirected. A form takes the place of whatever stands under its alias, and
an alias with a link of its own that is still to come keeps the form unless that link is dropped in its turn:
it is dropped by its alias, whatever stands there by then. So an alias that links come to is lost exactly if its
own link has no form from it and is the last of them all (`resolve_keeps_iff`).
-/

namespace Singletons

namespace Aliases

variable {resolver : Resolver} {rows done : List (Name × Name)} {working working' : Directory Name}
  {a n k v : Name}

/-! ## The working table -/

/-- Whether the links that are done leave the alias `k` there: one of them comes to it, and the own link of `k`
comes to it as well or is done earlier. -/
def Kept (resolver : Resolver) (done : List (Name × Name)) (k : Name) : Prop :=
  ∃ row ∈ done, (∃ v, ResolvesTo resolver row k v) ∧
    ∀ own, (k, own) ∈ done → (∃ v, ResolvesTo resolver (k, own) k v) ∨ k < row.1

/-- What the working table holds when `done` are done and `rows` are still to come. -/
structure Redirected (resolver : Resolver) (done rows : List (Name × Name)) (working : Directory Name) : Prop where
  standing : ∀ k v, working.get? k = some v → Standing resolver done rows k v
  kept : ∀ k, (working.get? k).isSome = true ↔ k ∈ rows.map Prod.fst ∨ Kept resolver done k

theorem kept_append_of_resolvesTo (hto : ResolvesTo resolver (a, n) k v) (hbefore : ∀ row ∈ done, row.1 < a) :
    Kept resolver (done ++ [(a, n)]) k := by
  refine ⟨(a, n), by simp, ⟨v, hto⟩, fun own hown => ?_⟩
  rcases List.mem_append.1 hown with hown | hown
  · exact .inr (hbefore _ hown)
  · cases List.mem_singleton.1 hown
    exact .inl ⟨v, hto⟩

/-- An own link without a form from its alias leaves nothing that was there before. -/
theorem not_kept_append_self (hno : ∀ v, ¬ ResolvesTo resolver (a, n) a v) (hbefore : ∀ row ∈ done, row.1 < a) :
    ¬ Kept resolver (done ++ [(a, n)]) a := by
  rintro ⟨row, hrow, ⟨v, hto⟩, hown⟩
  rcases hown n (by simp) with ⟨w, hself⟩ | hlt
  · exact hno w hself
  · rcases List.mem_append.1 hrow with hrow | hrow
    · exact String.lt_irrefl _ (String.lt_trans hlt (hbefore row hrow))
    · cases List.mem_singleton.1 hrow
      exact hno v hto

theorem kept_append_iff (hno : ∀ v, ¬ ResolvesTo resolver (a, n) k v) (hk : k ≠ a) :
    Kept resolver (done ++ [(a, n)]) k ↔ Kept resolver done k := by
  have hown : ∀ own, (k, own) ∈ done ++ [(a, n)] ↔ (k, own) ∈ done := by
    intro own
    simp [hk]
  unfold Kept
  simp only [hown]
  constructor
  · rintro ⟨row, hrow, ⟨v, hto⟩, hlast⟩
    rcases List.mem_append.1 hrow with hrow | hrow
    · exact ⟨row, hrow, ⟨v, hto⟩, hlast⟩
    · cases List.mem_singleton.1 hrow
      exact absurd hto (hno v)
  · rintro ⟨row, hrow, h⟩
    exact ⟨row, List.mem_append_left _ hrow, h⟩

/-- What is done next leaves links that were there, or forms. -/
theorem Redirected.step_standing (h : Redirected resolver done ((a, n) :: rows) working)
    (hr : (resolveLink true resolver working a n).value = .ok working') (hv : working'.get? k = some v) :
    Standing resolver (done ++ [(a, n)]) rows k v := by
  unfold Standing
  rw [resolved_append_iff]
  by_cases hto : ∃ w, ResolvesTo resolver (a, n) k w
  · obtain ⟨w, hto⟩ := hto
    rw [get?_of_resolvesTo hto hr] at hv
    split at hv
    · rename_i hself
      rcases h.standing k v hv with hrow | hdone
      · rcases List.mem_cons.1 hrow with heq | hrow
        · cases heq
          exact .inr (.inr (hself.2 ▸ hto))
        · exact .inl hrow
      · exact .inr (.inl hdone)
    · cases hv
      exact .inr (.inr hto)
  · rw [get?_of_not_resolvesTo (fun w hw => hto ⟨w, hw⟩) hr] at hv
    split at hv
    · cases hv
    · rename_i hk
      rcases h.standing k v hv with hrow | hdone
      · exact .inl ((List.mem_cons.1 hrow).resolve_left fun heq => hk (congrArg Prod.fst heq))
      · exact .inr (.inl hdone)

theorem Redirected.step (h : Redirected resolver done ((a, n) :: rows) working) (hkey : a ∉ rows.map Prod.fst)
    (hbefore : ∀ row ∈ done, row.1 < a) (hr : (resolveLink true resolver working a n).value = .ok working') :
    Redirected resolver (done ++ [(a, n)]) rows working' := by
  refine ⟨fun k v hv => h.step_standing hr hv, fun k => ?_⟩
  have hold := h.kept k
  rw [List.map_cons, List.mem_cons] at hold
  by_cases hto : ∃ v, ResolvesTo resolver (a, n) k v
  · obtain ⟨v, hto⟩ := hto
    refine iff_of_true ?_ (.inr (kept_append_of_resolvesTo hto hbefore))
    rw [get?_of_resolvesTo hto hr]
    split
    · rename_i hself
      exact hold.2 (.inl (.inl hself.1))
    · rfl
  · have hno : ∀ v, ¬ ResolvesTo resolver (a, n) k v := fun v hv => hto ⟨v, hv⟩
    rw [get?_of_not_resolvesTo hno hr]
    by_cases hk : k = a
    · subst hk
      rw [if_pos rfl]
      exact iff_of_false (by simp) fun h => h.elim hkey (not_kept_append_self hno hbefore)
    · rw [if_neg hk, hold, kept_append_iff hno hk, or_iff_right hk]

theorem Redirected.run : ∀ {rows done : List (Name × Name)} {working working' : Directory Name},
    Redirected resolver done rows working → (done ++ rows).Pairwise (fun r r' => r.1 < r'.1) →
    (resolveLinks true resolver rows working).value = .ok working' → Redirected resolver (done ++ rows) [] working'
  | [], done, working, _, h, _, hr => by
    cases hr
    rwa [List.append_nil]
  | (a, n) :: rows, done, working, working', h, hsorted, hr => by
    obtain ⟨-, hrest, hcross⟩ := List.pairwise_append.1 hsorted
    have hbefore : ∀ row ∈ done, row.1 < a := fun row hrow => hcross row hrow (a, n) (List.mem_cons_self ..)
    have hkey : a ∉ rows.map Prod.fst := by
      intro hmem
      obtain ⟨row, hrow, rfl⟩ := List.mem_map.1 hmem
      exact String.lt_irrefl _ ((List.pairwise_cons.1 hrest).1 row hrow)
    rw [List.append_cons] at hsorted ⊢
    obtain ⟨next, hone, hr⟩ := resolveLinks_cons_eq_ok_iff.1 hr
    exact Redirected.run (h.step hkey hbefore hone) hsorted hr

/-! ## The result -/

/-- Whether the alias `k` is lost although links come to it: its own link has no form from it and comes after all
of them. -/
def Overrun (resolver : Resolver) (m : Aliases) (k : Name) : Prop :=
  ∃ own, m.target? k = some own ∧ (∀ v, ¬ ResolvesTo resolver (k, own) k v) ∧
    ∀ a n v, m.target? a = some n → ResolvesTo resolver (a, n) k v → a < k

theorem redirected_of_resolve {m m' : Aliases} (hpermit : m.overriding = true)
    (hr : (m.resolve resolver).value = .ok m') : Redirected resolver m.entries.rows [] m'.entries := by
  have hstart : Redirected resolver [] m.entries.rows m.entries := by
    refine ⟨fun k v hv => .inl ((Directory.get?_eq_some_iff ..).1 hv), fun k => ?_⟩
    have hnone : ¬ Kept resolver [] k := fun ⟨_, hrow, _⟩ => List.not_mem_nil hrow
    rw [or_iff_left hnone]
    exact Directory.get?_isSome_iff ..
  obtain ⟨entries, hlinks, rfl⟩ := resolve_eq_ok_iff.1 hr
  rw [hpermit] at hlinks
  exact hstart.run m.entries.sorted hlinks

/-- Some link keeps an alias that links come to, unless it is overrun. -/
theorem kept_iff_not_overrun {m : Aliases} (htarget : m.target? a = some n) (hto : ResolvesTo resolver (a, n) k v) :
    Kept resolver m.entries.rows k ↔ ¬ Overrun resolver m k := by
  have hrow : ∀ a n, (a, n) ∈ m.entries.rows ↔ m.target? a = some n := fun a n =>
    (Directory.get?_eq_some_iff ..).symm
  constructor
  · rintro ⟨⟨b, x⟩, hb, ⟨w, hbto⟩, hlast⟩ ⟨own, hown, hnone, hall⟩
    rcases hlast own ((hrow k own).2 hown) with ⟨w, hself⟩ | hlt
    · exact hnone w hself
    · exact String.lt_irrefl _ (String.lt_trans hlt (hall b x w ((hrow b x).1 hb) hbto))
  · intro hnot
    by_cases hown : ∃ own, m.target? k = some own ∧ ∀ v, ¬ ResolvesTo resolver (k, own) k v
    · -- a link that comes later keeps it, and it is another one than the own link
      obtain ⟨own, hown, hnone⟩ := hown
      have hlater : ∃ b x w, m.target? b = some x ∧ ResolvesTo resolver (b, x) k w ∧ ¬ b < k := by
        apply Classical.byContradiction
        intro hno
        refine hnot ⟨own, hown, hnone, fun b x w hb hbto => Classical.byContradiction fun hlt => ?_⟩
        exact hno ⟨b, x, w, hb, hbto, hlt⟩
      obtain ⟨b, x, w, hb, hbto, hlt⟩ := hlater
      have hne : b ≠ k := by
        rintro rfl
        obtain rfl : own = x := Option.some.inj (hown.symm.trans hb)
        exact hnone w hbto
      exact ⟨(b, x), (hrow b x).2 hb, ⟨w, hbto⟩, fun _ _ => .inr (Directory.lt_of_not_lt_of_ne hlt hne)⟩
    · refine ⟨(a, n), (hrow a n).2 htarget, ⟨v, hto⟩, fun own hmem => .inl ?_⟩
      apply Classical.byContradiction
      intro hno
      exact hown ⟨own, (hrow k own).1 hmem, fun w hw => hno ⟨w, hw⟩⟩

/-- A resolution where aliases may be redirected, whatever the aliases and the resolver. If it succeeds, the alias
that a link comes to is there and stands for a name that a link from it resolves to, except if it has a link of
its own that has no form from it and comes after all links that do; then it is lost. No other alias is there. -/
theorem resolve_keeps_iff {m m' : Aliases} (hpermit : m.overriding = true)
    (hr : (m.resolve resolver).value = .ok m') :
    (∀ a n k v, m.target? a = some n → ResolvesTo resolver (a, n) k v →
        ((∃ a' n' v', m.target? a' = some n' ∧ ResolvesTo resolver (a', n') k v' ∧ m'.target? k = some v') ↔
          ¬ Overrun resolver m k)) ∧
      ∀ k v, m'.target? k = some v → ∃ a n, m.target? a = some n ∧ ResolvesTo resolver (a, n) k v := by
  have hdone := redirected_of_resolve hpermit hr
  have hforms : ∀ k v, m'.target? k = some v → ∃ a n, m.target? a = some n ∧ ResolvesTo resolver (a, n) k v := by
    intro k v hv
    rcases hdone.standing k v hv with hrow | ⟨⟨a, n⟩, hrow, hto⟩
    · cases hrow
    · exact ⟨a, n, (Directory.get?_eq_some_iff ..).2 hrow, hto⟩
  refine ⟨fun a n k v htarget hto => ?_, hforms⟩
  have hthere : (m'.target? k).isSome = true ↔ Kept resolver m.entries.rows k :=
    (hdone.kept k).trans (or_iff_right (by simp))
  rw [← kept_iff_not_overrun htarget hto, ← hthere]
  constructor
  · rintro ⟨_, _, v', -, -, hv'⟩
    rw [hv']
    rfl
  · intro hsome
    obtain ⟨v', hv'⟩ := Option.isSome_iff_exists.1 hsome
    obtain ⟨a', n', htarget', hto'⟩ := hforms k v' hv'
    exact ⟨a', n', v', htarget', hto', hv'⟩

/-- A resolver that knows one placeholder and not the other, and another name for the first. -/
def mover : Resolver := fun x =>
  ⟨if x = "$\x7benv\x7d" ∨ x = "primary" then some "db" else if x = "$\x7bgone\x7d" then none else some x, []⟩

/-- An alias whose own link is dropped, after the one link that comes to it. -/
def overtaken : Aliases := { entries := (Directory.empty.insert "$\x7benv\x7d" "svc").insert "db" "$\x7bgone\x7d" }

/-- The same, with a link that comes to the alias after that. -/
def retaken : Aliases := { entries := overtaken.entries.insert "primary" "pg" }

theorem retaken_resolve : (retaken.resolve mover).value = .ok { entries := Directory.empty.insert "db" "pg" } := by
  have hrows : retaken.entries.rows = [("$\x7benv\x7d", "svc"), ("db", "$\x7bgone\x7d"), ("primary", "pg")] := by
    decide
  have hfirst : (resolveLink true mover retaken.entries "$\x7benv\x7d" "svc").value =
      .ok ((retaken.entries.erase "$\x7benv\x7d").insert "db" "svc") := by
    rw [resolveLink_of_resolvesTo (k := "db") (v := "svc") _ _ ⟨rfl, rfl, by decide⟩]
    exact link_of_get?_eq_none rfl
  let dropped := ((retaken.entries.erase "$\x7benv\x7d").insert "db" "svc").erase "db"
  have hsecond : (resolveLink true mover ((retaken.entries.erase "$\x7benv\x7d").insert "db" "svc") "db"
      "$\x7bgone\x7d").value = .ok dropped := rfl
  have hthird : (resolveLink true mover dropped "primary" "pg").value =
      .ok ((dropped.erase "primary").insert "db" "pg") := by
    rw [resolveLink_of_resolvesTo (k := "db") (v := "pg") _ _ ⟨rfl, rfl, by decide⟩]
    exact link_of_get?_eq_none rfl
  have hlinks : (resolveLinks true mover retaken.entries.rows retaken.entries).value =
      .ok (Directory.empty.insert "db" "pg") := by
    rw [hrows, resolveLinks_of_ok hfirst, resolveLinks_of_ok hsecond, resolveLinks_of_ok hthird]
    rfl
  exact resolve_eq_ok_iff.2 ⟨_, hlinks, rfl⟩

/-- The alias is there again, for the sake of the last link. -/
theorem resolve_keeps_retaken : retaken.overriding = true ∧ ∃ m', (retaken.resolve mover).value = .ok m' ∧
    ¬ Overrun mover retaken "db" ∧ ∃ v, m'.target? "db" = some v := by
  obtain ⟨hkeeps, -⟩ := resolve_keeps_iff rfl retaken_resolve
  have hlast : ResolvesTo mover ("primary", "pg") "db" "pg" := ⟨rfl, rfl, by decide⟩
  have hnot : ¬ Overrun mover retaken "db" := fun ⟨_, _, _, hall⟩ =>
    absurd (hall "primary" "pg" "pg" rfl hlast) (by decide)
  obtain ⟨-, -, v, -, -, hv⟩ := (hkeeps "primary" "pg" "db" "pg" rfl hlast).2 hnot
  exact ⟨rfl, _, retaken_resolve, hnot, v, hv⟩

/-- An alias is lost although a link comes to it: it is dropped with its old link, whose place the link has
taken. -/
theorem redirected_alias_lost : ∃ (m m' : Aliases) (r : Resolver) (a n k v : Name), Acyclic m.entries ∧
    m.overriding = true ∧ Idempotent r ∧ (m.resolve r).value = .ok m' ∧ m.target? a = some n ∧
    ((r a).value = some k ∧ (r n).value = some v ∧ k ≠ v) ∧ m'.target? k = none := by
  have hacyclic : Acyclic overtaken.entries :=
    (Acyclic.empty.link (by decide) (link_of_get?_eq_none rfl)).link (by decide) (link_of_get?_eq_none rfl)
  have hidempotent : Idempotent mover := by
    intro x y hy
    unfold mover at hy ⊢
    grind
  have hrows : overtaken.entries.rows = [("$\x7benv\x7d", "svc"), ("db", "$\x7bgone\x7d")] := by decide
  have hto : ResolvesTo mover ("$\x7benv\x7d", "svc") "db" "svc" := ⟨rfl, rfl, by decide⟩
  have hfirst : (resolveLink true mover overtaken.entries "$\x7benv\x7d" "svc").value =
      .ok ((overtaken.entries.erase "$\x7benv\x7d").insert "db" "svc") := by
    rw [resolveLink_of_resolvesTo _ _ hto]
    exact link_of_get?_eq_none rfl
  have hlinks : (resolveLinks true mover overtaken.entries.rows overtaken.entries).value = .ok .empty := by
    rw [hrows, resolveLinks_of_ok hfirst]
    rfl
  exact ⟨overtaken, {}, mover, "$\x7benv\x7d", "svc", "db", "svc", hacyclic, rfl, hidempotent,
    resolve_eq_ok_iff.2 ⟨_, hlinks, rfl⟩, rfl, hto, rfl⟩

end Aliases

end Singletons
