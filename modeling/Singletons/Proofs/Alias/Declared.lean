import Singletons.Bootstrap
import Singletons.Proofs.Alias.Strict
import Singletons.Proofs.Placeholder.Steady

/-
The aliases that settings declare. A registry that is built from settings has as links what the declarations
resolve to, if aliases may not be redirected and placeholders are all to be resolved: the declarations are
links one by one, and the one pass that resolves them reads properties without placeholders, so that it does
not matter in which order they are.
-/

namespace Singletons

namespace Aliases

variable {m m' : Aliases} {a k v name : Name}

theorem target?_register (hstrict : m.overriding = false) (hne : a ≠ name)
    (hr : (m.register name a).value = .ok m') :
    m'.overriding = false ∧ (m'.target? k = some v ↔ m.target? k = some v ∨ (k = a ∧ v = name)) := by
  obtain ⟨-, -, ⟨rfl, hself | hthere⟩ | ⟨hself, -⟩ | ⟨-, hfree | hoverriding, entries, hl, rfl⟩⟩ := register_eq_ok hr
  · exact absurd hself hne
  · refine ⟨hstrict, .inl, ?_⟩
    rintro (h | ⟨rfl, rfl⟩)
    · exact h
    · exact hthere
  · exact absurd hself hne
  · refine ⟨hstrict, ?_⟩
    rw [target?, ok_of_link hl, Directory.get?_insert]
    by_cases hk : k = a
    · subst hk; simp [hfree, eq_comm]
    · simp [hk, target?]
  · rw [hstrict] at hoverriding
    cases hoverriding

end Aliases

namespace Settings

open Text

variable {m m' : Aliases} {a n : Name}

/-- Declarations that are all accepted are links, one by one. -/
theorem target?_declareAll : ∀ {declarations : List Declaration} {m m' : Aliases}, m.overriding = false →
    (∀ d ∈ declarations, d.byname ≠ d.name) → (declareAll declarations m).value = .ok m' →
    m'.overriding = false ∧
      (m'.target? a = some n ↔ m.target? a = some n ∨ ∃ d ∈ declarations, d.byname = a ∧ d.name = n)
  | [], m, m', hstrict, _, hr => by
    cases hr
    exact ⟨hstrict, by simp⟩
  | d :: rest, m, m', hstrict, hself, hr => by
    simp only [declareAll] at hr
    split at hr
    · cases hr
    · rename_i next hone
      have hnext := Aliases.target?_register (k := a) (v := n) hstrict (hself d (List.mem_cons_self ..)) hone
      obtain ⟨hstrict', hrest⟩ :=
        target?_declareAll hnext.1 (fun d hd => hself d (List.mem_cons_of_mem _ hd)) hr
      refine ⟨hstrict', ?_⟩
      rw [hrest, hnext.2, or_assoc]
      simp only [List.mem_cons, exists_eq_or_imp, @eq_comm _ a, @eq_comm _ n]

theorem reached_declareAll : ∀ {declarations : List Declaration} {m m' : Aliases}, Aliases.Reached m →
    (declareAll declarations m).value = .ok m' → Aliases.Reached m'
  | [], m, m', h, hr => by cases hr; exact h
  | d :: rest, m, m', h, hr => by
    simp only [declareAll] at hr
    split at hr
    · cases hr
    · rename_i next hone
      exact reached_declareAll (h.register d.name d.byname hone) hr

/-- What is built: the declarations one after the other, and then the one pass over them. -/
theorem aliases_of_bootstrap {s : Settings} {r : Registry} (h : (bootstrap s).value = .ok r) :
    ∃ m, (declareAll s.aliases { overriding := s.policy.overrideAliases }).value = .ok m ∧
      ((s.aliases = [] ∧ r.aliases = m) ∨ (m.resolve s.placeholders.resolver).value = .ok r.aliases) := by
  unfold bootstrap at h
  split at h
  · cases h
  dsimp only at h
  split at h
  · cases h
  rename_i m hm
  refine ⟨m, hm, ?_⟩
  split at h
  · cases h
  rename_i aliases haliases
  cases h
  split at haliases
  · rename_i hempty
    cases haliases
    exact .inl ⟨List.isEmpty_iff.1 hempty, rfl⟩
  · exact .inr haliases

theorem acyclic_of_bootstrap {r : Registry} (h : (bootstrap s).value = .ok r) : Aliases.Acyclic r.aliases.entries := by
  obtain ⟨m, hm, hlast⟩ := aliases_of_bootstrap h
  have hreached := reached_declareAll (.empty _) hm
  rcases hlast with ⟨-, hsame⟩ | hresolved
  · rw [hsame]
    exact hreached.acyclic
  · exact (hreached.resolve _ hresolved).acyclic

/-- The aliases of a registry that is built from settings. Where aliases may not be redirected, placeholders
are written with the default delimiters and are all to be resolved, properties have no placeholders and each
side of a declaration is a template, the links are exactly what the declarations resolve to: a declaration
whose two sides resolve to different names makes the one an alias of the other, so that both have the same
canonical name, and no other alias is there. -/
theorem bootstrap_aliases {s : Settings} {r : Registry} (hoverride : s.policy.overrideAliases = false)
    (hbraced : s.placeholders.Braced) (hstrict : s.placeholders.lenient = false)
    (hproperties : ∀ n v, s.placeholders.properties.get? n = some v → '$' ∉ v.toList)
    (hself : ∀ d ∈ s.aliases, d.byname ≠ d.name)
    (htemplate : ∀ d ∈ s.aliases, (∃ t : Template, d.byname = t.render) ∧ ∃ t : Template, d.name = t.render)
    (hr : (bootstrap s).value = .ok r) :
    (∀ a n, r.aliases.target? a = some n ↔ ∃ d ∈ s.aliases,
        s.placeholders.resolve d.byname = .ok a ∧ s.placeholders.resolve d.name = .ok n ∧ a ≠ n) ∧
      ∀ d ∈ s.aliases, ∀ a n, s.placeholders.resolve d.byname = .ok a → s.placeholders.resolve d.name = .ok n →
        r.aliases.canonical a = r.aliases.canonical n := by
  obtain ⟨m, hm, hlast⟩ := aliases_of_bootstrap hr
  have hdeclared := fun a n => target?_declareAll (a := a) (n := n) hoverride hself hm
  have hrow : ∀ a n, (a, n) ∈ m.entries.rows ↔ ∃ d ∈ s.aliases, d.byname = a ∧ d.name = n := by
    intro a n
    rw [← Directory.get?_eq_some_iff]
    exact (hdeclared a n).2.trans (or_iff_right (by simp [Aliases.target?]))
  have hlinks : ∀ a n, r.aliases.target? a = some n ↔ ∃ d ∈ s.aliases,
      s.placeholders.resolve d.byname = .ok a ∧ s.placeholders.resolve d.name = .ok n ∧ a ≠ n := by
    intro a n
    rcases hlast with ⟨hnil, hsame⟩ | hresolved
    · rw [hsame, (hdeclared a n).2, hnil]
      simp [Aliases.target?]
    · have hsteady : ∀ row ∈ m.entries.rows, Aliases.Steady s.placeholders.resolver row := by
        rintro ⟨b, k⟩ hbk
        obtain ⟨d, hd, rfl, rfl⟩ := (hrow b k).1 hbk
        obtain ⟨⟨t, ht⟩, t', ht'⟩ := htemplate d hd
        refine ⟨fun y hy => ?_, fun y hy => ?_⟩
        · rw [ht] at hy; exact hbraced.resolver_steady hstrict hproperties t hy
        · rw [ht'] at hy; exact hbraced.resolver_steady hstrict hproperties t' hy
      rw [Aliases.target?_resolve (hdeclared a n).1 hsteady hresolved]
      constructor
      · rintro ⟨⟨b, k⟩, hbk, hto⟩
        obtain ⟨d, hd, rfl, rfl⟩ := (hrow b k).1 hbk
        exact ⟨d, hd, Placeholders.resolver_eq_some_iff.1 hto.1, Placeholders.resolver_eq_some_iff.1 hto.2.1, hto.2.2⟩
      · rintro ⟨d, hd, ha, hn, hne⟩
        exact ⟨(d.byname, d.name), (hrow ..).2 ⟨d, hd, rfl, rfl⟩, Placeholders.resolver_eq_some_iff.2 ha,
          Placeholders.resolver_eq_some_iff.2 hn, hne⟩
  refine ⟨hlinks, fun d hd a n ha hn => ?_⟩
  by_cases hne : a = n
  · rw [hne]
  · exact (acyclic_of_bootstrap hr).canonical_of_target? ((hlinks a n).2 ⟨d, hd, ha, hn, hne⟩)

/-- Two declarations that come to the same alias. -/
def merging : Settings where
  policy := { overrideAliases := false }
  placeholders := { properties := Directory.empty.insert "env" "prod" }
  aliases := [⟨"db", "$\x7benv\x7d"⟩, ⟨"db", "prod"⟩]

theorem merging_braced : merging.placeholders.Braced := ⟨rfl, rfl⟩

theorem merging_resolve : merging.placeholders.resolve "$\x7benv\x7d" = .ok "prod" ∧
    merging.placeholders.resolve "db" = .ok "db" ∧ merging.placeholders.resolve "prod" = .ok "prod" := by
  have hplain : ∀ text visiting, '$' ∉ text.toList →
      merging.placeholders.resolveBytes (toBytes text) visiting = some (.ok (toBytes text)) :=
    fun _ _ h => merging_braced.resolveBytes_of_not_mem (Placeholders.dollar_not_mem h)
  have hhole : merging.placeholders.resolveBytes (toBytes "$\x7benv\x7d") [] = some (.ok (toBytes "prod")) := by
    let value := toBytes "$\x7benv\x7d"
    have hname : merging.placeholders.resolveAfter value [] (Placeholders.enclose "env" ++ "") [] =
        merging.placeholders.resolveAfter value ([] ++ toBytes "prod") "" [] :=
      merging_braced.resolveAfter_name ⟨"env", by decide⟩ List.not_mem_nil rfl (hplain "prod" _ (by decide))
    exact hname.trans (merging_braced.resolveAfter_plain (by simp))
  unfold Placeholders.resolve
  rw [hhole, hplain "db" _ (by decide), hplain "prod" _ (by decide)]
  simp only [ofBytes_toBytes]
  trivial

/-- The two declarations as links, before they are resolved. -/
def mergingDeclared : Aliases where
  entries := (Directory.empty.insert "$\x7benv\x7d" "db").insert "prod" "db"
  overriding := false

theorem merging_bootstrap : (bootstrap merging).value = .ok { Registry.ofPolicy merging.policy with
    aliases := { entries := Directory.empty.insert "prod" "db", overriding := false } } := by
  have hfirst : Aliases.register { overriding := false } "db" "$\x7benv\x7d" = _ :=
    Aliases.register_first false (by decide) (by decide) (by decide)
  have hsecond : (Aliases.register { entries := Directory.empty.insert "$\x7benv\x7d" "db", overriding := false }
      "db" "prod").value = .ok mergingDeclared := by
    unfold Aliases.register Aliases.link
    rw [Aliases.linked_eq_false rfl]
    rfl
  have hdeclare : (declareAll merging.aliases (Registry.ofPolicy merging.policy).aliases).value =
      .ok mergingDeclared := by
    simp only [merging, declareAll, Registry.ofPolicy, hfirst, hsecond]
  have hresolve : (mergingDeclared.resolve merging.placeholders.resolver).value =
      .ok { entries := Directory.empty.insert "prod" "db", overriding := false } := by
    obtain ⟨hhole, hname, hplain⟩ := merging_resolve
    have hrows : mergingDeclared.entries.rows = [("$\x7benv\x7d", "db"), ("prod", "db")] := by decide
    unfold Aliases.resolve
    rw [hrows]
    simp only [Aliases.resolveLinks, Aliases.resolveLink, Placeholders.resolver, hhole, hname, hplain]
    rfl
  have hvalid : merging.validate = .ok () := rfl
  unfold bootstrap
  rw [hvalid]
  dsimp only
  rw [hdeclare]
  dsimp only
  rw [if_neg (by decide), hresolve]

theorem bootstrap_aliases_merging : ∃ r, (bootstrap merging).value = .ok r ∧
    r.aliases.target? "prod" = some "db" ∧ r.aliases.canonical "prod" = r.aliases.canonical "db" := by
  have hproperties : ∀ n v, merging.placeholders.properties.get? n = some v → '$' ∉ v.toList := by
    intro n v hv
    rw [merging, Directory.get?_insert] at hv
    split at hv
    · cases hv; decide
    · cases hv
  have hself : ∀ d ∈ merging.aliases, d.byname ≠ d.name := by decide
  let db : Template := .literal ⟨"db", by decide⟩ .done
  let prod : Template := .literal ⟨"prod", by decide⟩ .done
  let hole : Template := .hole (.literal ⟨"env", by decide⟩ .done) .done
  have htemplate : ∀ d ∈ merging.aliases,
      (∃ t : Template, d.byname = t.render) ∧ ∃ t : Template, d.name = t.render := by
    intro d hd
    rcases List.mem_cons.1 hd with rfl | hd
    · exact ⟨⟨hole, by decide⟩, db, by decide⟩
    · cases List.mem_singleton.1 hd
      exact ⟨⟨prod, by decide⟩, db, by decide⟩
  obtain ⟨hlinks, hcanonical⟩ :=
    bootstrap_aliases (s := merging) rfl ⟨rfl, rfl⟩ rfl hproperties hself htemplate merging_bootstrap
  obtain ⟨hhole, hname, -⟩ := merging_resolve
  have hfirst := List.mem_cons_self (a := (⟨"db", "$\x7benv\x7d"⟩ : Declaration)) (l := [⟨"db", "prod"⟩])
  exact ⟨_, merging_bootstrap, (hlinks _ _).2 ⟨_, hfirst, hhole, hname, by decide⟩, hcanonical _ hfirst _ _ hhole hname⟩

end Settings

end Singletons
