import Singletons.Proofs.Alias.Strict

/-
Why resolving aliases fails where none may be redirected. Each link is checked against what stands in the
working table at its turn: the forms of the links before it, and the links after it as they are. The
resolution fails at the first link whose alias stands for another name there, or whose name leads back to its
alias there (`resolve_verdict`). A link that is still to come may be dropped or get another form when its turn
comes, and then a link has been refused for the sake of one that is in no result. This does not happen
if every alias that is its own form stands for a name that is its own form.
-/

namespace Singletons

namespace Aliases

variable {resolver : Resolver} {rows done rest : List (Name × Name)} {row : Name × Name}
  {entries working : Directory Name} {others : Name → Name → Prop} {a n k v name : Name} {f : Failure}

/-- Why a link is refused among other links: its form is another link from the same alias than one of them, or
they lead from its name back to its alias. -/
inductive Refused (resolver : Resolver) (others : Name → Name → Prop) (row : Name × Name) : Failure → Prop where
  | taken {k v w : Name} (form : ResolvesTo resolver row k v) (there : others k w) (other : w ≠ v) :
      Refused resolver others row (.conflict (.resolvedAliasTaken k row.1 v w))
  | circle {k v : Name} (form : ResolvesTo resolver row k v) (free : ∀ w, others k w → w = v)
      (back : Relation.TransGen others v k) : Refused resolver others row (.circularAlias v k)

/-! ## One link -/

theorem link_eq_error_iff :
    link entries name a = .error f ↔ Relation.TransGen (Links entries) name a ∧ f = .circularAlias name a := by
  rw [← linked_iff]
  unfold link
  cases linked entries name a <;> simp [eq_comm]

/-- An alias that stays in its place is checked with its own old link still there, which no way back to it
needs. -/
theorem relink_refused_iff (h : Acyclic working) (hnext : Links working a n) (hne : k ≠ v) :
    (relink false working a n k v).value = .error f ↔
      (∃ w, Links (working.erase a) k w ∧ w ≠ v ∧ f = .conflict (.resolvedAliasTaken k a v w)) ∨
        ((∀ w, Links (working.erase a) k w → w = v) ∧ Relation.TransGen (Links (working.erase a)) v k ∧
          f = .circularAlias v k) := by
  by_cases hk : k = a
  · subst hk
    have hnone : ∀ w, ¬ Links (working.erase k) k w := fun w hw => (links_erase_iff.1 hw).1 rfl
    rw [or_iff_right (fun ⟨w, hw, _⟩ => hnone w hw), and_iff_right (fun w hw => absurd hw (hnone w)),
      transGen_erase_iff (Ne.symm hne)]
    unfold relink
    rw [if_pos rfl]
    split
    · rename_i heq
      subst heq
      simp only [reduceCtorEq, false_iff, not_and]
      exact fun hway => absurd (hway.head hnext) (h k)
    · exact link_eq_error_iff
  · have hthere : ∀ w, Links (working.erase a) k w ↔ working.get? k = some w := fun w =>
      links_erase_iff.trans (and_iff_right hk)
    simp only [hthere]
    unfold relink
    rw [if_neg hk]
    cases hget : working.get? k with
    | none =>
      simp only [reduceCtorEq, false_and, exists_false, false_or, false_implies, implies_true, true_and]
      exact link_eq_error_iff
    | some existing =>
      simp only [Option.some.injEq, exists_eq_left', forall_eq']
      by_cases heq : existing = v
      · have hno : ¬ Relation.TransGen (Links (working.erase a)) v k := fun hway =>
          h.erase a k (hway.head ((hthere v).2 (hget.trans (congrArg some heq))))
        simp [heq, hno]
      · simp [heq, eq_comm]

theorem resolveLink_refused_iff (h : Acyclic working) (hnext : Links working a n) :
    (resolveLink false resolver working a n).value = .error f ↔
      Refused resolver (Links (working.erase a)) (a, n) f := by
  rcases resolveLink_cases false resolver working a n with ⟨k, v, hto, heq⟩ | ⟨hnone, heq⟩
  · rw [heq, relink_refused_iff h hnext hto.2.2]
    constructor
    · rintro (⟨w, hw, hother, rfl⟩ | ⟨hfree, hback, rfl⟩)
      · exact .taken hto hw hother
      · exact .circle hto hfree hback
    · rintro (⟨form, hw, hother⟩ | ⟨form, hfree, hback⟩)
      · obtain ⟨rfl, rfl⟩ := hto.unique form
        exact .inl ⟨_, hw, hother, rfl⟩
      · obtain ⟨rfl, rfl⟩ := hto.unique form
        exact .inr ⟨hfree, hback, rfl⟩
  · rw [heq]
    constructor
    · rintro ⟨⟩
    · rintro (⟨form, -, -⟩ | ⟨form, -, -⟩) <;> exact absurd form (hnone _ _)

/-! ## The links in their order -/

/-- Whether one of the links of `rows` is refused when they come in their order after those of `before`, the first
of them with this failure. -/
inductive FirstRefused (resolver : Resolver) : (before rows : List (Name × Name)) → Failure → Prop where
  | here {before : List (Name × Name)} {row : Name × Name} {after : List (Name × Name)} {f : Failure}
      (refused : Refused resolver (Standing resolver before after) row f) :
      FirstRefused resolver before (row :: after) f
  | later {before : List (Name × Name)} {row : Name × Name} {after : List (Name × Name)} {f : Failure}
      (kept : ∀ g, ¬ Refused resolver (Standing resolver before after) row g)
      (next : FirstRefused resolver (before ++ [row]) after f) : FirstRefused resolver before (row :: after) f

theorem firstRefused_cons_iff : FirstRefused resolver done (row :: rest) f ↔
    Refused resolver (Standing resolver done rest) row f ∨
      ((∀ g, ¬ Refused resolver (Standing resolver done rest) row g) ∧
        FirstRefused resolver (done ++ [row]) rest f) := by
  constructor
  · rintro (⟨h⟩ | ⟨hkept, hnext⟩)
    · exact .inl h
    · exact .inr ⟨hkept, hnext⟩
  · rintro (h | ⟨hkept, hnext⟩)
    · exact .here h
    · exact .later hkept hnext

theorem FirstRefused.exists_refused (h : FirstRefused resolver done rows f) : ∃ before row after,
    rows = before ++ row :: after ∧ Refused resolver (Standing resolver (done ++ before) after) row f := by
  induction h with
  | @here done row after f refused => exact ⟨[], row, after, rfl, by rwa [List.append_nil]⟩
  | @later done row rest f _ _ ih =>
    obtain ⟨before, row', after, rfl, refused⟩ := ih
    exact ⟨row :: before, row', after, rfl, by rwa [List.append_cons]⟩

/-- Of the links that are refused one is the first. -/
theorem exists_firstRefused {after : List (Name × Name)} : ∀ {before done : List (Name × Name)},
    Refused resolver (Standing resolver (done ++ before) after) row f →
    ∃ g, FirstRefused resolver done (before ++ row :: after) g
  | [], done, h => ⟨f, .here (by rwa [List.append_nil] at h)⟩
  | first :: before, done, h => by
    rw [List.append_cons] at h
    by_cases hfirst : ∃ g, Refused resolver (Standing resolver done (before ++ row :: after)) first g
    · exact hfirst.imp fun g hg => .here hg
    · exact (exists_firstRefused h).imp fun g hg => .later (fun g' hg' => hfirst ⟨g', hg'⟩) hg

/-- A link that is its own form is never refused among links that belong to a table without circles that holds
it. -/
theorem not_refused_of_self (h : Acyclic working) (hnext : Links working a n) (hself : ResolvesTo resolver (a, n) a n)
    (hsub : ∀ k v, others k v → Links working k v) : ¬ Refused resolver others (a, n) f := by
  rintro (⟨form, hthere, hother⟩ | ⟨form, -, hback⟩)
  · obtain ⟨rfl, rfl⟩ := hself.unique form
    exact hother (Option.some.inj ((hsub _ _ hthere).symm.trans hnext))
  · obtain ⟨rfl, rfl⟩ := hself.unique form
    exact h a ((Relation.TransGen.mono hsub _ _ hback).head hnext)

/-- The other links of the working table are those that stand there. -/
theorem Worked.refused_iff (hw : Worked resolver done ((a, n) :: rest) working) (h : Acyclic working)
    (hkey : ∀ v, (a, v) ∉ rest) (hsteady : ∀ row ∈ done, Steady resolver row) :
    Refused resolver (Links (working.erase a)) (a, n) f ↔ Refused resolver (Standing resolver done rest) (a, n) f := by
  have hnext : Links working a n := (hw a n).2 (.inl (List.mem_cons_self ..))
  by_cases hdone : ∃ w, Resolved resolver done a w
  · -- then the link is the form of an earlier one, so it stays as it is
    obtain ⟨w, row, hrow, hto⟩ := hdone
    obtain rfl : w = n := Option.some.inj (((hw a w).2 (.inr ⟨row, hrow, hto⟩)).symm.trans hnext)
    have hself : ResolvesTo resolver (a, w) a w :=
      ⟨(hsteady row hrow).left a hto.1, (hsteady row hrow).right w hto.2.1, hto.2.2⟩
    have hstanding : ∀ k v, Standing resolver done rest k v → Links working k v := fun k v hkv =>
      (hw k v).2 (hkv.imp_left (List.mem_cons_of_mem _))
    exact iff_of_false (not_refused_of_self h hnext hself fun k v hkv => (links_erase_iff.1 hkv).2)
      (not_refused_of_self h hnext hself hstanding)
  · have hothers : Links (working.erase a) = Standing resolver done rest := by
      funext k v
      apply propext
      rw [links_erase_iff]
      constructor
      · rintro ⟨hk, hkv⟩
        refine ((hw k v).1 hkv).imp_left fun hrow => ?_
        exact (List.mem_cons.1 hrow).resolve_left fun heq => hk (congrArg Prod.fst heq)
      · intro hkv
        refine ⟨?_, (hw k v).2 (hkv.imp_left (List.mem_cons_of_mem _))⟩
        rintro rfl
        rcases hkv with hrow | hto
        · exact hkey v hrow
        · exact hdone ⟨v, hto⟩
    rw [hothers]

/-- The resolution fails with the failure of the first link that is refused. -/
theorem Worked.run_refused_iff : ∀ {rows done : List (Name × Name)} {working : Directory Name},
    Worked resolver done rows working → Acyclic working → rows.Pairwise (fun r r' => r.1 < r'.1) →
    (∀ row ∈ done ++ rows, Steady resolver row) →
    ((resolveLinks false resolver rows working).value = .error f ↔ FirstRefused resolver done rows f)
  | [], done, working, _, _, _, _ => by
    constructor <;> rintro ⟨⟩
  | (a, n) :: rows, done, working, hw, h, hsorted, hsteady => by
    obtain ⟨hlt, hsorted⟩ := List.pairwise_cons.1 hsorted
    have hkey : ∀ v, (a, v) ∉ rows := fun v hv => String.lt_irrefl _ (hlt (a, v) hv)
    have hdone : ∀ row ∈ done, Steady resolver row := fun row hrow => hsteady row (List.mem_append_left _ hrow)
    have hnext : Links working a n := (hw a n).2 (.inl (List.mem_cons_self ..))
    have hone : ∀ g, (resolveLink false resolver working a n).value = .error g ↔
        Refused resolver (Standing resolver done rows) (a, n) g := fun g =>
      (resolveLink_refused_iff h hnext).trans (hw.refused_iff h hkey hdone)
    rw [firstRefused_cons_iff, ← hone f]
    simp only [← hone]
    cases hr : (resolveLink false resolver working a n).value with
    | error g =>
      rw [resolveLinks_of_error hr]
      simp
    | ok working' =>
      rw [resolveLinks_of_ok hr]
      rw [List.append_cons] at hsteady
      simp only [reduceCtorEq, not_false_eq_true, implies_true, false_or, true_and]
      exact Worked.run_refused_iff (hw.step hkey hdone hr) (acyclic_resolveLink h hr) hsorted hsteady

/-! ## The verdict -/

/-- Whether links give no alias two names and close no circle. -/
structure Consistent (links : Name → Name → Prop) : Prop where
  single : ∀ {k v w}, links k v → links k w → v = w
  acyclic : ∀ k, ¬ Relation.TransGen links k k

section Verdict

variable {m : Aliases} (hacyclic : Acyclic m.entries) (hstrict : m.overriding = false)
  (hidempotent : Idempotent resolver)

include hacyclic hstrict hidempotent in
theorem resolve_refused_iff :
    (m.resolve resolver).value = .error f ↔ FirstRefused resolver [] m.entries.rows f := by
  rw [resolve_eq_error_iff, hstrict]
  exact (Worked.start m.entries).run_refused_iff hacyclic m.entries.sorted fun row _ => hidempotent.steady row

include hacyclic hstrict hidempotent in
/-- A resolution that succeeds has met no two forms of one alias and no circle of forms. -/
theorem consistent_of_ok {m' : Aliases} (hr : (m.resolve resolver).value = .ok m') :
    Consistent (Resolved resolver m.entries.rows) := by
  have htarget : ∀ k v, m'.target? k = some v ↔ Resolved resolver m.entries.rows k v := fun k v =>
    target?_resolve hstrict (fun row _ => hidempotent.steady row) hr
  refine ⟨fun {k v w} hv hw => ?_, fun k hway => ?_⟩
  · exact Option.some.inj (((htarget k v).2 hv).symm.trans ((htarget k w).2 hw))
  · exact acyclic_resolve hacyclic hr k (Relation.TransGen.mono (fun k v => (htarget k v).2) _ _ hway)

/-- Whether every alias that is its own form stands for a name that is its own form. -/
def Settled (resolver : Resolver) (m : Aliases) : Prop :=
  ∀ a n, m.target? a = some n → (resolver a).value = some a → (resolver n).value = some n

variable {before after : List (Name × Name)} (hsettled : Settled resolver m)
  (hrows : m.entries.rows = before ++ row :: after)

include hacyclic hidempotent hsettled hrows

/-- What stands under an alias that is its own form is in the result. -/
theorem Settled.resolved_of_standing (hk : (resolver k).value = some k) (h : Standing resolver before after k v) :
    Resolved resolver m.entries.rows k v ∧ (resolver v).value = some v := by
  rcases h with hrow | ⟨earlier, hmem, hto⟩
  · have hmem : (k, v) ∈ m.entries.rows := by
      rw [hrows]
      exact List.mem_append_right _ (List.mem_cons_of_mem _ hrow)
    have hlink : m.target? k = some v := (Directory.get?_eq_some_iff ..).2 hmem
    have hne : k ≠ v := by
      rintro rfl
      exact hacyclic k (.single hlink)
    have hv := hsettled k v hlink hk
    exact ⟨⟨(k, v), hmem, hk, hv, hne⟩, hv⟩
  · refine ⟨⟨earlier, ?_, hto⟩, hidempotent _ _ hto.2.1⟩
    rw [hrows]
    exact List.mem_append_left _ hmem

/-- A refusal is then one for the sake of the result. -/
theorem Settled.refused (h : Refused resolver (Standing resolver before after) row f) :
    (∃ k v w, f = .conflict (.resolvedAliasTaken k row.1 v w) ∧ Resolved resolver m.entries.rows k v ∧
        Resolved resolver m.entries.rows k w ∧ v ≠ w) ∨
      ∃ k v, f = .circularAlias v k ∧ Relation.TransGen (Resolved resolver m.entries.rows) k k := by
  have hrow : ∀ {k v}, ResolvesTo resolver row k v → Resolved resolver m.entries.rows k v := fun hto =>
    ⟨row, by rw [hrows]; exact List.mem_append_right _ (List.mem_cons_self ..), hto⟩
  cases h with
  | @taken k v w form there other =>
    have hthere := hsettled.resolved_of_standing hacyclic hidempotent hrows (hidempotent _ _ form.1) there
    exact .inl ⟨k, v, w, rfl, hrow form, hthere.1, Ne.symm other⟩
  | @circle k v form free back =>
    have hway : Relation.TransGen (Resolved resolver m.entries.rows) v k ∧ (resolver k).value = some k := by
      clear free
      have hv : (resolver v).value = some v := hidempotent _ _ form.2.1
      clear form
      induction back with
      | single hlink =>
        have := hsettled.resolved_of_standing hacyclic hidempotent hrows hv hlink
        exact ⟨.single this.1, this.2⟩
      | tail _ hlink ih =>
        have := hsettled.resolved_of_standing hacyclic hidempotent hrows ih.2 hlink
        exact ⟨ih.1.tail this.1, this.2⟩
    exact .inr ⟨k, v, rfl, .head (hrow form) hway.1⟩

end Verdict

/-- When resolving aliases fails where none may be redirected, for all aliases and for every resolver that leaves
what it comes to as it is. The links are resolved in their order, and the failure is that of the first one that
is refused among the forms of those before it and those after it as they are; without any it succeeds. Two forms
of one alias, or a circle of forms, are never missed. Conversely, if every alias that is its own form stands for
a name that is its own form, then the resolution fails with a conflict only over two forms of one alias, with a
circle only over a circle of forms, and not at all if there are none. -/
theorem resolve_verdict {m : Aliases} (hacyclic : Acyclic m.entries) (hstrict : m.overriding = false)
    (hidempotent : Idempotent resolver) :
    (∀ f, (m.resolve resolver).value = .error f ↔ FirstRefused resolver [] m.entries.rows f) ∧
      ((∃ m', (m.resolve resolver).value = .ok m') ↔ ∀ before row after, m.entries.rows = before ++ row :: after →
        ∀ f, ¬ Refused resolver (Standing resolver before after) row f) ∧
      ((∃ m', (m.resolve resolver).value = .ok m') → Consistent (Resolved resolver m.entries.rows)) ∧
      (Settled resolver m →
        (∀ why, (m.resolve resolver).value = .error (.conflict why) →
          ∃ k v w, Resolved resolver m.entries.rows k v ∧ Resolved resolver m.entries.rows k w ∧ v ≠ w) ∧
        (∀ name a, (m.resolve resolver).value = .error (.circularAlias name a) →
          ∃ k, Relation.TransGen (Resolved resolver m.entries.rows) k k) ∧
        (Consistent (Resolved resolver m.entries.rows) → ∃ m', (m.resolve resolver).value = .ok m')) := by
  have herror : ∀ f, (m.resolve resolver).value = .error f ↔ FirstRefused resolver [] m.entries.rows f := fun f =>
    resolve_refused_iff hacyclic hstrict hidempotent
  have hok : (∃ m', (m.resolve resolver).value = .ok m') ↔ ∀ f, ¬ FirstRefused resolver [] m.entries.rows f := by
    simp only [← herror]
    cases (m.resolve resolver).value <;> simp
  have hrefused : Settled resolver m → ∀ f, FirstRefused resolver [] m.entries.rows f →
      (∃ why, f = .conflict why ∧ ∃ k v w, Resolved resolver m.entries.rows k v ∧
        Resolved resolver m.entries.rows k w ∧ v ≠ w) ∨
      ∃ name a, f = .circularAlias name a ∧ ∃ k, Relation.TransGen (Resolved resolver m.entries.rows) k k := by
    intro hsettled f hf
    obtain ⟨before, row, after, hrows, hrow⟩ := hf.exists_refused
    rcases hsettled.refused hacyclic hidempotent hrows hrow with ⟨k, v, w, rfl, htwo⟩ | ⟨k, v, rfl, hcircle⟩
    · exact .inl ⟨_, rfl, k, v, w, htwo⟩
    · exact .inr ⟨v, k, rfl, k, hcircle⟩
  refine ⟨herror, ?_, fun ⟨m', hr⟩ => consistent_of_ok hacyclic hstrict hidempotent hr,
    fun hsettled => ⟨fun why hwhy => ?_, fun name a hcircle => ?_, fun hconsistent => hok.2 fun f hf => ?_⟩⟩
  · rw [hok]
    constructor
    · intro hnone before row after hrows f hf
      have hf : Refused resolver (Standing resolver ([] ++ before) after) row f := hf
      obtain ⟨g, hg⟩ := exists_firstRefused hf
      exact hnone g (hrows ▸ hg)
    · intro hnone f hf
      obtain ⟨before, row, after, hrows, hrow⟩ := hf.exists_refused
      exact hnone before row after hrows f hrow
  · rcases hrefused hsettled _ ((herror _).1 hwhy) with ⟨_, -, htwo⟩ | ⟨_, _, heq, -⟩
    · exact htwo
    · cases heq
  · rcases hrefused hsettled _ ((herror _).1 hcircle) with ⟨_, heq, -⟩ | ⟨_, _, -, hway⟩
    · cases heq
    · exact hway
  · rcases hrefused hsettled f hf with ⟨_, -, k, v, w, hv, hw, hne⟩ | ⟨_, _, -, k, hway⟩
    · exact hne (hconsistent.single hv hw)
    · exact hconsistent.acyclic k hway

/-! ## Links that come to one -/

/-- A single link is in conflict with none and closes no circle. -/
theorem consistent_of_single {l w : Name} (hsingle : ∀ k v, others k v → k = l ∧ v = w) (hne : l ≠ w) :
    Consistent others := by
  refine ⟨fun hv hv' => (hsingle _ _ hv).2.trans (hsingle _ _ hv').2.symm, fun k hway => ?_⟩
  obtain ⟨_, hfirst, -⟩ := Relation.TransGen.head'_iff.1 hway
  obtain ⟨_, -, hlast⟩ := Relation.TransGen.tail'_iff.1 hway
  exact hne ((hsingle _ _ hfirst).1.symm.trans (hsingle _ _ hlast).2)

/-- Two aliases that come to one, both of one name. -/
def twofold : Aliases where
  entries := (Directory.empty.insert "first" "postgres").insert "second" "postgres"
  overriding := false

theorem twofold_acyclic : Acyclic twofold.entries :=
  (Acyclic.empty.link (by decide) (link_of_get?_eq_none rfl)).link (by decide) (link_of_get?_eq_none rfl)

theorem rows_twofold : twofold.entries.rows = [("first", "postgres"), ("second", "postgres")] := by decide

theorem resolved_twofold (h : Resolved merger twofold.entries.rows k v) : k = "db" ∧ v = "postgres" := by
  have hfirst : ResolvesTo merger ("first", "postgres") "db" "postgres" := ⟨rfl, rfl, by decide⟩
  have hsecond : ResolvesTo merger ("second", "postgres") "db" "postgres" := ⟨rfl, rfl, by decide⟩
  rw [rows_twofold, resolved_cons_iff, resolved_cons_iff, hfirst.iff, hsecond.iff, or_iff_left not_resolved_nil,
    or_self] at h
  exact h

/-- The two come to the same link, which is no conflict. -/
theorem resolve_verdict_twofold : Acyclic twofold.entries ∧ twofold.overriding = false ∧ Idempotent merger ∧
    Settled merger twofold ∧ ∃ m', (twofold.resolve merger).value = .ok m' := by
  have hsettled : Settled merger twofold := by
    intro a n htarget ha
    have hrow := (Directory.get?_eq_some_iff ..).1 htarget
    rw [show twofold.entries.rows = _ from rows_twofold] at hrow
    rcases List.mem_cons.1 hrow with heq | hrow
    · cases heq; rfl
    · cases List.mem_singleton.1 hrow; rfl
  obtain ⟨-, -, -, hverdict⟩ := resolve_verdict twofold_acyclic rfl merger_idempotent
  have hconsistent := consistent_of_single (fun _ _ => resolved_twofold) (by decide)
  exact ⟨twofold_acyclic, rfl, merger_idempotent, hsettled, (hverdict hsettled).2.2 hconsistent⟩

/-- A link whose form is also that of the link it meets, which is still to come. -/
def awaiting : Aliases where
  entries := (Directory.empty.insert "$\x7benv\x7d" "svc").insert "db" "$\x7bsvc\x7d"
  overriding := false

/-- A resolver of two placeholders. -/
def filler : Resolver := fun x =>
  ⟨some (if x = "$\x7benv\x7d" then "db" else if x = "$\x7bsvc\x7d" then "svc" else x), []⟩

theorem filler_idempotent : Idempotent filler := by
  intro x y hy
  unfold filler at hy ⊢
  grind

theorem rows_awaiting : awaiting.entries.rows = [("$\x7benv\x7d", "svc"), ("db", "$\x7bsvc\x7d")] := by decide

theorem resolved_awaiting (h : Resolved filler awaiting.entries.rows k v) : k = "db" ∧ v = "svc" := by
  have hfirst : ResolvesTo filler ("$\x7benv\x7d", "svc") "db" "svc" := ⟨rfl, rfl, by decide⟩
  have hsecond : ResolvesTo filler ("db", "$\x7bsvc\x7d") "db" "svc" := ⟨rfl, rfl, by decide⟩
  rw [rows_awaiting, resolved_cons_iff, resolved_cons_iff, hfirst.iff, hsecond.iff, or_iff_left not_resolved_nil,
    or_self] at h
  exact h

theorem awaiting_resolve : (awaiting.resolve filler).value =
    .error (.conflict (.resolvedAliasTaken "db" "$\x7benv\x7d" "svc" "$\x7bsvc\x7d")) := by
  have hfirst : (resolveLink false filler awaiting.entries "$\x7benv\x7d" "svc").value =
      .error (.conflict (.resolvedAliasTaken "db" "$\x7benv\x7d" "svc" "$\x7bsvc\x7d")) := by
    rw [resolveLink_of_resolvesTo (k := "db") (v := "svc") _ _ ⟨rfl, rfl, by decide⟩]
    rfl
  refine resolve_eq_error_iff.2 ?_
  rw [rows_awaiting]
  exact resolveLinks_of_error hfirst

/-- A link that leads back only over links that are dropped in their turns. -/
def bridged : Aliases where
  entries := ((Directory.empty.insert "c" "b").insert "b" "a").insert "a" "$\x7bp\x7d"
  overriding := false

/-- A resolver of one placeholder that does not know one name. -/
def forgetter : Resolver := fun x => ⟨if x = "$\x7bp\x7d" then some "c" else if x = "b" then none else some x, []⟩

theorem forgetter_idempotent : Idempotent forgetter := by
  intro x y hy
  unfold forgetter at hy ⊢
  grind

theorem rows_bridged : bridged.entries.rows = [("a", "$\x7bp\x7d"), ("b", "a"), ("c", "b")] := by decide

theorem resolved_bridged (h : Resolved forgetter bridged.entries.rows k v) : k = "a" ∧ v = "c" := by
  have hfirst : ResolvesTo forgetter ("a", "$\x7bp\x7d") "a" "c" := ⟨rfl, rfl, by decide⟩
  have hsecond : ¬ ResolvesTo forgetter ("b", "a") k v := fun h => nomatch h.1
  have hthird : ¬ ResolvesTo forgetter ("c", "b") k v := fun h => nomatch h.2.1
  rw [rows_bridged, resolved_cons_iff, resolved_cons_iff, resolved_cons_iff, hfirst.iff, or_iff_right hsecond,
    or_iff_right hthird, or_iff_left not_resolved_nil] at h
  exact h

theorem bridged_resolve : (bridged.resolve forgetter).value = .error (.circularAlias "c" "a") := by
  have hback : Relation.TransGen (Links bridged.entries) "c" "a" := .head (b := "b") rfl (.single rfl)
  have hfirst : (resolveLink false forgetter bridged.entries "a" "$\x7bp\x7d").value =
      .error (.circularAlias "c" "a") := by
    rw [resolveLink_of_resolvesTo (k := "a") (v := "c") _ _ ⟨rfl, rfl, by decide⟩]
    exact link_eq_error_iff.2 ⟨hback, rfl⟩
  refine resolve_eq_error_iff.2 ?_
  rw [rows_bridged]
  exact resolveLinks_of_error hfirst

/-- Links are refused for the sake of links that are in no result: the links have one form each for their
aliases and close no circle, and all the same one resolution ends in a conflict and another one in a circle. -/
theorem refused_for_unresolved :
    (∃ (m : Aliases) (r : Resolver), Acyclic m.entries ∧ m.overriding = false ∧ Idempotent r ∧
        Consistent (Resolved r m.entries.rows) ∧
        (m.resolve r).value =
          .error (.conflict (.resolvedAliasTaken "db" "$\x7benv\x7d" "svc" "$\x7bsvc\x7d"))) ∧
      ∃ (m : Aliases) (r : Resolver), Acyclic m.entries ∧ m.overriding = false ∧ Idempotent r ∧
        Consistent (Resolved r m.entries.rows) ∧
        (m.resolve r).value = .error (.circularAlias "c" "a") := by
  have hawaiting : Acyclic awaiting.entries :=
    (Acyclic.empty.link (by decide) (link_of_get?_eq_none rfl)).link (by decide) (link_of_get?_eq_none rfl)
  have hbridged : Acyclic bridged.entries :=
    ((Acyclic.empty.link (by decide) (link_of_get?_eq_none rfl)).link (by decide)
      (link_of_get?_eq_none rfl)).link (by decide) (link_of_get?_eq_none rfl)
  exact ⟨⟨awaiting, filler, hawaiting, rfl, filler_idempotent,
      consistent_of_single (fun _ _ => resolved_awaiting) (by decide), awaiting_resolve⟩,
    bridged, forgetter, hbridged, rfl, forgetter_idempotent,
    consistent_of_single (fun _ _ => resolved_bridged) (by decide), bridged_resolve⟩

end Aliases

end Singletons
