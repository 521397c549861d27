import Singletons.Proofs.Alias.Form

/-
What a resolution leaves under one alias, whether or not aliases may be redirected. The turn of a link puts its
form under the alias of the form, drops what stands under the alias of the link, or does neither; so the form that
is left is that of the last link that does either. Every link that is left is a form, and a resolution that
starts from forms of themselves has nothing to do.
-/

namespace Singletons

namespace Aliases

variable {overriding : Bool} {resolver : Resolver} {rows : List (Name × Name)} {row : Name × Name}
  {working working' : Directory Name} {m m' : Aliases} {a n k v : Name}

/-! ## One link -/

/-- Whether the turn of a link leaves what stands under the alias `k` as it is: it neither comes to `k` nor is the
link of `k`, or it is its own form. -/
def Spares (resolver : Resolver) (k : Name) (row : Name × Name) : Prop :=
  (∀ v, ResolvesTo resolver row k v → row = (k, v)) ∧ (row.1 = k → ResolvesTo resolver row k row.2)

theorem get?_resolveLink_iff (hr : (resolveLink overriding resolver working a n).value = .ok working') :
    working'.get? k = some v ↔ (working.get? k = some v ∧ Spares resolver k (a, n)) ∨
      (ResolvesTo resolver (a, n) k v ∧ (a, n) ≠ (k, v)) := by
  by_cases hto : ∃ w, ResolvesTo resolver (a, n) k w
  · obtain ⟨w, hto⟩ := hto
    rw [get?_of_resolvesTo hto hr]
    by_cases hself : k = a ∧ w = n
    · obtain ⟨rfl, rfl⟩ := hself
      have hspares : Spares resolver k (k, w) := ⟨fun v hv => by rw [(hto.unique hv).2], fun _ => hto⟩
      have hno : ¬ (ResolvesTo resolver (k, w) k v ∧ (k, w) ≠ (k, v)) := fun h => h.2 (hspares.1 v h.1)
      rw [if_pos ⟨rfl, rfl⟩, and_iff_left hspares, or_iff_left hno]
    · have hne : (a, n) ≠ (k, w) := fun heq => hself ⟨congrArg Prod.fst heq.symm, congrArg Prod.snd heq.symm⟩
      have hnot : ¬ Spares resolver k (a, n) := fun h => hne (h.1 w hto)
      rw [if_neg hself, or_iff_right fun h => hnot h.2, hto.iff, Option.some.injEq]
      constructor
      · rintro rfl
        exact ⟨⟨rfl, rfl⟩, hne⟩
      · rintro ⟨⟨-, rfl⟩, -⟩
        rfl
  · have hno : ∀ w, ¬ ResolvesTo resolver (a, n) k w := fun w hw => hto ⟨w, hw⟩
    rw [get?_of_not_resolvesTo hno hr, or_iff_left fun h => hno v h.1]
    by_cases hk : k = a
    · subst hk
      rw [if_pos rfl]
      exact iff_of_false (by simp) fun h => hno n (h.2.2 rfl)
    · rw [if_neg hk]
      exact (and_iff_left ⟨fun w hw => absurd hw (hno w), fun heq => absurd heq.symm hk⟩).symm

/-! ## The links in their order -/

/-- Whether the links put `v` under the alias `k` and leave it there. -/
def Leaves (resolver : Resolver) (rows : List (Name × Name)) (k v : Name) : Prop :=
  ∃ before row after, rows = before ++ row :: after ∧ ResolvesTo resolver row k v ∧ row ≠ (k, v) ∧
    ∀ later ∈ after, Spares resolver k later

theorem not_leaves_nil : ¬ Leaves resolver [] k v := by
  rintro ⟨before, row, after, heq, -⟩
  exact List.append_ne_nil_of_right_ne_nil before (List.cons_ne_nil row after) heq.symm

theorem leaves_cons_iff : Leaves resolver (row :: rows) k v ↔
    (ResolvesTo resolver row k v ∧ row ≠ (k, v) ∧ ∀ later ∈ rows, Spares resolver k later) ∨
      Leaves resolver rows k v := by
  constructor
  · rintro ⟨before, last, after, heq, hlast⟩
    cases before with
    | nil =>
      cases heq
      exact .inl hlast
    | cons first before =>
      cases heq
      exact .inr ⟨before, last, after, rfl, hlast⟩
  · rintro (h | ⟨before, last, after, rfl, hlast⟩)
    · exact ⟨[], row, rows, rfl, h⟩
    · exact ⟨row :: before, last, after, rfl, hlast⟩

/-- What stands under an alias in the end is what stood there, if all links spare it, or what they leave there. -/
theorem get?_resolveLinks_iff : ∀ {rows : List (Name × Name)} {working : Directory Name},
    (resolveLinks overriding resolver rows working).value = .ok working' →
    (working'.get? k = some v ↔
      (working.get? k = some v ∧ ∀ row ∈ rows, Spares resolver k row) ∨ Leaves resolver rows k v)
  | [], working, hr => by
    cases hr
    simp [not_leaves_nil]
  | (a, n) :: rows, working, hr => by
    obtain ⟨next, hone, hr⟩ := resolveLinks_cons_eq_ok_iff.1 hr
    rw [get?_resolveLinks_iff hr, get?_resolveLink_iff hone, leaves_cons_iff, List.forall_mem_cons, ← or_assoc,
      or_and_right, and_assoc, and_assoc]

theorem target?_resolve_iff (hr : (m.resolve resolver).value = .ok m') :
    m'.target? k = some v ↔ (m.target? k = some v ∧ ∀ row ∈ m.entries.rows, Spares resolver k row) ∨
      Leaves resolver m.entries.rows k v := by
  obtain ⟨entries, hlinks, rfl⟩ := resolve_eq_ok_iff.1 hr
  exact get?_resolveLinks_iff hlinks

/-- Every link that a resolution leaves is what some link resolves to. -/
theorem resolved_of_target?_resolve (hr : (m.resolve resolver).value = .ok m') (hv : m'.target? k = some v) :
    Resolved resolver m.entries.rows k v := by
  rcases (target?_resolve_iff hr).1 hv with ⟨hold, hspares⟩ | ⟨before, row, after, hrows, hto, -⟩
  · have hrow : (k, v) ∈ m.entries.rows := (Directory.get?_eq_some_iff ..).1 hold
    exact ⟨(k, v), hrow, (hspares (k, v) hrow).2 rfl⟩
  · exact ⟨row, by simp [hrows], hto⟩

/-! ## Resolving again -/

/-- A link that is its own form stays. -/
theorem resolveLink_of_self (overriding : Bool) (working : Directory Name) (h : ResolvesTo resolver (a, n) a n) :
    (resolveLink overriding resolver working a n).value = .ok working := by
  rw [resolveLink_of_resolvesTo _ _ h, relink, if_pos rfl, if_pos rfl]

theorem resolveLinks_of_self (overriding : Bool) (working : Directory Name) : ∀ {rows : List (Name × Name)},
    (∀ row ∈ rows, ResolvesTo resolver row row.1 row.2) →
    (resolveLinks overriding resolver rows working).value = .ok working
  | [], _ => rfl
  | (a, n) :: rows, h => by
    rw [resolveLinks_of_ok (resolveLink_of_self overriding working (h (a, n) (List.mem_cons_self ..)))]
    exact resolveLinks_of_self overriding working fun row hrow => h row (List.mem_cons_of_mem _ hrow)

/-- Resolving aliases is idempotent, whatever the aliases, whether or not they may be redirected, for every
resolver that leaves what it comes to as it is. After a resolution that succeeds both sides of each link are left
as they are by the resolver and are different names, and another resolution succeeds and changes nothing. -/
theorem resolve_idempotent (hidempotent : Idempotent resolver) (hr : (m.resolve resolver).value = .ok m') :
    (∀ k v, m'.target? k = some v →
        (resolver k).value = some k ∧ (resolver v).value = some v ∧ k ≠ v) ∧
      (m'.resolve resolver).value = .ok m' := by
  have hself : ∀ k v, m'.target? k = some v → ResolvesTo resolver (k, v) k v := by
    intro k v hv
    obtain ⟨row, -, hto⟩ := resolved_of_target?_resolve hr hv
    exact ⟨hidempotent _ _ hto.1, hidempotent _ _ hto.2.1, hto.2.2⟩
  refine ⟨hself, resolve_eq_ok_iff.2 ⟨m'.entries, resolveLinks_of_self _ _ ?_, rfl⟩⟩
  rintro ⟨k, v⟩ hrow
  exact hself k v ((Directory.get?_eq_some_iff ..).2 hrow)

/-- A resolver of three placeholders. -/
def expander : Resolver := fun x =>
  ⟨some (if x = "$\x7bp\x7d" then "p" else if x = "$\x7bq\x7d" then "q" else if x = "$\x7br\x7d" then "r" else x), []⟩

theorem expander_idempotent : Idempotent expander := by
  intro x y hy
  unfold expander at hy ⊢
  grind

/-- An alias that moves, one that moves over another one, one that stays as it is, one whose name gets another
form, and the one that is moved over. -/
def assorted : Aliases where
  entries := ((((Directory.empty.insert "$\x7bp\x7d" "u").insert "$\x7bq\x7d" "v").insert "a" "w").insert "b"
    "$\x7br\x7d").insert "q" "old"

theorem assorted_resolve : (assorted.resolve expander).value = .ok { entries :=
    (((Directory.empty.insert "a" "w").insert "b" "r").insert "p" "u").insert "q" "v" } := by
  have hrows : assorted.entries.rows =
      [("$\x7bp\x7d", "u"), ("$\x7bq\x7d", "v"), ("a", "w"), ("b", "$\x7br\x7d"), ("q", "old")] := by decide
  let moved := (assorted.entries.erase "$\x7bp\x7d").insert "p" "u"
  have hfirst : (resolveLink true expander assorted.entries "$\x7bp\x7d" "u").value = .ok moved := by
    rw [resolveLink_of_resolvesTo (k := "p") (v := "u") _ _ ⟨rfl, rfl, by decide⟩]
    exact link_of_get?_eq_none rfl
  let landed := (moved.erase "$\x7bq\x7d").insert "q" "v"
  have hsecond : (resolveLink true expander moved "$\x7bq\x7d" "v").value = .ok landed := by
    rw [resolveLink_of_resolvesTo (k := "q") (v := "v") _ _ ⟨rfl, rfl, by decide⟩]
    exact link_of_get?_eq_none rfl
  have hthird : (resolveLink true expander landed "a" "w").value = .ok landed :=
    resolveLink_of_self _ _ ⟨rfl, rfl, by decide⟩
  have hfourth : (resolveLink true expander landed "b" "$\x7br\x7d").value = .ok (landed.insert "b" "r") := by
    rw [resolveLink_of_resolvesTo (k := "b") (v := "r") _ _ ⟨rfl, rfl, by decide⟩]
    exact link_of_get?_eq_none rfl
  have hfifth : (resolveLink true expander (landed.insert "b" "r") "q" "old").value = .ok (landed.insert "b" "r") :=
    resolveLink_of_self _ _ ⟨rfl, rfl, by decide⟩
  have hlinks : (resolveLinks true expander assorted.entries.rows assorted.entries).value =
      .ok ((((Directory.empty.insert "a" "w").insert "b" "r").insert "p" "u").insert "q" "v") := by
    rw [hrows, resolveLinks_of_ok hfirst, resolveLinks_of_ok hsecond, resolveLinks_of_ok hthird,
      resolveLinks_of_ok hfourth, resolveLinks_of_ok hfifth]
    rfl
  exact resolve_eq_ok_iff.2 ⟨_, hlinks, rfl⟩

/-- The alias that was moved over stands for a name that is its own form, and resolving again changes nothing. -/
theorem resolve_idempotent_assorted : Idempotent expander ∧ ∃ m', (assorted.resolve expander).value = .ok m' ∧
    m'.target? "q" = some "v" ∧ (expander "v").value = some "v" ∧ (m'.resolve expander).value = .ok m' := by
  obtain ⟨hself, hagain⟩ := resolve_idempotent expander_idempotent assorted_resolve
  exact ⟨expander_idempotent, _, assorted_resolve, rfl, (hself "q" "v" rfl).2.1, hagain⟩

end Aliases

end Singletons
