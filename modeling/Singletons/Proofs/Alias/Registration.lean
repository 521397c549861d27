import Singletons.Proofs.Alias.Calls

/-
Registering one alias. The check for a circle searches the links as they are, where an alias that is about
to be redirected still has its old link; a way that comes to the alias does not need that link, so the check
refuses exactly the links that would close a circle. After the new link, the names whose way passes the
alias have the canonical name of what it stands for, and all others keep theirs.
-/

namespace Singletons

namespace Aliases

variable {m m' : Aliases} {entries : Directory Name} {a name x y : Name}

/-! ## Ways after one more link -/

/-- The links that lead to an alias are still there when it is redirected. -/
theorem reflTransGen_insert_self (hway : Relation.ReflTransGen (Links entries) x a) :
    Relation.ReflTransGen (Links (entries.insert a name)) x a := by
  induction hway using Relation.ReflTransGen.head_induction_on with
  | refl => exact .refl
  | @head x k hlink _ ih =>
    by_cases hx : x = a
    · rw [hx]
    · exact .head (links_insert_iff.2 (.inr ⟨hx, hlink⟩)) ih

/-- A way that does not pass an alias is still there when it is redirected. -/
theorem reflTransGen_insert (hpass : ¬ Relation.ReflTransGen (Links entries) x a)
    (hway : Relation.ReflTransGen (Links entries) x y) :
    Relation.ReflTransGen (Links (entries.insert a name)) x y := by
  induction hway using Relation.ReflTransGen.head_induction_on with
  | refl => exact .refl
  | @head x k hlink _ ih =>
    have hne : x ≠ a := fun heq => hpass (heq ▸ .refl)
    exact .head (links_insert_iff.2 (.inr ⟨hne, hlink⟩)) (ih fun hka => hpass (.head hlink hka))

/-- No way leads back from the name to its new alias. -/
theorem Acyclic.not_reflTransGen (h : Acyclic (entries.insert a name)) :
    ¬ Relation.ReflTransGen (Links entries) name a := fun hway =>
  h a (.head' (links_insert_iff.2 (.inl ⟨rfl, rfl⟩)) (reflTransGen_insert_self hway))

/-- The check for a circle refuses exactly the links that would close one. -/
theorem linked_eq_false_iff (h : Acyclic entries) (hne : name ≠ a) :
    linked entries name a = false ↔ Acyclic (entries.insert a name) := by
  rw [Bool.eq_false_iff, ne_eq, linked_iff]
  exact ⟨h.insert hne, fun hnew hway => hnew.not_reflTransGen hway.to_reflTransGen⟩

/-! ## Canonical names after one more link -/

theorem reflTransGen_follow (steps : Nat) (n : Name) :
    Relation.ReflTransGen (Links m.entries) n (m.follow steps n) := by
  induction steps generalizing n with
  | zero => exact .refl
  | succ steps ih =>
    rw [follow]
    cases hn : m.target? n with
    | none => exact .refl
    | some next => exact .head hn (ih next)

/-- All names on a way have the same canonical name. -/
theorem Acyclic.canonical_eq (h : Acyclic m.entries) (hway : Relation.ReflTransGen (Links m.entries) x y) :
    m.canonical x = m.canonical y := by
  induction hway using Relation.ReflTransGen.head_induction_on with
  | refl => rfl
  | head hlink _ ih => rw [h.canonical_of_target? hlink, ih]

section Insert

variable (h : Acyclic m.entries) (h' : Acyclic m'.entries) (hinsert : m'.entries = m.entries.insert a name)
include h h' hinsert

/-- A name whose way does not pass the new link keeps its canonical name. -/
theorem canonical_insert_of_not_reaches (hpass : ¬ Relation.ReflTransGen (Links m.entries) x a) :
    m'.canonical x = m.canonical x := by
  have hway : Relation.ReflTransGen (Links m.entries) x (m.canonical x) := reflTransGen_follow ..
  have hne : m.canonical x ≠ a := fun heq => hpass (heq ▸ hway)
  have hend : m'.target? (m.canonical x) = none := by
    rw [target?, hinsert, Directory.get?_insert_of_ne _ hne]
    exact h.target?_canonical x
  have hway' : Relation.ReflTransGen (Links m'.entries) x (m.canonical x) := by
    rw [hinsert]
    exact reflTransGen_insert hpass hway
  rw [h'.canonical_eq hway']
  exact follow_of_target?_eq_none hend _

/-- A name whose way passes the new link takes the canonical name of what the alias stands for. -/
theorem canonical_insert_of_reaches (hpass : Relation.ReflTransGen (Links m.entries) x a) :
    m'.canonical x = m.canonical name := by
  have hlink : m'.target? a = some name := by
    rw [target?, hinsert, Directory.get?_insert_self]
  have hway : Relation.ReflTransGen (Links m'.entries) x a := by
    rw [hinsert]
    exact reflTransGen_insert_self hpass
  have hname : ¬ Relation.ReflTransGen (Links m.entries) name a := (hinsert ▸ h').not_reflTransGen
  rw [h'.canonical_eq hway, h'.canonical_of_target? hlink]
  exact canonical_insert_of_not_reaches h h' hinsert hname

end Insert

/-! ## What a registration comes to -/

/-- Whether the alias `a` may not stand for `name` because it stands for `other`. -/
def TakenBy (m : Aliases) (a name other : Name) : Prop :=
  m.overriding = false ∧ m.target? a = some other ∧ other ≠ name

section Register

variable (hname : Text.isBlank name = false) (ha : Text.isBlank a = false) (hne : a ≠ name)
include hname ha hne

theorem register_of_taken {other : Name} (htaken : m.TakenBy a name other) :
    (m.register name a).value = .error (.conflict (.aliasTaken a name other)) := by
  obtain ⟨hstrict, htarget, hother⟩ := htaken
  simp only [register, hname, ha, hne, htarget, hother, hstrict, Bool.false_eq_true, if_false]

/-- An alias that is not taken is linked, unless the link would close a circle. -/
theorem register_of_not_taken (h : Acyclic m.entries) (hfree : ∀ other, ¬ m.TakenBy a name other) :
    (m.register name a).value =
      if linked m.entries name a then .error (.circularAlias name a)
      else .ok { m with entries := m.entries.insert a name } := by
  cases htarget : m.target? a with
  | none =>
    cases hlinked : linked m.entries name a <;>
      simp only [register, link, hname, ha, hne, htarget, hlinked, Bool.false_eq_true, if_false, if_true]
  | some other =>
    by_cases hother : other = name
    · -- the link is there already
      subst hother
      have hsame : m.entries.insert a other = m.entries := Directory.insert_of_get? htarget
      have hno : linked m.entries other a = false := (linked_eq_false_iff h (Ne.symm hne)).2 (hsame.symm ▸ h)
      simp only [register, hname, ha, hne, htarget, hno, hsame, Bool.false_eq_true, if_false, if_true]
    · have hoverride : m.overriding = true := by
        rw [← Bool.not_eq_false]
        exact fun hstrict => hfree other ⟨hstrict, htarget, hother⟩
      cases hlinked : linked m.entries name a <;>
        simp only [register, link, hname, ha, hne, htarget, hother, hoverride, hlinked, Bool.false_eq_true, if_false,
          if_true]

/-- The three ways in which a registration ends. -/
theorem register_cases (h : Acyclic m.entries) :
    (∃ other, m.TakenBy a name other ∧ (m.register name a).value = .error (.conflict (.aliasTaken a name other))) ∨
      ((∀ other, ¬ m.TakenBy a name other) ∧ ¬ Acyclic (m.entries.insert a name) ∧
        (m.register name a).value = .error (.circularAlias name a)) ∨
      ((∀ other, ¬ m.TakenBy a name other) ∧ Acyclic (m.entries.insert a name) ∧
        (m.register name a).value = .ok { m with entries := m.entries.insert a name }) := by
  by_cases htaken : ∃ other, m.TakenBy a name other
  · obtain ⟨other, htaken⟩ := htaken
    exact .inl ⟨other, htaken, register_of_taken hname ha hne htaken⟩
  · have hfree : ∀ other, ¬ m.TakenBy a name other := fun other hother => htaken ⟨other, hother⟩
    have hvalue := register_of_not_taken hname ha hne h hfree
    rw [← linked_eq_false_iff h (Ne.symm hne)]
    cases hlinked : linked m.entries name a with
    | true =>
      rw [hlinked, if_pos rfl] at hvalue
      exact .inr (.inl ⟨hfree, Bool.noConfusion, hvalue⟩)
    | false =>
      rw [hlinked, if_neg Bool.false_ne_true] at hvalue
      exact .inr (.inr ⟨hfree, rfl, hvalue⟩)

/-- What registering an alias for a name comes to, whatever the aliases are. It is in conflict exactly if the
alias stands for another name and may not be redirected; otherwise it fails exactly if the link would close a
circle with the links that stay, and it succeeds in all other cases. After a success the names whose way along
the old links passes the alias have the canonical name that `name` had, and all others have their old one;
after a failure every name has its old one. -/
theorem register_exact (h : Acyclic m.entries) :
    (∀ f, (m.register name a).value = .error f ↔
        (∃ other, m.TakenBy a name other ∧ f = .conflict (.aliasTaken a name other)) ∨
          ((∀ other, ¬ m.TakenBy a name other) ∧ ¬ Acyclic (m.entries.insert a name) ∧ f = .circularAlias name a)) ∧
      ((∃ m', (m.register name a).value = .ok m') ↔
        (∀ other, ¬ m.TakenBy a name other) ∧ Acyclic (m.entries.insert a name)) ∧
      (∀ m', (m.register name a).value = .ok m' → ∀ x,
        (Relation.ReflTransGen (Links m.entries) x a → m'.canonical x = m.canonical name) ∧
          (¬ Relation.ReflTransGen (Links m.entries) x a → m'.canonical x = m.canonical x)) ∧
      ∀ f, (m.register name a).value = .error f → ∀ x,
        (m.after (.register name a)).canonical x = m.canonical x := by
  have hfailed : ∀ f, (m.register name a).value = .error f → ∀ x,
      (m.after (.register name a)).canonical x = m.canonical x := by
    intro f hf x
    simp only [after, Call.outcome, hf]
  rcases register_cases hname ha hne h with
    ⟨other, htaken, hvalue⟩ | ⟨hfree, hcircle, hvalue⟩ | ⟨hfree, hacyclic, hvalue⟩
  · have hunique : ∀ k, m.TakenBy a name k → k = other := fun k hk => Option.some.inj (hk.2.1.symm.trans htaken.2.1)
    refine ⟨fun f => ?_, ?_, fun m' hm' => ?_, hfailed⟩
    · rw [hvalue, Except.error.injEq]
      constructor
      · rintro rfl; exact .inl ⟨other, htaken, rfl⟩
      · rintro (⟨k, hk, rfl⟩ | ⟨hfree, -⟩)
        · rw [hunique k hk]
        · exact absurd htaken (hfree other)
    · rw [hvalue]
      simp only [reduceCtorEq, exists_false, false_iff, not_and]
      exact fun hfree => absurd htaken (hfree other)
    · rw [hvalue] at hm'; cases hm'
  · refine ⟨fun f => ?_, ?_, fun m' hm' => ?_, hfailed⟩
    · rw [hvalue, Except.error.injEq]
      simp [hfree, hcircle, eq_comm]
    · rw [hvalue]
      simp [hcircle]
    · rw [hvalue] at hm'; cases hm'
  · refine ⟨fun f => ?_, ?_, fun m' hm' x => ?_, hfailed⟩
    · rw [hvalue]
      simp [hfree, hacyclic]
    · rw [hvalue]
      simp [hfree, hacyclic]
    · rw [hvalue] at hm'
      cases hm'
      exact ⟨canonical_insert_of_reaches h hacyclic rfl, canonical_insert_of_not_reaches h hacyclic rfl⟩

end Register

/-- The alias `c` of `b`, which is an alias of `a`. -/
def chained : Aliases := { entries := (Directory.empty.insert "c" "b").insert "b" "a" }

theorem chained_acyclic : Acyclic chained.entries := by
  have hfirst : Acyclic (Directory.empty.insert "c" "b") :=
    (linked_eq_false_iff .empty (by decide)).1 (linked_eq_false rfl)
  exact (linked_eq_false_iff hfirst (by decide)).1 (linked_eq_false rfl)

/-- The alias in the middle of a chain is redirected: it and the alias of it follow, the name that it stood for
does not. -/
theorem register_exact_redirected :
    Acyclic chained.entries ∧ Text.isBlank "d" = false ∧ Text.isBlank "b" = false ∧ chained.canonical "c" = "a" ∧
      ∃ m', (chained.register "d" "b").value = .ok m' ∧ m'.canonical "c" = "d" ∧ m'.canonical "b" = "d" ∧
        m'.canonical "a" = "a" := by
  have hname : Text.isBlank "d" = false := by decide
  have halias : Text.isBlank "b" = false := by decide
  obtain ⟨-, hok, hcanonical, -⟩ := register_exact hname halias (by decide) chained_acyclic
  have hacyclic : Acyclic (chained.entries.insert "b" "d") :=
    (linked_eq_false_iff chained_acyclic (by decide)).1 (linked_eq_false rfl)
  have hfree : ∀ other, ¬ chained.TakenBy "b" "d" other := fun _ h => Bool.noConfusion h.1
  obtain ⟨m', hm'⟩ := hok.2 ⟨hfree, hacyclic⟩
  have hpass : Relation.ReflTransGen (Links chained.entries) "c" "b" := .single rfl
  have hend : ¬ Relation.ReflTransGen (Links chained.entries) "a" "b" := by
    intro hway
    rcases Relation.reflTransGen_iff_eq_or_transGen.1 hway with heq | hway
    · exact absurd heq (by decide)
    · rw [← linked_iff, linked_eq_false rfl] at hway
      cases hway
  exact ⟨chained_acyclic, hname, halias, rfl, m', hm', (hcanonical m' hm' "c").1 hpass,
    (hcanonical m' hm' "b").1 .refl, (hcanonical m' hm' "a").2 hend⟩

end Aliases

end Singletons
