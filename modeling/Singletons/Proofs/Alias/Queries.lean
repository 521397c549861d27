import Singletons.Proofs.Relation.Collection
import Singletons.Proofs.Alias.Registration

/-
The queries about aliases agree. Three of them follow the links: one searches backwards from a name for an
alias, one collects backwards all that stand for it, and one goes forwards to the canonical name. The links
form no circle, so that all three describe one relation: what stands for a name is what links lead to it from,
each once and never the name itself, and for a name that is no alias it is what it is the canonical name of.
-/

namespace Singletons

namespace Aliases

variable {m : Aliases} {a n : Name}

theorem standsFor_iff : m.standsFor a n = true ↔ Relation.TransGen (Links m.entries) a n := linked_iff

/-- The collection backwards from a name finds what leads to the name. -/
theorem mem_aliasesOf_iff : a ∈ m.aliasesOf n ↔ Relation.TransGen (Links m.entries) a n := by
  have hback : Relation.Related (inverse m.entries).pairs = Function.swap (Links m.entries) := by
    funext k l
    exact propext mem_inverse
  rw [aliasesOf, Relation.mem_below_iff, hback, Relation.transGen_swap]

/-- Away from a name that is no alias, links lead to it exactly from the others that it is the canonical name
of. -/
theorem Acyclic.transGen_iff_canonical (h : Acyclic m.entries) (hn : m.target? n = none) :
    Relation.TransGen (Links m.entries) a n ↔ a ≠ n ∧ m.canonical a = n := by
  constructor
  · intro hway
    refine ⟨?_, ?_⟩
    · rintro rfl
      exact h a hway
    · rw [h.canonical_eq hway.to_reflTransGen]
      exact follow_of_target?_eq_none hn _
  · rintro ⟨hne, rfl⟩
    have hway : Relation.ReflTransGen (Links m.entries) a (m.canonical a) := reflTransGen_follow ..
    exact (Relation.reflTransGen_iff_eq_or_transGen.1 hway).resolve_left (Ne.symm hne)

/-- The queries about aliases agree, for all aliases that some changes lead to and for all names. An alias stands
for a name exactly if one or more links lead from it to the name, and exactly if it is among the aliases of the
name. Among these no alias is there twice, and the name itself is not there; if it is no alias itself, they are
exactly the other names that have it as their canonical name. -/
theorem queries_agree (h : Reached m) (n : Name) :
    (∀ a, (m.standsFor a n = true ↔ Relation.TransGen (Links m.entries) a n) ∧
        (m.standsFor a n = true ↔ a ∈ m.aliasesOf n)) ∧
      (m.aliasesOf n).Nodup ∧ n ∉ m.aliasesOf n ∧
      (m.isAlias n = false → ∀ a, a ∈ m.aliasesOf n ↔ a ≠ n ∧ m.canonical a = n) := by
  refine ⟨fun a => ⟨standsFor_iff, standsFor_iff.trans mem_aliasesOf_iff.symm⟩, Relation.nodup_below .., ?_, ?_⟩
  · rw [mem_aliasesOf_iff]
    exact h.acyclic n
  · intro hn a
    have hn : m.target? n = none := by simpa [isAlias] using hn
    rw [mem_aliasesOf_iff, h.acyclic.transGen_iff_canonical hn]

/-- The chain from `c` over `b` to `a`, and beside it another alias of `a`. -/
def forked : Aliases := { entries := chained.entries.insert "d" "a" }

theorem forked_reached : Reached forked := by
  have hfirst : Reached { entries := Directory.empty.insert "c" "b" } :=
    (Reached.empty true).register "b" "c"
      (congrArg Logged.value (register_first true (by decide) (by decide) (by decide)))
  have hlink : ∀ (m : Aliases) (a : Name), Text.isBlank a = false → a ≠ "a" → m.target? a = none →
      m.target? "a" = none → (m.register "a" a).value = .ok { m with entries := m.entries.insert a "a" } := by
    intro m a hblank hne hfree hname
    have hl : link m.entries "a" a = .ok (m.entries.insert a "a") := link_of_get?_eq_none hname
    simp only [register, show Text.isBlank "a" = false by decide, hblank, hne, hfree, hl, Bool.false_eq_true, if_false]
  have hsecond : Reached chained := hfirst.register "a" "b" (hlink _ _ (by decide) (by decide) rfl rfl)
  exact hsecond.register "a" "d" (hlink _ _ (by decide) (by decide) rfl rfl)

/-- The alias at the end of the chain and the one beside it stand for `a`, and neither for the other. -/
theorem queries_agree_forked : Reached forked ∧ forked.isAlias "a" = false ∧ "c" ∈ forked.aliasesOf "a" ∧
    "d" ∈ forked.aliasesOf "a" ∧ forked.standsFor "c" "a" = true ∧ "b" ∉ forked.aliasesOf "d" := by
  obtain ⟨hstands, -, -, hcanonical⟩ := queries_agree forked_reached "a"
  have hroot : forked.isAlias "a" = false := by decide
  have hc : "c" ∈ forked.aliasesOf "a" := (hcanonical hroot "c").2 ⟨by decide, rfl⟩
  have hd : "d" ∈ forked.aliasesOf "a" := (hcanonical hroot "d").2 ⟨by decide, rfl⟩
  refine ⟨forked_reached, hroot, hc, hd, (hstands "c").2.2 hc, fun hb => ?_⟩
  have hway := ((queries_agree forked_reached "d").1 "b").1.1 (((queries_agree forked_reached "d").1 "b").2.2 hb)
  obtain ⟨k, -, hlast⟩ := Relation.TransGen.tail'_iff.1 hway
  have hlast : forked.target? k = some "d" := hlast
  have hrow := (Directory.get?_eq_some_iff ..).1 hlast
  rw [show forked.entries.rows = [("b", "a"), ("c", "b"), ("d", "a")] by decide] at hrow
  simp at hrow

end Aliases

end Singletons
