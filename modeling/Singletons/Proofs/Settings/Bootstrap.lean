import Singletons.Proofs.Alias.Declared
import Singletons.Proofs.Alias.Refusal
import Singletons.Proofs.Alias.Registration
import Singletons.Proofs.Placeholder.Offsets
import Singletons.Proofs.Placeholder.Termination

/-
How building a registry from valid settings can fail. Settings are checked before anything is built, and the check
finds the same sides of a declaration blank that a registration refuses; what goes wrong with a placeholder drops a
link and fails nothing. So what is left to fail is a link that would close a circle, and a link of an alias that
stands for another name already, where aliases may not be redirected.
-/

namespace Singletons

namespace Aliases

variable {m m' : Aliases} {overriding : Bool} {resolver : Resolver} {working entries : Directory Name}
  {a n k v name : Name} {f : Failure}

/-- The failures that links can have with one another: a circle, and a conflict if no alias may be redirected. -/
inductive Obstructs (overriding : Bool) : Failure → Prop
  | circle (name a : Name) : Obstructs overriding (.circularAlias name a)
  | taken (why : Conflict) (strict : overriding = false) : Obstructs overriding (.conflict why)

/-! ## Registrations -/

theorem overriding_of_register (hr : (m.register name a).value = .ok m') : m'.overriding = m.overriding := by
  obtain ⟨-, -, ⟨rfl, -⟩ | ⟨-, rfl⟩ | ⟨-, -, entries, -, rfl⟩⟩ := register_eq_ok hr <;> rfl

/-- A registration puts in no link but its own. -/
theorem target?_of_register (hr : (m.register name a).value = .ok m') (h : m'.target? k = some v) :
    m.target? k = some v ∨ (k = a ∧ v = name) := by
  obtain ⟨-, -, ⟨rfl, -⟩ | ⟨-, rfl⟩ | ⟨-, -, entries, hl, rfl⟩⟩ := register_eq_ok hr
  · exact .inl h
  · exact .inl (links_erase_iff.1 h).2
  · rw [ok_of_link hl] at h
    rcases links_insert_iff.1 h with hnew | ⟨-, hold⟩
    · exact .inr hnew
    · exact .inl hold

theorem obstructs_register (h : Acyclic m.entries) (hname : Text.isBlank name = false) (ha : Text.isBlank a = false)
    (hr : (m.register name a).value = .error f) : Obstructs m.overriding f := by
  by_cases hself : a = name
  · simp only [register, hname, hself, Bool.false_eq_true, if_false, if_true] at hr
    split at hr <;> cases hr
  · rcases register_cases hname ha hself h with ⟨other, htaken, hvalue⟩ | ⟨-, -, hvalue⟩ | ⟨-, -, hvalue⟩
    · rw [hvalue] at hr
      cases hr
      exact .taken _ htaken.1
    · rw [hvalue] at hr
      cases hr
      exact .circle ..
    · rw [hvalue] at hr
      cases hr

/-! ## Resolutions -/

theorem obstructs_link (hl : link entries name a = .error f) : Obstructs overriding f := by
  obtain ⟨-, rfl⟩ := link_eq_error_iff.1 hl
  exact .circle ..

theorem obstructs_relink (hr : (relink overriding working a n k v).value = .error f) : Obstructs overriding f := by
  rcases relink_cases overriding working a n k v with
    ⟨-, -, hvalue⟩ | ⟨-, -, hvalue⟩ | ⟨-, -, hvalue⟩ | ⟨-, -, -, hvalue⟩ | ⟨-, hstrict, w, -, -, hvalue⟩ <;>
    rw [hvalue] at hr
  · cases hr
  · exact obstructs_link hr
  · cases hr
  · exact obstructs_link hr
  · cases hr
    exact .taken _ hstrict

/-- A link whose sides do not resolve is dropped, so it does not fail. -/
theorem obstructs_resolveLink (hr : (resolveLink overriding resolver working a n).value = .error f) :
    Obstructs overriding f := by
  rcases resolveLink_cases overriding resolver working a n with ⟨k, v, -, heq⟩ | ⟨-, heq⟩
  · rw [heq] at hr
    exact obstructs_relink hr
  · rw [heq] at hr
    cases hr

theorem obstructs_resolveLinks : ∀ {rows : List (Name × Name)} {working : Directory Name},
    (resolveLinks overriding resolver rows working).value = .error f → Obstructs overriding f
  | [], _, hr => by cases hr
  | (a, n) :: rows, working, hr => by
    simp only [resolveLinks] at hr
    split at hr
    · rename_i g hone
      cases hr
      exact obstructs_resolveLink hone
    · exact obstructs_resolveLinks hr

theorem obstructs_resolve (hr : (m.resolve resolver).value = .error f) : Obstructs m.overriding f :=
  obstructs_resolveLinks (resolve_eq_error_iff.1 hr)

end Aliases

namespace Settings

open Text

variable {s : Settings} {a n : Name} {f : Failure}

/-! ## Declarations -/

theorem overriding_declareAll : ∀ {declarations : List Declaration} {m m' : Aliases},
    (declareAll declarations m).value = .ok m' → m'.overriding = m.overriding
  | [], _, _, hr => by cases hr; rfl
  | d :: rest, m, m', hr => by
    simp only [declareAll] at hr
    split at hr
    · cases hr
    · rename_i next hone
      exact (overriding_declareAll hr).trans (Aliases.overriding_of_register hone)

/-- Links that were not there before are declarations. -/
theorem target?_of_declareAll : ∀ {declarations : List Declaration} {m m' : Aliases},
    (declareAll declarations m).value = .ok m' → m'.target? a = some n →
    m.target? a = some n ∨ ∃ d ∈ declarations, d.byname = a ∧ d.name = n
  | [], _, _, hr, h => by cases hr; exact .inl h
  | d :: rest, m, m', hr, h => by
    simp only [declareAll] at hr
    split at hr
    · cases hr
    · rename_i next hone
      rcases target?_of_declareAll hr h with h | ⟨d', hd', hsides⟩
      · rcases Aliases.target?_of_register hone h with h | ⟨rfl, rfl⟩
        · exact .inl h
        · exact .inr ⟨d, List.mem_cons_self, rfl, rfl⟩
      · exact .inr ⟨d', List.mem_cons_of_mem _ hd', hsides⟩

theorem obstructs_declareAll : ∀ {declarations : List Declaration} {m : Aliases}, Aliases.Reached m →
    (∀ d ∈ declarations, isBlank d.name = false ∧ isBlank d.byname = false) →
    (declareAll declarations m).value = .error f → Aliases.Obstructs m.overriding f
  | [], _, _, _, hr => by cases hr
  | d :: rest, m, h, hsides, hr => by
    obtain ⟨⟨hname, hbyname⟩, hrest⟩ := List.forall_mem_cons.1 hsides
    simp only [declareAll] at hr
    split at hr
    · rename_i g hone
      cases hr
      exact Aliases.obstructs_register h.acyclic hname hbyname hone
    · rename_i next hone
      rw [← Aliases.overriding_of_register hone]
      exact obstructs_declareAll (h.register d.name d.byname hone) hrest hr

/-! ## Valid settings -/

theorem sides_of_validateAliases : ∀ {declarations : List Declaration}, validateAliases declarations = .ok () →
    ∀ d ∈ declarations, isBlank d.name = false ∧ isBlank d.byname = false
  | [], _ => by simp
  | d :: rest, h => by
    unfold validateAliases Declaration.validate at h
    split at h
    · cases h
    · rename_i hone
      refine List.forall_mem_cons.2 ⟨?_, sides_of_validateAliases h⟩
      split at hone
      · cases hone
      · rename_i hblank
        simpa using hblank

theorem delimiters_of_validate {p : Placeholders} (h : p.validate = .ok ()) : p.opening ≠ "" ∧ p.closing ≠ "" := by
  unfold Placeholders.validate at h
  split at h
  · cases h
  · rename_i hdelimiters
    simpa [String.isEmpty_iff] using hdelimiters

/-- The checks that building a registry relies on. -/
theorem checks_of_validate (h : s.validate = .ok ()) :
    (s.placeholders.opening ≠ "" ∧ s.placeholders.closing ≠ "") ∧
      ∀ d ∈ s.aliases, isBlank d.name = false ∧ isBlank d.byname = false := by
  unfold validate at h
  split at h
  · cases h
  split at h
  · cases h
  rename_i hplaceholders
  exact ⟨delimiters_of_validate hplaceholders, sides_of_validateAliases h⟩

/-! ## What is built -/

/-- Valid settings fail with the failure of a declaration, or of the one pass over all of them. -/
theorem error_of_bootstrap (hvalid : s.validate = .ok ()) (h : (bootstrap s).value = .error f) :
    (declareAll s.aliases { overriding := s.policy.overrideAliases }).value = .error f ∨
      ∃ m, (declareAll s.aliases { overriding := s.policy.overrideAliases }).value = .ok m ∧
        (m.resolve s.placeholders.resolver).value = .error f := by
  unfold bootstrap at h
  rw [hvalid] at h
  dsimp only at h
  split at h
  · rename_i g hg
    cases h
    exact .inl hg
  rename_i m hm
  refine .inr ⟨m, hm, ?_⟩
  split at h
  · rename_i g hg
    cases h
    split at hg
    · cases hg
    · exact hg
  · cases h

theorem obstructs_bootstrap (hvalid : s.validate = .ok ()) (h : (bootstrap s).value = .error f) :
    Aliases.Obstructs s.policy.overrideAliases f := by
  rcases error_of_bootstrap hvalid h with hdeclared | ⟨m, hm, hresolved⟩
  · exact obstructs_declareAll (.empty _) (checks_of_validate hvalid).2 hdeclared
  · have hpolicy : m.overriding = s.policy.overrideAliases := overriding_declareAll hm
    exact hpolicy ▸ Aliases.obstructs_resolve hresolved

/-! ## Placeholders with faults -/

/-- Declarations with a placeholder that nothing resolves, one that is circular, and one that is not closed. -/
def troubled : Settings where
  placeholders := { separator := none, properties := Directory.empty.insert "loop" "$\x7bloop\x7d" }
  aliases := [⟨"service", "$\x7bgone\x7d"⟩, ⟨"service", "$\x7bloop\x7d"⟩, ⟨"service", "$\x7bopen"⟩]

namespace Troubled

theorem braced : troubled.placeholders.Braced := ⟨rfl, rfl⟩

theorem resolve_gone : troubled.placeholders.resolve "$\x7bgone\x7d" =
    .error (.configuration (.unresolvedPlaceholder "gone" "$\x7bgone\x7d") none) := by
  have hkey := braced.resolveAfter_key (toBytes "$\x7bgone\x7d") [] ⟨"gone", by decide⟩ "" List.not_mem_nil
  have hlookup : troubled.placeholders.lookup? (toBytes "gone") = none := by decide
  rw [hlookup] at hkey
  have hvalue : troubled.placeholders.resolveBytes (toBytes "$\x7bgone\x7d") [] =
      some (.error (.unresolved "gone" (ofBytes (toBytes "$\x7bgone\x7d")))) := hkey
  unfold Placeholders.resolve
  rw [hvalue, ofBytes_toBytes]

theorem resolve_loop : troubled.placeholders.resolve "$\x7bloop\x7d" =
    .error (.configuration (.circularPlaceholder "loop") none) := by
  have hkey := braced.resolveAfter_key (toBytes "$\x7bloop\x7d") [] ⟨"loop", by decide⟩ "" List.not_mem_nil
  have hlookup : troubled.placeholders.lookup? (toBytes "loop") = some (toBytes "$\x7bloop\x7d") := by decide
  have hagain : troubled.placeholders.resolveBytes (toBytes "$\x7bloop\x7d") [toBytes "loop"] =
      some (.error (.circular "loop")) :=
    braced.resolveAfter_enclose (toBytes "$\x7bloop\x7d") [] (.literal ⟨"loop", by decide⟩ .done) "" [toBytes "loop"]
  rw [hlookup] at hkey
  dsimp only at hkey
  rw [hagain] at hkey
  have hvalue : troubled.placeholders.resolveBytes (toBytes "$\x7bloop\x7d") [] = some (.error (.circular "loop")) :=
    hkey
  unfold Placeholders.resolve
  rw [hvalue]

end Troubled

/-- How building a registry from valid settings ends, if the resolution of each side of each declaration does. It
succeeds with aliases that form no circle, or it fails with a circle, or with a conflict where aliases may not be
redirected. It does not fail for the sake of the settings, although each side that the one pass resolves can have a
placeholder that is circular or unresolved. -/
theorem bootstrap_outcome (hvalid : s.validate = .ok ())
    (hends : ∀ d ∈ s.aliases, ∀ text ∈ [d.name, d.byname],
      ∃ outcome, s.placeholders.resolveBytes (toBytes text) [] = some outcome) :
    ((∃ r, (bootstrap s).value = .ok r ∧ Aliases.Acyclic r.aliases.entries) ∨
        (∃ name a, (bootstrap s).value = .error (.circularAlias name a)) ∨
        (s.policy.overrideAliases = false ∧ ∃ why, (bootstrap s).value = .error (.conflict why))) ∧
      (∀ what source, (bootstrap s).value ≠ .error (.configuration what source)) ∧
      ∀ m, (declareAll s.aliases { overriding := s.policy.overrideAliases }).value = .ok m →
        ∀ a n, m.target? a = some n → ∀ text ∈ [a, n],
          (∃ t, s.placeholders.resolve text = .ok t) ∨
            (∃ body, s.placeholders.resolve text = .error (.configuration (.circularPlaceholder body) none)) ∨
            ∃ key value, s.placeholders.resolve text =
              .error (.configuration (.unresolvedPlaceholder key value) none) := by
  obtain ⟨⟨hopening, hclosing⟩, -⟩ := checks_of_validate hvalid
  refine ⟨?_, fun what source hfailed => ?_, fun m hm a n htarget text htext => ?_⟩
  · cases hvalue : (bootstrap s).value with
    | ok r => exact .inl ⟨r, rfl, acyclic_of_bootstrap hvalue⟩
    | error f =>
      cases obstructs_bootstrap hvalid hvalue with
      | circle name a => exact .inr (.inl ⟨name, a, rfl⟩)
      | taken why hstrict => exact .inr (.inr ⟨hstrict, why, rfl⟩)
  · cases obstructs_bootstrap hvalid hfailed
  · rcases target?_of_declareAll hm htarget with hempty | ⟨d, hd, rfl, rfl⟩
    · simp [Aliases.target?] at hempty
    · refine Placeholders.resolve_cases hopening hclosing (hends d hd text ?_)
      rcases List.mem_pair.1 htext with rfl | rfl <;> simp

theorem bootstrap_outcome_troubled : troubled.validate = .ok () ∧
    (∀ d ∈ troubled.aliases, ∀ text ∈ [d.name, d.byname],
      ∃ outcome, troubled.placeholders.resolveBytes (toBytes text) [] = some outcome) ∧
    troubled.placeholders.resolve "$\x7bgone\x7d" =
      .error (.configuration (.unresolvedPlaceholder "gone" "$\x7bgone\x7d") none) ∧
    troubled.placeholders.resolve "$\x7bloop\x7d" = .error (.configuration (.circularPlaceholder "loop") none) ∧
    ∀ what source, (bootstrap troubled).value ≠ .error (.configuration what source) := by
  have hvalid : troubled.validate = .ok () := rfl
  have hends : ∀ d ∈ troubled.aliases, ∀ text ∈ [d.name, d.byname],
      ∃ outcome, troubled.placeholders.resolveBytes (toBytes text) [] = some outcome :=
    fun _ _ text _ => Placeholders.resolves_of_separator_none (by decide) rfl (toBytes text)
  exact ⟨hvalid, hends, Troubled.resolve_gone, Troubled.resolve_loop, (bootstrap_outcome hvalid hends).2.1⟩

end Settings

end Singletons
