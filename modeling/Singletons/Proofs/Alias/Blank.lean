import Mathlib.Data.List.Induction
import Singletons.Proofs.Alias.Calls
import Singletons.Proofs.Alias.Outcome

/-
Blank aliases and names. A registration refuses them, but a resolution takes whatever the resolver comes to, so
a link may get a form with a blank side. That is the only way in: the links have no blank side as long as no
resolution leaves such a form. A form with a blank alias always stays, since no link of such an alias is there to
drop it, and one with a blank name stays unless a later link takes its place or drops it.
-/

namespace Singletons

namespace Aliases

variable {m m' : Aliases} {resolver : Resolver} {rows : List (Name × Name)} {a k v name : Name}

/-- Whether no link has a blank side. -/
def Proper (m : Aliases) : Prop := ∀ k v, m.target? k = some v → Text.isBlank k = false ∧ Text.isBlank v = false

theorem proper_empty (overriding : Bool) : Proper { overriding } := by
  intro k v hv
  simp [target?] at hv

theorem Proper.insert (h : Proper m) (hname : Text.isBlank name = false) (ha : Text.isBlank a = false) :
    Proper { m with entries := m.entries.insert a name } := by
  intro k v hv
  rw [target?, Directory.get?_insert] at hv
  split at hv
  · rename_i hk
    cases hv
    exact ⟨hk ▸ ha, hname⟩
  · exact h k v hv

theorem Proper.erase (h : Proper m) (a : Name) : Proper { m with entries := m.entries.erase a } := by
  intro k v hv
  rw [target?, Directory.get?_erase] at hv
  split at hv
  · cases hv
  · exact h k v hv

/-- A registration puts in no blank side. -/
theorem Proper.register (h : Proper m) (hr : (m.register name a).value = .ok m') : Proper m' := by
  obtain ⟨hname, ha, ⟨rfl, -⟩ | ⟨-, rfl⟩ | ⟨-, -, entries, hl, rfl⟩⟩ := register_eq_ok hr
  · exact h
  · exact h.erase a
  · rw [ok_of_link hl]
    exact h.insert hname ha

theorem Proper.remove (h : Proper m) (hr : m.remove a = .ok m') : Proper m' := by
  unfold Aliases.remove at hr
  split at hr
  · cases hr; exact h.erase a
  · cases hr

/-! ## Resolutions -/

/-- Whether links bring a blank side in when they are resolved: one comes to a blank alias, or to a blank name that
all later links leave there. -/
def Blanks (resolver : Resolver) (rows : List (Name × Name)) : Prop :=
  ∃ before row after k v, rows = before ++ row :: after ∧ ResolvesTo resolver row k v ∧
    (Text.isBlank k = true ∨ (Text.isBlank v = true ∧ ∀ later ∈ after, Spares resolver k later))

/-- Of the links that come to a name that is no alias of theirs, the last one leaves its form there. -/
theorem exists_leaves : ∀ {rows : List (Name × Name)}, (∀ row ∈ rows, row.1 ≠ k) →
    (∃ v, Resolved resolver rows k v) → ∃ v, Leaves resolver rows k v
  | [], _, ⟨_, h⟩ => absurd h not_resolved_nil
  | row :: rows, hkey, ⟨v, h⟩ => by
    obtain ⟨hrow, hrest⟩ := List.forall_mem_cons.1 hkey
    by_cases hlater : ∃ w, Resolved resolver rows k w
    · obtain ⟨w, hw⟩ := exists_leaves hrest hlater
      exact ⟨w, leaves_cons_iff.2 (.inr hw)⟩
    · have hto : ResolvesTo resolver row k v := (resolved_cons_iff.1 h).resolve_right fun h => hlater ⟨v, h⟩
      refine ⟨v, leaves_cons_iff.2 (.inl ⟨hto, fun heq => hrow (congrArg Prod.fst heq), fun later hmem => ?_⟩)⟩
      exact ⟨fun w hw => absurd ⟨w, later, hmem, hw⟩ hlater, fun heq => absurd heq (hrest later hmem)⟩

/-- A resolution keeps blank sides out exactly if the links bring none in. -/
theorem Proper.resolve_iff (h : Proper m) (hr : (m.resolve resolver).value = .ok m') :
    Proper m' ↔ ¬ Blanks resolver m.entries.rows := by
  have hrows : ∀ row ∈ m.entries.rows, Text.isBlank row.1 = false ∧ Text.isBlank row.2 = false := fun row hrow =>
    h row.1 row.2 ((Directory.get?_eq_some_iff ..).2 hrow)
  constructor
  · rintro hproper ⟨before, row, after, k, v, heq, hto, hblank | ⟨hblank, hspares⟩⟩
    · -- a blank name is no alias before, so the last form of it is left
      have hkey : ∀ row ∈ m.entries.rows, row.1 ≠ k := by
        rintro row hrow rfl
        rw [(hrows row hrow).1] at hblank
        cases hblank
      obtain ⟨w, hw⟩ := exists_leaves hkey ⟨v, row, by simp [heq], hto⟩
      rw [(hproper k w ((target?_resolve_iff hr).2 (.inr hw))).1] at hblank
      cases hblank
    · have hne : row ≠ (k, v) := by
        rintro rfl
        rw [(hrows (k, v) (by simp [heq])).2] at hblank
        cases hblank
      have hleft := (target?_resolve_iff hr).2 (.inr ⟨before, row, after, heq, hto, hne, hspares⟩)
      rw [(hproper k v hleft).2] at hblank
      cases hblank
  · intro hnone k v hv
    rcases (target?_resolve_iff hr).1 hv with ⟨hold, -⟩ | ⟨before, row, after, heq, hto, -, hspares⟩
    · exact h k v hold
    · rw [← Bool.not_eq_true, ← Bool.not_eq_true]
      exact ⟨fun hk => hnone ⟨before, row, after, k, v, heq, hto, .inl hk⟩,
        fun hv => hnone ⟨before, row, after, k, v, heq, hto, .inr ⟨hv, hspares⟩⟩⟩

/-- A resolver that comes to no blank text from one that is not blank brings nothing blank in. -/
theorem Proper.not_blanks (h : Proper m)
    (hkeeps : ∀ x y, (resolver x).value = some y → Text.isBlank x = false → Text.isBlank y = false) :
    ¬ Blanks resolver m.entries.rows := by
  rintro ⟨before, row, after, k, v, heq, hto, hblank⟩
  have hrow : row ∈ m.entries.rows := by simp [heq]
  obtain ⟨hleft, hright⟩ := h row.1 row.2 ((Directory.get?_eq_some_iff ..).2 hrow)
  have hk := hkeeps _ _ hto.1 hleft
  have hv := hkeeps _ _ hto.2.1 hright
  simp [hk, hv] at hblank

/-! ## Calls -/

/-- Whether a call brings a blank side into the links. -/
def Call.Blanks (m : Aliases) : Call → Prop
  | .resolve resolver => (∃ m', (m.resolve resolver).value = .ok m') ∧ Aliases.Blanks resolver m.entries.rows
  | _ => False

theorem Proper.after_iff (h : Proper m) (c : Call) : Proper (m.after c) ↔ ¬ c.Blanks m := by
  unfold after
  cases c with
  | register name a =>
    refine iff_of_true ?_ (fun hc => hc)
    split
    · rename_i m' hr; exact h.register hr
    · exact h
  | remove a =>
    refine iff_of_true ?_ (fun hc => hc)
    split
    · rename_i m' hr; exact h.remove hr
    · exact h
  | resolve resolver =>
    split
    · rename_i m' hr
      rw [h.resolve_iff hr, Call.Blanks, and_iff_right ⟨m', hr⟩]
    · rename_i f hr
      refine iff_of_true h ?_
      rintro ⟨⟨m', hm'⟩, -⟩
      cases hr.symm.trans hm'

/-- The links stay proper along some calls exactly if none of the calls brings a blank side in. -/
theorem Proper.along_iff (h : Proper m) (calls : List Call) :
    (∀ before rest, calls = before ++ rest → Proper (before.foldl Aliases.after m)) ↔
      ∀ before c rest, calls = before ++ c :: rest → ¬ c.Blanks (before.foldl Aliases.after m) := by
  constructor
  · intro hproper before c rest hcalls
    rw [← (hproper before (c :: rest) hcalls).after_iff]
    simpa using hproper (before ++ [c]) rest (by simp [hcalls])
  · intro hnone before
    induction before using List.reverseRecOn with
    | nil => exact fun _ _ => h
    | append_singleton before c ih =>
      intro rest hcalls
      rw [List.append_assoc] at hcalls
      rw [List.foldl_append]
      exact ((ih _ hcalls).after_iff c).2 (hnone before c rest hcalls)

/-- Which calls bring a blank alias or a blank name into the links, from the empty map on and whether or not aliases
may be redirected. There is none at any time exactly if no resolution among the calls, with the links that it
meets, brings one in; so there is none if no resolver comes to a blank text from one that is not blank. -/
theorem proper_of_calls (overriding : Bool) (calls : List Call) :
    ((∀ before rest, calls = before ++ rest → Proper (before.foldl Aliases.after { overriding })) ↔
        ∀ before resolver rest m', calls = before ++ .resolve resolver :: rest →
          ((before.foldl Aliases.after { overriding }).resolve resolver).value = .ok m' →
          ¬ Blanks resolver (before.foldl Aliases.after { overriding }).entries.rows) ∧
      ((∀ resolver, Call.resolve resolver ∈ calls →
          ∀ x y, (resolver x).value = some y → Text.isBlank x = false → Text.isBlank y = false) →
        Proper (calls.foldl Aliases.after { overriding })) := by
  refine ⟨((proper_empty overriding).along_iff calls).trans ⟨fun hnone before resolver rest m' hcalls hr hblanks => ?_,
    fun hnone before c rest hcalls hblanks => ?_⟩, fun hkeeps => ?_⟩
  · exact hnone before _ rest hcalls ⟨⟨m', hr⟩, hblanks⟩
  · cases c with
    | resolve resolver =>
      obtain ⟨⟨m', hr⟩, hblanks⟩ := hblanks
      exact hnone before resolver rest m' hcalls hr hblanks
    | _ => exact hblanks
  · have hstep : ∀ c ∈ calls, ∀ m : Aliases, Proper m → Proper (m.after c) := by
      intro c hc m hm
      rw [hm.after_iff]
      cases c with
      | resolve resolver => exact fun hblanks => hm.not_blanks (hkeeps resolver hc) hblanks.2
      | _ => exact fun hblanks => hblanks
    exact List.foldlRecOn calls Aliases.after (proper_empty overriding) fun m hm c hc => hstep c hc m hm

/-- A resolver that comes to the empty text from a placeholder. -/
def eraser : Resolver := fun x => ⟨some (if x = "$\x7benv\x7d" then "" else x), []⟩

/-- A registration and a resolution leave the empty text as an alias, whether or not aliases may be redirected. -/
theorem empty_alias_resolved :
    let calls : List Call := [.register "svc" "$\x7benv\x7d", .resolve eraser]
    (calls.foldl Aliases.after { overriding := true }).target? "" = some "svc" ∧
      (calls.foldl Aliases.after { overriding := false }).target? "" = some "svc" ∧ Text.isBlank "" = true := by
  have hcalls : ∀ overriding, ([.register "svc" "$\x7benv\x7d", .resolve eraser] : List Call).foldl Aliases.after
      { overriding } = { entries := Directory.empty.insert "" "svc", overriding } := by
    intro overriding
    let declared : Aliases := { entries := Directory.empty.insert "$\x7benv\x7d" "svc", overriding }
    have hfirst := register_first overriding (show Text.isBlank "svc" = false by decide)
      (show Text.isBlank "$\x7benv\x7d" = false by decide) (by decide)
    have hregister : ({ overriding } : Aliases).after (.register "svc" "$\x7benv\x7d") = declared := by
      simp only [after, Call.outcome, hfirst]
      rfl
    have hrows : declared.entries.rows = [("$\x7benv\x7d", "svc")] := by simp only [declared]; decide
    have hone : (resolveLink overriding eraser declared.entries "$\x7benv\x7d" "svc").value =
        .ok ((declared.entries.erase "$\x7benv\x7d").insert "" "svc") := by
      rw [resolveLink_of_resolvesTo (k := "") (v := "svc") _ _ ⟨rfl, rfl, by decide⟩]
      exact link_of_get?_eq_none rfl
    have hresolve : (declared.resolve eraser).value =
        .ok { entries := Directory.empty.insert "" "svc", overriding } := by
      refine resolve_eq_ok_iff.2 ⟨_, ?_, rfl⟩
      rw [hrows, resolveLinks_of_ok hone]
      rfl
    simp only [List.foldl_cons, List.foldl_nil, hregister]
    simp only [after, Call.outcome, hresolve]
  simp only [hcalls]
  exact ⟨rfl, rfl, rfl⟩

end Aliases

end Singletons
