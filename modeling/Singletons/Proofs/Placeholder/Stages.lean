import Mathlib.Data.Set.Finite.Lattice
import Mathlib.Logic.Relation
import Singletons.Placeholder.Resolve
import Singletons.Proofs.Text.Bytes

/-
The stages of a resolution. A stage waits for the outcome of other stages: of the body of its placeholder, of
the text that the key stands for, and of what comes after the placeholder. These stages are computed
(`Stage.successors`), so a stage leads to finitely many; a resolution that comes to an end goes through finitely
many stages in all, and takes finitely many defaults.
-/

namespace Singletons.Placeholders

open Text

/-- What stands in for a key without a property: the text after the separator, if the text before it is no
property either. -/
def default? (p : Placeholders) (key : Bytes) : Option Bytes :=
  match p.properties.get? (ofBytes key), p.separator with
  | none, some separator =>
    (Bytes.splitOnce? (toBytes separator) key).bind fun (name, text) =>
      match p.properties.get? (ofBytes name) with
      | some _ => none
      | none => some text
  | _, _ => none

theorem lookup?_eq_some {p : Placeholders} {key found : Bytes} (h : p.lookup? key = some found) :
    (∃ n v, p.properties.get? n = some v ∧ found = toBytes v) ∨ p.default? key = some found := by
  unfold lookup? at h
  unfold default?
  cases hkey : p.properties.get? (ofBytes key) with
  | some v =>
    rw [hkey] at h
    exact .inl ⟨_, v, hkey, (Option.some.inj h).symm⟩
  | none =>
    rw [hkey] at h
    cases hseparator : p.separator with
    | none => simp [hseparator] at h
    | some separator =>
      rw [hseparator] at h
      obtain ⟨⟨name, text⟩, hsplit, hfound⟩ := Option.map_eq_some_iff.1 h
      dsimp only at hfound ⊢
      rw [hsplit, Option.bind_some]
      cases hname : p.properties.get? (ofBytes name) with
      | some v =>
        rw [hname] at hfound
        exact .inl ⟨_, v, hname, hfound.symm⟩
      | none =>
        rw [hname] at hfound
        exact .inr (congrArg some hfound)

/-! ## Openings -/

/-- The search for a closing delimiter comes to an end unless an opening has no bytes. -/
theorem closingIn_ne_endless {closing inner : Bytes} (hinner : inner ≠ []) (rest : Bytes) (offset nested : Nat) :
    closingIn closing inner rest offset nested ≠ .endless := by
  fun_induction closingIn closing inner rest offset nested with
  | case1 => simp
  | case2 => simp
  | case3 => assumption
  | case4 => contradiction
  | case5 => assumption
  | case6 => assumption

theorem inner_ne_empty {opening : String} (closing : String) (h : opening ≠ "") : inner opening closing ≠ "" := by
  unfold inner
  split
  · split
    · simp
    · exact h
  · exact h

variable {p : Placeholders} {text body : Bytes} {i past next : Nat} {visiting : List Bytes}

theorem openedAt_ne_endless (h : p.opening ≠ "") : p.openedAt text i visiting ≠ .endless := by
  have hclosing : p.closingAt text i ≠ .endless := closingIn_ne_endless (toBytes_ne_nil (inner_ne_empty _ h)) _ _ _
  unfold openedAt
  split
  · contradiction
  · simp
  · split
    · simp
    · split <;> simp

theorem openedAt_eq_placeholder (h : p.openedAt text i visiting = .placeholder body past) :
    body ∉ visiting ∧ i + (toBytes p.opening).length + body.length ≤ text.length ∧
      i + (toBytes p.opening).length ≤ past := by
  unfold openedAt at h
  split at h
  · cases h
  · cases h
  · rename_i stop _
    split at h
    · cases h
    · rename_i body' hslice
      split at h
      · cases h
      · rename_i hvisiting
        obtain ⟨rfl, rfl⟩ : body' = body ∧ stop + (toBytes p.closing).length = past := by simpa using h
        obtain ⟨hstop, hle⟩ := Bytes.slice?_eq_some hslice
        exact ⟨by simpa using hvisiting, by omega, by omega⟩

theorem nextOpening?_eq_some (h : p.nextOpening? text next = some i) : next ≤ i ∧ next ≤ text.length := by
  unfold nextOpening? at h
  split at h
  · rename_i hnext
    obtain ⟨k, -, rfl⟩ := Option.map_eq_some_iff.1 h
    simp only [Bool.and_eq_true, decide_eq_true_eq] at hnext
    exact ⟨Nat.le_add_right _ _, hnext.1⟩
  · cases h

/-! ## Stages -/

/-- A point of a resolution: `text` is what has become of `value`, and its next placeholder opens at `opens`. -/
structure Stage where
  value : Bytes
  text : Bytes
  opens : Option Nat
  visiting : List Bytes

namespace Stage

variable {p : Placeholders} {s s' : Stage} {outcome : Except Fault Bytes} {body key found : Bytes}

/-- The stage that the resolution of a text begins with. -/
def start (p : Placeholders) (value : Bytes) (visiting : List Bytes) : Stage :=
  ⟨value, value, p.nextOpening? value 0, visiting⟩

/-- What a stage comes to. -/
def outcome? (p : Placeholders) (s : Stage) : Option (Except Fault Bytes) :=
  p.resolveFrom s.value s.text s.opens s.visiting

/-- The stages whose outcomes a stage waits for. -/
def successors (p : Placeholders) (s : Stage) : List Stage :=
  match s.opens with
  | none => []
  | some i =>
    match p.openedAt s.text i s.visiting with
    | .endless => []
    | .finished _ => []
    | .placeholder body past =>
      start p body (body :: s.visiting) ::
        match p.resolveBytes body (body :: s.visiting) with
        | none => []
        | some (.error _) => []
        | some (.ok key) =>
          match p.lookup? key with
          | none => if p.lenient then [⟨s.value, s.text, p.nextOpening? s.text past, s.visiting⟩] else []
          | some found =>
            start p found (body :: s.visiting) ::
              match p.resolveBytes found (body :: s.visiting) with
              | none => []
              | some (.error _) => []
              | some (.ok replacement) =>
                match Bytes.replace? s.text i past replacement with
                | none => []
                | some text => [⟨s.value, text, p.nextOpening? text (i + replacement.length), s.visiting⟩]

/-- Whether a stage waits for another one. -/
def Leads (p : Placeholders) (s s' : Stage) : Prop := s' ∈ s.successors p

/-- The default that is taken for the placeholder at hand. -/
def default? (p : Placeholders) (s : Stage) : Option Bytes :=
  match s.opens with
  | none => none
  | some i =>
    match p.openedAt s.text i s.visiting with
    | .endless => none
    | .finished _ => none
    | .placeholder body _ =>
      match p.resolveBytes body (body :: s.visiting) with
      | none => none
      | some (.error _) => none
      | some (.ok key) => p.default? key

theorem exists_key_of_default {d : Bytes} (h : s.default? p = some d) : ∃ key, p.default? key = some d := by
  unfold Stage.default? at h
  split at h
  · cases h
  · split at h
    · cases h
    · cases h
    · split at h
      · cases h
      · cases h
      · exact ⟨_, h⟩

/-- The defaults that are taken from a stage on. -/
def defaults (p : Placeholders) (s : Stage) : Set Bytes :=
  {d | ∃ s', Relation.ReflTransGen (Leads p) s s' ∧ s'.default? p = some d}

/-- Where a stage goes on, and in which text: after a placeholder that is left in place, or after what has taken
its place. -/
inductive Resumes (p : Placeholders) (s : Stage) : Bytes → Nat → Prop
  | passed {i past : Nat} {body key : Bytes} (hopens : s.opens = some i)
      (hopened : p.openedAt s.text i s.visiting = .placeholder body past)
      (hkey : p.resolveBytes body (body :: s.visiting) = some (.ok key)) (hlookup : p.lookup? key = none)
      (hlenient : p.lenient) : Resumes p s s.text past
  | replaced {i past : Nat} {body key found replacement text : Bytes} (hopens : s.opens = some i)
      (hopened : p.openedAt s.text i s.visiting = .placeholder body past)
      (hkey : p.resolveBytes body (body :: s.visiting) = some (.ok key)) (hfound : p.lookup? key = some found)
      (hreplacement : p.resolveBytes found (body :: s.visiting) = some (.ok replacement))
      (htext : Bytes.replace? s.text i past replacement = some text) : Resumes p s text (i + replacement.length)

/-- What a stage leads to: the text of its body or of its key, or the rest of its own text. -/
theorem leads_cases (h : Leads p s s') :
    (∃ i body past, s.opens = some i ∧ p.openedAt s.text i s.visiting = .placeholder body past ∧
      (s' = start p body (body :: s.visiting) ∨
        ∃ key found, p.resolveBytes body (body :: s.visiting) = some (.ok key) ∧ p.lookup? key = some found ∧
          s' = start p found (body :: s.visiting))) ∨
      ∃ text next, s.Resumes p text next ∧ s' = ⟨s.value, text, p.nextOpening? text next, s.visiting⟩ := by
  unfold Leads successors at h
  split at h
  · simp at h
  · rename_i i hopens
    split at h
    · simp at h
    · simp at h
    · rename_i body past hopened
      rcases List.mem_cons.1 h with h | h
      · exact .inl ⟨i, body, past, hopens, hopened, .inl h⟩
      · split at h
        · simp at h
        · simp at h
        · rename_i key hkey
          split at h
          · rename_i hlookup
            split at h
            · rename_i hlenient
              exact .inr ⟨_, _, .passed hopens hopened hkey hlookup hlenient, List.mem_singleton.1 h⟩
            · simp at h
          · rename_i found hfound
            rcases List.mem_cons.1 h with h | h
            · exact .inl ⟨i, body, past, hopens, hopened, .inr ⟨key, found, hkey, hfound, h⟩⟩
            · split at h
              · simp at h
              · simp at h
              · rename_i replacement hreplacement
                split at h
                · simp at h
                · rename_i text htext
                  exact .inr ⟨_, _, .replaced hopens hopened hkey hfound hreplacement htext, List.mem_singleton.1 h⟩

theorem leads_of_found {i past : Nat} (hopens : s.opens = some i)
    (hopened : p.openedAt s.text i s.visiting = .placeholder body past)
    (hkey : p.resolveBytes body (body :: s.visiting) = some (.ok key)) (hfound : p.lookup? key = some found) :
    Leads p s (start p found (body :: s.visiting)) := by
  unfold Leads successors
  rw [hopens]
  dsimp only
  rw [hopened]
  dsimp only
  rw [hkey]
  dsimp only
  rw [hfound]
  exact List.mem_cons_of_mem _ List.mem_cons_self

theorem default?_of_key {i past : Nat} (hopens : s.opens = some i)
    (hopened : p.openedAt s.text i s.visiting = .placeholder body past)
    (hkey : p.resolveBytes body (body :: s.visiting) = some (.ok key)) : s.default? p = p.default? key := by
  unfold Stage.default?
  rw [hopens]
  dsimp only
  rw [hopened]
  dsimp only
  rw [hkey]

theorem defaults_subset (h : Leads p s s') : s'.defaults p ⊆ s.defaults p := by
  rintro d ⟨s'', hreached, hd⟩
  exact ⟨s'', hreached.head h, hd⟩

/-- A stage that has an outcome does not lead on for ever. -/
theorem acc_of_outcome (h : s.outcome? p = some outcome) : Acc (fun s' s => Leads p s s') s := by
  -- the successors depend on what runs come to, so the induction keeps the run beside the accessibility
  refine (resolveFrom.partial_correctness p (fun value text opens visiting outcome =>
    p.resolveFrom value text opens visiting = some outcome ∧
      Acc (fun s' s => Leads p s s') ⟨value, text, opens, visiting⟩) ?_ _ _ _ _ _ h).2
  intro resolve ih value text opens visiting outcome h
  suffices hboth : p.resolveFrom value text opens visiting = some outcome ∧
      ∀ s' ∈ successors p ⟨value, text, opens, visiting⟩, Acc (fun s' s => Leads p s s') s' from
    ⟨hboth.1, Acc.intro _ hboth.2⟩
  cases opens with
  | none => exact ⟨by rw [resolveFrom]; exact h, by simp [successors]⟩
  | some i =>
    rw [resolveFrom.eq_2]
    unfold successors resolveBytes
    dsimp only at h ⊢
    cases hopened : p.openedAt text i visiting with
    | endless => simp [hopened] at h
    | finished outcome' =>
      rw [hopened] at h
      exact ⟨h, by simp⟩
    | placeholder body past =>
      rw [hopened] at h
      dsimp only at h ⊢
      obtain ⟨keyOutcome, hkey, h⟩ := Option.bind_eq_some_iff.1 h
      obtain ⟨hkeyrun, hkeyacc⟩ := ih _ _ _ _ _ hkey
      rw [hkeyrun, List.forall_mem_cons]
      cases keyOutcome with
      | error e => exact ⟨h, hkeyacc, by simp⟩
      | ok key =>
        dsimp only [Option.bind_eq_bind, Option.bind_some] at h ⊢
        cases hlookup : p.lookup? key with
        | none =>
          rw [hlookup] at h
          dsimp only at h ⊢
          by_cases hlenient : p.lenient
          · rw [if_pos hlenient] at h ⊢
            obtain ⟨hrun, hacc⟩ := ih _ _ _ _ _ h
            rw [if_pos hlenient, List.forall_mem_singleton]
            exact ⟨hrun, hkeyacc, hacc⟩
          · rw [if_neg hlenient] at h ⊢
            rw [if_neg hlenient]
            exact ⟨h, hkeyacc, by simp⟩
        | some found =>
          rw [hlookup] at h
          dsimp only at h ⊢
          obtain ⟨foundOutcome, hfound, h⟩ := Option.bind_eq_some_iff.1 h
          obtain ⟨hfoundrun, hfoundacc⟩ := ih _ _ _ _ _ hfound
          rw [hfoundrun, List.forall_mem_cons]
          cases foundOutcome with
          | error e => exact ⟨h, hkeyacc, hfoundacc, by simp⟩
          | ok replacement =>
            dsimp only [Option.bind_eq_bind, Option.bind_some] at h ⊢
            cases hreplace : Bytes.replace? text i past replacement with
            | none =>
              rw [hreplace] at h
              exact ⟨h, hkeyacc, hfoundacc, by simp⟩
            | some text' =>
              rw [hreplace] at h
              obtain ⟨hrun, hacc⟩ := ih _ _ _ _ _ h
              rw [List.forall_mem_singleton]
              exact ⟨hrun, hkeyacc, hfoundacc, hacc⟩

/-- From a stage that has an outcome on, finitely many defaults are taken. -/
theorem finite_defaults (h : s.outcome? p = some outcome) : (s.defaults p).Finite := by
  have hacc := acc_of_outcome h
  clear h
  induction hacc with
  | intro s _ ih =>
    have hown : {d | s.default? p = some d}.Finite := Set.Subsingleton.finite fun d hd d' hd' =>
      Option.some.inj (hd.symm.trans hd')
    have hlater : (⋃ s' ∈ {s' | s' ∈ s.successors p}, s'.defaults p).Finite :=
      (List.finite_toSet (s.successors p)).biUnion fun s' hs' => ih s' hs'
    refine (hown.union hlater).subset ?_
    rintro d ⟨s'', hreached, hd⟩
    rcases hreached.cases_head with rfl | ⟨s', hleads, hreached⟩
    · exact .inl hd
    · exact .inr (Set.mem_biUnion hleads ⟨s'', hreached, hd⟩)

/-- A stage has an outcome if all stages that it waits for have one. -/
theorem outcome_of_leads (hopening : p.opening ≠ "")
    (h : ∀ s', Leads p s s' → ∃ outcome, s'.outcome? p = some outcome) : ∃ outcome, s.outcome? p = some outcome := by
  obtain ⟨value, text, opens, visiting⟩ := s
  unfold outcome?
  unfold Leads successors resolveBytes outcome? start at h
  dsimp only at h ⊢
  cases opens with
  | none => exact ⟨.ok text, by rw [resolveFrom]⟩
  | some i =>
    rw [resolveFrom.eq_2]
    dsimp only at h
    cases hopened : p.openedAt text i visiting with
    | endless => exact absurd hopened (openedAt_ne_endless hopening)
    | finished outcome => exact ⟨outcome, rfl⟩
    | placeholder body past =>
      rw [hopened] at h
      dsimp only at h ⊢
      rw [List.forall_mem_cons] at h
      obtain ⟨⟨keyOutcome, hkey⟩, h⟩ := h
      rw [hkey] at h ⊢
      cases keyOutcome with
      | error e => exact ⟨.error e, rfl⟩
      | ok key =>
        dsimp only [Option.bind_eq_bind, Option.bind_some] at h ⊢
        cases hlookup : p.lookup? key with
        | none =>
          rw [hlookup] at h
          dsimp only at h ⊢
          by_cases hlenient : p.lenient
          · rw [if_pos hlenient, List.forall_mem_singleton] at h
            rw [if_pos hlenient]
            exact h
          · rw [if_neg hlenient]
            exact ⟨_, rfl⟩
        | some found =>
          rw [hlookup] at h
          dsimp only at h ⊢
          rw [List.forall_mem_cons] at h
          obtain ⟨⟨foundOutcome, hfound⟩, h⟩ := h
          rw [hfound] at h ⊢
          cases foundOutcome with
          | error e => exact ⟨.error e, rfl⟩
          | ok replacement =>
            dsimp only [Option.bind_eq_bind, Option.bind_some] at h ⊢
            cases hreplace : Bytes.replace? text i past replacement with
            | none => exact ⟨_, rfl⟩
            | some text' =>
              rw [hreplace, List.forall_mem_singleton] at h
              exact h

end Stage

end Singletons.Placeholders
