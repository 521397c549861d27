import Singletons.Proofs.Placeholder.Stages

/-
The offsets of a resolution. Delimiters are looked for byte by byte, but a delimiter that is not empty occurs in a
text only between cuts of it, whatever its characters are and whatever the delimiters share; so a placeholder and
its body can be cut out of the text at hand, and what follows a replacement is again a text with a cut before it.
-/

namespace Singletons.Placeholders

open Text

variable {p : Placeholders} {text : Bytes} {i next stop : Nat} {visiting : List Bytes}

/-! ## Delimiters -/

theorem prefix_of_nextOpening? (h : p.nextOpening? text next = some i) : toBytes p.opening <+: text.drop i := by
  unfold nextOpening? at h
  split at h
  · obtain ⟨k, hk, rfl⟩ := Option.map_eq_some_iff.1 h
    rw [← List.drop_drop]
    exact Bytes.prefix_of_find? hk
  · cases h

/-- Where the search for a closing delimiter ends, the delimiter stands. -/
theorem prefix_of_closingIn {closing inner rest : Bytes} {offset nested : Nat}
    (h : closingIn closing inner rest offset nested = .closed stop) :
    ∃ k, offset + k = stop ∧ closing <+: rest.drop k := by
  fun_induction closingIn closing inner rest offset nested with
  | case1 => cases h
  | case2 _ _ _ hhere =>
    cases h
    exact ⟨0, rfl, List.isPrefixOf_iff_prefix.1 hhere⟩
  | case3 _ _ _ _ _ ih =>
    -- the search goes on after the delimiter of an inner placeholder
    obtain ⟨k, rfl, hk⟩ := ih h
    exact ⟨closing.length + k, (Nat.add_assoc ..).symm, by rwa [← List.drop_drop]⟩
  | case4 => cases h
  | case5 _ _ _ _ _ _ _ ih =>
    obtain ⟨k, rfl, hk⟩ := ih h
    exact ⟨inner.length + k, (Nat.add_assoc ..).symm, by rwa [← List.drop_drop]⟩
  | case6 _ _ _ _ _ _ ih =>
    obtain ⟨k, rfl, hk⟩ := ih h
    exact ⟨k + 1, by omega, hk⟩

theorem prefix_of_closingAt (h : p.closingAt text i = .closed stop) :
    i + (toBytes p.opening).length ≤ stop ∧ toBytes p.closing <+: text.drop stop := by
  obtain ⟨k, rfl, hk⟩ := prefix_of_closingIn h
  rw [List.drop_drop] at hk
  exact ⟨Nat.le_add_right .., hk⟩

/-- What a key that is a text stands for is a text. -/
theorem lookup?_toBytes {key : String} {found : Bytes} (h : p.lookup? (toBytes key) = some found) :
    ∃ t, toBytes t = found := by
  rcases lookup?_eq_some h with ⟨_, v, -, rfl⟩ | hdefault
  · exact ⟨v, rfl⟩
  · unfold default? at hdefault
    split at hdefault
    · obtain ⟨⟨name, text⟩, hsplit, htext⟩ := Option.bind_eq_some_iff.1 hdefault
      dsimp only at htext
      split at htext
      · cases htext
      · cases htext
        exact Bytes.splitOnce?_toBytes hsplit
    · cases hdefault

/-! ## Texts at hand -/

/-- What a text comes to if no slice cuts a character: a text, or another fault. -/
def Intact : Except Fault Bytes → Prop
  | .ok text => ∃ t, toBytes t = text
  | .error e => e ≠ .split

namespace Stage

/-- What the stages of the resolution of a text keep: they are at texts, and at openings. -/
structure Placed (p : Placeholders) (s : Stage) : Prop where
  text : ∃ t, toBytes t = s.text
  opens : ∀ i, s.opens = some i → toBytes p.opening <+: s.text.drop i

theorem placed_next (p : Placeholders) (value : Bytes) (t : String) (next : Nat) (visiting : List Bytes) :
    Placed p ⟨value, toBytes t, p.nextOpening? (toBytes t) next, visiting⟩ :=
  ⟨⟨t, rfl⟩, fun _ => prefix_of_nextOpening?⟩

end Stage

section Delimited

variable (hopening : p.opening ≠ "") (hclosing : p.closing ≠ "")
include hopening hclosing

/-- A text can be cut at each end of a placeholder and at each end of its body. -/
theorem isCut_of_closingAt {t : String} (hoccurs : toBytes p.opening <+: (toBytes t).drop i)
    (h : p.closingAt (toBytes t) i = .closed stop) :
    (Bytes.IsCut t i ∧ Bytes.IsCut t (i + (toBytes p.opening).length)) ∧
      Bytes.IsCut t stop ∧ Bytes.IsCut t (stop + (toBytes p.closing).length) :=
  ⟨Bytes.isCut_of_occurs hopening hoccurs, Bytes.isCut_of_occurs hclosing (prefix_of_closingAt h).2⟩

theorem openedAt_cases {t : String} (hoccurs : toBytes p.opening <+: (toBytes t).drop i) (visiting : List Bytes) :
    (∃ outcome, p.openedAt (toBytes t) i visiting = .finished outcome ∧ Intact outcome) ∨
      ∃ body past, p.openedAt (toBytes t) i visiting = .placeholder (toBytes body) past ∧
        i ≤ past ∧ Bytes.IsCut t i ∧ Bytes.IsCut t past := by
  have hendless : p.openedAt (toBytes t) i visiting ≠ .endless := openedAt_ne_endless hopening
  unfold openedAt at hendless ⊢
  cases h : p.closingAt (toBytes t) i with
  | endless => simp [h] at hendless
  | unclosed => exact .inl ⟨_, rfl, t, rfl⟩
  | closed stop =>
    obtain ⟨⟨hstart, hbody⟩, hstop, hpast⟩ := isCut_of_closingAt hopening hclosing hoccurs h
    have hle := (prefix_of_closingAt h).1
    obtain ⟨body, hslice⟩ := Bytes.slice?_toBytes hle hbody hstop
    dsimp only
    rw [hslice]
    dsimp only
    split
    · exact .inl ⟨_, rfl, Fault.noConfusion⟩
    · exact .inr ⟨body, _, rfl, by omega, hstart, hpast⟩

namespace Stage

variable {s s' : Stage} {value : Bytes} {opens : Option Nat} {outcome : Except Fault Bytes}

/-- A resolution of a text comes to a text, or to another fault than one at a cut. -/
theorem intact_of_resolveFrom (h : p.resolveFrom value text opens visiting = some outcome)
    (hs : Placed p ⟨value, text, opens, visiting⟩) : Intact outcome := by
  -- the induction is on how far the resolution is unfolded; its recursive runs begin at texts and at openings again
  refine resolveFrom.partial_correctness p (fun value text opens visiting outcome =>
    Placed p ⟨value, text, opens, visiting⟩ → Intact outcome) ?_ _ _ _ _ _ h hs
  intro resolve ih value text opens visiting outcome h hs
  obtain ⟨t, rfl⟩ : ∃ t, toBytes t = text := hs.text
  cases opens with
  | none =>
    cases h
    exact ⟨t, rfl⟩
  | some i =>
    dsimp only at h
    rcases openedAt_cases hopening hclosing (hs.opens i rfl) visiting with
      ⟨outcome', hopened, hintact⟩ | ⟨body, past, hopened, hle, hi, hpast⟩
    · rw [hopened] at h
      cases h
      exact hintact
    · rw [hopened] at h
      obtain ⟨keyOutcome, hkey, h⟩ := Option.bind_eq_some_iff.1 h
      have hkey := ih _ _ _ _ _ hkey (placed_next ..)
      cases keyOutcome with
      | error e =>
        cases h
        exact hkey
      | ok key =>
        obtain ⟨key, rfl⟩ := hkey
        dsimp only [Option.bind_eq_bind] at h
        cases hlookup : p.lookup? (toBytes key) with
        | none =>
          rw [hlookup] at h
          dsimp only at h
          by_cases hlenient : p.lenient
          · rw [if_pos hlenient] at h
            exact ih _ _ _ _ _ h (placed_next ..)
          · rw [if_neg hlenient] at h
            cases h
            exact Fault.noConfusion
        | some found =>
          obtain ⟨found, rfl⟩ := lookup?_toBytes hlookup
          rw [hlookup] at h
          obtain ⟨foundOutcome, hfound, h⟩ := Option.bind_eq_some_iff.1 h
          have hfound := ih _ _ _ _ _ hfound (placed_next ..)
          cases foundOutcome with
          | error e =>
            cases h
            exact hfound
          | ok replacement =>
            obtain ⟨replacement, rfl⟩ := hfound
            obtain ⟨t', hreplace, -⟩ := Bytes.replace?_toBytes hle hi hpast replacement
            dsimp only at h
            rw [hreplace] at h
            exact ih _ _ _ _ _ h (placed_next ..)

theorem intact_of_resolveBytes {t : String} (h : p.resolveBytes (toBytes t) visiting = some outcome) :
    Intact outcome :=
  intact_of_resolveFrom hopening hclosing h (placed_next ..)

theorem Placed.opened {body : Bytes} {past : Nat} (hs : s.Placed p) (hopens : s.opens = some i)
    (hopened : p.openedAt s.text i s.visiting = .placeholder body past) :
    ∃ t b, toBytes t = s.text ∧ toBytes b = body ∧ i ≤ past ∧ Bytes.IsCut t i ∧ Bytes.IsCut t past := by
  obtain ⟨t, ht⟩ := hs.text
  have hoccurs := hs.opens i hopens
  rw [← ht] at hopened hoccurs
  rcases openedAt_cases hopening hclosing hoccurs s.visiting with
    ⟨outcome, hfinished, -⟩ | ⟨b, past', hplaceholder, hcuts⟩
  · rw [hfinished] at hopened
    cases hopened
  · rw [hplaceholder] at hopened
    cases hopened
    exact ⟨t, b, ht, rfl, hcuts⟩

/-- Where a stage goes on, its text can be cut. -/
theorem Resumes.isCut (hs : s.Placed p) (h : s.Resumes p text next) :
    ∃ t, toBytes t = text ∧ Bytes.IsCut t next := by
  cases h with
  | passed hopens hopened =>
    obtain ⟨t, _, ht, -, -, -, hpast⟩ := hs.opened hopening hclosing hopens hopened
    exact ⟨t, ht, hpast⟩
  | replaced hopens hopened hkey hfound hreplacement htext =>
    obtain ⟨t, body, ht, rfl, hle, hi, hpast⟩ := hs.opened hopening hclosing hopens hopened
    obtain ⟨key, rfl⟩ := intact_of_resolveBytes hopening hclosing hkey
    obtain ⟨found, rfl⟩ := lookup?_toBytes hfound
    obtain ⟨replacement, rfl⟩ := intact_of_resolveBytes hopening hclosing hreplacement
    obtain ⟨t', hreplace, hcut⟩ := Bytes.replace?_toBytes hle hi hpast replacement
    rw [ht, htext] at hreplace
    exact ⟨t', (Option.some.inj hreplace).symm, hcut⟩

theorem Placed.leads (hs : s.Placed p) (h : Leads p s s') : s'.Placed p := by
  obtain ⟨i, body, past, hopens, hopened, hstart⟩ | ⟨text, next, hresumes, rfl⟩ := leads_cases h
  · obtain ⟨_, body, -, rfl, -⟩ := hs.opened hopening hclosing hopens hopened
    rcases hstart with rfl | ⟨key, found, hkey, hfound, rfl⟩
    · exact placed_next ..
    · obtain ⟨key, rfl⟩ := intact_of_resolveBytes hopening hclosing hkey
      obtain ⟨found, rfl⟩ := lookup?_toBytes hfound
      exact placed_next ..
  · obtain ⟨t, rfl, -⟩ := hresumes.isCut hopening hclosing hs
    exact placed_next ..

theorem Placed.reached (hs : s.Placed p) (h : Relation.ReflTransGen (Leads p) s s') : s'.Placed p := by
  induction h with
  | refl => exact hs
  | tail _ hleads ih => exact ih.leads hopening hclosing hleads

/-- What is sliced and what is replaced for a placeholder are ranges of the text at hand. -/
theorem Placed.isRange (hs : s.Placed p) (hopens : s.opens = some i) (hclosed : p.closingAt s.text i = .closed stop) :
    Bytes.IsRange s.text (i + (toBytes p.opening).length) stop ∧
      Bytes.IsRange s.text i (stop + (toBytes p.closing).length) := by
  obtain ⟨t, ht⟩ := hs.text
  have hoccurs := hs.opens i hopens
  rw [← ht] at hclosed hoccurs ⊢
  obtain ⟨⟨hstart, hbody⟩, hstop, hpast⟩ := isCut_of_closingAt hopening hclosing hoccurs hclosed
  have hle := (prefix_of_closingAt hclosed).1
  exact ⟨hbody.isRange hle hstop, hstart.isRange (by omega) hpast⟩

end Stage

/-- A resolution that comes to an end comes to a text, or to one of the faults that placeholders have. -/
theorem resolve_cases {t : String} (hends : ∃ outcome, p.resolveBytes (toBytes t) [] = some outcome) :
    (∃ t', p.resolve t = .ok t') ∨
      (∃ body, p.resolve t = .error (.configuration (.circularPlaceholder body) none)) ∨
      ∃ key value, p.resolve t = .error (.configuration (.unresolvedPlaceholder key value) none) := by
  obtain ⟨outcome, houtcome⟩ := hends
  have hintact := Stage.intact_of_resolveBytes hopening hclosing houtcome
  unfold resolve
  rw [houtcome]
  rcases outcome with (body | ⟨key, value⟩ | _) | text
  · exact .inr (.inl ⟨_, rfl⟩)
  · exact .inr (.inr ⟨_, _, rfl⟩)
  · exact absurd rfl hintact
  · exact .inl ⟨_, rfl⟩

end Delimited

/-! ## Delimiters that are the same -/

/-- Placeholders between two delimiters that are the same and have more than one byte. -/
def arrows : Placeholders where
  opening := "→"
  closing := "→"
  properties := Directory.empty.insert "é" "日本"

namespace Arrows

theorem closingAt : arrows.closingAt (toBytes "→é→") 0 = .closed 5 := by
  have hrest : (toBytes "→é→").drop 3 = [0xC3, 0xA9, 0xE2, 0x86, 0x92] := rfl
  have hclosing : toBytes arrows.closing = [0xE2, 0x86, 0x92] := rfl
  show closingIn (toBytes arrows.closing) (toBytes arrows.closing) ((toBytes "→é→").drop 3) 3 0 = _
  rw [hrest, hclosing]
  simp [closingIn]

theorem nextOpening? : arrows.nextOpening? (toBytes "→é→") 0 = some 0 := by decide

/-- The three letters are replaced by two of other lengths, and the search goes on after them. -/
theorem resumes : (Stage.start arrows (toBytes "→é→") []).Resumes arrows (toBytes "日本") 6 := by
  have hopened : arrows.openedAt (toBytes "→é→") 0 [] = .placeholder (toBytes "é") 8 := by
    unfold openedAt
    rw [closingAt]
    rfl
  have hplain {s : String} (h : arrows.nextOpening? (toBytes s) 0 = none) :
      arrows.resolveBytes (toBytes s) [toBytes "é"] = some (.ok (toBytes s)) := by
    rw [resolveBytes, h, resolveFrom]
  have hkey := hplain (s := "é") (by decide)
  have hfound : arrows.lookup? (toBytes "é") = some (toBytes "日本") := by decide
  have hreplacement := hplain (s := "日本") (by decide)
  have htext : Bytes.replace? (toBytes "→é→") 0 8 (toBytes "日本") = some (toBytes "日本") := by decide
  exact .replaced (s := .start arrows (toBytes "→é→") []) nextOpening? hopened hkey hfound hreplacement htext

end Arrows

/-! ## All offsets -/

/-- The offsets of a resolution with delimiters that are not empty. The text at hand is always a text, the body that
is sliced out of it and the placeholder that is replaced in it are ranges of it, and the search for the next
placeholder goes on between characters of it; so no slice cuts a character. -/
theorem offsets_sound {p : Placeholders} (hopening : p.opening ≠ "") (hclosing : p.closing ≠ "") (value : String)
    (visiting : List Bytes) :
    (∀ s, Relation.ReflTransGen (Stage.Leads p) (.start p (toBytes value) visiting) s →
      (∃ t, toBytes t = s.text) ∧
        (∀ i stop, s.opens = some i → p.closingAt s.text i = .closed stop →
          Bytes.IsRange s.text (i + (toBytes p.opening).length) stop ∧
            Bytes.IsRange s.text i (stop + (toBytes p.closing).length)) ∧
        ∀ text next, s.Resumes p text next → next ≤ text.length ∧ Bytes.isBoundary text next = true) ∧
      p.resolveBytes (toBytes value) visiting ≠ some (.error .split) := by
  refine ⟨fun s hreached => ?_, fun hsplit => ?_⟩
  · have hs : s.Placed p := (Stage.placed_next p _ value 0 visiting).reached hopening hclosing hreached
    refine ⟨hs.text, fun i stop hopens hclosed => hs.isRange hopening hclosing hopens hclosed, ?_⟩
    intro text next hresumes
    obtain ⟨t, rfl, hcut⟩ := hresumes.isCut hopening hclosing hs
    exact ⟨hcut.le, hcut.isBoundary⟩
  · exact Stage.intact_of_resolveBytes hopening hclosing hsplit rfl

theorem offsets_sound_arrows : arrows.opening ≠ "" ∧ arrows.closing ≠ "" ∧
    (arrows.closingAt (toBytes "→é→") 0 = .closed 5 ∧ Bytes.IsRange (toBytes "→é→") 3 5 ∧
      Bytes.IsRange (toBytes "→é→") 0 8) ∧
    ((Stage.start arrows (toBytes "→é→") []).Resumes arrows (toBytes "日本") 6 ∧
      Bytes.isBoundary (toBytes "日本") 6 = true) ∧
    arrows.resolveBytes (toBytes "→é→") [] ≠ some (.error .split) := by
  obtain ⟨hstages, hsplit⟩ := offsets_sound (p := arrows) (by decide) (by decide) "→é→" []
  obtain ⟨-, hranges, hresumes⟩ := hstages _ .refl
  have hrange := hranges 0 5 Arrows.nextOpening? Arrows.closingAt
  have hnext := (hresumes _ _ Arrows.resumes).2
  exact ⟨by decide, by decide, ⟨Arrows.closingAt, hrange⟩, ⟨Arrows.resumes, hnext⟩, hsplit⟩

end Singletons.Placeholders
