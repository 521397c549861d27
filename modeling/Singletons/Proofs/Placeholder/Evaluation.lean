import Mathlib.Data.Finset.Card
import Singletons.Proofs.Placeholder.Rewriting

/-
Resolving the text of a template is evaluating the template. The resolution rewrites a text in place, the
evaluation goes down a tree; they meet in what a part of the text does to the rest of it (`Follows`): a part
whose template has a value is replaced by the value, and a part whose template is flawed ends the whole
resolution with that flaw. A value has no dollar sign, so a default that was cut out of a key is text without
placeholders. Both come to an end because a hole that is being evaluated is not entered again, and the holes
of a template and of the properties are finitely many.
-/

namespace Singletons.Template

open Text
open Placeholders (enclose)

/-! ## Keys -/

theorem splitAtColon?_of_not_mem {key : String} (h : ':' ∉ key.toList) : splitAtColon? key = none :=
  if_neg h

theorem splitAtColon?_of_mem {key : String} (h : ':' ∈ key.toList) :
    ∃ name text, ':' ∉ name.toList ∧ key = name ++ ":" ++ text ∧ splitAtColon? key = some (name, text) := by
  obtain ⟨before, after, hlist, hbefore⟩ := List.eq_append_cons_of_mem h
  have htake : key.toList.takeWhile (· ≠ ':') = before := by
    rw [hlist, List.takeWhile_append_of_pos fun c hc => decide_eq_true (ne_of_mem_of_not_mem hc hbefore)]
    simp
  have hdrop : key.toList.dropWhile (· ≠ ':') = ':' :: after := by
    rw [hlist, List.dropWhile_append_of_pos fun c hc => decide_eq_true (ne_of_mem_of_not_mem hc hbefore)]
    simp
  refine ⟨.ofList before, .ofList after, by simpa using hbefore, ?_, ?_⟩
  · rw [← String.toList_inj, hlist]
    simp
  · rw [splitAtColon?, if_pos h, htake, hdrop]
    rfl

theorem splitOnce?_toBytes (key : String) :
    Bytes.splitOnce? [0x3A] (toBytes key) =
      (splitAtColon? key).map fun (name, text) => (toBytes name, toBytes text) := by
  by_cases h : ':' ∈ key.toList
  · obtain ⟨name, text, hname, rfl, hsplit⟩ := splitAtColon?_of_mem h
    have hbytes : toBytes (name ++ ":" ++ text) = toBytes name ++ 0x3A :: toBytes text := by
      rw [toBytes_append, toBytes_append, List.append_assoc]
      rfl
    have hbefore : 0x3A ∉ toBytes name := not_mem_toBytes (d := ':') (by decide) hname
    rw [hsplit, hbytes, Bytes.splitOnce?_append _ hbefore]
    rfl
  · have hnone : 0x3A ∉ toBytes key := not_mem_toBytes (d := ':') (by decide) h
    rw [splitAtColon?_of_not_mem h, Bytes.splitOnce?_eq_none hnone]
    rfl

/-- The text that a key stands for. -/
def Meaning.text : Meaning → String
  | property t => t.render
  | default text => text

theorem lookup?_toBytes (properties : Directory Template) (key : String) :
    (placeholders properties).lookup? (toBytes key) = (meaning? properties key).map fun m => toBytes m.text := by
  unfold Placeholders.lookup? meaning? placeholders
  dsimp only
  rw [ofBytes_toBytes, Directory.get?_map]
  cases properties.get? key with
  | some t => rfl
  | none =>
    have hcolon : toBytes ":" = [0x3A] := rfl
    dsimp only [Option.map_none]
    rw [hcolon, splitOnce?_toBytes, Option.map_map, Option.map_map]
    congr 1
    funext (name, text)
    dsimp only [Function.comp_apply]
    rw [ofBytes_toBytes, Directory.get?_map]
    cases properties.get? name <;> rfl

theorem get?_of_meaning {properties : Directory Template} {key : String} {t : Template}
    (h : meaning? properties key = some (.property t)) : ∃ n, properties.get? n = some t := by
  unfold meaning? at h
  cases hkey : properties.get? key with
  | some t' =>
    rw [hkey] at h
    obtain rfl : t' = t := by simpa using h
    exact ⟨key, hkey⟩
  | none =>
    rw [hkey] at h
    obtain ⟨⟨name, text⟩, -, hname⟩ := Option.map_eq_some_iff.1 h
    dsimp only at hname
    cases hget : properties.get? name with
    | some t' =>
      rw [hget] at hname
      obtain rfl : t' = t := by simpa using hname
      exact ⟨name, hget⟩
    | none => simp [hget] at hname

theorem default_subset {properties : Directory Template} {key text : String}
    (h : meaning? properties key = some (.default text)) : text.toList ⊆ key.toList := by
  unfold meaning? at h
  cases hkey : properties.get? key with
  | some t => simp [hkey] at h
  | none =>
    rw [hkey] at h
    obtain ⟨⟨name, text'⟩, hsplit, hname⟩ := Option.map_eq_some_iff.1 h
    by_cases hcolon : ':' ∈ key.toList
    · obtain ⟨name', text'', -, rfl, hsplit'⟩ := splitAtColon?_of_mem hcolon
      obtain ⟨rfl, rfl⟩ : name' = name ∧ text'' = text' := by simpa [hsplit'] using hsplit
      dsimp only at hname
      cases hget : properties.get? name' with
      | some t => simp [hget] at hname
      | none =>
        obtain rfl : text'' = text := by simpa [hget] using hname
        simp
    · simp [splitAtColon?_of_not_mem hcolon] at hsplit

/-! ## What a part of a text does to the rest -/

/-- The fault that a resolution ends with because of a flaw; `value` is the text that is being resolved. -/
def Flaw.fault (value : Bytes) : Flaw → Placeholders.Fault
  | circular body => .circular body
  | unresolvable key => .unresolved key (ofBytes value)

/-- Whether resolving a text that begins with `part` comes to `outcome` for this part: the part is replaced by
its value, which is dealt with then, or its flaw ends the resolution. -/
def Follows (p : Placeholders) (visiting : List Bytes) (part : String) : Except Flaw String → Prop
  | .ok replacement => '$' ∉ replacement.toList ∧ ∀ value before rest,
      p.resolveAfter value before (part ++ rest) visiting =
        p.resolveAfter value (before ++ toBytes replacement) rest visiting
  | .error flaw => ∀ value before rest, ∃ cause,
      p.resolveAfter value before (part ++ rest) visiting = some (.error (flaw.fault cause))

section

variable {p : Placeholders} {visiting : List Bytes} {part rest : String} {outcome : Except Flaw String}

theorem follows_plain (hp : p.Braced) (h : '$' ∉ part.toList) : Follows p visiting part (.ok part) :=
  ⟨h, fun _ _ _ => hp.resolveAfter_append h⟩

theorem Follows.append {replacement : String} (hpart : Follows p visiting part (.ok replacement))
    (hrest : Follows p visiting rest outcome) :
    Follows p visiting (part ++ rest) (outcome.map (replacement ++ ·)) := by
  cases outcome with
  | ok value =>
    refine ⟨?_, fun v before after => ?_⟩
    · simp [hpart.1, hrest.1]
    · rw [String.append_assoc, hpart.2, hrest.2, toBytes_append, List.append_assoc]
  | error flaw =>
    intro v before after
    rw [String.append_assoc, hpart.2]
    exact hrest v _ after

theorem Follows.append_of_error {flaw : Flaw} (hpart : Follows p visiting part (.error flaw)) (rest : String) :
    Follows p visiting (part ++ rest) (.error flaw) := by
  intro v before after
  rw [String.append_assoc]
  exact hpart v before _

/-- The resolution of a whole text. -/
theorem Follows.resolveBytes (hp : p.Braced) (h : Follows p visiting part outcome) :
    ∃ cause, p.resolveBytes (toBytes part) visiting = some ((outcome.map toBytes).mapError (Flaw.fault cause)) := by
  rw [Placeholders.resolveBytes_toBytes, ← String.append_empty (s := part)]
  cases outcome with
  | ok replacement =>
    refine ⟨[], ?_⟩
    rw [h.2, hp.resolveAfter_plain (by simp)]
    simp [Except.map, Except.mapError]
  | error flaw => exact h _ _ _

end

/-! ## One hole -/

theorem braced (properties : Directory Template) : (placeholders properties).Braced := ⟨rfl, rfl⟩

variable {properties : Directory Template} {active : List String} {body rest t : Template} {l : Literal}
  {key : String} {flaw : Flaw} {outcome : Except Flaw String}

theorem contains_map_toBytes (active : List String) (s : String) :
    (active.map toBytes).contains (toBytes s) = decide (s ∈ active) := by
  rw [List.contains_eq_mem, decide_eq_decide, List.mem_map]
  constructor
  · rintro ⟨s', hmem, heq⟩
    exact toBytes_inj.1 heq ▸ hmem
  · intro hmem
    exact ⟨s, hmem, rfl⟩

/-- Resolving a hole that is not being resolved already: its body is resolved, and then what the key means. -/
theorem resolveAfter_fresh (hfresh : body.render ∉ active) (value before : Bytes) (rest : String) :
    (placeholders properties).resolveAfter value before (enclose body.render ++ rest) (active.map toBytes) = (do
      match ← (placeholders properties).resolveBytes (toBytes body.render) ((body.render :: active).map toBytes) with
      | .error e => some (.error e)
      | .ok key =>
        match (placeholders properties).lookup? key with
        | none => some (.error (.unresolved (ofBytes key) (ofBytes value)))
        | some found =>
          match ← (placeholders properties).resolveBytes found ((body.render :: active).map toBytes) with
          | .error e => some (.error e)
          | .ok replacement =>
            (placeholders properties).resolveAfter value (before ++ replacement) rest (active.map toBytes)) := by
  rw [(braced properties).resolveAfter_enclose, contains_map_toBytes, if_neg (by simpa using hfresh)]
  rfl

theorem follows_circular (h : body.render ∈ active) :
    Follows (placeholders properties) (active.map toBytes) (enclose body.render) (.error (.circular body.render)) := by
  intro value before rest
  refine ⟨value, ?_⟩
  rw [(braced properties).resolveAfter_enclose, contains_map_toBytes, if_pos (by simpa using h)]
  rfl

theorem Follows.enclose_of_error (hfresh : body.render ∉ active)
    (hbody : Follows (placeholders properties) ((body.render :: active).map toBytes) body.render (.error flaw)) :
    Follows (placeholders properties) (active.map toBytes) (enclose body.render) (.error flaw) := by
  intro value before rest
  obtain ⟨cause, hcause⟩ := hbody.resolveBytes (braced properties)
  refine ⟨cause, ?_⟩
  rw [resolveAfter_fresh hfresh, hcause]
  rfl

/-- Resolving a hole whose body has come to a key goes on with what the key means. -/
theorem resolveAfter_of_key (hfresh : body.render ∉ active)
    (hbody : Follows (placeholders properties) ((body.render :: active).map toBytes) body.render (.ok key))
    (value before : Bytes) (rest : String) :
    (placeholders properties).resolveAfter value before (enclose body.render ++ rest) (active.map toBytes) =
      (match meaning? properties key with
      | none => some (.error (.unresolved key (ofBytes value)))
      | some m => do
        match ← (placeholders properties).resolveBytes (toBytes m.text) ((body.render :: active).map toBytes) with
        | .error e => some (.error e)
        | .ok replacement =>
          (placeholders properties).resolveAfter value (before ++ replacement) rest (active.map toBytes)) := by
  obtain ⟨cause, hcause⟩ := hbody.resolveBytes (braced properties)
  rw [resolveAfter_fresh hfresh, hcause]
  show (match (placeholders properties).lookup? (toBytes key) with | none => _ | some found => _) = _
  rw [lookup?_toBytes, ofBytes_toBytes]
  cases meaning? properties key <;> rfl

theorem Follows.enclose_of_meaningless (hfresh : body.render ∉ active)
    (hbody : Follows (placeholders properties) ((body.render :: active).map toBytes) body.render (.ok key))
    (hmeaning : meaning? properties key = none) :
    Follows (placeholders properties) (active.map toBytes) (enclose body.render) (.error (.unresolvable key)) := by
  intro value before rest
  refine ⟨value, ?_⟩
  rw [resolveAfter_of_key hfresh hbody, hmeaning]
  rfl

theorem Follows.enclose {m : Meaning} (hfresh : body.render ∉ active)
    (hbody : Follows (placeholders properties) ((body.render :: active).map toBytes) body.render (.ok key))
    (hmeaning : meaning? properties key = some m)
    (hvalue : Follows (placeholders properties) ((body.render :: active).map toBytes) m.text outcome) :
    Follows (placeholders properties) (active.map toBytes) (enclose body.render) outcome := by
  obtain ⟨cause, hcause⟩ := hvalue.resolveBytes (braced properties)
  cases outcome with
  | ok replacement =>
    refine ⟨hvalue.1, fun value before rest => ?_⟩
    rw [resolveAfter_of_key hfresh hbody, hmeaning]
    dsimp only
    rw [hcause]
    rfl
  | error flaw =>
    intro value before rest
    refine ⟨cause, ?_⟩
    rw [resolveAfter_of_key hfresh hbody, hmeaning]
    dsimp only
    rw [hcause]
    rfl

/-! ## Evaluation -/

/-- Whether an evaluation has an outcome, and the resolution of `part` comes to it. -/
def Yields (properties : Directory Template) (active : List String) (part : String) (x : ExceptT Flaw Option String) :
    Prop :=
  ∃ outcome, x.run = some outcome ∧ Follows (placeholders properties) (active.map toBytes) part outcome

theorem yields_plain {s : String} (h : '$' ∉ s.toList) : Yields properties active s (pure s) :=
  ⟨.ok s, rfl, follows_plain (braced properties) h⟩

theorem Yields.append {part rest : String} {x y : ExceptT Flaw Option String} (hx : Yields properties active part x)
    (hy : Yields properties active rest y) : Yields properties active (part ++ rest) (do return (← x) ++ (← y)) := by
  obtain ⟨xoutcome, hxrun, hxfollows⟩ := hx
  obtain ⟨youtcome, hyrun, hyfollows⟩ := hy
  cases xoutcome with
  | error flaw =>
    refine ⟨.error flaw, ?_, hxfollows.append_of_error rest⟩
    rw [ExceptT.run_bind, hxrun]
    rfl
  | ok replacement =>
    refine ⟨youtcome.map (replacement ++ ·), ?_, hxfollows.append hyfollows⟩
    rw [ExceptT.run_bind, hxrun]
    show ExceptT.run (y >>= _) = _
    rw [ExceptT.run_bind, hyrun]
    cases youtcome <;> rfl

/-- A hole is refused, or its body yields the key and what the key means yields the value. -/
theorem Yields.enclose
    (hbody : body.render ∉ active →
      Yields properties (body.render :: active) body.render (body.eval properties (body.render :: active)))
    (hproperty : body.render ∉ active → ∀ n t, properties.get? n = some t →
      Yields properties (body.render :: active) t.render (t.eval properties (body.render :: active))) :
    Yields properties active (Placeholders.enclose body.render)
      (if body.render ∈ active then throw (.circular body.render)
      else do
        let key ← body.eval properties (body.render :: active)
        match meaning? properties key with
        | some (.property t) => t.eval properties (body.render :: active)
        | some (.default text) => pure text
        | none => throw (.unresolvable key)) := by
  by_cases h : body.render ∈ active
  · rw [if_pos h]
    exact ⟨_, rfl, follows_circular h⟩
  · rw [if_neg h]
    obtain ⟨keyOutcome, hrun, hkey⟩ := hbody h
    unfold Yields
    rw [ExceptT.run_bind, hrun]
    cases keyOutcome with
    | error flaw => exact ⟨.error flaw, rfl, hkey.enclose_of_error h⟩
    | ok key =>
      dsimp only [Option.bind_eq_bind, Option.bind_some]
      cases hmeaning : meaning? properties key with
      | none => exact ⟨.error (.unresolvable key), rfl, hkey.enclose_of_meaningless h hmeaning⟩
      | some m =>
        cases m with
        | property t =>
          obtain ⟨n, hn⟩ := get?_of_meaning hmeaning
          obtain ⟨outcome, htrun, ht⟩ := hproperty h n t hn
          exact ⟨outcome, htrun, hkey.enclose h hmeaning ht⟩
        | default text =>
          have hplain : '$' ∉ text.toList := fun hmem => hkey.1 (default_subset hmeaning hmem)
          exact ⟨.ok text, rfl, hkey.enclose h hmeaning (follows_plain (braced properties) hplain)⟩

/-- The texts of the holes of a template. -/
def bodies : Template → List String
  | done => []
  | literal _ rest => rest.bodies
  | hole body rest => body.render :: (body.bodies ++ rest.bodies)

/-- Evaluating a template yields what its text resolves to, if `known` has all holes there are. -/
theorem yields_eval (known : List String)
    (hknown : ∀ n t, properties.get? n = some t → t.bodies ⊆ known) (active : List String) (t : Template)
    (ht : t.bodies ⊆ known) : Yields properties active t.render (t.eval properties active) := by
  -- a hole that is entered is a known one that was not active, so fewer are left to enter
  induction hcard : (known.toFinset \ active.toFinset).card using Nat.strong_induction_on
    generalizing active t with | _ n ih => ?_
  induction t with
  | done =>
    rw [eval]
    exact yields_plain List.not_mem_nil
  | literal l rest ihrest =>
    have happend := (yields_plain l.plain.1).append (ihrest ht)
    rw [pure_bind] at happend
    rw [eval]
    exact happend
  | hole body rest _ ihrest =>
    rw [bodies, List.cons_subset, List.append_subset] at ht
    have hfewer (h : body.render ∉ active) :
        (known.toFinset \ (body.render :: active).toFinset).card < n := by
      rw [← hcard, List.toFinset_cons, Finset.sdiff_insert]
      refine Finset.card_erase_lt_of_mem ?_
      rw [Finset.mem_sdiff, List.mem_toFinset, List.mem_toFinset]
      exact ⟨ht.1, h⟩
    rw [eval]
    exact (Yields.enclose (fun h => ih _ (hfewer h) _ _ ht.2.1 rfl)
      (fun h n t hn => ih _ (hfewer h) _ _ (hknown n t hn) rfl)).append (ihrest ht.2.2)

/-! ## Outcomes -/

/-- The failure that a resolution ends with because of a flaw; `value` is the text that is being resolved. -/
def Flaw.failure (value : String) : Flaw → Failure
  | circular body => .configuration (.circularPlaceholder body) none
  | unresolvable key => .configuration (.unresolvedPlaceholder key value) none

/-- Evaluating a template and resolving its text come to an end with the same text, or with the same flaw. -/
theorem resolve_render (properties : Directory Template) (t : Template) :
    ∃ outcome value, (t.eval properties []).run = some outcome ∧
      (placeholders properties).resolve t.render = outcome.mapError (Flaw.failure value) := by
  obtain ⟨outcome, hrun, hfollows⟩ : Yields properties [] t.render (t.eval properties []) := by
    refine yields_eval (t.bodies ++ properties.rows.flatMap (·.2.bodies)) (fun n t' hn => ?_) [] t
      (List.subset_append_left ..)
    intro b hb
    have hrow : (n, t') ∈ properties.rows := (properties.get?_eq_some_iff n t').1 hn
    exact List.mem_append_right _ (List.mem_flatMap.2 ⟨_, hrow, hb⟩)
  obtain ⟨cause, hresolve⟩ := hfollows.resolveBytes (braced properties)
  refine ⟨outcome, ofBytes cause, hrun, ?_⟩
  unfold Placeholders.resolve
  rw [List.map_nil] at hresolve
  rw [hresolve]
  cases outcome with
  | ok text =>
    dsimp only [Except.map, Except.mapError]
    rw [ofBytes_toBytes]
  | error flaw => cases flaw <;> rfl

end Singletons.Template
