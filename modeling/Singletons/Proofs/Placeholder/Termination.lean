import Mathlib.Data.Set.Finite.List
import Singletons.Settings.Basic
import Singletons.Proofs.Placeholder.Rewriting
import Singletons.Proofs.Placeholder.Stages

/-
When a resolution comes to an end. A body that is being resolved is not entered again, and there are finitely
many texts of a given length; so a resolution can only go on for ever with texts that grow. Bodies are cut out of
the text at hand and properties are what they are, so the texts that grow are defaults: a resolution comes to an
end exactly if it takes finitely many defaults (`resolves_iff_finite_defaults`). Valid placeholders do not exclude
the growth: a key is resolved before its default is cut out of it, so the default can contain openings that no
text contained before.
-/

namespace Singletons.Placeholders

open Text

namespace Stage

variable {p : Placeholders} {s s' : Stage} {bound : Nat}

/-- How much of the text is left from the placeholder at hand on. -/
def rest (s : Stage) : Nat :=
  match s.opens with
  | none => 0
  | some i => s.text.length - i

/-- What the stages of a resolution keep if no text that it takes up has more than `bound` bytes. -/
structure Within (p : Placeholders) (bound : Nat) (s : Stage) : Prop where
  defaults : ∀ d ∈ s.defaults p, d.length ≤ bound
  rest : s.rest ≤ bound
  visiting : ∀ b ∈ s.visiting, b.length ≤ bound
  nodup : s.visiting.Nodup

theorem rest_le {value text : Bytes} {next : Nat} {visiting : List Bytes} :
    rest ⟨value, text, p.nextOpening? text next, visiting⟩ ≤ text.length - next := by
  unfold rest
  cases hopens : p.nextOpening? text next with
  | none => exact Nat.zero_le _
  | some i => exact Nat.sub_le_sub_left (nextOpening?_eq_some hopens).1 _

instance : Finite UInt8 := Finite.of_injective UInt8.toFin fun _ _ => UInt8.toFin_inj.1

/-- How many more bodies of at most `bound` bytes can be visited. -/
noncomputable def room (bound : Nat) (s : Stage) : Nat :=
  (List.finite_length_le UInt8 bound).toFinset.card - s.visiting.length

/-- Whether a stage leaves less room for bodies than another one, or the same room and less text. -/
def Closer (bound : Nat) (s' s : Stage) : Prop :=
  s'.room bound < s.room bound ∨ s'.visiting = s.visiting ∧ s'.rest < s.rest

/-- Taking up a text uses up room, as the body it is taken up for is visited from then on. -/
theorem Within.enter {body text : Bytes} (hs : s.Within p bound) (hbody : body.length ≤ bound)
    (hfresh : body ∉ s.visiting) (htext : text.length ≤ bound)
    (hleads : Leads p s (start p text (body :: s.visiting))) :
    (start p text (body :: s.visiting)).Within p bound ∧ (start p text (body :: s.visiting)).Closer bound s := by
  have hvisiting : ∀ b ∈ body :: s.visiting, b.length ≤ bound := List.forall_mem_cons.2 ⟨hbody, hs.visiting⟩
  have hnodup : (body :: s.visiting).Nodup := List.nodup_cons.2 ⟨hfresh, hs.nodup⟩
  refine ⟨⟨fun d hd => hs.defaults d (defaults_subset hleads hd), rest_le.trans htext, hvisiting, hnodup⟩, .inl ?_⟩
  have hsub : (body :: s.visiting).toFinset ⊆ (List.finite_length_le UInt8 bound).toFinset := fun b hb =>
    (Set.Finite.mem_toFinset _).2 (hvisiting b (List.mem_toFinset.1 hb))
  have hcard := Finset.card_le_card hsub
  rw [List.toFinset_card_of_nodup hnodup, List.length_cons] at hcard
  unfold room start
  rw [List.length_cons]
  omega

theorem Within.goOn (hs : s.Within p bound) (hleads : Leads p s s') (hvisiting : s'.visiting = s.visiting)
    (hrest : s'.rest < s.rest) : s'.Within p bound ∧ s'.Closer bound s :=
  ⟨⟨fun d hd => hs.defaults d (defaults_subset hleads hd), (Nat.le_of_lt hrest).trans hs.rest,
    hvisiting ▸ hs.visiting, hvisiting ▸ hs.nodup⟩, .inr ⟨hvisiting, hrest⟩⟩

/-- Where a stage goes on, less of the text is left. -/
theorem Resumes.lt_rest {text : Bytes} {next : Nat} (hopening : p.opening ≠ "") (h : s.Resumes p text next) :
    text.length - next < s.rest := by
  have hpos : 0 < (toBytes p.opening).length := List.length_pos_iff.2 (toBytes_ne_nil hopening)
  cases h with
  | @passed i _ _ _ hopens hopened =>
    obtain ⟨-, hbody, hpast⟩ := openedAt_eq_placeholder hopened
    rw [rest, hopens]
    show s.text.length - _ < s.text.length - i
    omega
  | @replaced i _ _ _ _ _ _ hopens hopened _ _ _ htext =>
    obtain ⟨-, hbody, hpast⟩ := openedAt_eq_placeholder hopened
    obtain ⟨hle, hlengths⟩ := Bytes.replace?_eq_some htext
    rw [rest, hopens]
    show _ < s.text.length - i
    omega

/-- Each stage of a resolution is closer to its end than the one before. -/
theorem Within.step (hopening : p.opening ≠ "")
    (hproperties : ∀ n v, p.properties.get? n = some v → (toBytes v).length ≤ bound)
    (hs : s.Within p bound) (hleads : Leads p s s') : s'.Within p bound ∧ s'.Closer bound s := by
  obtain ⟨i, body, past, hopens, hopened, hstart⟩ | ⟨text, next, hresumes, rfl⟩ := leads_cases hleads
  · obtain ⟨hfresh, hbody, -⟩ := openedAt_eq_placeholder hopened
    have hlength : body.length ≤ bound := by
      have hle := hs.rest
      rw [Stage.rest, hopens] at hle
      dsimp only at hle
      omega
    rcases hstart with rfl | ⟨key, found, hkey, hfound, rfl⟩
    · exact hs.enter hlength hfresh hlength hleads
    · -- the text that is looked up is a property, or one of the defaults that are bounded
      refine hs.enter hlength hfresh ?_ hleads
      rcases lookup?_eq_some hfound with ⟨n, v, hget, rfl⟩ | hdefault
      · exact hproperties n v hget
      · exact hs.defaults found ⟨s, .refl, (default?_of_key hopens hopened hkey).trans hdefault⟩
  · exact hs.goOn hleads rfl (rest_le.trans_lt (hresumes.lt_rest hopening))

/-- A resolution that takes up no text of more than `bound` bytes does not lead on for ever. -/
theorem Within.acc (hopening : p.opening ≠ "")
    (hproperties : ∀ n v, p.properties.get? n = some v → (toBytes v).length ≤ bound) (hs : s.Within p bound) :
    Acc (fun s' s => Leads p s s') s := by
  induction hroom : s.room bound using Nat.strong_induction_on generalizing s with | _ room ihroom
  induction hrest : s.rest using Nat.strong_induction_on generalizing s with | _ rest ihrest
  refine Acc.intro s fun s' hleads => ?_
  obtain ⟨hs', hless | ⟨hvisiting, hless⟩⟩ := hs.step hopening hproperties hleads
  · exact ihroom _ (hroom ▸ hless) hs' rfl
  · exact ihrest _ (hrest ▸ hless) hs' (by rw [← hroom, Stage.room, Stage.room, hvisiting]) rfl

theorem outcome_of_acc (hopening : p.opening ≠ "") (h : Acc (fun s' s => Leads p s s') s) :
    ∃ outcome, s.outcome? p = some outcome := by
  induction h with
  | intro s _ ih => exact outcome_of_leads hopening ih

/-- A stage has an outcome if finitely many defaults are taken from it on. -/
theorem outcome_of_finite_defaults {value : Bytes} (hopening : p.opening ≠ "")
    (h : ((start p value []).defaults p).Finite) : ∃ outcome, p.resolveBytes value [] = some outcome := by
  obtain ⟨longest, hlongest⟩ := (h.image List.length).bddAbove
  let properties := p.properties.rows.toFinset.sup fun r => (toBytes r.2).length
  have hproperties (n v) (hget : p.properties.get? n = some v) :
      (toBytes v).length ≤ max longest (max properties value.length) := by
    have hrow := (p.properties.get?_eq_some_iff n v).1 hget
    have hle : (toBytes v).length ≤ properties :=
      Finset.le_sup (f := fun r => (toBytes r.2).length) (List.mem_toFinset.2 hrow)
    omega
  have hwithin : (start p value []).Within p (max longest (max properties value.length)) := by
    refine ⟨fun d hd => ?_, rest_le.trans ?_, fun b hb => absurd hb List.not_mem_nil, List.nodup_nil⟩
    · exact (hlongest ⟨d, hd, rfl⟩).trans (le_max_left _ _)
    · omega
  exact outcome_of_acc hopening (hwithin.acc hopening hproperties)

end Stage

/-! ## A default that grows -/

/-- Placeholders whose properties put together, out of pieces that are no placeholders, a default which is a
placeholder again. -/
def growing : Placeholders where
  properties := Directory.empty
    |>.insert "o" "$"
    |>.insert "b" "$\x7by:$\x7bb\x7d"
    |>.insert "s" "$\x7bo\x7d\x7bs\x7d$\x7bo\x7d\x7bs\x7d"
    |>.insert "c" "$\x7bo\x7d\x7bc\x7d\x7d"

namespace Growth

theorem braced : growing.Braced := ⟨rfl, rfl⟩

/-- `n` holes that name `s`, and one that names `c`. -/
def tail : Nat → Template
  | 0 => .hole (.literal ⟨"c", by decide⟩ .done) .done
  | n + 1 => .hole (.literal ⟨"s", by decide⟩ .done) (tail n)

/-- The body of a placeholder that resolves to one with twice as many holes. -/
def body (n : Nat) : Template :=
  .literal ⟨"y:", by decide⟩ (.hole (.literal ⟨"b", by decide⟩ .done) (tail n))

variable {value before : Bytes} {rest : String} {visiting : List Bytes}

theorem resolve_o : growing.resolveBytes (toBytes "$") visiting = some (.ok (toBytes "$")) := by
  rw [resolveBytes_toBytes, braced.resolveAfter_of_find?_none (by decide), List.nil_append]

theorem resolve_b : growing.resolveBytes (toBytes "$\x7by:$\x7bb\x7d") visiting =
    some (.ok (toBytes "$\x7by:$\x7bb\x7d")) :=
  braced.resolveBytes_unclosed (.literal ⟨"y:", by decide⟩ (.hole (.literal ⟨"b", by decide⟩ .done) .done))

theorem resolveAfter_o (ho : toBytes "o" ∉ visiting) :
    growing.resolveAfter value before (enclose "o" ++ rest) visiting =
      growing.resolveAfter value (before ++ toBytes "$") rest visiting :=
  braced.resolveAfter_name ⟨"o", by decide⟩ ho (by decide) resolve_o

/-- Text that was put together is not searched for openings again. -/
theorem resolve_s (ho : toBytes "o" ∉ visiting) :
    growing.resolveBytes (toBytes "$\x7bo\x7d\x7bs\x7d$\x7bo\x7d\x7bs\x7d") visiting =
      some (.ok (toBytes "$\x7bs\x7d$\x7bs\x7d")) := by
  have htext : "$\x7bo\x7d\x7bs\x7d$\x7bo\x7d\x7bs\x7d" =
      enclose "o" ++ ("\x7bs\x7d" ++ (enclose "o" ++ "\x7bs\x7d")) := by decide
  rw [resolveBytes_toBytes, htext, resolveAfter_o ho, braced.resolveAfter_append (by decide), resolveAfter_o ho,
    braced.resolveAfter_plain (by decide)]
  rfl

theorem resolve_c (ho : toBytes "o" ∉ visiting) :
    growing.resolveBytes (toBytes "$\x7bo\x7d\x7bc\x7d\x7d") visiting = some (.ok (toBytes "$\x7bc\x7d\x7d")) := by
  have htext : "$\x7bo\x7d\x7bc\x7d\x7d" = enclose "o" ++ "\x7bc\x7d\x7d" := by decide
  rw [resolveBytes_toBytes, htext, resolveAfter_o ho, braced.resolveAfter_plain (by decide)]
  rfl

theorem not_mem_of_short {b : Bytes} (hlong : ∀ v ∈ visiting, 1 < v.length) (hb : b.length ≤ 1) : b ∉ visiting :=
  fun hmem => absurd (hlong b hmem) (by omega)

theorem render_name (l : Literal) (t : Template) :
    (Template.hole (.literal l .done) t).render = enclose l.text ++ t.render := by
  show "$\x7b" ++ (l.text ++ "") ++ "\x7d" ++ t.render = _
  rw [String.append_empty]
  rfl

/-- Each hole that names `s` becomes the text of two of them. -/
theorem resolveAfter_tail (hlong : ∀ v ∈ visiting, 1 < v.length) (n : Nat) (before : Bytes) :
    growing.resolveAfter value before (tail n).render visiting =
      some (.ok (before ++ toBytes ((tail (2 * n)).render ++ "\x7d"))) := by
  have ho : toBytes "o" ∉ visiting := not_mem_of_short hlong (by decide)
  have hs : toBytes "o" ∉ toBytes "s" :: visiting := List.not_mem_cons_of_ne_of_not_mem (by decide) ho
  have hc : toBytes "o" ∉ toBytes "c" :: visiting := List.not_mem_cons_of_ne_of_not_mem (by decide) ho
  induction n generalizing before with
  | zero =>
    rw [tail, render_name, braced.resolveAfter_name _ (not_mem_of_short hlong (by decide)) (by decide) (resolve_c hc),
      Template.render, braced.resolveAfter_plain (by decide), toBytes_empty, List.append_nil]
    rfl
  | succ n ih =>
    have htwice : (tail (2 * (n + 1))).render = "$\x7bs\x7d$\x7bs\x7d" ++ (tail (2 * n)).render := by
      rw [Nat.mul_succ, tail, tail, render_name, render_name, ← String.append_assoc]
      rfl
    rw [tail, render_name, braced.resolveAfter_name _ (not_mem_of_short hlong (by decide)) (by decide) (resolve_s hs),
      ih, htwice, String.append_assoc, toBytes_append "$\x7bs\x7d$\x7bs\x7d", List.append_assoc]

theorem enclose_body (n : Nat) : enclose (body n).render = "$\x7by:$\x7bb\x7d" ++ ((tail n).render ++ "\x7d") := by
  have hbody : (body n).render = "y:" ++ (enclose "b" ++ (tail n).render) := by
    rw [body, Template.render, render_name]
  rw [hbody, enclose]
  simp only [← String.append_assoc]
  rfl

/-- The key that a body resolves to ends with a placeholder whose body is twice as long. -/
theorem resolve_body (hlong : ∀ v ∈ visiting, 1 < v.length) (n : Nat) :
    growing.resolveBytes (toBytes (body n).render) visiting =
      some (.ok (toBytes ("y:" ++ enclose (body (2 * n)).render))) := by
  rw [resolveBytes_toBytes, enclose_body, body, Template.render, render_name, braced.resolveAfter_append (by decide),
    braced.resolveAfter_name _ (not_mem_of_short hlong (by decide)) (by decide) resolve_b, resolveAfter_tail hlong]
  simp only [toBytes_append, List.nil_append, List.append_assoc]

theorem get?_key (s : String) : growing.properties.get? ("y:" ++ s) = none := by
  have hne (n : String) (hn : n.length ≤ 1) : "y:" ++ s ≠ n := by
    rintro rfl
    have htwo : "y:".length = 2 := rfl
    rw [String.length_append] at hn
    omega
  unfold growing
  rw [Directory.get?_insert_of_ne _ (hne _ (by decide)), Directory.get?_insert_of_ne _ (hne _ (by decide)),
    Directory.get?_insert_of_ne _ (hne _ (by decide)), Directory.get?_insert_of_ne _ (hne _ (by decide)),
    Directory.get?_empty]

theorem lookup?_key (s : String) : growing.lookup? (toBytes ("y:" ++ s)) = some (toBytes s) := by
  have hkey : toBytes ("y:" ++ s) = toBytes "y" ++ 0x3A :: toBytes s := by
    rw [toBytes_append]
    rfl
  have hseparator : growing.separator = some ":" := rfl
  have hcolon : toBytes ":" = [0x3A] := rfl
  unfold lookup?
  rw [ofBytes_toBytes, get?_key, hseparator]
  dsimp only
  rw [hcolon, hkey, Bytes.splitOnce?_append _ (by decide), Option.map_some]
  dsimp only
  rw [ofBytes_toBytes]
  rfl

theorem length_tail (n : Nat) : (toBytes (tail n).render).length = 4 * n + 4 := by
  induction n with
  | zero => rfl
  | succ n ih =>
    rw [tail, render_name, toBytes_append, List.length_append, ih]
    show 4 + _ = _
    omega

theorem length_body (n : Nat) : (toBytes (body n).render).length = 4 * n + 10 := by
  rw [body, Template.render, render_name, toBytes_append, toBytes_append, List.length_append, List.length_append,
    length_tail]
  show 2 + (4 + _) = _
  omega

/-- While shorter bodies are being resolved, a placeholder leads to one that is twice as long. -/
theorem leads (n : Nat) (hvisiting : ∀ v ∈ visiting, 1 < v.length ∧ v.length < (toBytes (body n).render).length) :
    Stage.Leads growing (.start growing (toBytes (enclose (body n).render)) visiting)
      (.start growing (toBytes (enclose (body (2 * n)).render)) (toBytes (body n).render :: visiting)) := by
  have hfresh : ¬ visiting.contains (toBytes (body n).render) = true := by
    rw [List.contains_iff_mem]
    exact fun hmem => Nat.lt_irrefl _ (hvisiting _ hmem).2
  have hlong : ∀ v ∈ toBytes (body n).render :: visiting, 1 < v.length := by
    rw [List.forall_mem_cons, length_body]
    exact ⟨by omega, fun v hv => (hvisiting v hv).1⟩
  have hopened := braced.openedAt [] (body n) "" visiting
  rw [if_neg hfresh, String.append_empty] at hopened
  have hopens : growing.nextOpening? (toBytes (enclose (body n).render)) 0 = some 0 := by
    rw [enclose, String.append_assoc]
    exact braced.nextOpening?_append [] ((body n).render ++ "\x7d")
  exact Stage.leads_of_found hopens hopened (resolve_body hlong n) (lookup?_key _)

theorem not_acc {s : Stage} (h : Acc (fun s' s => Stage.Leads growing s s') s) (n : Nat) (hn : 0 < n)
    (hvisiting : ∀ v ∈ visiting, 1 < v.length ∧ v.length < (toBytes (body n).render).length) :
    s ≠ .start growing (toBytes (enclose (body n).render)) visiting := by
  induction h generalizing n visiting with
  | intro s _ ih =>
    rintro rfl
    refine ih _ (leads n hvisiting) (2 * n) (by omega) ?_ rfl
    rw [List.forall_mem_cons, length_body, length_body]
    refine ⟨by omega, fun v hv => ?_⟩
    have hshorter := hvisiting v hv
    rw [length_body] at hshorter
    omega

end Growth

theorem growing_valid : growing.validate = .ok () := rfl

theorem growing_endless : ¬ ∃ outcome,
    growing.resolveBytes (toBytes "$\x7by:$\x7bb\x7d$\x7bs\x7d$\x7bc\x7d\x7d") [] = some outcome := by
  rintro ⟨outcome, houtcome⟩
  have hacc := Stage.acc_of_outcome (s := .start growing (toBytes (enclose (Growth.body 1).render)) []) houtcome
  exact Growth.not_acc hacc 1 (by decide) (fun v hv => absurd hv List.not_mem_nil) rfl

/-! ## The end of a resolution -/

/-- A resolution comes to an end exactly if it takes finitely many defaults. -/
theorem resolves_iff_finite_defaults (p : Placeholders) (hvalid : p.validate = .ok ()) (value : String) :
    (∃ outcome, p.resolveBytes (toBytes value) [] = some outcome) ↔
      ((Stage.start p (toBytes value) []).defaults p).Finite := by
  have hopening : p.opening ≠ "" := by
    rintro hempty
    simp [validate, hempty] at hvalid
  constructor
  · rintro ⟨outcome, houtcome⟩
    exact Stage.finite_defaults (s := Stage.start p (toBytes value) []) houtcome
  · exact Stage.outcome_of_finite_defaults hopening

theorem growing_defaults_infinite : growing.validate = .ok () ∧
    ¬ ((Stage.start growing (toBytes "$\x7by:$\x7bb\x7d$\x7bs\x7d$\x7bc\x7d\x7d") []).defaults growing).Finite :=
  ⟨growing_valid, fun hfinite => growing_endless ((resolves_iff_finite_defaults growing growing_valid _).2 hfinite)⟩

/-- Valid placeholders can be followed for ever. -/
theorem valid_growing_endless : growing.validate = .ok () ∧
    growing.resolveBytes (toBytes "$\x7by:$\x7bb\x7d$\x7bs\x7d$\x7bc\x7d\x7d") [] = none := by
  refine ⟨growing_valid, Option.eq_none_iff_forall_ne_some.2 fun outcome houtcome => ?_⟩
  exact growing_endless ⟨outcome, houtcome⟩

/-- Placeholders without a separator have no defaults, so each resolution comes to an end. -/
theorem resolves_of_separator_none {p : Placeholders} (hopening : p.opening ≠ "") (hseparator : p.separator = none)
    (value : Bytes) : ∃ outcome, p.resolveBytes value [] = some outcome := by
  have hdefault (key : Bytes) : p.default? key = none := by
    unfold default?
    rw [hseparator]
    split
    · contradiction
    · rfl
  refine Stage.outcome_of_finite_defaults hopening (Set.finite_empty.subset ?_)
  rintro d ⟨s, -, hd⟩
  obtain ⟨key, hkey⟩ := Stage.exists_key_of_default hd
  rw [hdefault] at hkey
  cases hkey

end Singletons.Placeholders
