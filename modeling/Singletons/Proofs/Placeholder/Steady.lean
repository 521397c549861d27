import Singletons.Proofs.Placeholder.Rewriting

/-
Resolving what was resolved. Where the properties have no dollar sign, every hole of a template is replaced
by a text that has none: a property, or a default, which is a part of a key. So the resolution of a template
leaves a text that another resolution leaves as it is.
-/

namespace Singletons.Placeholders

open Text

variable {p : Placeholders} {value before key found : Bytes} {visiting : List Bytes} {s text : String}

theorem dollar_not_mem_ofBytes {b : Bytes} (h : 0x24 ∉ b) : 0x24 ∉ toBytes (ofBytes b) := by
  unfold ofBytes ofBytes? String.fromUTF8?
  split
  · exact h
  · exact List.not_mem_nil

theorem resolver_eq_some_iff : (p.resolver s).value = some text ↔ p.resolve s = .ok text := by
  unfold resolver
  cases p.resolve s <;> simp

/-- Bytes without a dollar sign are left as they are. -/
theorem Braced.resolveBytes_of_not_mem (hp : p.Braced) (h : 0x24 ∉ value) :
    p.resolveBytes value visiting = some (.ok value) := by
  have hnone : p.nextOpening? value 0 = none := by
    unfold Placeholders.nextOpening?
    rw [hp.opening]
    split
    · rw [List.drop_zero]
      exact congrArg (Option.map _) (Bytes.find?_eq_none [0x7B] h)
    · rfl
  rw [resolveBytes, hnone, resolveFrom]

theorem lookup?_not_mem (hproperties : ∀ n v, p.properties.get? n = some v → '$' ∉ v.toList) (hkey : 0x24 ∉ key)
    (h : p.lookup? key = some found) : 0x24 ∉ found := by
  unfold lookup? at h
  split at h
  · rename_i v hv
    cases h
    exact dollar_not_mem (hproperties _ v hv)
  · split at h
    · cases h
    · rename_i separator hseparator
      obtain ⟨⟨name, default⟩, hsplit, rfl⟩ := Option.map_eq_some_iff.1 h
      dsimp only
      split
      · rename_i v hv
        exact dollar_not_mem (hproperties _ v hv)
      · obtain ⟨i, -, hi⟩ := Option.map_eq_some_iff.1 hsplit
        cases hi
        exact fun hmem => hkey (List.mem_of_mem_drop hmem)

/-- A template at the head of a text is replaced by bytes without a dollar sign, if it is not faulty. -/
theorem Braced.resolveAfter_render (hp : p.Braced) (hstrict : p.lenient = false)
    (hproperties : ∀ n v, p.properties.get? n = some v → '$' ∉ v.toList) (t : Template) (value before : Bytes)
    (rest : String) (visiting : List Bytes) :
    (∃ e, p.resolveAfter value before (t.render ++ rest) visiting = some (.error e)) ∨
      ∃ replacement, 0x24 ∉ replacement ∧ p.resolveAfter value before (t.render ++ rest) visiting =
        p.resolveAfter value (before ++ replacement) rest visiting := by
  induction t generalizing value before rest visiting with
  | done =>
    refine .inr ⟨[], List.not_mem_nil, ?_⟩
    rw [Template.render, String.empty_append, List.append_nil]
  | literal l t ih =>
    rw [Template.render, String.append_assoc, hp.resolveAfter_append l.plain.1]
    rcases ih value (before ++ toBytes l.text) rest visiting with h | ⟨replacement, hplain, h⟩
    · exact .inl h
    · refine .inr ⟨toBytes l.text ++ replacement, ?_, ?_⟩
      · rw [List.mem_append, not_or]
        exact ⟨dollar_not_mem l.plain.1, hplain⟩
      · rw [h, List.append_assoc]
  | hole body t ihbody ih =>
    have hrender : (Template.hole body t).render ++ rest = enclose body.render ++ (t.render ++ rest) :=
      String.append_assoc ..
    rw [hrender, hp.resolveAfter_enclose, hstrict]
    by_cases hvisiting : visiting.contains (toBytes body.render) = true
    · rw [if_pos hvisiting]
      exact .inl ⟨_, rfl⟩
    rw [if_neg hvisiting, resolveBytes_toBytes]
    have hbody := ihbody (toBytes body.render) [] "" (toBytes body.render :: visiting)
    rw [String.append_empty] at hbody
    rcases hbody with ⟨e, h⟩ | ⟨key, hkey, h⟩
    · rw [h]
      exact .inl ⟨e, rfl⟩
    rw [h, hp.resolveAfter_plain (by simp), toBytes_empty, List.append_nil, List.nil_append]
    simp only [Option.bind_eq_bind, Option.bind_some]
    cases hlookup : p.lookup? key with
    | none => exact .inl ⟨_, rfl⟩
    | some found =>
      have hfound := lookup?_not_mem hproperties hkey hlookup
      simp only [hp.resolveBytes_of_not_mem hfound, Option.bind_some]
      rcases ih value (before ++ found) rest visiting with h | ⟨replacement, hplain, h⟩
      · exact .inl h
      · refine .inr ⟨found ++ replacement, ?_, ?_⟩
        · rw [List.mem_append, not_or]
          exact ⟨hfound, hplain⟩
        · rw [h, List.append_assoc]

/-- What a template resolves to is left as it is by another resolution. -/
theorem Braced.resolver_steady (hp : p.Braced) (hstrict : p.lenient = false)
    (hproperties : ∀ n v, p.properties.get? n = some v → '$' ∉ v.toList) (t : Template)
    (h : (p.resolver t.render).value = some s) : (p.resolver s).value = some s := by
  obtain ⟨b, hb, rfl⟩ : ∃ b, p.resolveBytes (toBytes t.render) [] = some (.ok b) ∧ s = ofBytes b := by
    unfold resolver resolve at h
    revert h
    cases p.resolveBytes (toBytes t.render) [] with
    | none => exact fun h => nomatch h
    | some outcome =>
      rcases outcome with (body | ⟨key, v⟩ | _) | b
      · exact fun h => nomatch h
      · exact fun h => nomatch h
      · exact fun h => nomatch h
      · rintro h
        cases h
        exact ⟨b, rfl, rfl⟩
  have hplain : 0x24 ∉ b := by
    have hrender := hp.resolveAfter_render hstrict hproperties t (toBytes t.render) [] "" []
    rw [String.append_empty, ← resolveBytes_toBytes, hb] at hrender
    rcases hrender with ⟨e, he⟩ | ⟨replacement, hreplacement, hr⟩
    · cases he
    · rw [hp.resolveAfter_plain (by simp), toBytes_empty, List.append_nil, List.nil_append] at hr
      cases hr
      exact hreplacement
  unfold resolver resolve
  rw [hp.resolveBytes_of_not_mem (dollar_not_mem_ofBytes hplain)]
  simp only [ofBytes_toBytes]

end Singletons.Placeholders
