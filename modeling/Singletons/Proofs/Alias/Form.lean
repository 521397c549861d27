import Singletons.Proofs.Alias.Acyclic

/-
The forms of links. A resolver takes a link to its form, the link between what its two sides resolve to, if both
of them do and to different names; a link without a form is dropped. When the links are resolved in their order,
the working table holds forms of the links that are done beside the links that are still to come.
-/

namespace Singletons

namespace Aliases

variable {resolver : Resolver} {rows : List (Name × Name)} {row : Name × Name} {working working' : Directory Name}
  {a n k v name : Name}

/-- Whether a link resolves to the link from `k` to `v`. One whose sides become equal resolves to none. -/
def ResolvesTo (resolver : Resolver) (row : Name × Name) (k v : Name) : Prop :=
  (resolver row.1).value = some k ∧ (resolver row.2).value = some v ∧ k ≠ v

theorem ResolvesTo.unique {l w : Name} (h : ResolvesTo resolver row k v)
    (h' : ResolvesTo resolver row l w) : k = l ∧ v = w :=
  ⟨Option.some.inj (h.1.symm.trans h'.1), Option.some.inj (h.2.1.symm.trans h'.2.1)⟩

theorem ResolvesTo.iff {l w : Name} (h : ResolvesTo resolver row l w) :
    ResolvesTo resolver row k v ↔ k = l ∧ v = w := by
  refine ⟨fun h' => h'.unique h, ?_⟩
  rintro ⟨rfl, rfl⟩
  exact h

/-! ## A link in its turn -/

theorem resolveLink_of_resolvesTo (overriding : Bool) (working : Directory Name)
    (h : ResolvesTo resolver (a, n) k v) :
    (resolveLink overriding resolver working a n).value = (relink overriding working a n k v).value := by
  obtain ⟨hleft, hright, hne⟩ := h
  simp only [resolveLink, hleft, hright, hne, if_false]

/-- A link takes its form, and one without a form is dropped. -/
theorem resolveLink_cases (overriding : Bool) (resolver : Resolver) (working : Directory Name) (a n : Name) :
    (∃ k v, ResolvesTo resolver (a, n) k v ∧
        (resolveLink overriding resolver working a n).value = (relink overriding working a n k v).value) ∨
      (∀ k v, ¬ ResolvesTo resolver (a, n) k v) ∧
        (resolveLink overriding resolver working a n).value = .ok (working.erase a) := by
  by_cases hto : ∃ k v, ResolvesTo resolver (a, n) k v
  · obtain ⟨k, v, hto⟩ := hto
    exact .inl ⟨k, v, hto, resolveLink_of_resolvesTo overriding working hto⟩
  · have hnone : ∀ k v, ¬ ResolvesTo resolver (a, n) k v := fun k v hkv => hto ⟨k, v, hkv⟩
    refine .inr ⟨hnone, ?_⟩
    unfold resolveLink
    dsimp only
    split
    · rename_i k v hleft hright
      split
      · rfl
      · rename_i hne
        exact absurd ⟨hleft, hright, hne⟩ (hnone k v)
    · rfl

theorem ok_of_link {entries : Directory Name} (h : link entries name a = .ok working') :
    working' = entries.insert a name := by
  unfold link at h
  split at h
  · cases h
  · cases h; rfl

/-- What stands under each alias after a link takes its form, whether or not aliases may be redirected. A link
that is its own form leaves its alias as it is, even when an earlier one has taken its place. -/
theorem get?_relink_of_ok {overriding : Bool} (hr : (relink overriding working a n k v).value = .ok working')
    (l : Name) : working'.get? l = if k = a ∧ v = n then working.get? l
      else if l = k then some v else if l = a then none else working.get? l := by
  rcases relink_cases overriding working a n k v with
    ⟨hk, hn, hvalue⟩ | ⟨rfl, hn, hvalue⟩ | ⟨hk, hthere, hvalue⟩ | ⟨hk, -, -, hvalue⟩ | ⟨-, -, w, -, -, hvalue⟩ <;>
    rw [hvalue] at hr
  · cases hr
    rw [if_pos ⟨hk, hn.symm⟩]
  · rw [ok_of_link hr, if_neg fun h => hn h.2.symm, Directory.get?_insert]
    split <;> rfl
  · cases hr
    rw [if_neg fun h => hk h.1, Directory.get?_erase]
    by_cases hl : l = k
    · rw [if_pos hl, hl, if_neg hk, hthere]
    · rw [if_neg hl]
  · rw [ok_of_link hr, if_neg fun h => hk h.1, Directory.get?_insert, Directory.get?_erase]
  · cases hr

/-- A link that is done leaves its form, unless it is its own. -/
theorem get?_of_resolvesTo {overriding : Bool} (hto : ResolvesTo resolver (a, n) k v)
    (hr : (resolveLink overriding resolver working a n).value = .ok working') :
    working'.get? k = if k = a ∧ v = n then working.get? k else some v := by
  rw [resolveLink_of_resolvesTo _ _ hto] at hr
  rw [get?_relink_of_ok hr, if_pos rfl]

/-- Under all other aliases it changes nothing, except that its own is no longer there. -/
theorem get?_of_not_resolvesTo {overriding : Bool} (hno : ∀ v, ¬ ResolvesTo resolver (a, n) k v)
    (hr : (resolveLink overriding resolver working a n).value = .ok working') :
    working'.get? k = if k = a then none else working.get? k := by
  rcases resolveLink_cases overriding resolver working a n with ⟨l, w, hto, heq⟩ | ⟨-, heq⟩
  · have hl : k ≠ l := fun heq => hno w (heq ▸ hto)
    rw [heq] at hr
    rw [get?_relink_of_ok hr, if_neg hl]
    split
    · rename_i hself
      rw [if_neg (hself.1 ▸ hl)]
    · rfl
  · rw [heq] at hr
    cases hr
    exact Directory.get?_erase ..

/-! ## The links in their order -/

theorem resolveLinks_of_ok {overriding : Bool}
    (h : (resolveLink overriding resolver working a n).value = .ok working') :
    (resolveLinks overriding resolver ((a, n) :: rows) working).value =
      (resolveLinks overriding resolver rows working').value := by
  simp only [resolveLinks, h]

theorem resolveLinks_of_error {overriding : Bool} {f : Failure}
    (h : (resolveLink overriding resolver working a n).value = .error f) :
    (resolveLinks overriding resolver ((a, n) :: rows) working).value = .error f := by
  simp only [resolveLinks, h]

theorem resolveLinks_cons_eq_ok_iff {overriding : Bool} :
    (resolveLinks overriding resolver ((a, n) :: rows) working).value = .ok working' ↔
      ∃ next, (resolveLink overriding resolver working a n).value = .ok next ∧
        (resolveLinks overriding resolver rows next).value = .ok working' := by
  cases hone : (resolveLink overriding resolver working a n).value with
  | error f => simp [resolveLinks_of_error hone]
  | ok next => simp [resolveLinks_of_ok hone]

/-! ## Forms and links side by side -/

/-- What some of the links resolve to. -/
def Resolved (resolver : Resolver) (rows : List (Name × Name)) (k v : Name) : Prop :=
  ∃ row ∈ rows, ResolvesTo resolver row k v

theorem not_resolved_nil : ¬ Resolved resolver [] k v := by
  simp [Resolved]

theorem resolved_cons_iff : Resolved resolver (row :: rows) k v ↔
    ResolvesTo resolver row k v ∨ Resolved resolver rows k v := by
  simp [Resolved]

theorem resolved_append_iff : Resolved resolver (rows ++ [row]) k v ↔
    Resolved resolver rows k v ∨ ResolvesTo resolver row k v := by
  simp only [Resolved, List.mem_append, List.mem_singleton, or_and_right, exists_or, exists_eq_left]

/-- What stands in the working table beside the link whose turn it is: what the links before it resolved to,
and the links after it as they are. -/
def Standing (resolver : Resolver) (before after : List (Name × Name)) (k v : Name) : Prop :=
  (k, v) ∈ after ∨ Resolved resolver before k v

/-! ## Resolvers that leave what they come to as it is -/

/-- Whether what the sides of a link resolve to is left as it is by another resolution. -/
structure Steady (resolver : Resolver) (row : Name × Name) : Prop where
  left : ∀ y, (resolver row.1).value = some y → (resolver y).value = some y
  right : ∀ y, (resolver row.2).value = some y → (resolver y).value = some y

/-- Whether a resolver leaves all that it comes to as it is. -/
def Idempotent (resolver : Resolver) : Prop :=
  ∀ x y, (resolver x).value = some y → (resolver y).value = some y

theorem Idempotent.steady (h : Idempotent resolver) (row : Name × Name) : Steady resolver row :=
  ⟨h row.1, h row.2⟩

end Aliases

end Singletons
