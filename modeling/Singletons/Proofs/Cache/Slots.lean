import Singletons.Cache.Basic

/-
What becomes of one slot: each operation of the cache is described by the slot that it leaves under a
name. Creations mark a name only while its slot is not taken, and a creation without a value frees no
slot but one that is still in creation.
-/

namespace Singletons

/-- Whether a slot keeps a creation from beginning: one is under way, or the name is complete. -/
def Slot.isTaken : Slot → Bool
  | early _ => false
  | inCreation _ | complete _ => true

/-- The early reference of a name whose creation begins, by the slot that the creation finds: a producer there can
be asked. -/
def Early.ofSlot : Option Slot → Early
  | some (.early producer) => .pending producer
  | _ => .unavailable

namespace Cache

variable {c c' : Cache} {n k : Name}

theorem complete?_eq_some_iff {v : Value} : c.complete? n = some v ↔ c.slots.get? n = some (.complete v) := by
  unfold complete?
  split <;> simp_all

/-! ## Operations -/

theorem get?_register {v : Value} (h : c.register k v = .ok c') :
    c.complete? k = none ∧ c'.slots.get? n = if n = k then some (.complete v) else c.slots.get? n := by
  unfold register contains at h
  split at h
  · cases h
  · rename_i hk
    cases h
    exact ⟨by simpa using hk, Table.get?_insert ..⟩

theorem get?_registerEarly (p : Callback) : (c.registerEarly k p).slots.get? n =
    if n = k then some (.withProducer p (c.slots.get? n)) else c.slots.get? n := by
  unfold registerEarly setSlot
  rw [Table.get?_insert]
  split
  · rename_i h; rw [h]
  · rfl

theorem get?_remove : (c.remove k).slots.get? n = if n = k then none else c.slots.get? n := Table.get?_erase ..

theorem slots_suppress (f : Failure) : (c.suppress f).2.slots = c.slots := by
  unfold suppress
  split <;> rfl

theorem get?_closeWith {w : Window} {v : Value} : (c.closeWith w v).slots.get? n =
    if n = w.name then some (.complete v) else c.slots.get? n := by
  have : (c.closeWith w v).slots = c.slots.insert w.name (.complete v) := by
    unfold closeWith
    dsimp only
    split <;> rfl
  rw [this, Table.get?_insert]

theorem get?_restore (p : Callback) :
    (c.restore k p).slots.get? n = if n = k then some (.early p) else c.slots.get? n := Table.get?_insert ..

theorem get?_mark (h : c.mark k = .ok c') : (∀ x, c.slots.get? k = some x → x.isTaken = false) ∧
    c'.slots.get? n = if n = k then some (.inCreation (.ofSlot (c.slots.get? k))) else c.slots.get? n := by
  unfold mark at h
  split at h
  · rename_i hk
    cases h
    exact ⟨by simp [hk], by rw [hk]; exact Table.get?_insert ..⟩
  · rename_i p hk
    cases h
    exact ⟨by simp [hk, Slot.isTaken], by rw [hk]; exact Table.get?_insert ..⟩
  · cases h
  · cases h

/-- A creation that begins marks its name, unless the name is exempt. -/
theorem get?_openWindow {w : Window} (h : c.openWindow k = .ok (w, c')) : w.name = k ∧
    ((c.isExempt k = false ∧ (∀ x, c.slots.get? k = some x → x.isTaken = false) ∧
        c'.slots.get? n = if n = k then some (.inCreation (.ofSlot (c.slots.get? k))) else c.slots.get? n) ∨
      (c.isExempt k = true ∧ c'.slots.get? n = c.slots.get? n)) := by
  unfold openWindow at h
  cases he : c.isExempt k with
  | false =>
    simp only [he, Bool.not_false, if_true] at h
    split at h
    · cases h
    · rename_i c₁ hm
      obtain ⟨hfree, hget⟩ := get?_mark (n := n) hm
      split at h <;> cases h <;> exact ⟨rfl, .inl ⟨rfl, hfree, hget⟩⟩
  | true =>
    simp only [he, Bool.not_true, Bool.false_eq_true, if_false] at h
    split at h <;> cases h <;> exact ⟨rfl, .inr ⟨rfl, rfl⟩⟩

/-- A creation that begins leaves all but the slots and the list of suppressed failures, which it makes if it is
the outermost one. -/
theorem openWindow_eq {w : Window} (h : c.openWindow k = .ok (w, c')) :
    w = ⟨k, !c.isExempt k, c.suppressed.isNone⟩ ∧
      c' = { c with slots := c'.slots, suppressed := some (c.suppressed.getD []) } := by
  have hmark : ∀ c₁, (if !c.isExempt k then c.mark k else .ok c) = .ok c₁ → c₁ = { c with slots := c₁.slots } := by
    intro c₁ hc₁
    split at hc₁
    · unfold mark at hc₁
      split at hc₁ <;> cases hc₁ <;> rfl
    · cases hc₁; rfl
  unfold openWindow at h
  dsimp only at h
  split at h
  · cases h
  · rename_i c₁ hc₁
    have hrest := hmark c₁ hc₁
    have hlist : c₁.suppressed = c.suppressed := by rw [hrest]
    split at h
    · rename_i hnone
      cases h
      rw [hlist] at hnone
      rw [hnone, hrest]
      exact ⟨rfl, rfl⟩
    · rename_i fs hsome
      cases h
      rw [hlist] at hsome
      refine ⟨by rw [hsome]; rfl, hrest.trans ?_⟩
      rw [hsome, Option.getD_some, ← hsome]

/-- A creation without a value leaves all slots, or it takes the mark off its name, and an early producer that was
never asked survives it. -/
theorem slots_abandon {w : Window} : ((c.abandon w).1.slots = c.slots ∧ (c.abandon w).2 = none) ∨
    (w.marked = true ∧ ∃ e, c.slots.get? w.name = some (.inCreation e) ∧
      (c.abandon w).1.slots = c.slots.erase w.name ∧ (c.abandon w).2 = (Slot.inCreation e).survivor) := by
  have hfreed : (if w.outermost then { c with suppressed := none } else c).slots = c.slots := by split <;> rfl
  unfold abandon
  dsimp only
  rw [hfreed]
  split
  · rename_i hmarked
    split
    · rename_i e he
      exact .inr ⟨hmarked, e, he, rfl, rfl⟩
    · exact .inl ⟨hfreed, rfl⟩
  · exact .inl ⟨hfreed, rfl⟩

/-- A creation without a value frees its name if that is still in creation, and only then may an early
producer survive it. -/
theorem get?_abandon {w : Window} :
    ((c.abandon w).1.slots.get? n = c.slots.get? n ∨
      (n = w.name ∧ (∃ e, c.slots.get? n = some (.inCreation e)) ∧ (c.abandon w).1.slots.get? n = none)) ∧
    ((c.abandon w).2.isSome = true → (c.abandon w).1.slots.get? w.name = none) := by
  rcases slots_abandon (c := c) (w := w) with ⟨hslots, hnone⟩ | ⟨-, e, he, hslots, -⟩
  · rw [hslots, hnone]
    exact ⟨.inl rfl, by rintro ⟨⟩⟩
  · rw [hslots]
    refine ⟨?_, fun _ => Table.get?_erase_self ..⟩
    by_cases hn : n = w.name
    · exact .inr ⟨hn, ⟨e, by rw [hn]; exact he⟩, by rw [hn]; exact Table.get?_erase_self ..⟩
    · exact .inl (Table.get?_erase_of_ne _ hn)

/-- A creation that has not marked its name leaves all slots when it ends without a value. -/
theorem slots_abandon_of_not_marked {w : Window} (hw : w.marked = false) : (c.abandon w).1.slots = c.slots := by
  rcases slots_abandon (c := c) (w := w) with ⟨hslots, -⟩ | ⟨hmarked, -⟩
  · exact hslots
  · rw [hw] at hmarked; cases hmarked

/-- The early producer that survives a creation without a value is one that was never asked. -/
theorem get?_of_survivor {w : Window} {p : Callback} (h : (c.abandon w).2 = some p) :
    c.slots.get? w.name = some (.inCreation (.pending p)) := by
  rcases slots_abandon (c := c) (w := w) with ⟨-, hnone⟩ | ⟨-, e, he, -, hsurvivor⟩
  · rw [hnone] at h; cases h
  · rw [hsurvivor] at h
    cases e <;> cases h
    exact he

/-- A creation without a value leaves all but the slots and the list, which the outermost one takes along. -/
theorem abandon_eq {w : Window} : (c.abandon w).1 =
    { c with slots := (c.abandon w).1.slots, suppressed := if w.outermost then none else c.suppressed } := by
  have hfreed : (if w.outermost then { c with suppressed := none } else c) =
      { c with suppressed := if w.outermost then none else c.suppressed } := by split <;> rfl
  unfold abandon
  dsimp only
  rw [hfreed]
  split
  · split <;> rfl
  · rfl

theorem get?_expose (v : Value) : (c.expose k v).2.slots.get? n = c.slots.get? n ∨
    (n = k ∧ (∃ p, c.slots.get? n = some (.inCreation (.pending p))) ∧
      (c.expose k v).2.slots.get? n = some (.inCreation (.exposed v))) := by
  unfold expose
  split
  · rename_i p hp
    by_cases hn : n = k
    · subst hn; exact .inr ⟨rfl, ⟨p, hp⟩, Table.get?_insert_self ..⟩
    · exact .inl (Table.get?_insert_of_ne _ hn _)
  · exact .inl rfl
  · exact .inl rfl

end Cache

end Singletons
