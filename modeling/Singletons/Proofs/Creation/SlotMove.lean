import Singletons.Proofs.Cache.Slots
import Singletons.Proofs.Machine.Mutex

/-
What a step does to the slot of one name and to the creations of that name. `SlotMove` lists the
possibilities for a step that does not remove the name. From the list follow the two halves of a
slot's life: a creation under way keeps its slot taken, and a complete slot keeps its value until a
creation that is still under way puts its own in place.
-/

namespace Singletons

variable {ω : Type}

namespace Thread

/-- Whether the next step of a thread removes `n` from the cache, given the registry. -/
def removes (r : Registry) (n : Name) (t : Thread ω) : Bool :=
  match t.control with
  | .point (.start (.change (.removeSingleton k))) | .point (.agenda (.destroy k :: _)) => r.canonical k == n
  | .point (.start (.change (.evict k))) => k == n
  | .point (.start (.change (.clear _))) | .point (.agenda (.empty :: _)) => true
  | _ => false

/-- Whether the next step of a thread registers an early producer for `n`, given the registry. -/
def arms (r : Registry) (n : Name) (t : Thread ω) : Bool :=
  match t.control with
  | .point (.start (.change (.registerEarly k _))) => r.canonical k == n
  | _ => false

/-- Whether an early producer for `n` has returned an instance to a thread, or deliberately none. -/
def handsOut (t : Thread ω) (n : Name) : Bool :=
  match t with
  | ⟨.reply (.ok _), .exposing k _ :: _⟩ => k == n
  | _ => false

/-- The number of creations of `n` whose callbacks a thread is running. -/
def creations (t : Thread ω) (n : Name) : Nat := (windows t.frames).countP (·.name == n)

/-- The number of creations of `n` among them that marked `n`. -/
def marks (t : Thread ω) (n : Name) : Nat := (windows t.frames).countP fun w => w.name == n && w.marked

/-- The value that a creation of `n` is about to end with. -/
def yield? (t : Thread ω) (n : Name) : Option Value :=
  match t with
  | ⟨.reply (.ok a), .creating w _ :: _⟩ => if w.name = n then some a.toValue else none
  | _ => none

/-- Whether a thread is about to put an early producer of `n` back. -/
def isRestoring (t : Thread ω) (n : Name) : Bool :=
  match t.control with
  | .point (.restore k _ _) => k == n
  | _ => false

theorem creations_congr {t t' : Thread ω} {n : Name} (h : windows t'.frames = windows t.frames) :
    t'.creations n = t.creations n := by
  unfold creations; rw [h]

theorem marks_congr {t t' : Thread ω} {n : Name} (h : windows t'.frames = windows t.frames) :
    t'.marks n = t.marks n := by
  unfold marks; rw [h]

theorem isRestoring_of_isOrdinary {t : Thread ω} (h : t.control.isOrdinary = true) (n : Name) :
    t.isRestoring n = false := by
  unfold isRestoring
  split
  · rename_i heq; rw [heq] at h; cases h
  · rfl

/-- What a step does to the slot of `n` and to the creations of `n` that the mover has under way, if it
neither removes `n` nor ends a creation of `n` with a value. -/
inductive SlotMove (n : Name) (s s' : Shared ω) (t t' : Thread ω) : Prop where
  | still (slot : s'.registry.cache.slots.get? n = s.registry.cache.slots.get? n)
      (count : t'.creations n = t.creations n) (marks : t'.marks n = t.marks n)
  /-- An instance made elsewhere is registered. -/
  | register (v : Value) (incomplete : s.registry.cache.complete? n = none)
      (slot : s'.registry.cache.slots.get? n = some (.complete v)) (count : t'.creations n = t.creations n)
  /-- An early producer is registered. -/
  | arm (p : Callback)
      (slot : s'.registry.cache.slots.get? n = some (.withProducer p (s.registry.cache.slots.get? n)))
      (count : t'.creations n = t.creations n) (marks : t'.marks n = t.marks n)
      (arming : t.arms s.registry n = true)
  /-- A creation begins, and marks the name. -/
  | mark (e : Early) (free : ∀ x, s.registry.cache.slots.get? n = some x → x.isTaken = false)
      (slot : s'.registry.cache.slots.get? n = some (.inCreation e)) (count : t'.creations n = t.creations n + 1)
      (reference : e = .ofSlot (s.registry.cache.slots.get? n))
  /-- A creation of an exempt name begins. -/
  | enter (exempt : s.registry.cache.isExempt n = true)
      (slot : s'.registry.cache.slots.get? n = s.registry.cache.slots.get? n)
      (count : t'.creations n = t.creations n + 1) (marks : t'.marks n = t.marks n)
  /-- A creation ends without a value. -/
  | abandon (slot : s'.registry.cache.slots.get? n = s.registry.cache.slots.get? n ∨
        (∃ e, s.registry.cache.slots.get? n = some (.inCreation e)) ∧ s'.registry.cache.slots.get? n = none)
      (count : t'.creations n + 1 = t.creations n)
      (marks : (s'.registry.cache.slots.get? n = s.registry.cache.slots.get? n ∧ t'.marks n = t.marks n) ∨
        t'.marks n + 1 = t.marks n)
  /-- An early producer is put back. -/
  | restore (p : Callback) (restoring : t.isRestoring n = true)
      (slot : s'.registry.cache.slots.get? n = some (.early p)) (count : t'.creations n = t.creations n)
  /-- An early reference is exposed. -/
  | expose (v : Value) (pending : ∃ p, s.registry.cache.slots.get? n = some (.inCreation (.pending p)))
      (slot : s'.registry.cache.slots.get? n = some (.inCreation (.exposed v)))
      (count : t'.creations n = t.creations n) (marks : t'.marks n = t.marks n) (returned : t.handsOut n = true)

namespace Deed

variable {h : Host ω} {id : ThreadId} {s s' : Shared ω} {t t' : Thread ω} {n : Name}

theorem creations_cons (c : Control ω) (f : Frame ω) (fs : List (Frame ω)) (n : Name) :
    creations ⟨c, f :: fs⟩ n = creations ⟨c, fs⟩ n + f.window?.toList.countP (·.name == n) := by
  simp [creations, Nat.add_comm]

theorem marks_cons (c : Control ω) (f : Frame ω) (fs : List (Frame ω)) (n : Name) :
    marks ⟨c, f :: fs⟩ n = marks ⟨c, fs⟩ n + f.window?.toList.countP fun w => w.name == n && w.marked := by
  simp [marks, Nat.add_comm]

/-- A change that does not remove `n` leaves the slot of `n`, or registers something for it. -/
theorem slotMove_change {c : Change} {fs : List (Frame ω)}
    (registry : s'.registry = (c.apply s.registry).registry)
    (hk : removes s.registry n (⟨.point (.start (.change c)), fs⟩ : Thread ω) = false) :
    SlotMove n s s' ⟨.point (.start (.change c)), fs⟩
      ⟨.reply (.ofExcept (c.apply s.registry).outcome), fs⟩ := by
  cases c with
  | registerSingleton k v =>
    cases hr : s.registry.cache.register (s.registry.canonical k) v with
    | error f => exact .still (by simp [registry, Change.apply, hr]) rfl rfl
    | ok cache =>
      obtain ⟨hnone, hget⟩ := Cache.get?_register (n := n) hr
      have hc : s'.registry.cache = cache := by simp [registry, Change.apply, hr]
      by_cases hn : n = s.registry.canonical k
      · exact .register v (by rw [hn]; exact hnone) (by rw [hc, hget, if_pos hn]) rfl
      · exact .still (by rw [hc, hget, if_neg hn]) rfl rfl
  | registerEarly k p =>
    have hget := Cache.get?_registerEarly (c := s.registry.cache) (n := n) (k := s.registry.canonical k) p
    by_cases hn : n = s.registry.canonical k
    · exact .arm p (by rw [registry]; simpa [Change.apply, hn] using hget) rfl rfl (by simp [arms, hn])
    · exact .still (by rw [registry]; simpa [Change.apply, hn] using hget) rfl rfl
  | removeSingleton k =>
    refine .still ?_ rfl rfl
    rw [registry]
    exact Table.get?_erase_of_ne _ (fun hn => by simp [removes, hn] at hk)
  | evict k =>
    refine .still ?_ rfl rfl
    rw [registry]
    exact Table.get?_erase_of_ne _ (fun hn => by simp [removes, hn] at hk)
  | clear reset => cases hk
  | suppress f =>
    refine .still ?_ rfl rfl
    rw [registry]
    exact congrArg (Table.get? · n) (Cache.slots_suppress f)
  | registerAlias k a => refine .still ?_ rfl rfl; rw [registry]; simp only [Change.apply]; split <;> rfl
  | removeAlias a => refine .still ?_ rfl rfl; rw [registry]; simp only [Change.apply]; split <;> rfl
  | resolveAliases f => refine .still ?_ rfl rfl; rw [registry]; simp only [Change.apply]; split <;> rfl
  | _ => exact .still (by rw [registry]; rfl) rfl rfl

/-- A task that does not remove `n` leaves the slot of `n`. -/
theorem get?_task {task : Task} {rest tasks : List Task} {events : List Event} {fs : List (Frame ω)}
    (course : task.course s.registry = .on s'.registry tasks events)
    (hk : removes s.registry n (⟨.point (.agenda (task :: rest)), fs⟩ : Thread ω) = false) :
    s'.registry.cache.slots.get? n = s.registry.cache.slots.get? n := by
  cases task with
  | destroy k =>
    injection course with hr
    rw [← hr]
    exact Table.get?_erase_of_ne _ (fun hn => by simp [removes, hn] at hk)
  | empty => cases hk
  | dispose k d => cases course
  | _ => injection course with hr; rw [← hr]

theorem slotMove (hd : Deed h id s t s' t') (hk : t.removes s.registry n = false) (hy : t.yield? n = none) :
    SlotMove n s s' t t' := by
  cases hd with
  | idle registry before after open_ torn =>
    obtain ⟨b, hb⟩ := registry
    exact .still (by rw [hb]) (creations_congr open_) (marks_congr open_)
  | change c fs admitted registry => exact slotMove_change registry hk
  | close fs admitted registry => exact .still (by rw [registry]; rfl) rfl rfl
  | plan tasks fs registry origin => exact .still (by rw [registry]) rfl rfl
  | task task rest tasks events fs admitted course => exact .still (get?_task course hk) rfl rfl
  | dispose k d rest fs registry => exact .still (by rw [registry]) rfl rfl
  | disposed r k d rest fs registry => exact .still (by rw [registry]) rfl rfl
  | dropped text k d rest fs registry => exact .still (by rw [registry]) rfl rfl
  | ended fs registry => exact .still (by rw [registry]) rfl rfl
  | create k c w cache fs incomplete accepting opens registry =>
    obtain ⟨hw, hget⟩ := Cache.get?_openWindow (n := n) opens
    have hcache : s'.registry.cache = cache := by rw [registry]
    have hcount := creations_cons (.program (h.program c .plain)) (.creating w c) fs n
    have hmarks := marks_cons (.program (h.program c .plain)) (.creating w c) fs n
    by_cases hn : n = k
    · subst hn
      simp only [Frame.window?, Option.toList_some, List.countP_singleton, hw, beq_self_eq_true, if_true] at hcount
      rcases hget with ⟨-, hfree, hget⟩ | ⟨hexempt, hget⟩
      · exact .mark _ hfree (by rw [hcache, hget, if_pos rfl]) hcount rfl
      · have hmarked : w.marked = false := by rw [(Cache.openWindow_eq opens).1]; simp [hexempt]
        simp only [Frame.window?, Option.toList_some, List.countP_singleton, hmarked, Bool.and_false,
          Bool.false_eq_true, if_false] at hmarks
        exact .enter hexempt (by rw [hcache, hget]) hcount hmarks
    · have hwn : (w.name == n) = false := by rw [hw]; simpa using Ne.symm hn
      simp only [Frame.window?, Option.toList_some, List.countP_singleton, hwn, Bool.false_and, Bool.false_eq_true,
        if_false] at hcount hmarks
      rcases hget with ⟨-, -, hget⟩ | ⟨-, hget⟩
      · exact .still (by rw [hcache, hget, if_neg hn]) hcount hmarks
      · exact .still (by rw [hcache, hget]) hcount hmarks
  | created w c a fs registry =>
    have hn : w.name ≠ n := by
      intro hn
      simp [yield?, hn] at hy
    refine .still ?_ ?_ ?_
    · rw [registry]
      exact (Cache.get?_closeWith (n := n)).trans (if_neg (Ne.symm hn))
    · rw [creations_cons]
      simp [Frame.window?, hn, creations]
    · rw [marks_cons]
      simp [Frame.window?, hn, marks]
  | abandoned w c r fs failed registry reply =>
    obtain ⟨hget, -⟩ := Cache.get?_abandon (c := s.registry.cache) (n := n) (w := w)
    have hcache : s'.registry.cache = (s.registry.cache.abandon w).1 := by rw [registry]
    have hframes : t'.frames = fs := by rw [reply]; split <;> rfl
    have hcount := creations_cons (.reply r) (.creating w c) fs n
    have hmarks := marks_cons (.reply r) (.creating w c) fs n
    by_cases hn : w.name = n
    · refine .abandon ?_ ?_ ?_
      · rcases hget with hget | ⟨-, he, hget⟩
        · exact .inl (by rw [hcache, hget])
        · exact .inr ⟨he, by rw [hcache, hget]⟩
      · rw [hcount]
        simp [Frame.window?, hn, creations, hframes]
      · rw [hmarks]
        cases hmarked : w.marked with
        | false =>
          refine .inl ⟨by rw [hcache, Cache.slots_abandon_of_not_marked hmarked], ?_⟩
          simp [Frame.window?, hmarked, marks, hframes]
        | true => exact .inr (by simp [Frame.window?, hn, hmarked, marks, hframes])
    · refine .still ?_ ?_ ?_
      · rcases hget with hget | ⟨hn', -⟩
        · rw [hcache, hget]
        · exact absurd hn'.symm hn
      · rw [hcount]
        simp [Frame.window?, hn, creations, hframes]
      · rw [hmarks]
        simp [Frame.window?, hn, marks, hframes]
  | restore k p r fs registry =>
    have hget : s'.registry.cache.slots.get? n =
        if n = k then some (.early p) else s.registry.cache.slots.get? n := by
      rw [registry]; exact Cache.get?_restore p
    by_cases hn : n = k
    · exact .restore p (by simp [isRestoring, hn]) (by rw [hget, if_pos hn]) rfl
    · exact .still (by rw [hget, if_neg hn]) rfl rfl
  | expose k p a fs registry =>
    have hcount : creations ⟨.reply (.ok a), .exposing k p :: fs⟩ n = creations ⟨.reply (.ok a), fs⟩ n :=
      creations_cons ..
    have hmarks : marks ⟨.reply (.ok a), .exposing k p :: fs⟩ n = marks ⟨.reply (.ok a), fs⟩ n := marks_cons ..
    have hcache : s'.registry.cache = (s.registry.cache.expose k a.toValue).2 := by rw [registry]
    rcases Cache.get?_expose (c := s.registry.cache) (n := n) (k := k) a.toValue with hget | ⟨hn, hp, hget⟩
    · exact .still (by rw [hcache, hget]) hcount.symm hmarks.symm
    · exact .expose a.toValue hp (by rw [hcache, hget]) hcount.symm hmarks.symm (by simp [handsOut, hn])
  | keep r f fs produced inHook inner other registry after open_ torn =>
    refine .still (by rw [registry]) ?_ ?_
    · rw [creations_cons, other]
      exact creations_congr (t := ⟨.reply r, fs⟩) open_
    · rw [marks_cons, other]
      exact marks_congr (t := ⟨.reply r, fs⟩) open_

/-- An early producer is put back only into an empty slot, after a creation in which it was never asked. -/
theorem get?_of_restoring (hd : Deed h id s t s' t') (hr : t'.isRestoring n = true) :
    (∃ p, s.registry.cache.slots.get? n = some (.inCreation (.pending p))) ∧
      s'.registry.cache.slots.get? n = none := by
  cases hd with
  | idle registry before after => rw [isRestoring_of_isOrdinary after] at hr; cases hr
  | keep r f fs produced inHook inner other registry after =>
    rw [isRestoring_of_isOrdinary after] at hr; cases hr
  | abandoned w c r fs failed registry reply =>
    obtain ⟨-, hfree⟩ := Cache.get?_abandon (c := s.registry.cache) (n := n) (w := w)
    subst reply
    cases hs : (s.registry.cache.abandon w).2 with
    | none => simp [hs, isRestoring] at hr
    | some p =>
      have hn : w.name = n := by simpa [hs, isRestoring] using hr
      rw [registry, ← hn]
      exact ⟨⟨p, Cache.get?_of_survivor hs⟩, hfree (by simp [hs])⟩
  | _ => simp [isRestoring] at hr

end Deed

/-- A creation of `n` that ends with a value puts it in the slot, whatever is there. -/
theorem step_of_yield {h : Host ω} {id : ThreadId} {s s' : Shared ω} {t t' : Thread ω} {n : Name} {v : Value}
    (hs : t.step h id s = some (s', t')) (hy : t.yield? n = some v) :
    s'.registry.cache.slots.get? n = some (.complete v) ∧ t'.creations n + 1 = t.creations n ∧
      t'.control = .reply (.ok (.value v)) := by
  unfold yield? at hy
  split at hy
  · rename_i a w c fs
    split at hy
    · rename_i hn
      cases hy
      cases hs
      refine ⟨(Cache.get?_closeWith (n := n)).trans (if_pos hn.symm), ?_, rfl⟩
      rw [Deed.creations_cons (.reply (.ok a))]
      simp [Frame.window?, hn, creations, answer]
    · cases hy
  · cases hy

end Thread

end Singletons
