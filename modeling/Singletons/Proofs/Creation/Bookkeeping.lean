import Singletons.Proofs.Creation.SingleFlight

/-
The bookkeeping of creations is balanced, along every run and whatever callbacks do: a name is in creation
only while a creation that marked it is under way, and the list of suppressed failures is there exactly
while some creation is.

The list belongs to the outermost creation (`Owned`), which is found among the frames of the one thread that
is inside the mutex. `WindowMove` says what a step does to the open creations, to the marks and to the list
together: nothing that matters, or it opens the innermost creation, or it closes it.
-/

namespace Singletons

variable {ω : Type}

namespace Cache

variable {c c' : Cache} {n k : Name} {w : Window}

theorem isInCreation_iff : c.isInCreation n = true ↔ ∃ e, c.slots.get? n = some (.inCreation e) := by
  unfold isInCreation lifecycle
  cases c.slots.get? n with
  | none => simp [Lifecycle.isInCreation]
  | some x => cases x <;> simp [Slot.lifecycle, Lifecycle.isInCreation]

/-- Whether every name in creation in `c'` is in creation in `c`. -/
def MarksWithin (c' c : Cache) : Prop := ∀ n, c'.isInCreation n = true → c.isInCreation n = true

theorem MarksWithin.of_slots (h : c'.slots = c.slots) : MarksWithin c' c := by
  intro n hn
  rw [isInCreation_iff] at hn ⊢
  rwa [h] at hn

/-- Giving a slot anything but a mark marks nothing. -/
theorem marksWithin_of_get? {x : Option Slot} (hx : ∀ e, x ≠ some (.inCreation e))
    (h : ∀ n, c'.slots.get? n = if n = k then x else c.slots.get? n) : MarksWithin c' c := by
  intro n hn
  rw [isInCreation_iff] at hn ⊢
  obtain ⟨e, he⟩ := hn
  rw [h] at he
  split at he
  · exact absurd he (hx e)
  · exact ⟨e, he⟩

theorem marksWithin_register {v : Value} (h : c.register k v = .ok c') : MarksWithin c' c :=
  marksWithin_of_get? (x := some (.complete v)) (by simp) fun _ => (get?_register h).2

theorem marksWithin_registerEarly (p : Callback) : MarksWithin (c.registerEarly k p) c := by
  intro n hn
  rw [isInCreation_iff] at hn ⊢
  obtain ⟨e, he⟩ := hn
  rw [get?_registerEarly] at he
  split at he
  · -- an early producer is a reference to hand out only where a creation is under way
    cases hx : c.slots.get? n with
    | none => simp [hx, Slot.withProducer] at he
    | some x => cases x <;> simp_all [Slot.withProducer]
  · exact ⟨e, he⟩

theorem marksWithin_remove : MarksWithin (c.remove k) c :=
  marksWithin_of_get? (x := none) (by simp) fun _ => get?_remove

theorem marksWithin_clear (reset : Bool) : MarksWithin (c.clear reset) c := by
  intro n hn
  rw [isInCreation_iff] at hn
  obtain ⟨e, he⟩ := hn
  cases he

theorem marksWithin_restore (p : Callback) : MarksWithin (c.restore k p) c :=
  marksWithin_of_get? (x := some (.early p)) (by simp) fun _ => get?_restore p

theorem marksWithin_expose (v : Value) : MarksWithin (c.expose k v).2 c := by
  intro n hn
  rw [isInCreation_iff] at hn ⊢
  rcases get?_expose (c := c) (n := n) (k := k) v with hget | ⟨-, ⟨p, hp⟩, -⟩
  · rwa [hget] at hn
  · exact ⟨_, hp⟩

/-! ## The list of suppressed failures -/

theorem isSome_suppressed_suppress (f : Failure) : (c.suppress f).2.suppressed.isSome = c.suppressed.isSome := by
  unfold suppress
  cases h : c.suppressed with
  | none => exact congrArg Option.isSome h
  | some fs => rfl

theorem suppressed_register {v : Value} (h : c.register k v = .ok c') : c'.suppressed = c.suppressed := by
  unfold register at h
  split at h
  · cases h
  · cases h; rfl

theorem suppressed_expose (v : Value) : (c.expose k v).2.suppressed = c.suppressed := by
  unfold expose
  split <;> rfl

theorem suppressed_closeWith (v : Value) :
    (c.closeWith w v).suppressed = if w.outermost then none else c.suppressed := by
  unfold closeWith
  dsimp only
  split <;> rfl

theorem suppressed_abandon : (c.abandon w).1.suppressed = if w.outermost then none else c.suppressed := by
  rw [abandon_eq]

/-- A creation that begins is the outermost one exactly if there is no list yet, and then it makes one. -/
theorem suppressed_openWindow (h : c.openWindow k = .ok (w, c')) :
    w.outermost = c.suppressed.isNone ∧ c'.suppressed.isSome = true := by
  obtain ⟨hw, hc⟩ := openWindow_eq h
  rw [hw, hc]
  exact ⟨rfl, rfl⟩

/-! ## Marks -/

/-- A creation that begins marks no name but its own. -/
theorem isInCreation_of_openWindow (h : c.openWindow k = .ok (w, c')) (hn : c'.isInCreation n = true) :
    c.isInCreation n = true ∨ (w.name = n ∧ w.marked = true) := by
  have hmarked : w.marked = !c.isExempt k := by rw [(openWindow_eq h).1]
  obtain ⟨hname, hget⟩ := get?_openWindow (n := n) h
  rw [isInCreation_iff] at hn ⊢
  rcases hget with ⟨hwatched, -, hget⟩ | ⟨-, hget⟩
  · by_cases hk : n = k
    · exact .inr ⟨by rw [hname, hk], by rw [hmarked, hwatched]; rfl⟩
    · rw [hget, if_neg hk] at hn; exact .inl hn
  · rw [hget] at hn; exact .inl hn

theorem isInCreation_of_closeWith {v : Value} (hn : (c.closeWith w v).isInCreation n = true) :
    c.isInCreation n = true ∧ w.name ≠ n := by
  rw [isInCreation_iff] at hn ⊢
  obtain ⟨e, he⟩ := hn
  rw [get?_closeWith] at he
  split at he
  · cases he
  · rename_i hname
    exact ⟨⟨e, he⟩, Ne.symm hname⟩

/-- A creation that ends without a value takes the mark off its name. -/
theorem isInCreation_of_abandon (hn : (c.abandon w).1.isInCreation n = true) :
    c.isInCreation n = true ∧ ¬ (w.name = n ∧ w.marked = true) := by
  rw [isInCreation_iff] at hn
  obtain ⟨e, he⟩ := hn
  have hbefore : c.slots.get? n = some (.inCreation e) := by
    rcases (get?_abandon (c := c) (n := n) (w := w)).1 with hget | ⟨-, -, hget⟩
    · rw [← hget]; exact he
    · rw [hget] at he; cases he
  refine ⟨isInCreation_iff.2 ⟨e, hbefore⟩, ?_⟩
  rintro ⟨rfl, hmarked⟩
  have hfreed : (if w.outermost then { c with suppressed := none } else c).slots = c.slots := by split <;> rfl
  unfold abandon at he
  simp only [hmarked, if_true, hfreed, hbefore] at he
  rw [Table.get?_erase_self] at he
  cases he

/-- Of the creations in some frames, innermost first, the last one and only that one owns the list. -/
def Owned : List Window → Prop
  | [] => True
  | w :: ws => (w.outermost = true ↔ ws = []) ∧ Owned ws

end Cache

open Cache (MarksWithin)

/-- Changes mark no name and leave the list where it is. -/
theorem Change.marksWithin_apply (r : Registry) (c : Change) : MarksWithin (c.apply r).registry.cache r.cache ∧
    (c.apply r).registry.cache.suppressed.isSome = r.cache.suppressed.isSome := by
  cases c with
  | registerSingleton k v =>
    cases hr : r.cache.register (r.canonical k) v with
    | error f => exact ⟨.of_slots (by simp only [Change.apply, hr]), by simp only [Change.apply, hr]⟩
    | ok cache =>
      simp only [Change.apply, hr]
      exact ⟨Cache.marksWithin_register hr, by rw [Cache.suppressed_register hr]⟩
  | registerEarly k p => exact ⟨Cache.marksWithin_registerEarly p, rfl⟩
  | removeSingleton k => exact ⟨Cache.marksWithin_remove, rfl⟩
  | evict k => exact ⟨Cache.marksWithin_remove, rfl⟩
  | clear reset => exact ⟨Cache.marksWithin_clear reset, rfl⟩
  | suppress f => exact ⟨.of_slots (Cache.slots_suppress f), Cache.isSome_suppressed_suppress f⟩
  | registerAlias k a => simp only [Change.apply]; split <;> exact ⟨.of_slots rfl, rfl⟩
  | removeAlias a => simp only [Change.apply]; split <;> exact ⟨.of_slots rfl, rfl⟩
  | resolveAliases f => simp only [Change.apply]; split <;> exact ⟨.of_slots rfl, rfl⟩
  | _ => exact ⟨.of_slots rfl, rfl⟩

theorem Task.marksWithin_course {r r' : Registry} {task : Task} {tasks : List Task} {events : List Event}
    (hc : task.course r = .on r' tasks events) :
    MarksWithin r'.cache r.cache ∧ r'.cache.suppressed = r.cache.suppressed := by
  cases task with
  | destroy k => cases hc; exact ⟨Cache.marksWithin_remove, rfl⟩
  | empty => cases hc; exact ⟨Cache.marksWithin_clear _, rfl⟩
  | dispose k d => cases hc
  | _ => cases hc; exact ⟨.of_slots rfl, rfl⟩

namespace Thread

/-- What a step does to the creations that a thread has under way, to the names in creation and to the list
of suppressed failures. -/
inductive WindowMove (s s' : Shared ω) (t t' : Thread ω) : Prop where
  | still (open_ : windows t'.frames = windows t.frames)
      (marks : MarksWithin s'.registry.cache s.registry.cache)
      (list : s'.registry.cache.suppressed.isSome = s.registry.cache.suppressed.isSome)
  | opened (w : Cache.Window) (inner : t.control.isInner = true) (open_ : windows t'.frames = w :: windows t.frames)
      (marks : ∀ n, s'.registry.cache.isInCreation n = true →
        s.registry.cache.isInCreation n = true ∨ (w.name = n ∧ w.marked = true))
      (owner : w.outermost = s.registry.cache.suppressed.isNone)
      (list : s'.registry.cache.suppressed.isSome = true)
  | closed (w : Cache.Window) (open_ : windows t.frames = w :: windows t'.frames)
      (marks : ∀ n, s'.registry.cache.isInCreation n = true →
        s.registry.cache.isInCreation n = true ∧ ¬ (w.name = n ∧ w.marked = true))
      (list : s'.registry.cache.suppressed = if w.outermost then none else s.registry.cache.suppressed)

variable {h : Host ω} {id : ThreadId} {s s' : Shared ω} {t t' : Thread ω}

theorem Deed.windowMove (hd : Deed h id s t s' t') : WindowMove s s' t t' := by
  cases hd with
  | idle registry before after open_ torn =>
    obtain ⟨b, hb⟩ := registry
    exact .still open_ (.of_slots (by rw [hb])) (by rw [hb])
  | change c fs admitted registry =>
    obtain ⟨hmarks, hlist⟩ := Change.marksWithin_apply s.registry c
    exact .still rfl (by rw [registry]; exact hmarks) (by rw [registry]; exact hlist)
  | close fs admitted registry => exact .still rfl (.of_slots (by rw [registry]; rfl)) (by rw [registry]; rfl)
  | plan tasks fs registry origin => exact .still rfl (.of_slots (by rw [registry])) (by rw [registry])
  | task task rest tasks events fs admitted course =>
    obtain ⟨hmarks, hlist⟩ := Task.marksWithin_course course
    exact .still rfl hmarks (by rw [hlist])
  | dispose k d rest fs registry => exact .still rfl (.of_slots (by rw [registry])) (by rw [registry])
  | disposed r k d rest fs registry => exact .still rfl (.of_slots (by rw [registry])) (by rw [registry])
  | dropped text k d rest fs registry => exact .still rfl (.of_slots (by rw [registry])) (by rw [registry])
  | ended fs registry => exact .still rfl (.of_slots (by rw [registry])) (by rw [registry])
  | create k c w cache fs incomplete accepting opens registry =>
    have hcache : s'.registry.cache = cache := by rw [registry]
    obtain ⟨howner, hlist⟩ := Cache.suppressed_openWindow opens
    refine .opened w rfl (windows_cons ..) (fun n hn => ?_) howner (by rw [hcache]; exact hlist)
    rw [hcache] at hn
    exact Cache.isInCreation_of_openWindow opens hn
  | created w c a fs registry =>
    have hcache : s'.registry.cache = s.registry.cache.closeWith w a.toValue := by rw [registry]
    refine .closed w (windows_cons ..) (fun n hn => ?_) (by rw [hcache]; exact Cache.suppressed_closeWith _)
    rw [hcache] at hn
    obtain ⟨hbefore, hname⟩ := Cache.isInCreation_of_closeWith hn
    exact ⟨hbefore, fun hw => hname hw.1⟩
  | abandoned w c r fs failed registry reply =>
    have hcache : s'.registry.cache = (s.registry.cache.abandon w).1 := by rw [registry]
    have hframes : t'.frames = fs := by rw [reply]; split <;> rfl
    refine .closed w (by rw [hframes]; exact windows_cons ..) (fun n hn => ?_)
      (by rw [hcache]; exact Cache.suppressed_abandon)
    rw [hcache] at hn
    exact Cache.isInCreation_of_abandon hn
  | restore k p r fs registry =>
    have hcache : s'.registry.cache = s.registry.cache.restore k p := by rw [registry]
    exact .still rfl (by rw [hcache]; exact Cache.marksWithin_restore p) (by rw [hcache]; rfl)
  | expose k p a fs registry =>
    have hcache : s'.registry.cache = (s.registry.cache.expose k a.toValue).2 := by rw [registry]
    exact .still rfl (by rw [hcache]; exact Cache.marksWithin_expose _)
      (by rw [hcache, Cache.suppressed_expose])
  | keep r f fs produced inHook inner other registry after open_ torn =>
    refine .still ?_ (.of_slots (by rw [registry])) (by rw [registry])
    rw [open_, windows_cons, other]
    rfl

/-- Whoever has a creation under way is inside the mutex. -/
theorem Seated.guards_pos_of_windows (ht : t.Seated) (hw : windows t.frames ≠ []) : 0 < t.guards := by
  obtain ⟨w, hmem⟩ := List.exists_mem_of_ne_nil _ hw
  refine ht.guards_pos_of_creations (n := w.name) (List.countP_pos_iff.2 ⟨w, hmem, ?_⟩)
  exact beq_self_eq_true _

end Thread

namespace Machine

/-- Names in creation, open creations and the list of suppressed failures agree. -/
structure Balanced (m : Machine ω) : Prop where
  marked : ∀ n, m.shared.registry.cache.isInCreation n = true →
    ∃ t ∈ m.threads, ∃ w ∈ windows t.frames, w.name = n ∧ w.marked = true
  list : m.shared.registry.cache.suppressed.isSome = true ↔ ∃ t ∈ m.threads, windows t.frames ≠ []
  owned : ∀ t ∈ m.threads, Cache.Owned (windows t.frames)

variable {h : Host ω} {m m' : Machine ω} {id : ThreadId} {t : Thread ω}

/-- While a thread is inside the mutex, no other one has a creation under way. -/
theorem Disciplined.windows_eq_nil {j : ThreadId} {u : Thread ω} (hd : m.Disciplined) (ht : m.threads[id]? = some t)
    (hpos : 0 < t.guards) (hj : j ≠ id) (hu : m.threads[j]? = some u) : windows u.frames = [] :=
  Classical.byContradiction fun hw =>
    hj (hd.unique ht hu hpos ((hd.seated j u hu).guards_pos_of_windows hw))

theorem Balanced.step (hb : m.Balanced) (hd : m.Disciplined) (hs : m.step h id = some m') : m'.Balanced := by
  obtain ⟨t, s', t', ht, hst, rfl⟩ := step_eq_some_iff.1 hs
  -- the creations under way are the mover's and, unless it is inside the mutex, those of the others
  have hbefore := fun P => exists_mem_threads ht P
  have hafter := fun P : Thread ω → Prop => @exists_mem_threads_set ω m id t t' ht P
  have howned := hb.owned t (List.mem_of_getElem? ht)
  have hothers : 0 < t.guards → ∀ P : List Cache.Window → Prop, ¬ P [] →
      ¬ ∃ j u, j ≠ id ∧ m.threads[j]? = some u ∧ P (windows u.frames) := by
    rintro hpos P hnil ⟨j, u, hj, hu, hP⟩
    rw [hd.windows_eq_nil ht hpos hj hu] at hP
    exact hnil hP
  have hmine : 0 < t.guards → ∀ n, m.shared.registry.cache.isInCreation n = true →
      ∃ w ∈ windows t.frames, w.name = n ∧ w.marked = true := by
    intro hpos n hn
    have hmarked := hb.marked n hn
    rw [hbefore] at hmarked
    exact hmarked.resolve_right (hothers hpos (fun ws => ∃ w ∈ ws, w.name = n ∧ w.marked = true) (by simp))
  have hkeep : Cache.Owned (windows t'.frames) → ∀ u ∈ m.threads.set id t', Cache.Owned (windows u.frames) := by
    intro hmine u hu
    rcases List.mem_or_eq_of_mem_set hu with hu | rfl
    · exact hb.owned u hu
    · exact hmine
  cases (Thread.step_deed hst).windowMove with
  | still open_ marks list =>
    refine ⟨fun n hn => ?_, ?_, hkeep (by rw [open_]; exact howned)⟩
    · have hmarked := hb.marked n (marks n hn)
      rw [hbefore] at hmarked
      rw [hafter, open_]
      exact hmarked
    · have hlist := hb.list
      rw [hbefore] at hlist
      rw [hafter, open_, ← hlist, ← list]
  | opened w inner open_ marks owner list =>
    have hpos := (hd.seated id t ht).guards_pos (.inl inner)
    refine ⟨fun n hn => ?_, ?_, hkeep ?_⟩
    · rw [hafter, open_]
      refine .inl ?_
      rcases marks n hn with hn | hw
      · obtain ⟨w', hw', hname⟩ := hmine hpos n hn
        exact ⟨w', List.mem_cons_of_mem _ hw', hname⟩
      · exact ⟨w, List.mem_cons_self .., hw⟩
    · rw [hafter, open_]
      exact ⟨fun _ => .inl (by simp), fun _ => list⟩
    · -- there is no list yet exactly if the mover has no creation under way either
      rw [open_]
      refine ⟨?_, howned⟩
      have hlist := hb.list
      rw [hbefore, or_iff_left (hothers hpos (· ≠ []) (by simp))] at hlist
      rw [owner, Option.isNone_iff_eq_none, ← Option.not_isSome_iff_eq_none, hlist, not_not]
  | closed w open_ marks list =>
    have hwindows : windows t.frames ≠ [] := by simp [open_]
    have hpos := (hd.seated id t ht).guards_pos_of_windows hwindows
    rw [open_] at howned
    refine ⟨fun n hn => ?_, ?_, hkeep howned.2⟩
    · obtain ⟨hn, hother⟩ := marks n hn
      obtain ⟨w', hw', hname⟩ := hmine hpos n hn
      rw [open_] at hw'
      rcases List.mem_cons.1 hw' with rfl | hw'
      · exact absurd hname hother
      · exact (hafter _).2 (.inl ⟨w', hw', hname⟩)
    · have hsome : m.shared.registry.cache.suppressed.isSome = true := hb.list.2 ((hbefore _).2 (.inl hwindows))
      rw [hafter, or_iff_left (hothers hpos (· ≠ []) (by simp)), list, ne_eq, ← howned.1]
      cases w.outermost with
      | true => simp
      | false => simpa using hsome

theorem ofPrograms_balanced (r : Registry) (w : ω) (programs : List (Program ω)) :
    (ofPrograms { r with cache := {} } w programs).Balanced := by
  have hframes : ∀ t ∈ (ofPrograms { r with cache := {} } w programs).threads, t.frames = [] := by
    intro t ht
    obtain ⟨p, -, rfl⟩ := List.mem_map.1 ht
    rfl
  refine ⟨fun n hn => ?_, ⟨fun hsome => ?_, ?_⟩, fun t ht => ?_⟩
  · cases hn
  · cases hsome
  · rintro ⟨t, ht, hw⟩
    rw [hframes t ht] at hw
    exact absurd rfl hw
  · rw [hframes t ht]
    trivial

theorem Balanced.reachable {start : Machine ω} (hb : start.Balanced) (ho : start.Orderly)
    (hm : Reachable h start m) : m.Balanced := by
  refine (hm.invariant (fun m => m.Orderly ∧ m.Balanced) ⟨ho, hb⟩ fun m m' id hp hs => ?_).2
  exact ⟨hp.1.step hs, hp.2.step hp.1.disciplined hs⟩

/-- The bookkeeping of creations is balanced in every state that requests lead to from a registry without
singletons: whatever is in creation has a creation under way that marked it, and there is a list of
suppressed failures exactly while some creation is under way. So between requests no name is in creation,
and a failure that is to be recorded is not. -/
theorem Reachable.bookkeeping {r : Registry} {w : ω} {programs : List (Program ω)}
    (hm : Reachable h (ofPrograms { r with cache := {} } w programs) m) :
    (∀ n, m.shared.registry.cache.isInCreation n = true →
        ∃ t ∈ m.threads, ∃ window ∈ windows t.frames, window.name = n ∧ window.marked = true) ∧
      (m.shared.registry.cache.suppressed.isSome = true ↔ ∃ t ∈ m.threads, windows t.frames ≠ []) ∧
      ((∀ t ∈ m.threads, t.frames = []) →
        (∀ n, m.shared.registry.cache.isInCreation n = false) ∧
          ∀ f, ((Change.suppress f).apply m.shared.registry).outcome = .ok (.flag false)) := by
  have hb := (ofPrograms_balanced r w programs).reachable (ofPrograms_orderly ..) hm
  refine ⟨hb.marked, hb.list, fun hidle => ⟨fun n => ?_, fun f => ?_⟩⟩
  · rw [Bool.eq_false_iff]
    intro hn
    obtain ⟨t, ht, window, hwindow, -⟩ := hb.marked n hn
    rw [hidle t ht] at hwindow
    cases hwindow
  · have hnone : m.shared.registry.cache.suppressed = none := by
      rw [← Option.not_isSome_iff_eq_none, hb.list]
      rintro ⟨t, ht, hw⟩
      rw [hidle t ht] at hw
      exact hw rfl
    show Except.ok (Answer.flag (m.shared.registry.cache.suppress f).1) = _
    rw [Cache.suppress, hnone]

/-- Callbacks: one removes `a`, asks for it again and panics, the other one fails. -/
def recreatingHost : Host Unit where
  program c _ :=
    if c = 0 then
      .request (.change (.removeSingleton "a")) fun _ =>
        .request (.getOrCreate "a" 1) fun _ => .finish (.panicked "late")
    else .finish (.failed (.io "refused" none))
  observe _ w := w

def recreatingCaller : Program Unit := .request (.getOrCreate "a" 0) fun _ => .finish (.ok .done)

/-- The first steps of the caller. -/
def recreatedRun (steps : Nat) : List (Moment Unit) × Machine Unit :=
  (ofPrograms {} () [recreatingCaller]).drive recreatingHost (List.replicate steps 0) []

/-- Two creations of `a` are under way in the midst of the request, and none is after it. -/
theorem bookkeeping_recreatedRun :
    (recreatedRun 12).2.shared.registry.cache.isInCreation "a" = true ∧
      ((recreatedRun 12).2.threads.map fun t => (windows t.frames).map (·.name)) = [["a", "a"]] ∧
      (recreatedRun 12).2.shared.registry.cache.suppressed.isSome = true ∧
      (∀ t ∈ (recreatedRun 24).2.threads, t.frames = []) ∧
      (∀ n, (recreatedRun 24).2.shared.registry.cache.isInCreation n = false) := by
  have hrun : ∀ steps, Reachable recreatingHost (ofPrograms {} () [recreatingCaller]) (recreatedRun steps).2 :=
    fun _ => (Run.drive _ .start).reachable
  have hmarked : (recreatedRun 12).2.shared.registry.cache.isInCreation "a" = true := by decide
  obtain ⟨hin, hlist, -⟩ := Reachable.bookkeeping (r := {}) (hrun 12)
  obtain ⟨t, ht, w, hw, -⟩ := hin "a" hmarked
  have hover : ∀ t ∈ (recreatedRun 24).2.threads, t.frames = [] := by
    intro t ht
    cases ht with
    | head => rfl
    | tail _ ht => cases ht
  exact ⟨hmarked, by decide, hlist.2 ⟨t, ht, List.ne_nil_of_mem hw⟩, hover,
    ((Reachable.bookkeeping (r := {}) (hrun 24)).2.2 hover).1⟩

end Machine

end Singletons
