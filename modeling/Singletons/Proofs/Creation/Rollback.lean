import Singletons.Proofs.Cache.Slots
import Singletons.Proofs.Machine.Call

/-
What a failed creation leaves behind. A creation that begins marks its name and may open the list of suppressed
failures; one that ends without a value takes both back, and puts an early producer back that was never asked. So
creations that only nest in one another and fail, to any depth, leave the cache as it was.

`rollBack` undoes a creation that has begun. At every moment of such a nest, undoing the creations under way, the
innermost first, gives the cache from before (`Attempts`).
-/

namespace Singletons

variable {ω : Type}

/-- What survives a creation that began with a free slot is what was in the slot. -/
theorem survivor_ofSlot {x : Option Slot} (h : ∀ y, x = some y → y.isTaken = false) :
    (Slot.inCreation (.ofSlot x)).survivor.map .early = x := by
  cases x with
  | none => rfl
  | some y =>
    cases y with
    | early p => rfl
    | _ => cases h _ rfl

namespace Cache

variable {c c' c'' : Cache} {n : Name} {w : Window}

/-- Two caches that hold the same for each name, in whatever order, and agree in all the rest. -/
structure Alike (c c' : Cache) : Prop where
  slots : ∀ n, c'.slots.get? n = c.slots.get? n
  rest : c' = { c with slots := c'.slots }

theorem Alike.refl (c : Cache) : c.Alike c := ⟨fun _ => rfl, rfl⟩

theorem Alike.trans (h : c.Alike c') (h' : c'.Alike c'') : c.Alike c'' where
  slots n := (h'.slots n).trans (h.slots n)
  rest := by
    rw [h'.rest, h.rest]

/-- The cache after a creation that has begun is over without a value. -/
def rollBack (c : Cache) (w : Window) : Cache :=
  match c.abandon w with
  | (freed, none) => freed
  | (freed, some producer) => freed.restore w.name producer

/-- Rolling back takes the mark off a marked name, and leaves the early producer there that was never asked. -/
theorem get?_rollBack (k : Name) : (c.rollBack w).slots.get? k =
    match w.marked, c.slots.get? w.name with
    | true, some (.inCreation e) => if k = w.name then (Slot.inCreation e).survivor.map .early else c.slots.get? k
    | _, _ => c.slots.get? k := by
  have hfreed : (if w.outermost then { c with suppressed := none } else c).slots = c.slots := by split <;> rfl
  unfold rollBack abandon
  simp only [hfreed]
  cases w.marked with
  | false => simp only [Bool.false_eq_true, if_false, hfreed]
  | true =>
    simp only [if_true]
    cases c.slots.get? w.name with
    | none => simp only [hfreed]
    | some x =>
      cases x with
      | inCreation e =>
        dsimp only
        cases (Slot.inCreation e).survivor with
        | none => exact Table.get?_erase ..
        | some producer =>
          simp only [get?_restore, Table.get?_erase, Option.map_some]
          split <;> rfl
      | _ => simp only [hfreed]

theorem rollBack_eq : c.rollBack w =
    { c with slots := (c.rollBack w).slots, suppressed := if w.outermost then none else c.suppressed } := by
  have habandon := abandon_eq (c := c) (w := w)
  unfold rollBack
  cases h : c.abandon w with
  | mk freed survivor =>
    rw [h] at habandon
    cases survivor with
    | none => exact habandon
    | some producer =>
      dsimp only at habandon ⊢
      rw [habandon]
      rfl

/-- Rolling back does not tell caches apart that are alike. -/
theorem Alike.rollBack (h : c.Alike c') (w : Window) : (c.rollBack w).Alike (c'.rollBack w) where
  slots k := by rw [get?_rollBack, get?_rollBack, h.slots, h.slots]
  rest := by
    rw [rollBack_eq (c := c'), rollBack_eq (c := c), h.rest]

theorem Alike.rollBacks (h : c.Alike c') (ws : List Window) :
    (ws.foldl Cache.rollBack c).Alike (ws.foldl Cache.rollBack c') := by
  induction ws generalizing c c' with
  | nil => exact h
  | cons w ws ih => exact ih (h.rollBack w)

/-- A creation that is rolled back as soon as it has begun leaves the cache as it was. -/
theorem alike_rollBack_of_openWindow (h : c.openWindow n = .ok (w, c')) : c.Alike (c'.rollBack w) where
  slots k := by
    rw [get?_rollBack, (openWindow_eq h).1]
    rcases (get?_openWindow (n := k) h).2 with ⟨hexempt, hfree, hk⟩ | ⟨hexempt, hk⟩
    · obtain ⟨-, ⟨-, -, hn⟩ | ⟨habsurd, -⟩⟩ := get?_openWindow (n := n) h
      · rw [if_pos rfl] at hn
        simp only [hexempt, Bool.not_false, hn, hk]
        split
        · rename_i hkn
          rw [hkn]
          exact survivor_ofSlot hfree
        · rfl
      · rw [hexempt] at habsurd; cases habsurd
    · simp only [hexempt, Bool.not_true, hk]
  rest := by
    obtain ⟨hw, hc'⟩ := openWindow_eq h
    rw [rollBack_eq, hw, hc']
    cases c.suppressed <;> simp

end Cache

/-- What may wait below in a thread that requests creations and nothing else. -/
def Frame.isAttempt : Frame ω → Bool
  | caller _ | guarded | creating _ _ => true
  | _ => false

/-- What a thread may do next that requests creations and nothing else. -/
def Control.isAttempt : Control ω → Bool
  | program _ | reply _ => true
  | point (.start _) | point (.await (.create _ _)) | point (.inside (.create _ _)) | point (.restore _ _ _) => true
  | _ => false

namespace Thread

variable {h : Host ω} {id : ThreadId} {s s' : Shared ω} {t t' : Thread ω} {f : Frame ω}
  {above above' fs : List (Frame ω)} {c₀ c c' : Cache} {w : Cache.Window} {n : Name} {create : Callback} {r : Reply}

/-- Whether the next step of a thread begins a request other than one for a creation. -/
def startsOther (t : Thread ω) : Bool :=
  match t.control with
  | .point (.start (.getOrCreate _ _)) => false
  | .point (.start _) => true
  | _ => false

/-- Whether the next step of a thread ends a creation with a value. -/
def yields (t : Thread ω) : Bool :=
  match t with
  | ⟨.reply (.ok _), .creating _ _ :: _⟩ => true
  | _ => false

/-- The cache once a thread has put the early producer back that it is about to put back. -/
def settled (t : Thread ω) (c : Cache) : Cache :=
  match t.control with
  | .point (.restore n producer _) => c.restore n producer
  | _ => c

/-- A thread that has been requesting creations with `fs` below, none of which ended with a value, and has the frames
`above` on top of them. If the creations under way are undone, the innermost first, the cache is alike to `c₀`. -/
structure Attempts (above fs : List (Frame ω)) (c₀ c : Cache) (t : Thread ω) : Prop where
  frames : t.frames = above ++ fs
  control : t.control.isAttempt = true
  only : ∀ f ∈ above, f.isAttempt = true
  undone : c₀.Alike ((windows above).foldl Cache.rollBack (t.settled c))

/-- A step that begins and ends no creation leaves undone what is undone. -/
theorem Attempts.still (ha : Attempts above fs c₀ c t) (frames : t'.frames = above' ++ fs)
    (control : t'.control.isAttempt = true) (only : ∀ f ∈ above', f.isAttempt = true)
    (open_ : windows above' = windows above) (hsettled : t'.settled c' = t.settled c) :
    Attempts above' fs c₀ c' t' where
  frames := frames
  control := control
  only := only
  undone := by
    rw [open_, hsettled]
    exact ha.undone

/-- A creation that begins can be undone. -/
theorem Attempts.inside (ha : Attempts above fs c₀ s.registry.cache ⟨.point (.inside (.create n create)), above ++ fs⟩)
    (hs : stepInside h s (above ++ fs) (.create n create) = (s', t')) :
    ∃ above', Attempts above' fs c₀ s'.registry.cache t' := by
  simp only [stepInside] at hs
  split at hs
  · cases hs; exact ⟨above, ha.still rfl rfl ha.only rfl rfl⟩
  · split at hs
    · cases hs; exact ⟨above, ha.still rfl rfl ha.only rfl rfl⟩
    · split at hs
      · cases hs; exact ⟨above, ha.still rfl rfl ha.only rfl rfl⟩
      · rename_i w cache ho
        cases hs
        refine ⟨.creating w create :: above, rfl, rfl, List.forall_mem_cons.2 ⟨rfl, ha.only⟩, ?_⟩
        exact ha.undone.trans ((Cache.alike_rollBack_of_openWindow ho).rollBacks _)

/-- A creation that ends without a value undoes what it began, or is about to. -/
theorem Attempts.leave {s₁ : Shared ω}
    (ha : Attempts (.creating w create :: above) fs c₀ c ⟨.reply r, .creating w create :: above ++ fs⟩)
    (hcache : s₁.registry.cache = (c.abandon w).1) {reply : Reply}
    (hs : leave s₁ (above ++ fs) w.name (c.abandon w).2 reply = (s', t')) :
    Attempts above fs c₀ s'.registry.cache t' := by
  have hundone : c₀.Alike ((windows above).foldl Cache.rollBack (c.rollBack w)) := ha.undone
  have honly := (List.forall_mem_cons.1 ha.only).2
  unfold Cache.rollBack at hundone
  cases habandon : c.abandon w with
  | mk freed survivor =>
    rw [habandon] at hundone hcache hs
    obtain rfl : s₁.registry.cache = freed := hcache
    cases survivor with
    | none => cases hs; exact ⟨rfl, rfl, honly, hundone⟩
    | some producer => cases hs; exact ⟨rfl, rfl, honly, hundone⟩

/-- A frame that hears a reply ends a creation without a value, or leaves the cache alone. -/
theorem Attempts.reply (ha : Attempts (f :: above) fs c₀ s.registry.cache ⟨.reply r, f :: above ++ fs⟩)
    (hy : yields ⟨.reply r, f :: above ++ fs⟩ = false) (hs : stepReply h s (above ++ fs) r f = (s', t')) :
    ∃ above', Attempts above' fs c₀ s'.registry.cache t' := by
  obtain ⟨hf, honly⟩ := List.forall_mem_cons.1 ha.only
  cases f with
  | caller next => cases r <;> cases hs <;> exact ⟨above, ha.still rfl rfl honly rfl rfl⟩
  | guarded => cases hs; exact ⟨above, ha.still rfl rfl honly rfl rfl⟩
  | creating w create =>
    cases r with
    | ok a => cases hy
    | failed g => exact ⟨above, ha.leave rfl hs⟩
    | panicked text => exact ⟨above, ha.leave rfl hs⟩
  | _ => cases hf

/-- While its requests are for creations that end without a value, a thread can undo what it did to the cache. -/
theorem Attempts.step (ha : Attempts above fs c₀ s.registry.cache t) (hw : t.isWithin fs.length = true)
    (hr : t.startsOther = false) (hy : t.yields = false) (hs : t.step h id s = some (s', t')) :
    ∃ above', Attempts above' fs c₀ s'.registry.cache t' := by
  obtain ⟨control, frames⟩ := t
  obtain rfl : frames = above ++ fs := ha.frames
  have hcontrol : control.isAttempt = true := ha.control
  cases control with
  | program p =>
    have hs := Option.some.inj hs
    cases p with
    | finish r => cases hs; exact ⟨above, ha.still rfl rfl ha.only rfl rfl⟩
    | access f next => cases hs; exact ⟨above, ha.still rfl rfl ha.only rfl rfl⟩
    | request r next =>
      cases hs
      exact ⟨.caller next :: above, ha.still rfl rfl (List.forall_mem_cons.2 ⟨rfl, ha.only⟩) rfl rfl⟩
  | reply r =>
    cases above with
    | nil => simp [isWithin] at hw
    | cons f above => exact ha.reply hy (Option.some.inj hs)
  | point p =>
    cases p with
    | start r =>
      cases r with
      | getOrCreate k create => cases hs; exact ⟨above, ha.still rfl rfl ha.only rfl rfl⟩
      | _ => cases hr
    | await sec =>
      simp only [step, stepPoint] at hs
      split at hs
      · cases hs
        refine ⟨.guarded :: above, ha.still rfl ?_ (List.forall_mem_cons.2 ⟨rfl, ha.only⟩) rfl rfl⟩
        cases sec with
        | create n create => rfl
        | _ => cases hcontrol
      · cases hs
    | inside sec =>
      cases sec with
      | create n create => exact ha.inside (Option.some.inj hs)
      | _ => cases hcontrol
    | restore n producer r => cases hs; exact ⟨above, ha.still rfl rfl ha.only rfl rfl⟩
    | _ => cases hcontrol

end Thread

namespace Moment

def startsOther (e : Moment ω) : Bool := e.thread?.any (·.startsOther)

def yields (e : Moment ω) : Bool := e.thread?.any (·.yields)

variable {m : Machine ω} {id : ThreadId} {t : Thread ω}

theorem startsOther_eq (ht : m.threads[id]? = some t) : (⟨m, id⟩ : Moment ω).startsOther = t.startsOther := by
  simp only [startsOther, thread?, ht, Option.any_some]

theorem yields_eq (ht : m.threads[id]? = some t) : (⟨m, id⟩ : Moment ω).yields = t.yields := by
  simp only [yields, thread?, ht, Option.any_some]

end Moment

namespace Machine

variable {h : Host ω} {m m₁ : Machine ω} {id : ThreadId} {seg : List (Moment ω)} {fs : List (Frame ω)}

/-- In the course of `seg`, thread `id` requests nothing but creations, none of which ends with a value, and the other
threads leave the cache alone. -/
structure Fruitless (h : Host ω) (id : ThreadId) (seg : List (Moment ω)) : Prop where
  requests : ∀ e ∈ seg, e.mover = id → e.startsOther = false
  failing : ∀ e ∈ seg, e.mover = id → e.yields = false
  undisturbed : ∀ e ∈ seg, e.mover ≠ id → ∀ m', e.state.step h e.mover = some m' →
    m'.shared.registry.cache = e.shared.registry.cache

theorem Run.attempts {above : List (Frame ω)} {c₀ : Cache} {t : Thread ω} (hr : Run h m₁ seg m)
    (ht : m₁.threads[id]? = some t) (ha : t.Attempts above fs c₀ m₁.shared.registry.cache)
    (hu : Underway id fs.length seg) (hf : Fruitless h id seg) :
    ∃ above t, m.threads[id]? = some t ∧ t.Attempts above fs c₀ m.shared.registry.cache := by
  induction hr with
  | start => exact ⟨above, t, ht, ha⟩
  | @step seg m m' j hr hs ih =>
    obtain ⟨above, t, ht, ha⟩ := ih (fun e he => hu e (List.mem_cons_of_mem _ he))
      ⟨fun e he => hf.requests e (List.mem_cons_of_mem _ he), fun e he => hf.failing e (List.mem_cons_of_mem _ he),
        fun e he => hf.undisturbed e (List.mem_cons_of_mem _ he)⟩
    by_cases hj : j = id
    · subst hj
      obtain ⟨s', t', hst, rfl⟩ := exists_of_step hs ht
      have hrequest : t.startsOther = false := by
        have := hf.requests ⟨m, j⟩ (List.mem_cons_self ..) rfl
        rwa [Moment.startsOther_eq ht] at this
      have hyield : t.yields = false := by
        have := hf.failing ⟨m, j⟩ (List.mem_cons_self ..) rfl
        rwa [Moment.yields_eq ht] at this
      obtain ⟨above', ha'⟩ := ha.step (hu.isWithin ht) hrequest hyield hst
      exact ⟨above', t', threads_set_self ht, ha'⟩
    · refine ⟨above, t, threads_of_ne hs hj ht, ?_⟩
      rw [hf.undisturbed _ (List.mem_cons_self ..) hj m' hs]
      exact ha

/-- Failed creations roll back, in every state of the registry and to any depth. If all that happens in the course of
a request for a creation are requests for further creations, and each of these fails, or finds its name complete and
creates nothing, then the request leaves the whole cache as it was. -/
theorem Run.alike_of_fruitless {k : Name} {create : Callback} {r : Reply}
    (ht : m₁.threads[id]? = some ⟨.point (.start (.getOrCreate k create)), fs⟩) (hr : Run h m₁ seg m)
    (hu : Underway id fs.length seg) (hf : Fruitless h id seg) (hreply : m.threads[id]? = some ⟨.reply r, fs⟩) :
    m₁.shared.registry.cache.Alike m.shared.registry.cache := by
  have hstart : Thread.Attempts [] fs m₁.shared.registry.cache m₁.shared.registry.cache
      ⟨.point (.start (.getOrCreate k create)), fs⟩ := ⟨rfl, rfl, List.forall_mem_nil _, .refl _⟩
  obtain ⟨above, t, hid, ha⟩ := hr.attempts ht hstart hu hf
  cases hid.symm.trans hreply
  -- the request is over, so nothing is left to be undone
  obtain rfl : above = [] := List.self_eq_append_left.1 ha.frames
  exact ha.undone

/-- Callbacks of creations that fail. The first one has the second one run, for a name with an early producer; the
second one requests a complete name, the name whose creation is under way around it, and a name whose creation fails,
and panics. -/
def failingHost : Host Unit where
  program c _ :=
    if c = 0 then .request (.getOrCreate "b" 1) fun _ => .finish (.ok .done)
    else if c = 1 then
      .request (.getOrCreate "d" 2) fun _ => .request (.getOrCreate "a" 0) fun _ =>
        .request (.getOrCreate "c" 2) fun _ => .finish (.panicked "boom")
    else .finish (.failed (.io "refused" none))
  observe _ w := w

/-- What waits below in the thread that requests the name with the early producer. -/
def failingFrames : List (Frame Unit) :=
  [.caller fun _ => .finish (.ok .done), .creating ⟨"a", true, true⟩ 0, .guarded, .caller fun _ => .finish (.ok .done)]

/-- The machine in the midst of a creation, before the request for the name with the early producer. -/
def failingMachine : Machine Unit :=
  ((ofPrograms {} ()
    [.request (.change (.registerSingleton "d" none)) fun _ => .request (.change (.registerEarly "b" 7)) fun _ =>
      .request (.getOrCreate "a" 0) fun _ => .finish (.ok .done)]).drive failingHost (List.replicate 11 0) []).2

/-- The request, from its first step to its reply. -/
def failedRun : List (Moment Unit) × Machine Unit := failingMachine.drive failingHost (List.replicate 27 0) []

/-- A panic after failed creations, inside a creation, leaves the cache as it was. -/
theorem alike_of_fruitless_failedRun :
    failingMachine.threads[0]? = some ⟨.point (.start (.getOrCreate "b" 1)), failingFrames⟩ ∧
      Underway 0 failingFrames.length failedRun.1 ∧ Fruitless failingHost 0 failedRun.1 ∧
      failedRun.2.threads[0]? = some ⟨.reply (.panicked "boom"), failingFrames⟩ ∧
      failingMachine.shared.registry.cache.Alike failedRun.2.shared.registry.cache := by
  have ht : failingMachine.threads[0]? = some ⟨.point (.start (.getOrCreate "b" 1)), failingFrames⟩ := rfl
  have hunder : Underway 0 failingFrames.length failedRun.1 := by decide
  have hmover : ∀ e ∈ failedRun.1, e.mover = 0 := by decide
  have hfails : Fruitless failingHost 0 failedRun.1 :=
    ⟨by decide, by decide, fun e he hne => absurd (hmover e he) hne⟩
  have hreply : failedRun.2.threads[0]? = some ⟨.reply (.panicked "boom"), failingFrames⟩ := rfl
  exact ⟨ht, hunder, hfails, hreply, Run.alike_of_fruitless ht (.drive _ .start) hunder hfails hreply⟩

end Machine

end Singletons
