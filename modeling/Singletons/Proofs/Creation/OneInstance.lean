import Singletons.Proofs.Creation.SingleFlight

/-
One instance for a name: what becomes of the value of a complete name until the name is removed. The
value changes only when a creation that was under way already ends with one of its own, which it puts
in the slot without a look at what is there. Look-ups and requests for a creation are answered with the
value, but for two kinds of look-ups that began while the name was incomplete: one that missed it and
gives up, and one whose early producer returns.
-/

namespace Singletons

variable {ω : Type}

/-- Whether an answer hands out the value `v`. -/
def Answer.Bears (v : Value) (a : Answer) : Prop := a = .found (some v) ∨ a = .value v

namespace Thread

/-- The answer that a thread has just come to. -/
def answered? (t : Thread ω) : Option Answer :=
  match t.control with
  | .reply (.ok a) => some a
  | _ => none

/-- The places from which the next step may answer a look-up of `n` or a request for its creation. -/
inductive Serving (n : Name) : Thread ω → Prop where
  | glance (early : Bool) (fs : List (Frame ω)) : Serving n ⟨.point (.glance n early), fs⟩
  | glanceAgain (early : Bool) (fs : List (Frame ω)) : Serving n ⟨.point (.glanceAgain n early), fs⟩
  | look (early : Bool) (fs : List (Frame ω)) : Serving n ⟨.point (.inside (.look n early)), fs⟩
  | expose (r : Reply) (p : Callback) (fs : List (Frame ω)) : Serving n ⟨.reply r, .exposing n p :: fs⟩
  | create (c : Callback) (fs : List (Frame ω)) : Serving n ⟨.point (.inside (.create n c)), fs⟩
  | close (r : Reply) (w : Cache.Window) (c : Callback) (fs : List (Frame ω)) (name : w.name = n) :
      Serving n ⟨.reply r, .creating w c :: fs⟩
  | restore (p : Callback) (r : Reply) (fs : List (Frame ω)) : Serving n ⟨.point (.restore n p r), fs⟩

/-- Whether the next step of a thread hands out `v` for the complete name `n`, if it hands out anything:
no creation and no early producer of `n` has yielded another value, and no look-up that missed `n` is
about to give up. -/
def Respects (n : Name) (v : Value) (t : Thread ω) : Prop :=
  match t with
  | ⟨.reply (.ok a), .creating w _ :: _⟩ => w.name = n → a.toValue = v
  | ⟨.reply (.ok a), .exposing k _ :: _⟩ => k = n → a.toValue = v
  | ⟨.point (.glanceAgain k _), _⟩ => k ≠ n
  | _ => True

variable {h : Host ω} {id : ThreadId} {s s' : Shared ω} {t t' : Thread ω} {fs : List (Frame ω)} {n : Name}
  {v u : Value}

theorem Respects.eq_of_yield (ht : t.Respects n v) (hy : t.yield? n = some u) : u = v := by
  unfold yield? at hy
  split at hy
  · split at hy
    · rename_i hn
      cases hy
      exact ht hn
    · cases hy
  · cases hy

/-- Whatever does not serve a name respects it. -/
theorem respects_of_not_serving (ht : ¬ t.Serving n) : t.Respects n v := by
  unfold Respects
  split
  · rename_i a w c fs
    intro hn
    exact absurd (.close _ w c fs hn) ht
  · rename_i a k p fs
    rintro rfl
    exact absurd (.expose _ p fs) ht
  · rename_i k early fs
    rintro rfl
    exact absurd (.glanceAgain early fs) ht
  · trivial

/-- A creation of a complete name that ends without a value of its own hands out the value or nothing. -/
theorem bears_of_abandoned {w : Cache.Window} {r : Reply} (hc : s.registry.cache.complete? w.name = some v)
    (hr : ∀ a, r ≠ .ok a) (hs : stepCreating h s fs w r = (s', t')) {a : Answer} (ha : t'.answered? = some a) :
    a.Bears v := by
  have hslot := Cache.complete?_eq_some_iff.1 hc
  -- the name is complete and so not in creation: the slot stays and no early producer survives
  obtain ⟨hget, hsurvivor⟩ := Cache.get?_abandon (c := s.registry.cache) (n := w.name) (w := w)
  have hget : (s.registry.cache.abandon w).1.slots.get? w.name = some (.complete v) := by
    rcases hget with hget | ⟨-, ⟨e, he⟩, -⟩
    · rw [hget]; exact hslot
    · rw [hslot] at he; cases he
  have hnone : (s.registry.cache.abandon w).2 = none := by
    cases hs : (s.registry.cache.abandon w).2 with
    | none => rfl
    | some p => rw [hsurvivor (by simp [hs])] at hget; cases hget
  cases r with
  | ok a => exact absurd rfl (hr a)
  | panicked text =>
    simp only [stepCreating, hnone, leave] at hs
    cases hs
    cases ha
  | failed f =>
    simp only [stepCreating, hnone, leave] at hs
    cases hs
    unfold failedCreation at ha
    rw [Cache.complete?_eq_some_iff.2 hget] at ha
    cases hf : f.isConflict with
    | true => rw [hf] at ha; cases ha; exact .inr rfl
    | false => rw [hf] at ha; cases ha

/-- What a step answers for a complete name bears its value exactly if the thread respects it. -/
theorem Serving.bears_iff (ht : t.Serving n) (hs : t.step h id s = some (s', t'))
    (hc : s.registry.cache.complete? n = some v) (hr : t.isRestoring n = false) :
    (∀ a, t'.answered? = some a → a.Bears v) ↔ t.Respects n v := by
  have hslot := Cache.complete?_eq_some_iff.1 hc
  cases ht with
  | glance early fs =>
    simp only [Thread.step, stepPoint, hc] at hs
    cases hs
    exact ⟨fun _ => trivial, fun _ a ha => by cases ha; exact .inl rfl⟩
  | glanceAgain early fs =>
    have hin : s.registry.cache.isInCreation n = false := by
      simp [Cache.isInCreation, Cache.lifecycle, hslot, Slot.lifecycle, Lifecycle.isInCreation]
    simp only [Thread.step, stepPoint, hin, Bool.false_eq_true, if_false] at hs
    cases hs
    refine ⟨fun ha => ?_, fun hk => absurd rfl hk⟩
    rcases ha _ rfl with h | h <;> cases h
  | look early fs =>
    simp only [Thread.step, stepPoint, stepInside, hslot] at hs
    cases hs
    exact ⟨fun _ => trivial, fun _ a ha => by cases ha; exact .inl rfl⟩
  | expose r p fs =>
    cases r with
    | ok a =>
      -- the producer's value is handed out although it is not kept
      simp only [Thread.step, stepReply, Cache.expose, hslot] at hs
      cases hs
      constructor
      · intro ha _
        rcases ha _ rfl with h | h <;> cases h
        rfl
      · intro hr b hb
        cases hb
        exact .inl (by rw [hr rfl])
    | failed f => cases hs; exact ⟨fun _ => trivial, fun _ a ha => by cases ha⟩
    | panicked text => cases hs; exact ⟨fun _ => trivial, fun _ a ha => by cases ha⟩
  | create c fs =>
    simp only [Thread.step, stepPoint, stepInside, hc] at hs
    cases hs
    exact ⟨fun _ => trivial, fun _ a ha => by cases ha; exact .inr rfl⟩
  | close r w c fs name =>
    subst name
    have hs : stepCreating h s fs w r = (s', t') := Option.some.inj hs
    cases r with
    | ok a =>
      cases hs
      constructor
      · intro ha _
        rcases ha _ rfl with h | h <;> cases h
        rfl
      · intro hr b hb
        cases hb
        exact .inr (by rw [hr rfl])
    | failed f => exact ⟨fun _ => trivial, fun _ _ ha => bears_of_abandoned hc (by rintro a ⟨⟩) hs ha⟩
    | panicked text => exact ⟨fun _ => trivial, fun _ _ ha => bears_of_abandoned hc (by rintro a ⟨⟩) hs ha⟩
  | restore p r fs => simp [isRestoring] at hr

end Thread

namespace Machine

variable {h : Host ω} {start m m' m₀ : Machine ω} {past seg : List (Moment ω)} {id : ThreadId} {n : Name}
  {v u : Value}

def complete? (m : Machine ω) (n : Name) : Option Value := m.shared.registry.cache.complete? n

theorem complete?_of_yield (hs : m.step h id = some m') (hy : (⟨m, id⟩ : Moment ω).yield? n = some u) :
    m'.complete? n = some u := by
  obtain ⟨t, s', t', ht, hst, rfl⟩ := step_eq_some_iff.1 hs
  rw [Moment.yield?_eq ht] at hy
  exact Cache.complete?_eq_some_iff.2 (Thread.step_of_yield hst hy).1

theorem complete?_of_not_yield (ho : m.Orderly) (hs : m.step h id = some m')
    (hk : (⟨m, id⟩ : Moment ω).removes n = false) (hy : (⟨m, id⟩ : Moment ω).yield? n = none)
    (hc : m.complete? n = some v) : m'.complete? n = some v := by
  obtain ⟨t, s', t', ht, -, -⟩ := step_eq_some_iff.1 hs
  rw [Moment.removes_eq ht] at hk
  rw [Moment.yield?_eq ht] at hy
  exact complete?_step ho.vacant hs ht hk hy hc

theorem Orderly.of_mem (ho : start.Orderly) (hr : Run h start past m) {e : Moment ω} (he : e ∈ past) :
    e.state.Orderly := by
  obtain ⟨later, earlier, rfl⟩ := List.append_of_mem he
  obtain ⟨-, h1, -, -⟩ := hr.cut_at
  exact ho.run h1

/-- Until it is removed, a complete name has the value that the last creation of it yielded, and its old
one if there was none. -/
theorem Run.complete?_eq (ho : m₀.Orderly) (hr : Run h m₀ seg m) (hv : m₀.complete? n = some v)
    (hkept : ∀ e ∈ seg, e.removes n = false) :
    m.complete? n = some ((seg.findSome? (·.yield? n)).getD v) := by
  induction hr with
  | start => exact hv
  | @step seg m m' id hr hs ih =>
    have ih := ih fun e he => hkept e (List.mem_cons_of_mem _ he)
    rw [List.findSome?_cons]
    cases hy : (⟨m, id⟩ : Moment ω).yield? n with
    | some u => exact complete?_of_yield hs hy
    | none => exact complete?_of_not_yield (ho.run hr) hs (hkept _ (List.mem_cons_self ..)) hy ih

/-- Along the moments of a run and at its end, a name is complete with `v`. -/
structure Keeps (n : Name) (v : Value) (seg : List (Moment ω)) (m : Machine ω) : Prop where
  along : ∀ e ∈ seg, e.state.complete? n = some v
  last : m.complete? n = some v

/-- The value stays exactly if no creation yields another. -/
theorem Run.keeps_iff (ho : m₀.Orderly) (hr : Run h m₀ seg m) (hv : m₀.complete? n = some v)
    (hkept : ∀ e ∈ seg, e.removes n = false) :
    Keeps n v seg m ↔ ∀ e ∈ seg, ∀ u, e.yield? n = some u → u = v := by
  induction hr with
  | start => exact ⟨fun _ => by simp, fun _ => ⟨by simp, hv⟩⟩
  | @step seg m m' id hr hs ih =>
    have ih := ih fun e he => hkept e (List.mem_cons_of_mem _ he)
    constructor
    · rintro ⟨halong, hlast⟩ e he u hy
      rcases List.mem_cons.1 he with rfl | he
      · have hu : m'.complete? n = some u := complete?_of_yield hs hy
        exact Option.some.inj (hu.symm.trans hlast)
      · have hkeeps : Keeps n v seg m :=
          ⟨fun e he => halong e (List.mem_cons_of_mem _ he), halong _ (List.mem_cons_self ..)⟩
        exact ih.1 hkeeps e he u hy
    · intro hyields
      have hkeeps := ih.2 fun e he => hyields e (List.mem_cons_of_mem _ he)
      have hend := (hr.step id hs).complete?_eq ho hv hkept
      refine ⟨List.forall_mem_cons.2 ⟨hkeeps.last, hkeeps.along⟩, ?_⟩
      cases hy : (⟨m, id⟩ : Moment ω).yield? n with
      | none => exact complete?_of_not_yield (ho.run hr) hs (hkept _ (List.mem_cons_self ..)) hy hkeeps.last
      | some u =>
        rw [← hyields _ (List.mem_cons_self ..) u hy]
        exact complete?_of_yield hs hy

/-- A complete name has one instance from `m₀` to the end: it keeps its value, and whatever look-ups of it
and requests for its creation are answered with is that value. -/
structure OneInstance (h : Host ω) (n : Name) (v : Value) (seg : List (Moment ω)) (m : Machine ω) : Prop extends
    Keeps n v seg m where
  answers : ∀ e ∈ seg, ∀ t s' t' a, e.thread? = some t → t.Serving n →
    t.step h e.mover e.shared = some (s', t') → t'.answered? = some a → a.Bears v

/-- What one instance for a name comes down to. From any state of a run in which `n` is complete and until
it is removed, its value is what the last creation of it yielded meanwhile, so it stays the same exactly if
no creation yields another; and `n` has one instance exactly if every step respects it. -/
theorem Run.one_instance {r : Registry} {w : ω} {programs : List (Program ω)}
    (hr : Run h (ofPrograms r w programs) past m₀) (hseg : Run h m₀ seg m) (hv : m₀.complete? n = some v)
    (hkept : ∀ e ∈ seg, e.removes n = false) :
    m.complete? n = some ((seg.findSome? (·.yield? n)).getD v) ∧
      (Keeps n v seg m ↔ ∀ e ∈ seg, ∀ u, e.yield? n = some u → u = v) ∧
      (OneInstance h n v seg m ↔ ∀ e ∈ seg, ∀ t, e.thread? = some t → t.Respects n v) := by
  have ho : m₀.Orderly := (ofPrograms_orderly r w programs).run hr
  have hkeeps := hseg.keeps_iff ho hv hkept
  refine ⟨hseg.complete?_eq ho hv hkept, hkeeps, ?_⟩
  -- under the mutex an early producer is put back into an empty slot only, never over a value
  have hrestoring : ∀ e ∈ seg, ∀ t, e.thread? = some t → e.state.complete? n = some v → t.isRestoring n = false := by
    intro e he t ht hc
    cases hres : t.isRestoring n with
    | false => rfl
    | true =>
      have hslot := (ho.of_mem hseg he).vacant e.mover t n ht hres
      rw [Cache.complete?_eq_some_iff.1 hc] at hslot
      cases hslot
  constructor
  · rintro ⟨⟨halong, -⟩, hanswers⟩ e he t ht
    rcases Classical.em (t.Serving n) with hserving | hserving
    · obtain ⟨later, earlier, rfl⟩ := List.append_of_mem he
      obtain ⟨next, -, hs, -⟩ := hseg.cut_at
      obtain ⟨s', t', hst, -⟩ := exists_of_step hs ht
      have hc := halong e he
      exact (hserving.bears_iff hst hc (hrestoring e he t ht hc)).1 fun a ha =>
        hanswers e he t s' t' a ht hserving hst ha
    · exact Thread.respects_of_not_serving hserving
  · intro hrespects
    have hyields : ∀ e ∈ seg, ∀ u, e.yield? n = some u → u = v := by
      intro e he u hy
      obtain ⟨t, ht, hy⟩ := Option.bind_eq_some_iff.1 hy
      exact (hrespects e he t ht).eq_of_yield hy
    refine ⟨hkeeps.2 hyields, fun e he t s' t' a ht hserving hst ha => ?_⟩
    have hc := (hkeeps.2 hyields).along e he
    exact (hserving.bears_iff hst hc (hrestoring e he t ht hc)).2 (hrespects e he t ht) a ha

/-- Callers whose creation of `a` registers one instance of `a` and yields another. -/
def overwritingHost : Host Unit where
  program c _ :=
    if c = 0 then .request (.change (.registerSingleton "a" (some ⟨1, .unit⟩))) fun _ => .yield (some ⟨2, .unit⟩)
    else .yield none
  observe _ w := w

/-- A run of such a caller up to the registration. -/
def registeredRun : List (Moment Unit) × Machine Unit :=
  (ofPrograms {} () [.request (.getOrCreate "a" 0) fun _ => .finish (.ok .done)]).drive overwritingHost
    (List.replicate 6 0) []

/-- The rest of the run. -/
def overwrittenRun : List (Moment Unit) × Machine Unit :=
  registeredRun.2.drive overwritingHost (List.replicate 12 0) []

theorem one_instance_overwrittenRun :
    registeredRun.2.complete? "a" = some (some ⟨1, .unit⟩) ∧ (∀ e ∈ overwrittenRun.1, e.removes "a" = false) ∧
      overwrittenRun.2.complete? "a" = some ((overwrittenRun.1.findSome? (·.yield? "a")).getD (some ⟨1, .unit⟩)) := by
  have hv : registeredRun.2.complete? "a" = some (some ⟨1, .unit⟩) := by decide
  have hkept : ∀ e ∈ overwrittenRun.1, e.removes "a" = false := by decide
  exact ⟨hv, hkept, (Run.one_instance (Run.drive _ .start) (Run.drive _ .start) hv hkept).1⟩

/-- A creation overwrites an instance that was registered while its callback ran, although the name was
never removed. -/
theorem creation_overwrites_instance :
    ∃ (past seg : List (Moment Unit)) (m₀ m : Machine Unit),
      Run overwritingHost (ofPrograms {} () [.request (.getOrCreate "a" 0) fun _ => .finish (.ok .done)]) past m₀ ∧
        Run overwritingHost m₀ seg m ∧ (∀ e ∈ seg, e.removes "a" = false) ∧
        m₀.complete? "a" = some (some ⟨1, .unit⟩) ∧ m.complete? "a" = some (some ⟨2, .unit⟩) :=
  ⟨registeredRun.1, overwrittenRun.1, registeredRun.2, overwrittenRun.2, Run.drive _ .start, Run.drive _ .start,
    by decide, by decide, by decide⟩

end Machine

end Singletons
