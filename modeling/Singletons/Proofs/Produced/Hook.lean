import Mathlib.Algebra.Order.BigOperators.Group.List
import Mathlib.Algebra.Order.Group.Nat
import Singletons.Proofs.Produced.Object

/-
The hook on the object of a producer. While a name is not removed, at most one hook runs for it at a time on
behalf of fetches, and at most one ever returns an object: the mark that stands while a hook runs bars every
other (`Barred`), and the object that a hook returns is kept, as the fetch found its name complete
(`FoundComplete`), so that no later fetch comes to the hook.
-/

namespace Singletons

variable {ω : Type}

namespace Moment

/-- The object that the hook returns for a fetch for `n` in the step from a moment. -/
def hooked? (e : Moment ω) (n : Name) : Option Value := e.thread?.bind (·.hooked? n)

theorem hooked?_eq {m : Machine ω} {id : ThreadId} {t : Thread ω} (ht : m.threads[id]? = some t) (n : Name) :
    (⟨m, id⟩ : Moment ω).hooked? n = t.hooked? n := by
  simp only [hooked?, thread?, ht, Option.bind_some]

end Moment

namespace Machine

/-- The number of hooks that run for `n` on behalf of fetches, over all threads. -/
def hooks (m : Machine ω) (n : Name) : Nat := (m.threads.map (·.hooks n)).sum

/-- The object kept for the producer of `n`. -/
def produced? (m : Machine ω) (n : Name) : Option Value := m.shared.registry.cache.produced? n

theorem sum_set {α : Type} (f : α → Nat) {a : α} (b : α) : ∀ {l : List α} {i : Nat}, l[i]? = some a →
    ((l.set i b).map f).sum + f a = (l.map f).sum + f b
  | [], i, h => by simp at h
  | c :: l, 0, h => by
    cases h
    simp only [List.set_cons_zero, List.map_cons, List.sum_cons]
    omega
  | c :: l, i + 1, h => by
    have := sum_set f b (l := l) (i := i) (by simpa using h)
    simp only [List.set_cons_succ, List.map_cons, List.sum_cons]
    omega

variable {h : Host ω} {start m m' : Machine ω} {past seg : List (Moment ω)} {id : ThreadId} {t t' : Thread ω}
  {s' : Shared ω} {n : Name} {v : Value}

/-- A step changes the number of hooks by as many as the mover begins or ends. -/
theorem hooks_set (ht : m.threads[id]? = some t) (s' : Shared ω) (t' : Thread ω) (n : Name) :
    hooks ⟨s', m.threads.set id t'⟩ n + t.hooks n = m.hooks n + t'.hooks n :=
  sum_set _ t' ht

theorem hooks_le (ht : m.threads[id]? = some t) (n : Name) : t.hooks n ≤ m.hooks n :=
  List.le_sum_of_mem (List.mem_map_of_mem (List.mem_of_getElem? ht))

theorem eq_ofProgram_of_ofPrograms {r : Registry} {w : ω} {programs : List (Program ω)}
    (ht : (ofPrograms r w programs).threads[id]? = some t) : ∃ p, t = .ofProgram p := by
  simp only [ofPrograms, List.getElem?_map, Option.map_eq_some_iff] at ht
  obtain ⟨p, -, rfl⟩ := ht
  exact ⟨p, rfl⟩

theorem ofPrograms_hooks (r : Registry) (w : ω) (programs : List (Program ω)) (n : Name) :
    (ofPrograms r w programs).hooks n = 0 := by
  rw [hooks, List.sum_eq_zero_iff_forall_eq_nat]
  intro k hk
  obtain ⟨t, ht, rfl⟩ := List.mem_map.1 hk
  obtain ⟨id, hid⟩ := List.mem_iff_getElem?.1 ht
  obtain ⟨p, rfl⟩ := eq_ofProgram_of_ofPrograms hid
  rfl

/-! ## One hook at a time -/

/-- At most one hook runs for `n` on behalf of fetches, and while it does `n` is marked. -/
structure Barred (n : Name) (m : Machine ω) : Prop where
  once : m.hooks n ≤ 1
  marked : 0 < m.hooks n → m.shared.registry.cache.inHook.contains n = true

theorem Barred.step (hm : m.Barred n) (hs : m.step h id = some m') (hk : (⟨m, id⟩ : Moment ω).removes n = false) :
    m'.Barred n := by
  obtain ⟨t, s', t', ht, hst, rfl⟩ := step_eq_some_iff.1 hs
  rw [Moment.removes_eq ht] at hk
  have hcount := hooks_set ht s' t' n
  have hle := hooks_le ht n
  have honce := hm.once
  cases Thread.step_hookMove hst hk with
  | still quiet count mark =>
    refine ⟨by omega, fun hpos => ?_⟩
    exact mark.trans (hm.marked (by omega))
  | begins quiet missing unmarked count mark =>
    have hnone : m.hooks n = 0 := by
      rcases Nat.eq_zero_or_pos (m.hooks n) with hz | hpos
      · exact hz
      · rw [hm.marked hpos] at unmarked; cases unmarked
    exact ⟨by omega, fun _ => mark⟩
  | ends count => exact ⟨by omega, fun hpos => by omega⟩

theorem ofPrograms_barred (r : Registry) (w : ω) (programs : List (Program ω)) (n : Name) :
    (ofPrograms r w programs).Barred n :=
  ⟨by rw [ofPrograms_hooks]; exact Nat.zero_le 1, fun hpos => by rw [ofPrograms_hooks] at hpos; cases hpos⟩

/-! ## The object that a hook returns -/

/-- Whoever is in a fetch for `n` that found `n` complete still finds it so. -/
def FoundComplete (n : Name) (m : Machine ω) : Prop :=
  ∀ (id : ThreadId) (t : Thread ω), m.threads[id]? = some t → t.isFetching n = true →
    m.shared.registry.cache.contains n = true

/-- A complete name stays complete until it is removed. -/
theorem contains_step (ho : m.Orderly) (hs : m.step h id = some m') (hk : (⟨m, id⟩ : Moment ω).removes n = false)
    (hc : m.shared.registry.cache.contains n = true) : m'.shared.registry.cache.contains n = true := by
  obtain ⟨t, s', t', ht, hst, rfl⟩ := step_eq_some_iff.1 hs
  rw [Moment.removes_eq ht] at hk
  exact ((Thread.step_tableMove hst fun n => ho.vacant id t n ht).complete n).2 (.inr ⟨hc, hk⟩)

theorem FoundComplete.step (hf : m.FoundComplete n) (ho : m.Orderly) (hs : m.step h id = some m')
    (hk : (⟨m, id⟩ : Moment ω).removes n = false) : m'.FoundComplete n := by
  intro j u hu hfetching
  refine contains_step ho hs hk ?_
  obtain ⟨t, s', t', ht, hst, rfl⟩ := step_eq_some_iff.1 hs
  rcases threads_set ht hu with ⟨rfl, rfl⟩ | ⟨-, hu⟩
  · rcases Thread.step_isFetching hst hfetching with hfetching | hc
    · exact hf _ t ht hfetching
    · exact hc
  · exact hf j u hu hfetching

theorem ofPrograms_foundComplete (r : Registry) (w : ω) (programs : List (Program ω)) (n : Name) :
    (ofPrograms r w programs).FoundComplete n := by
  intro id t ht hf
  obtain ⟨p, rfl⟩ := eq_ofProgram_of_ofPrograms ht
  cases hf

/-- What a run keeps to that does not remove `n`. -/
structure Hooking (n : Name) (m : Machine ω) : Prop where
  orderly : m.Orderly
  barred : m.Barred n
  found : m.FoundComplete n

theorem Hooking.run {r : Registry} {w : ω} {programs : List (Program ω)}
    (hr : Run h (ofPrograms r w programs) past m) (hkept : ∀ e ∈ past, e.removes n = false) : m.Hooking n :=
  hr.invariant (Hooking n) ⟨ofPrograms_orderly .., ofPrograms_barred .., ofPrograms_foundComplete r w programs n⟩
    fun e he _ hp hs => ⟨hp.orderly.step hs, hp.barred.step hs (hkept e he), hp.found.step hp.orderly hs (hkept e he)⟩

/-- An object is kept for `n`, and no hook runs for it on behalf of a fetch. -/
structure Finished (n : Name) (m : Machine ω) : Prop where
  kept : (m.produced? n).isSome = true
  idle : m.hooks n = 0

theorem isFetching_of_hooked {t : Thread ω} (hy : t.hooked? n = some v) : t.isFetching n = true := by
  obtain ⟨a, object, fs, rfl, -⟩ := Thread.eq_of_hooked hy
  simp [Thread.isFetching, Frame.isFetchOf]

theorem Hooking.finished_of_hooked (hm : m.Hooking n) (hs : m.step h id = some m')
    (hy : (⟨m, id⟩ : Moment ω).hooked? n = some v) : m'.Finished n := by
  obtain ⟨t, s', t', ht, hst, rfl⟩ := step_eq_some_iff.1 hs
  rw [Moment.hooked?_eq ht] at hy
  obtain ⟨-, hcount, hkeep⟩ := Thread.step_of_hooked hst hy
  refine ⟨?_, ?_⟩
  · have hv : s'.registry.cache.produced? n = some v := hkeep (hm.found id t ht (isFetching_of_hooked hy))
    rw [produced?, hv]
    rfl
  · have hset := hooks_set ht s' t' n
    have hle := hooks_le ht n
    have honce := hm.barred.once
    omega

/-- Once a name has an object and no hook runs for it, none begins. -/
theorem Finished.step (hm : m.Finished n) (hs : m.step h id = some m')
    (hk : (⟨m, id⟩ : Moment ω).removes n = false) :
    (⟨m, id⟩ : Moment ω).hooked? n = none ∧ m'.Finished n := by
  obtain ⟨t, s', t', ht, hst, rfl⟩ := step_eq_some_iff.1 hs
  rw [Moment.removes_eq ht] at hk
  rw [Moment.hooked?_eq ht]
  obtain ⟨hkept, hidle⟩ := hm
  have hset := hooks_set ht s' t' n
  have hle := hooks_le ht n
  cases Thread.step_hookMove hst hk with
  | begins quiet missing => rw [produced?, missing] at hkept; cases hkept
  | ends count => omega
  | still quiet count mark =>
    refine ⟨quiet, ?_, by omega⟩
    rcases Thread.step_produced? hst hk quiet with hsame | ⟨hnone, -⟩
    · rw [produced?, hsame]; exact hkept
    · rw [produced?, hnone] at hkept; cases hkept

theorem Run.hooked_le_one {r : Registry} {w : ω} {programs : List (Program ω)}
    (hr : Run h (ofPrograms r w programs) past m) (hkept : ∀ e ∈ past, e.removes n = false) :
    past.countP (fun e => (e.hooked? n).isSome) ≤ 1 ∧
      (0 < past.countP (fun e => (e.hooked? n).isSome) → m.Finished n) := by
  induction hr with
  | start => simp
  | @step past m m' id hr hs ih =>
    have hkept' := fun e he => hkept e (List.mem_cons_of_mem _ he)
    have hk := hkept ⟨m, id⟩ (List.mem_cons_self ..)
    obtain ⟨hle, hfinished⟩ := ih hkept'
    rw [List.countP_cons]
    cases hy : (⟨m, id⟩ : Moment ω).hooked? n with
    | none => exact ⟨by simpa using hle, fun hpos => ((hfinished (by simpa using hpos)).step hs hk).2⟩
    | some v =>
      refine ⟨?_, fun _ => (Hooking.run hr hkept').finished_of_hooked hs hy⟩
      -- an earlier hook would have left the name finished, and none returns then
      rcases Nat.eq_zero_or_pos (past.countP fun e => (e.hooked? n).isSome) with hz | hpos
      · simp [hz]
      · rw [((hfinished hpos).step hs hk).1] at hy
        cases hy

/-- The hook returns an object for a name once at most. In every run that does not remove a name, whatever
producers and hooks do, at most one hook at a time runs for it on behalf of requests for its shared object, and
at most one of all these hooks returns without a failure or a panic. -/
theorem Run.hooked_once {r : Registry} {w : ω} {programs : List (Program ω)}
    (hr : Run h (ofPrograms r w programs) past m) (hkept : ∀ e ∈ past, e.removes n = false) :
    m.hooks n ≤ 1 ∧ past.countP (fun e => (e.hooked? n).isSome) ≤ 1 :=
  ⟨(Hooking.run hr hkept).barred.once, (hr.hooked_le_one hkept).1⟩

/-- A producer, and a hook that fails at first; later it asks for the object that it is called for, and yields
another one. -/
def retryingHost : Host Bool where
  program c _ :=
    if c = 0 then .yield (some ⟨2, .unit⟩)
    else .access (fun _ => true) fun tried =>
      if tried then .request (.produced "a" true true) fun _ => .yield (some ⟨3, .unit⟩)
      else .finish (.failed (.creationNotAllowed "a"))
  observe _ w := w

/-- A caller that sets the hook, registers the producer and asks for its object three times. -/
def retryingCaller : Program Bool :=
  [.change (.setHook (some 1)), .change (.registerSingleton "a" (some ⟨1, .producer ⟨0, true, none⟩⟩)),
    .produced "a" true true, .produced "a" true true, .produced "a" true true].foldr
    (fun request rest => .request request fun _ => rest) (.finish (.ok .done))

def retryingRun : List (Moment Bool) × Machine Bool :=
  (ofPrograms {} false [retryingCaller]).drive retryingHost (List.replicate 60 0) []

/-- Two hooks run, one after the other, and the second one returns an object. -/
theorem hooked_once_retryingRun :
    retryingRun.2.isOver = true ∧ (∀ e ∈ retryingRun.1, e.removes "a" = false) ∧
      retryingRun.1.any (fun e => e.hooked? "a" == some (some ⟨3, .unit⟩)) = true ∧
      retryingRun.2.hooks "a" ≤ 1 ∧ retryingRun.1.countP (fun e => (e.hooked? "a").isSome) ≤ 1 := by
  have hkept : ∀ e ∈ retryingRun.1, e.removes "a" = false := by decide
  exact ⟨by decide, hkept, by decide, Run.hooked_once (Run.drive (h := retryingHost) _ .start) hkept⟩

end Machine

end Singletons
