import Singletons.Machine.Basic

/-
Runs of a machine with their past: the moments a run has passed, each a state with the thread that
took the next step. A property kept by every step that the past allows holds along a run; a run can
be cut at any of its moments.
-/

namespace Singletons

variable {ω : Type}

/-- A moment of a run: a state, and the thread that takes the step from it. -/
structure Moment (ω : Type) where
  state : Machine ω
  mover : ThreadId

namespace Moment

def thread? (e : Moment ω) : Option (Thread ω) := e.state.threads[e.mover]?

def shared (e : Moment ω) : Shared ω := e.state.shared

end Moment

namespace Machine

/-- The runs from `start`: the moments passed, the latest first, and the state they lead to. -/
inductive Run (h : Host ω) (start : Machine ω) : List (Moment ω) → Machine ω → Prop where
  | start : Run h start [] start
  | step {past : List (Moment ω)} {m m' : Machine ω} (id : ThreadId) : Run h start past m →
      m.step h id = some m' → Run h start (⟨m, id⟩ :: past) m'

variable {h : Host ω} {start m m' : Machine ω} {past later : List (Moment ω)}

theorem step_eq_some_iff {id : ThreadId} : m.step h id = some m' ↔
    ∃ t s' t', m.threads[id]? = some t ∧ t.step h id m.shared = some (s', t') ∧
      m' = ⟨s', m.threads.set id t'⟩ := by
  unfold step
  cases m.threads[id]? with
  | none => simp
  | some t =>
    simp only [Option.map_eq_some_iff, Option.some.injEq, exists_and_left, exists_eq_left']
    constructor
    · rintro ⟨⟨s', t'⟩, hs, rfl⟩; exact ⟨s', t', hs, rfl⟩
    · rintro ⟨s', t', hs, rfl⟩; exact ⟨(s', t'), hs, rfl⟩

theorem exists_of_step {id : ThreadId} {t : Thread ω} (hs : m.step h id = some m') (ht : m.threads[id]? = some t) :
    ∃ s' t', t.step h id m.shared = some (s', t') ∧ m' = ⟨s', m.threads.set id t'⟩ := by
  obtain ⟨u, s', t', hu, hst, rfl⟩ := step_eq_some_iff.1 hs
  cases ht.symm.trans hu
  exact ⟨s', t', hst, rfl⟩

theorem threads_set_self {id : ThreadId} {t t' : Thread ω} (ht : m.threads[id]? = some t) :
    (m.threads.set id t')[id]? = some t' :=
  List.getElem?_set_self (List.getElem?_eq_some_iff.1 ht).1

/-- After a step, the mover is the thread it became and the others are as they were. -/
theorem threads_set {id j : ThreadId} {t t' u : Thread ω} (ht : m.threads[id]? = some t)
    (hu : (m.threads.set id t')[j]? = some u) : (j = id ∧ u = t') ∨ (j ≠ id ∧ m.threads[j]? = some u) := by
  by_cases hj : j = id
  · subst hj
    rw [threads_set_self ht] at hu
    cases hu; exact .inl ⟨rfl, rfl⟩
  · rw [List.getElem?_set_ne (Ne.symm hj)] at hu
    exact .inr ⟨hj, hu⟩

/-- A step leaves every thread but the mover where it is. -/
theorem threads_of_ne {id j : ThreadId} {t : Thread ω} (hs : m.step h j = some m') (hj : j ≠ id)
    (ht : m.threads[id]? = some t) : m'.threads[id]? = some t := by
  obtain ⟨u, s', u', -, -, rfl⟩ := step_eq_some_iff.1 hs
  rw [List.getElem?_set_ne hj]
  exact ht

/-- Some thread has a property if the mover has it or another one does. -/
theorem exists_mem_threads {id : ThreadId} {t : Thread ω} (ht : m.threads[id]? = some t) (P : Thread ω → Prop) :
    (∃ u ∈ m.threads, P u) ↔ P t ∨ ∃ j u, j ≠ id ∧ m.threads[j]? = some u ∧ P u := by
  constructor
  · rintro ⟨u, hu, hP⟩
    obtain ⟨j, hj⟩ := List.mem_iff_getElem?.1 hu
    by_cases hid : j = id
    · subst hid
      cases ht.symm.trans hj
      exact .inl hP
    · exact .inr ⟨j, u, hid, hj, hP⟩
  · rintro (hP | ⟨j, u, -, hu, hP⟩)
    · exact ⟨t, List.mem_of_getElem? ht, hP⟩
    · exact ⟨u, List.mem_of_getElem? hu, hP⟩

/-- After a step, some thread has a property if the mover has it now or another one had it before. -/
theorem exists_mem_threads_set {id : ThreadId} {t t' : Thread ω} (ht : m.threads[id]? = some t)
    (P : Thread ω → Prop) :
    (∃ u ∈ m.threads.set id t', P u) ↔ P t' ∨ ∃ j u, j ≠ id ∧ m.threads[j]? = some u ∧ P u := by
  rw [exists_mem_threads (m := ⟨m.shared, m.threads.set id t'⟩) (threads_set_self ht)]
  refine or_congr_right (exists_congr fun j => exists_congr fun u => and_congr_right fun hj => ?_)
  rw [List.getElem?_set_ne (Ne.symm hj)]

namespace Run

theorem reachable (hr : Run h start past m) : Reachable h start m := by
  induction hr with
  | start => exact .refl
  | step id _ hs ih => exact .step id ih hs

/-- A property that holds at the start and is kept by each step from a moment of the past holds at
the end. -/
theorem invariant (P : Machine ω → Prop) (hs : P start)
    (hstep : ∀ e ∈ past, ∀ m', P e.state → e.state.step h e.mover = some m' → P m')
    (hr : Run h start past m) : P m := by
  induction hr with
  | start => exact hs
  | step id _ hst ih =>
    exact hstep _ (List.mem_cons_self ..) _
      (ih fun e he => hstep e (List.mem_cons_of_mem _ he)) hst

theorem append {mid : Machine ω} (h1 : Run h start past mid) (h2 : Run h mid later m) :
    Run h start (later ++ past) m := by
  induction h2 with
  | start => exact h1
  | step id _ hs ih => exact .step id ih hs

/-- A run can be cut at any place of its past. -/
theorem cut : ∀ {later : List (Moment ω)} {m : Machine ω}, Run h start (later ++ past) m →
    ∃ mid, Run h start past mid ∧ Run h mid later m
  | [], m, hr => ⟨m, hr, .start⟩
  | e :: later, m, hr => by
    cases hr with
    | step id hr hs =>
      obtain ⟨mid, h1, h2⟩ := cut hr
      exact ⟨mid, h1, .step id h2 hs⟩

/-- A run that passed the moment `e` reached its state, took its step and went on. -/
theorem cut_at {e : Moment ω} (hr : Run h start (later ++ e :: past) m) :
    ∃ next, Run h start past e.state ∧ e.state.step h e.mover = some next ∧ Run h next later m := by
  obtain ⟨next, h1, h2⟩ := hr.cut
  cases h1 with
  | step id h1 hs => exact ⟨next, h1, hs, h2⟩

end Run

/-- The run in which the threads of a list take a step each in turn, those that cannot being passed
over, after a run to `m` with the given past. -/
def drive (h : Host ω) (m : Machine ω) : List ThreadId → List (Moment ω) → List (Moment ω) × Machine ω
  | [], past => (past, m)
  | id :: ids, past =>
    match m.step h id with
    | none => drive h m ids past
    | some m' => drive h m' ids (⟨m, id⟩ :: past)

theorem Run.drive : ∀ (ids : List ThreadId) {past : List (Moment ω)} {m : Machine ω}, Run h start past m →
    Run h start (m.drive h ids past).1 (m.drive h ids past).2
  | [], _, _, hr => hr
  | id :: ids, past, m, hr => by
    unfold Machine.drive
    split
    · exact Run.drive ids hr
    · rename_i m' hs
      exact Run.drive ids (.step id hr hs)

end Machine

end Singletons
