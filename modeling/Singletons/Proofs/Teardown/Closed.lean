import Singletons.Proofs.Cache.Slots
import Singletons.Proofs.Machine.Call

/-
The flag that keeps creations from beginning. The destruction of all singletons sets it at once, and then
only two kinds of steps take it back: a request that says so, and, in a registry that reopens, the emptying
at the end of a destruction of all. That may be the destruction at hand, or one that a disposal callback has
begun inside it, or one of another thread: the flag does not tell them apart.

`DestroysAll` follows the thread that destroys, from the first step after the flag is set to the reply.
-/

namespace Singletons

variable {ω : Type}

namespace Cache

variable {c c' : Cache} {k : Name} {w : Window}

theorem inDestruction_abandon : (c.abandon w).1.inDestruction = c.inDestruction := by
  rw [abandon_eq]

theorem inDestruction_closeWith (v : Value) : (c.closeWith w v).inDestruction = c.inDestruction := by
  unfold closeWith
  dsimp only
  split <;> rfl

theorem inDestruction_expose (v : Value) : (c.expose k v).2.inDestruction = c.inDestruction := by
  unfold expose
  split <;> rfl

theorem inDestruction_suppress (f : Failure) : (c.suppress f).2.inDestruction = c.inDestruction := by
  unfold suppress
  split <;> rfl

end Cache

/-- Whether a change lets creations begin again. -/
def Change.resets : Change → Bool
  | openForCreation => true
  | clear reset => reset
  | _ => false

theorem Change.inDestruction_apply {r : Registry} (c : Change) (hc : r.cache.inDestruction = true) :
    (c.apply r).registry.cache.inDestruction = !c.resets := by
  cases c with
  | registerSingleton n v =>
    simp only [Change.apply, Cache.register]
    cases r.cache.contains (r.canonical n) <;> exact hc
  | suppress f => exact (Cache.inDestruction_suppress f).trans hc
  | clear reset => simp [Change.apply, Cache.clear, hc, Change.resets]
  | closeForCreation => rfl
  | openForCreation => rfl
  | registerAlias n a => simp only [Change.apply]; split <;> exact hc
  | removeAlias a => simp only [Change.apply]; split <;> exact hc
  | resolveAliases f => simp only [Change.apply]; split <;> exact hc
  | _ => exact hc

/-- Changes keep to the policy of the registry. -/
theorem Change.reopen_apply {r : Registry} (c : Change) : (c.apply r).registry.reopen = r.reopen := by
  cases c with
  | registerSingleton n v => simp only [Change.apply]; split <;> rfl
  | registerAlias n a => simp only [Change.apply]; split <;> rfl
  | removeAlias a => simp only [Change.apply]; split <;> rfl
  | resolveAliases f => simp only [Change.apply]; split <;> rfl
  | _ => rfl

namespace Thread

/-- Whether the next step of a thread is a change that lets creations begin again. -/
def resets (t : Thread ω) : Bool :=
  match t with
  | ⟨.point (.start (.change c)), _⟩ => c.resets
  | _ => false

/-- Whether the next step of a thread empties the registry. -/
def empties (t : Thread ω) : Bool :=
  match t with
  | ⟨.point (.agenda (.empty :: _)), _⟩ => true
  | _ => false

/-- Whether the next step of a thread takes back the flag that keeps creations from beginning. -/
def reopens (r : Registry) (t : Thread ω) : Bool := t.resets || (t.empties && r.reopen)

variable {h : Host ω} {id : ThreadId} {s s' : Shared ω} {t t' : Thread ω} {fs : List (Frame ω)}

/-- Of the steps that are no changes, only the emptying of a registry that reopens takes the flag back. -/
theorem Deed.inDestruction (hd : Deed h id s t s' t') (hchange : ∀ c fs, t ≠ ⟨.point (.start (.change c)), fs⟩)
    (hc : s.registry.cache.inDestruction = true) :
    s'.registry.cache.inDestruction = !t.reopens s.registry := by
  have hstill : s'.registry.cache.inDestruction = s.registry.cache.inDestruction → t.empties = false →
      s'.registry.cache.inDestruction = !t.reopens s.registry := by
    intro hsame hempties
    have hresets : t.resets = false := by
      unfold resets
      split
      · exact absurd rfl (hchange _ _)
      · rfl
    rw [hsame, hc, reopens, hresets, hempties]
    rfl
  cases hd with
  | idle registry before =>
    obtain ⟨b, hb⟩ := registry
    refine hstill (by rw [hb]) ?_
    unfold empties
    split
    · cases before
    · rfl
  | change c fs => exact absurd rfl (hchange c fs)
  | close fs admitted registry => rw [registry]; rfl
  | plan tasks fs registry origin =>
    refine hstill (by rw [registry]) ?_
    rcases origin with ⟨n, rfl, -⟩ | ⟨rfl, -⟩ <;> rfl
  | task task rest tasks events fs admitted course =>
    cases task with
    | empty =>
      injection course with hr
      rw [← hr]
      simp [Cache.clear, hc, reopens, resets, empties]
    | dispose n d => cases course
    | destroy n => injection course with hr; exact hstill (by rw [← hr]; rfl) rfl
    | _ => injection course with hr; exact hstill (by rw [← hr]) rfl
  | dispose n d rest fs registry => exact hstill (by rw [registry]) rfl
  | disposed r n d rest fs registry => exact hstill (by rw [registry]) rfl
  | dropped text n d rest fs registry => exact hstill (by rw [registry]) rfl
  | ended fs registry => exact hstill (by rw [registry]) rfl
  | create n c w cache fs incomplete accepting => rw [hc] at accepting; cases accepting
  | created w c a fs registry =>
    refine hstill ?_ rfl
    rw [registry]
    exact Cache.inDestruction_closeWith _
  | abandoned w c r fs failed registry =>
    refine hstill ?_ rfl
    rw [registry]
    exact Cache.inDestruction_abandon
  | restore n p r fs registry => exact hstill (by rw [registry]; rfl) rfl
  | expose n p a fs registry =>
    refine hstill ?_ rfl
    rw [registry]
    exact Cache.inDestruction_expose _
  | keep r f fs produced inHook inner other registry => exact hstill (by rw [registry]) rfl

/-- A step from a closed registry leaves it closed unless it reopens it. -/
theorem step_inDestruction (hs : t.step h id s = some (s', t')) (hc : s.registry.cache.inDestruction = true) :
    s'.registry.cache.inDestruction = !t.reopens s.registry := by
  by_cases hchange : ∃ c fs, t = ⟨.point (.start (.change c)), fs⟩
  · obtain ⟨c, fs, rfl⟩ := hchange
    have hreopens : (⟨.point (.start (.change c)), fs⟩ : Thread ω).reopens s.registry = c.resets := Bool.or_false _
    rw [registry_of_change hs, hreopens]
    exact c.inDestruction_apply hc
  · exact (step_deed hs).inDestruction (fun c fs heq => hchange ⟨c, fs, heq⟩) hc

/-- While the registry is closed, no creation begins. -/
theorem Deed.windows_suffix (hd : Deed h id s t s' t') (hc : s.registry.cache.inDestruction = true) :
    windows t'.frames <:+ windows t.frames := by
  cases hd with
  | idle registry before after open_ => exact open_ ▸ List.suffix_rfl
  | create n c w cache fs incomplete accepting => rw [hc] at accepting; cases accepting
  | created w c a fs => exact List.suffix_cons ..
  | abandoned w c r fs failed registry reply =>
    have hframes : t'.frames = fs := by rw [reply]; split <;> rfl
    rw [hframes]
    exact List.suffix_cons ..
  | keep r f fs produced inHook inner other registry after open_ =>
    rw [open_, windows_cons, other]
    exact List.suffix_rfl
  | _ => exact List.suffix_rfl

theorem step_reopen (hs : t.step h id s = some (s', t')) : s'.registry.reopen = s.registry.reopen := by
  cases step_deed hs with
  | idle registry => obtain ⟨b, hb⟩ := registry; rw [hb]
  | change c fs admitted registry => rw [registry]; exact c.reopen_apply
  | task task rest tasks events fs admitted course =>
    cases task with
    | dispose n d => cases course
    | _ => injection course with hr; rw [← hr]
  | close fs admitted registry => rw [registry]
  | create n c w cache fs incomplete accepting opens registry => rw [registry]
  | created w c a fs registry => rw [registry]
  | abandoned w c r fs failed registry => rw [registry]
  | restore n p r fs registry => rw [registry]
  | expose n p a fs registry => rw [registry]
  | keep r f fs produced inHook inner other registry => rw [registry]
  | plan tasks fs registry => rw [registry]
  | dispose n d rest fs registry => rw [registry]
  | disposed r n d rest fs registry => rw [registry]
  | dropped text n d rest fs registry => rw [registry]
  | ended fs registry => rw [registry]

/-- Whether the next step of a thread empties the registry at the end of a destruction of all singletons
that it began with `depth` frames below. -/
def concludes (depth : Nat) (t : Thread ω) : Bool := t.empties && t.frames.length == depth

/-- Where a thread stands in a destruction of all singletons that it began with `fs` below: the names are
gathered, or the agenda is worked on, or one of its disposal callbacks runs; then the registry has been
emptied, and the call returns, if no disposal callback panicked. -/
inductive DestroysAll (fs : List (Frame ω)) : Thread ω → Bool → Prop where
  | gather : DestroysAll fs ⟨.point .gather, fs⟩ false
  | agenda (tasks : List Task) (names : .empty ∉ tasks) :
      DestroysAll fs ⟨.point (.agenda (tasks ++ [.empty])), fs⟩ false
  | disposing {t : Thread ω} (n : Name) (d : Callback) (tasks : List Task) (names : .empty ∉ tasks)
      (above : .disposing n d (tasks ++ [.empty]) :: fs <:+ t.frames) : DestroysAll fs t false
  | emptied : DestroysAll fs ⟨.point (.agenda []), fs⟩ true
  | returned : DestroysAll fs ⟨.reply (.ok .done), fs⟩ true
  | dropped (text : String) : DestroysAll fs ⟨.reply (.panicked text), fs⟩ false

/-- Tasks lead to no emptying. -/
theorem empty_not_mem_of_course {r r' : Registry} {task : Task} {tasks : List Task} {events : List Event}
    (hc : task.course r = .on r' tasks events) : .empty ∉ tasks := by
  cases task with
  | destroy n => cases hc; simp
  | dependents n d => cases hc; cases d <;> simp
  | dispose n d => cases hc
  | parts n => cases hc; simp
  | purge n => cases hc; simp
  | empty => cases hc; simp

/-- A destruction goes on from task to task, and its last one empties the registry. -/
theorem destroysAll_of_agenda {task : Task} {rest : List Task} (hnames : .empty ∉ task :: rest)
    (hs : (⟨.point (.agenda (task :: rest ++ [.empty])), fs⟩ : Thread ω).step h id s = some (s', t')) :
    t'.DestroysAll fs false := by
  have hrest : .empty ∉ rest := fun hm => hnames (List.mem_cons_of_mem _ hm)
  simp only [step, stepPoint, List.cons_append] at hs
  split at hs
  · cases hs
  · split at hs
    · rename_i registry tasks events hc
      cases hs
      rw [goto, ← List.append_assoc]
      refine .agenda _ fun hm => ?_
      rcases List.mem_append.1 hm with hm | hm
      · exact empty_not_mem_of_course hc hm
      · exact hrest hm
    · cases hs
      exact .disposing _ _ rest hrest List.suffix_rfl

/-- A thread goes on with its destruction until it returns from it. -/
theorem DestroysAll.step {b : Bool} (ht : t.DestroysAll fs b) (hw : t.isWithin fs.length = true)
    (hs : t.step h id s = some (s', t')) : t'.DestroysAll fs (t.concludes fs.length || b) := by
  cases ht with
  | gather =>
    cases hs
    exact .agenda _ (by simp)
  | agenda tasks names =>
    cases tasks with
    | nil =>
      simp only [Thread.step, stepPoint, List.nil_append] at hs
      split at hs
      · cases hs
      · cases hs
        have hlast : (⟨.point (.agenda ([] ++ [.empty])), fs⟩ : Thread ω).concludes fs.length = true := by
          simp [concludes, empties]
        rw [hlast]
        exact .emptied
    | cons task rest =>
      have hnot : (⟨.point (.agenda (task :: rest ++ [.empty])), fs⟩ : Thread ω).concludes fs.length = false := by
        cases task with
        | empty => exact absurd (List.mem_cons_self ..) names
        | _ => rfl
      rw [hnot]
      exact destroysAll_of_agenda names hs
  | disposing n d tasks names above =>
    -- the disposal callback runs above the frame, or has just replied to it
    have hnot : t.concludes fs.length = false := by
      have hle := above.length_le
      rw [List.length_cons] at hle
      have hne : (t.frames.length == fs.length) = false := by rw [beq_eq_false_iff_ne]; omega
      rw [concludes, hne, Bool.and_false]
    rw [hnot]
    cases hwithin : t.isWithin (.disposing n d (tasks ++ [.empty]) :: fs).length with
    | true => exact .disposing n d tasks names (suffix_step_of_isWithin above hwithin hs)
    | false =>
      obtain ⟨r, rfl⟩ := eq_of_not_isWithin above hwithin
      cases r with
      | panicked text => cases hs; exact .dropped text
      | _ => cases hs; exact .agenda tasks names
  | emptied => cases hs; exact .returned
  | returned => simp [isWithin] at hw
  | dropped => simp [isWithin] at hw

/-- A destruction that calls anybody has not emptied the registry yet. -/
theorem DestroysAll.eq_false_of_call {b : Bool} {p : Program ω} {gs : List (Frame ω)} (ht : t.DestroysAll fs b)
    (hw : t.isWithin fs.length = true) (hs : t.step h id s = some (s', ⟨.program p, gs⟩)) : b = false := by
  cases ht with
  | emptied => cases hs
  | returned => simp [isWithin] at hw
  | _ => rfl

/-- A destruction that returns has emptied the registry. -/
theorem DestroysAll.eq_true_of_returned {b : Bool} (ht : DestroysAll fs ⟨.reply (.ok .done), fs⟩ b) : b = true := by
  cases ht with
  | returned => rfl
  | disposing n d tasks names above =>
    have hle : fs.length + 1 ≤ fs.length := above.length_le
    omega

end Thread

namespace Moment

/-- Whether the step from a moment is a change that lets creations begin again. -/
def resets (e : Moment ω) : Bool := e.thread?.any (·.resets)

/-- Whether the step from a moment takes back the flag that keeps creations from beginning. -/
def reopens (e : Moment ω) : Bool := e.thread?.any (·.reopens e.shared.registry)

/-- Whether the step from a moment empties the registry at the end of a destruction of all singletons that
thread `id` began with `depth` frames below. -/
def concludes (e : Moment ω) (id : ThreadId) (depth : Nat) : Bool :=
  e.mover == id && e.thread?.any (·.concludes depth)

/-- Whether the callback of a creation is called in the step from a moment. -/
def Begins (h : Host ω) (e : Moment ω) : Prop :=
  ∃ t s' w c, e.thread? = some t ∧
    t.step h e.mover e.shared = some (s', ⟨.program (h.program c .plain), .creating w c :: t.frames⟩)

variable {h : Host ω} {e : Moment ω} {m : Machine ω} {id : ThreadId} {t : Thread ω}

theorem resets_eq (ht : m.threads[id]? = some t) : (⟨m, id⟩ : Moment ω).resets = t.resets := by
  simp only [resets, thread?, ht, Option.any_some]

theorem reopens_eq (ht : m.threads[id]? = some t) :
    (⟨m, id⟩ : Moment ω).reopens = t.reopens m.shared.registry := by
  simp only [reopens, thread?, ht, Option.any_some, shared]

theorem concludes_eq (ht : m.threads[id]? = some t) (depth : Nat) :
    (⟨m, id⟩ : Moment ω).concludes id depth = t.concludes depth := by
  simp only [concludes, thread?, ht, Option.any_some, beq_self_eq_true, Bool.true_and]

/-- Creations begin in an open registry only. -/
theorem Begins.inDestruction (hb : e.Begins h) : e.shared.registry.cache.inDestruction = false := by
  obtain ⟨t, s', w, c, -, hs⟩ := hb
  rw [Bool.eq_false_iff]
  intro hc
  have hle : (windows t.frames).length + 1 ≤ (windows t.frames).length :=
    ((Thread.step_deed hs).windows_suffix hc).length_le
  omega

end Moment

namespace Machine

variable {h : Host ω} {m m' m₀ m₁ : Machine ω} {id : ThreadId} {fs : List (Frame ω)} {seg : List (Moment ω)}

/-- A closed registry stays closed exactly as long as no step reopens it. -/
theorem Run.closed_iff (hc : m₁.shared.registry.cache.inDestruction = true) (hr : Run h m₁ seg m) :
    ((∀ e ∈ seg, e.shared.registry.cache.inDestruction = true) ∧ m.shared.registry.cache.inDestruction = true) ↔
      ∀ e ∈ seg, e.reopens = false := by
  induction hr with
  | start => simp [hc]
  | @step seg m m' id hr hs ih =>
    obtain ⟨t, s', t', ht, hst, rfl⟩ := step_eq_some_iff.1 hs
    rw [List.forall_mem_cons, List.forall_mem_cons, ← ih, Moment.reopens_eq ht]
    constructor
    · rintro ⟨⟨hnow, halong⟩, hnext⟩
      have hflag := (Thread.step_inDestruction hst hnow).symm.trans hnext
      exact ⟨by simpa using hflag, halong, hnow⟩
    · rintro ⟨hkeeps, halong, hnow⟩
      refine ⟨⟨hnow, halong⟩, ?_⟩
      show s'.registry.cache.inDestruction = true
      rw [Thread.step_inDestruction hst hnow, hkeeps]
      rfl

/-- What was closed and is open was reopened. -/
theorem Run.exists_reopens (hc : m₁.shared.registry.cache.inDestruction = true) (hr : Run h m₁ seg m)
    (hopen : m.shared.registry.cache.inDestruction = false) : ∃ e ∈ seg, e.reopens = true := by
  refine Classical.byContradiction fun hnone => ?_
  have hkept := (hr.closed_iff hc).2 fun e he => Bool.eq_false_iff.2 fun hreopens => hnone ⟨e, he, hreopens⟩
  rw [hkept.2] at hopen
  cases hopen

/-- The thread that destroys all singletons goes on with that until it returns. -/
theorem Run.destroysAll (hr : Run h m₁ seg m) (ht : m₁.threads[id]? = some ⟨.point .gather, fs⟩)
    (hu : Underway id fs.length seg) :
    ∃ t, m.threads[id]? = some t ∧ t.DestroysAll fs (seg.any (·.concludes id fs.length)) := by
  induction hr with
  | start => exact ⟨_, ht, .gather⟩
  | @step seg m m' j hr hs ih =>
    obtain ⟨t, hid, hdestroys⟩ := ih fun e he => hu e (List.mem_cons_of_mem _ he)
    rw [List.any_cons]
    by_cases hj : j = id
    · subst hj
      obtain ⟨s', t', hst, rfl⟩ := exists_of_step hs hid
      rw [Moment.concludes_eq hid]
      exact ⟨t', threads_set_self hid, hdestroys.step (hu.isWithin hid) hst⟩
    · have hnot : (⟨m, j⟩ : Moment ω).concludes id fs.length = false := by simp [Moment.concludes, hj]
      rw [hnot, Bool.false_or]
      exact ⟨t, threads_of_ne hs hj hid, hdestroys⟩

/-- A destruction of all singletons closes the registry before it does anything else. -/
theorem step_of_destroyAll (ht : m₀.threads[id]? = some ⟨.point (.start .destroyAll), fs⟩)
    (hs : m₀.step h id = some m₁) : m₀.shared.mutex.admits id = true ∧
      m₁.threads = m₀.threads.set id ⟨.point .gather, fs⟩ ∧
      m₁.shared = m₀.shared.withCache (m₀.shared.registry.cache.setInDestruction true) := by
  obtain ⟨s', t', hst, rfl⟩ := exists_of_step hs ht
  simp only [Thread.step, Thread.stepPoint, Thread.stepStart] at hst
  split at hst
  · rename_i hadmits
    cases hst
    exact ⟨hadmits, rfl, rfl⟩
  · cases hst

/-- What a destruction of all singletons keeps from beginning, whatever disposal callbacks and other threads
do. The registry is closed while it is under way exactly as long as no step reopens it; and when the callback
of a creation is called meanwhile, an earlier step has reopened the registry. For a creation by a disposal
callback that step was not the end of this destruction: it was a change that says so or, in a registry that
reopens, the end of another destruction, which a disposal callback or another thread had begun. -/
theorem Run.closed_while_destroying (ht : m₀.threads[id]? = some ⟨.point (.start .destroyAll), fs⟩)
    (hs : m₀.step h id = some m₁) (hr : Run h m₁ seg m) (hu : Underway id fs.length seg) :
    (((∀ e ∈ seg, e.shared.registry.cache.inDestruction = true) ∧
        m.shared.registry.cache.inDestruction = true) ↔ ∀ e ∈ seg, e.reopens = false) ∧
      ∀ (later : List (Moment ω)) (e : Moment ω) (earlier : List (Moment ω)), seg = later ++ e :: earlier →
        e.Begins h → ∃ e' ∈ earlier, e'.reopens = true ∧ (e.mover = id → e'.concludes id fs.length = false) := by
  obtain ⟨-, hthreads, hshared⟩ := step_of_destroyAll ht hs
  have hclosed : m₁.shared.registry.cache.inDestruction = true := by rw [hshared]; rfl
  have hgather : m₁.threads[id]? = some ⟨.point .gather, fs⟩ := by rw [hthreads]; exact threads_set_self ht
  refine ⟨hr.closed_iff hclosed, ?_⟩
  rintro later e earlier rfl hbegins
  obtain ⟨-, hearlier, -, -⟩ := hr.cut_at
  obtain ⟨e', he', hreopens⟩ := hearlier.exists_reopens hclosed hbegins.inDestruction
  refine ⟨e', he', hreopens, fun hmover => ?_⟩
  obtain ⟨t, hid, hdestroys⟩ := hearlier.destroysAll hgather fun e he =>
    hu e (List.mem_append_right _ (List.mem_cons_of_mem _ he))
  obtain ⟨u, s', w, c, hthread, hst⟩ := hbegins
  rw [Moment.thread?, hmover, hid] at hthread
  cases hthread
  have hwithin := hu e (List.mem_append_right _ (List.mem_cons_self ..))
  rw [hid] at hwithin
  have hnot := hdestroys.eq_false_of_call hwithin hst
  simpa using List.any_eq_false.1 hnot e' he'

/-- A disposal callback that destroys all singletons and has one created then. -/
def rebuildingHost : Host Unit where
  program c _ :=
    if c = 0 then .request .destroyAll fun _ => .request (.getOrCreate "x" 1) fun _ => .finish (.ok .done)
    else .yield none
  observe _ w := w

/-- What a caller of a destruction has waiting for it. -/
def destroyerFrames : List (Frame Unit) := [.caller fun _ => .finish (.ok .done)]

/-- A caller that registers such a callback and destroys all singletons, in a registry that reopens or not. -/
def rebuildingStart (reopen : Bool) : Machine Unit :=
  ofPrograms { reopen } () [.request (.change (.registerDisposal "a" 0)) fun _ =>
    .request .destroyAll fun _ => .finish (.ok .done)]

/-- The machine when the destruction is about to begin. -/
def armed (reopen : Bool) : Machine Unit := ((rebuildingStart reopen).drive rebuildingHost (List.replicate 4 0) []).2

/-- The machine when the destruction has begun. -/
def destroying (reopen : Bool) : Machine Unit := ((armed reopen).drive rebuildingHost [0] []).2

/-- The steps of the destruction up to the reply to the request for a creation, or up to the call of its
callback. -/
def rebuildingRun (reopen : Bool) : List (Moment Unit) × Machine Unit :=
  (destroying reopen).drive rebuildingHost (List.replicate 14 0) []

theorem thread_armed (reopen : Bool) :
    (armed reopen).threads[0]? = some ⟨.point (.start .destroyAll), destroyerFrames⟩ := rfl

theorem step_armed (reopen : Bool) : (armed reopen).step rebuildingHost 0 = some (destroying reopen) := rfl

theorem run_rebuildingRun (reopen : Bool) :
    Run rebuildingHost (destroying reopen) (rebuildingRun reopen).1 (rebuildingRun reopen).2 := .drive _ .start

theorem begins_rebuildingRun :
    ∃ e earlier, (rebuildingRun true).1 = e :: earlier ∧ e.mover = 0 ∧ e.Begins rebuildingHost :=
  ⟨_, _, rfl, rfl, _, _, _, 1, rfl, rfl⟩

/-- A registry that does not reopen refuses the creation. In one that does, the destruction inside the
disposal callback has reopened it. -/
theorem closed_while_destroying_rebuildingRun :
    (∀ e ∈ (rebuildingRun false).1, e.shared.registry.cache.inDestruction = true) ∧
      ∃ e earlier, (rebuildingRun true).1 = e :: earlier ∧ e.Begins rebuildingHost ∧
        ∃ e' ∈ earlier, e'.reopens = true ∧ e'.concludes 0 1 = false := by
  have hclosed := Run.closed_while_destroying (thread_armed false) (step_armed false) (run_rebuildingRun false)
    (by decide)
  have hbegins := Run.closed_while_destroying (thread_armed true) (step_armed true) (run_rebuildingRun true)
    (by decide)
  obtain ⟨e, earlier, hrun, hmover, he⟩ := begins_rebuildingRun
  obtain ⟨e', he', hreopens, hother⟩ := hbegins.2 [] e earlier hrun he
  exact ⟨(hclosed.1.2 (by decide)).1, e, earlier, hrun, he, e', he', hreopens, hother hmover⟩

/-- The callback of a creation is called while all singletons are being destroyed, although no request says
that creations may begin again: the end of the destruction inside a disposal callback does. -/
theorem creation_begins_while_destroying :
    ∃ (seg : List (Moment Unit)) (m₁ m : Machine Unit),
      Reachable rebuildingHost (rebuildingStart true) (armed true) ∧
        (armed true).threads[0]? = some ⟨.point (.start .destroyAll), destroyerFrames⟩ ∧
        (armed true).step rebuildingHost 0 = some m₁ ∧ Run rebuildingHost m₁ seg m ∧
        Underway 0 destroyerFrames.length seg ∧ (∀ e ∈ seg, e.resets = false) ∧
        ∃ e ∈ seg, e.Begins rebuildingHost := by
  obtain ⟨e, earlier, hrun, -, hbegins⟩ := begins_rebuildingRun
  exact ⟨(rebuildingRun true).1, _, (rebuildingRun true).2, (Run.drive _ .start).reachable, thread_armed true,
    step_armed true, run_rebuildingRun true, by decide, by decide, e, by rw [hrun]; exact .head _, hbegins⟩

end Machine

end Singletons
