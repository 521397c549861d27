import Singletons.Proofs.Creation.OneInstance
import Singletons.Proofs.Creation.Bookkeeping
import Singletons.Proofs.Cache.Tables
import Singletons.Proofs.Teardown.Closed

/-
The registry after a destruction of all singletons. Its emptying leaves no complete name, and a closed
registry lets no creation begin; so all that can complete a name are the creations that were under way when
the destruction began. The mutex keeps those to the thread that destroys (`Confined`), and there they wait
below the call, so they end after it has returned.
-/

namespace Singletons

variable {ω : Type}

namespace Thread

/-- Whether the next step of a thread registers an instance. -/
def registers (t : Thread ω) : Bool :=
  match t with
  | ⟨.point (.start (.change (.registerSingleton ..))), _⟩ => true
  | _ => false

variable {h : Host ω} {id : ThreadId} {s s' : Shared ω} {t t' : Thread ω} {fs : List (Frame ω)} {n : Name}
  {v : Value}

/-- A step that registers no instance completes a name by the value that a creation of it ends with. -/
theorem completes?_eq_some_iff {r : Registry} (ht : t.registers = false) :
    t.completes? r = some n ↔ (t.yield? n).isSome = true := by
  unfold registers at ht
  unfold completes? yield?
  split
  · cases ht
  · rw [Option.some.injEq]
    split <;> simp_all
  · rename_i hcreated
    split
    · exact absurd rfl (hcreated _ _ _ _)
    · simp

/-- A value that a creation ends with is that of the innermost creation under way. -/
theorem exists_of_yield (hy : t.yield? n = some v) :
    ∃ a w c fs, t = ⟨.reply (.ok a), .creating w c :: fs⟩ ∧ w.name = n := by
  unfold yield? at hy
  split at hy
  · rename_i a w c fs
    split at hy
    · rename_i hname; exact ⟨a, w, c, fs, rfl, hname⟩
    · cases hy
  · cases hy

/-- A thread that destroys all singletons ends no creation on the way, if it has none under way but those
below. -/
theorem DestroysAll.yield?_eq_none {b : Bool} (ht : t.DestroysAll fs b) (hw : t.isWithin fs.length = true)
    (hmine : windows t.frames <:+ windows fs) : t.yield? n = none := by
  cases hy : t.yield? n with
  | none => rfl
  | some v =>
    obtain ⟨a, w, c, gs, rfl, -⟩ := exists_of_yield hy
    cases ht with
    | returned => simp [isWithin] at hw
    | disposing k d tasks names above =>
      rcases List.suffix_cons_iff.1 above with heq | hsuffix
      · cases heq
      · -- the creation would stand above the call
        have hbelow : windows fs <:+ windows gs := ((List.suffix_cons ..).trans hsuffix).filterMap _
        have hle : (windows gs).length + 1 ≤ (windows gs).length := (hmine.trans hbelow).length_le
        omega

end Thread

namespace Moment

/-- Whether the step from a moment registers an instance. -/
def registers (e : Moment ω) : Bool := e.thread?.any (·.registers)

variable {m : Machine ω} {id : ThreadId} {t : Thread ω}

theorem registers_eq (ht : m.threads[id]? = some t) : (⟨m, id⟩ : Moment ω).registers = t.registers := by
  simp only [registers, thread?, ht, Option.any_some]

end Moment

namespace Machine

variable {h : Host ω} {start m m' m₀ m₁ m₂ : Machine ω} {id j : ThreadId} {t : Thread ω} {fs : List (Frame ω)}
  {past seg during : List (Moment ω)} {ws : List Cache.Window} {n : Name} {v : Value}

/-- No name is complete. -/
structure Bare (m : Machine ω) : Prop where
  count : m.shared.registry.cache.count = 0
  incomplete : ∀ n, m.complete? n = none

theorem bare_iff :
    m.Bare ↔ m.shared.registry.cache.names = [] ∧ ∀ n, m.shared.registry.cache.contains n = false := by
  have hnames : m.shared.registry.cache.count = 0 ↔ m.shared.registry.cache.names = [] :=
    List.length_eq_zero_iff
  constructor
  · rintro ⟨hcount, hnone⟩
    exact ⟨hnames.1 hcount, fun n => Option.isSome_eq_false_iff.2 (Option.isNone_iff_eq_none.2 (hnone n))⟩
  · rintro ⟨hlist, hnone⟩
    exact ⟨hnames.2 hlist, fun n => Option.isNone_iff_eq_none.1 (Option.isSome_eq_false_iff.1 (hnone n))⟩

/-- The emptying of the registry leaves no complete name. -/
theorem bare_of_empties (ho : m.Orderly) (hs : m.step h id = some m') (ht : m.threads[id]? = some t)
    (he : t.empties = true) : m'.Bare := by
  obtain ⟨s', t', hst, rfl⟩ := exists_of_step hs ht
  have hm := Thread.step_tableMove hst fun n => ho.vacant id t n ht
  unfold Thread.empties at he
  split at he
  · rw [bare_iff]
    refine ⟨?_, fun n => ?_⟩
    · show s'.registry.cache.names = []
      rw [hm.names]
      simp [Thread.removes, Thread.completes?]
    · rw [Bool.eq_false_iff, Ne, hm.complete n]
      simp [Thread.removes, Thread.completes?]
  · cases he

/-- Where no name is complete, a step that registers no instance leaves it so unless a creation ends with a
value. -/
theorem Bare.step_iff (hb : m.Bare) (ho : m.Orderly) (hs : m.step h id = some m')
    (hr : (⟨m, id⟩ : Moment ω).registers = false) : m'.Bare ↔ ∀ n, (⟨m, id⟩ : Moment ω).yield? n = none := by
  obtain ⟨t, s', t', ht, hst, rfl⟩ := step_eq_some_iff.1 hs
  rw [Moment.registers_eq ht] at hr
  have hm := Thread.step_tableMove hst fun n => ho.vacant id t n ht
  obtain ⟨hlist, hnone⟩ := bare_iff.1 hb
  have hcomplete : ∀ n, s'.registry.cache.contains n = true ↔ (t.yield? n).isSome = true := fun n => by
    rw [hm.complete n, Thread.completes?_eq_some_iff hr, hnone n]
    simp
  simp only [bare_iff, Moment.yield?_eq ht]
  constructor
  · rintro ⟨-, hnone'⟩ n
    have hyield := (hcomplete n).not.1 (by rw [hnone' n]; exact Bool.false_ne_true)
    simpa using hyield
  · intro hyields
    refine ⟨?_, fun n => ?_⟩
    · have hcompletes : t.completes? m.shared.registry = none := by
        cases hc : t.completes? m.shared.registry with
        | none => rfl
        | some n =>
          have := (Thread.completes?_eq_some_iff hr).1 hc
          rw [hyields n] at this
          cases this
      rw [hm.names, hlist, hcompletes]
      rfl
    · rw [Bool.eq_false_iff, Ne, hcomplete n, hyields n]
      exact Bool.false_ne_true

/-- The registry is closed and stays so at the end of a destruction, and nobody has a creation under way but
thread `id`, which has none but those of `ws`. -/
structure Confined (id : ThreadId) (ws : List Cache.Window) (m : Machine ω) : Prop where
  closed : m.shared.registry.cache.inDestruction = true
  policy : m.shared.registry.reopen = false
  mine : ∀ t, m.threads[id]? = some t → windows t.frames <:+ ws
  others : ∀ (j : ThreadId) (t : Thread ω), j ≠ id → m.threads[j]? = some t → windows t.frames = []

theorem Confined.step (hc : m.Confined id ws) (hs : m.step h j = some m')
    (hr : (⟨m, j⟩ : Moment ω).resets = false) : m'.Confined id ws := by
  obtain ⟨t, s', t', ht, hst, rfl⟩ := step_eq_some_iff.1 hs
  rw [Moment.resets_eq ht] at hr
  have hwindows := (Thread.step_deed hst).windows_suffix hc.closed
  refine ⟨?_, (Thread.step_reopen hst).trans hc.policy, fun u hu => ?_, fun k u hk hu => ?_⟩
  · have hkeeps : t.reopens m.shared.registry = false := by
      rw [Thread.reopens, hr, hc.policy, Bool.and_false, Bool.or_false]
    show s'.registry.cache.inDestruction = true
    rw [Thread.step_inDestruction hst hc.closed, hkeeps]
    rfl
  · rcases threads_set ht hu with ⟨rfl, rfl⟩ | ⟨-, hu⟩
    · exact hwindows.trans (hc.mine t ht)
    · exact hc.mine u hu
  · rcases threads_set ht hu with ⟨rfl, rfl⟩ | ⟨-, hu⟩
    · rw [hc.others k t hk ht] at hwindows
      exact List.suffix_nil.1 hwindows
    · exact hc.others k u hk hu

theorem Confined.run (hc : m₁.Confined id ws) (hr : Run h m₁ seg m) (hresets : ∀ e ∈ seg, e.resets = false) :
    m.Confined id ws :=
  hr.invariant (Confined id ws) hc fun e he _ hc hs => hc.step hs (hresets e he)

theorem Confined.of_mem (hc : m₁.Confined id ws) (hr : Run h m₁ seg m) (hresets : ∀ e ∈ seg, e.resets = false)
    {e : Moment ω} (he : e ∈ seg) : e.state.Confined id ws := by
  obtain ⟨later, earlier, rfl⟩ := List.append_of_mem he
  obtain ⟨-, h1, -, -⟩ := hr.cut_at
  exact hc.run h1 fun e he => hresets e (List.mem_append_right _ (List.mem_cons_of_mem _ he))

/-- All that ends with a value in a closed registry are the creations to which it is confined. -/
theorem Confined.of_yield (hc : m.Confined id ws) (hy : (⟨m, j⟩ : Moment ω).yield? n = some v) :
    j = id ∧ ∃ w ∈ ws, w.name = n := by
  obtain ⟨t, ht, hy⟩ := Option.bind_eq_some_iff.1 hy
  obtain ⟨a, w, c, gs, rfl, hname⟩ := Thread.exists_of_yield hy
  have hw : w ∈ windows (.creating w c :: gs) := by simp [Frame.window?]
  by_cases hj : j = id
  · subst hj
    exact ⟨rfl, w, (hc.mine _ ht).mem hw, hname⟩
  · rw [hc.others j _ hj ht] at hw
    cases hw

/-- A destruction of all singletons that begins confines the registry to the creations below: the thread
needs the mutex for its first step, so no other one has a creation under way. -/
theorem confined_of_destroyAll (hd : m₀.Disciplined) (hpolicy : m₀.shared.registry.reopen = false)
    (ht : m₀.threads[id]? = some ⟨.point (.start .destroyAll), fs⟩) (hs : m₀.step h id = some m₁) :
    m₁.Confined id (windows fs) := by
  obtain ⟨hadmits, hthreads, hshared⟩ := step_of_destroyAll ht hs
  refine ⟨by rw [hshared]; rfl, by rw [hshared]; exact hpolicy, fun u hu => ?_, fun j u hj hu => ?_⟩
  · rw [hthreads, threads_set_self ht] at hu
    cases hu
    exact List.suffix_rfl
  · rw [hthreads, List.getElem?_set_ne (Ne.symm hj)] at hu
    refine Classical.byContradiction fun hw => ?_
    have hpos := (hd.seated j u hu).guards_pos_of_windows hw
    rw [hd.times j u hu] at hpos
    have hrefused := Mutex.not_admits_of_times_pos hpos (Ne.symm hj)
    rw [hadmits] at hrefused
    cases hrefused

/-- From its last task to its return, a destruction of all singletons leaves no complete name, as long as
other threads register no instance. -/
theorem Run.bare_of_concluded (ho : m₁.Orderly) (hc : m₁.Confined id (windows fs)) (hr : Run h m₁ seg m)
    (ht : m₁.threads[id]? = some ⟨.point .gather, fs⟩) (hu : Underway id fs.length seg)
    (hresets : ∀ e ∈ seg, e.resets = false) (hregisters : ∀ e ∈ seg, e.registers = true → e.mover = id) :
    seg.any (·.concludes id fs.length) = true → m.Bare := by
  induction hr with
  | start => intro hflag; cases hflag
  | @step seg m m' j hr hs ih =>
    have hpast {P : Moment ω → Prop} (hall : ∀ e ∈ (⟨m, j⟩ : Moment ω) :: seg, P e) : ∀ e ∈ seg, P e :=
      fun e he => hall e (List.mem_cons_of_mem _ he)
    have hbare := ih (hpast hu) (hpast hresets) (hpast hregisters)
    have hm := ho.run hr
    have hconfined := hc.run hr (hpast hresets)
    obtain ⟨t, hid, hdestroys⟩ := hr.destroysAll ht (hpast hu)
    rw [List.any_cons, Bool.or_eq_true]
    intro hflag
    by_cases hnow : (⟨m, j⟩ : Moment ω).concludes id fs.length = true
    · -- the last task empties the registry
      obtain ⟨hj, -⟩ := Bool.and_eq_true_iff.1 hnow
      cases beq_iff_eq.1 hj
      rw [Moment.concludes_eq hid, Thread.concludes, Bool.and_eq_true] at hnow
      exact bare_of_empties hm hs hid hnow.1
    · have hbefore := hflag.resolve_left hnow
      rw [hbefore] at hdestroys
      refine ((hbare hbefore).step_iff hm hs ?_).2 fun n => ?_
      · -- the thread itself has no request left to make
        by_cases hj : j = id
        · subst hj
          rw [Moment.registers_eq hid]
          cases hdestroys <;> rfl
        · rw [Bool.eq_false_iff]
          exact fun hregister => hj (hregisters _ (List.mem_cons_self ..) hregister)
      · cases hy : (⟨m, j⟩ : Moment ω).yield? n with
        | none => rfl
        | some v =>
          obtain ⟨rfl, -⟩ := hconfined.of_yield hy
          rw [Moment.yield?_eq hid,
            hdestroys.yield?_eq_none (hu.isWithin hid) (hconfined.mine t hid)] at hy
          cases hy

/-- Without registrations, no name becomes complete exactly as long as no creation ends with a value. -/
theorem Run.bare_along_iff (ho : m₂.Orderly) (hb : m₂.Bare) (hr : Run h m₂ seg m)
    (hregisters : ∀ e ∈ seg, e.registers = false) :
    ((∀ e ∈ seg, e.state.Bare) ∧ m.Bare) ↔ ∀ e ∈ seg, ∀ n, e.yield? n = none := by
  induction hr with
  | start => simp [hb]
  | @step seg m m' j hr hs ih =>
    have ih := ih fun e he => hregisters e (List.mem_cons_of_mem _ he)
    have hstep := fun hb : m.Bare => hb.step_iff (ho.run hr) hs (hregisters _ (List.mem_cons_self ..))
    rw [List.forall_mem_cons, List.forall_mem_cons, ← ih]
    constructor
    · rintro ⟨⟨hnow, halong⟩, hnext⟩
      exact ⟨(hstep hnow).1 hnext, halong, hnow⟩
    · rintro ⟨hyields, halong, hnow⟩
      exact ⟨⟨hnow, halong⟩, (hstep hnow).2 hyields⟩

theorem Run.reopen_eq (hr : Run h start past m) : m.shared.registry.reopen = start.shared.registry.reopen :=
  hr.invariant (fun m => m.shared.registry.reopen = start.shared.registry.reopen) rfl fun e _ m' hsame hs => by
    obtain ⟨t, s', t', -, hst, rfl⟩ := step_eq_some_iff.1 hs
    exact (Thread.step_reopen hst).trans hsame

/-- What becomes of a registry that does not reopen once all singletons have been destroyed, wherever the
destruction was asked for. From its return on, as long as nobody says that creations may begin again or
registers an instance, no name is complete, exactly until a creation ends with a value. Only the creations
that the same thread had under way below the call may do that; without any, the registry stays empty. -/
theorem Run.emptied_iff {r : Registry} {w : ω} {programs : List (Program ω)} (hreopen : r.reopen = false)
    (hr : Run h (ofPrograms r w programs) past m₀)
    (ht : m₀.threads[id]? = some ⟨.point (.start .destroyAll), fs⟩) (hs : m₀.step h id = some m₁)
    (hduring : Run h m₁ during m₂) (hu : Underway id fs.length during)
    (hreturn : m₂.threads[id]? = some ⟨.reply (.ok .done), fs⟩) (hseg : Run h m₂ seg m)
    (hresets : ∀ e ∈ seg ++ during, e.resets = false) (hregisters : ∀ e ∈ seg, e.registers = false)
    (hothers : ∀ e ∈ during, e.registers = true → e.mover = id) :
    (((∀ e ∈ seg, e.state.Bare) ∧ m.Bare) ↔ ∀ e ∈ seg, ∀ n, e.yield? n = none) ∧
      ∀ e ∈ seg, ∀ n v, e.yield? n = some v → e.mover = id ∧ ∃ w ∈ windows fs, w.name = n := by
  have ho := (ofPrograms_orderly r w programs).run hr
  have ho₁ := ho.step hs
  have hconfined := confined_of_destroyAll ho.disciplined (hr.reopen_eq.trans hreopen) ht hs
  have hgather : m₁.threads[id]? = some ⟨.point .gather, fs⟩ := by
    rw [(step_of_destroyAll ht hs).2.1]
    exact threads_set_self ht
  have hresets₁ := fun e he => hresets e (List.mem_append_right _ he)
  have hresets₂ := fun e he => hresets e (List.mem_append_left _ he)
  obtain ⟨t, hid, hdestroys⟩ := hduring.destroysAll hgather hu
  cases hreturn.symm.trans hid
  have hbare := hduring.bare_of_concluded ho₁ hconfined hgather hu hresets₁ hothers hdestroys.eq_true_of_returned
  refine ⟨hseg.bare_along_iff (ho₁.run hduring) hbare hregisters, fun e he n v hy => ?_⟩
  exact ((hconfined.run hduring hresets₁).of_mem hseg hresets₂ he).of_yield hy

/-- The callback of a creation that destroys all singletons before it yields an instance. -/
def clearingHost : Host Unit where
  program c _ := if c = 0 then .request .destroyAll fun _ => .yield (some ⟨1, .unit⟩) else .yield none
  observe _ w := w

/-- A caller that has `a` created by this callback. -/
def clearingStart : Machine Unit := ofPrograms {} () [.request (.getOrCreate "a" 0) fun _ => .finish (.ok .done)]

/-- What the destruction has below it: the program of the callback, the creation of `a` and the caller. -/
def clearingFrames : List (Frame Unit) :=
  [.caller fun _ => .yield (some ⟨1, .unit⟩), .creating ⟨"a", true, true⟩ 0, .guarded,
    .caller fun _ => .finish (.ok .done)]

/-- Some steps of the caller. The destruction begins with the sixth and has returned after the ninth. -/
def clearingRun (steps : Nat) : List (Moment Unit) × Machine Unit :=
  clearingStart.drive clearingHost (List.replicate steps 0) []

/-- The machine after some steps of the caller. -/
def cleared (steps : Nat) : Machine Unit := (clearingRun steps).2

theorem run_clearingRun (steps : Nat) : Run clearingHost clearingStart (clearingRun steps).1 (cleared steps) :=
  .drive _ .start

/-- The steps of the destruction. -/
def destroyedRun : List (Moment Unit) × Machine Unit := (cleared 6).drive clearingHost (List.replicate 3 0) []

/-- The steps after the return. -/
def returnedRun (steps : Nat) : List (Moment Unit) × Machine Unit :=
  destroyedRun.2.drive clearingHost (List.replicate steps 0) []

theorem thread_cleared : (cleared 5).threads[0]? = some ⟨.point (.start .destroyAll), clearingFrames⟩ := rfl

theorem step_cleared : (cleared 5).step clearingHost 0 = some (cleared 6) := rfl

theorem run_destroyedRun : Run clearingHost (cleared 6) destroyedRun.1 destroyedRun.2 := .drive _ .start

theorem run_returnedRun (steps : Nat) :
    Run clearingHost destroyedRun.2 (returnedRun steps).1 (returnedRun steps).2 := .drive _ .start

theorem moments_returnedRun : (returnedRun 3).1 = ⟨cleared 11, 0⟩ :: (returnedRun 2).1 := rfl

/-- The creation of `a`, which was under way, ends with its instance after the return. -/
theorem yield?_returnedRun : (⟨cleared 11, 0⟩ : Moment Unit).yield? "a" = some (some ⟨1, .unit⟩) := by decide

/-- No name is complete after the return until the creation of `a` ends. -/
theorem emptied_iff_returnedRun :
    ((∀ e ∈ (returnedRun 2).1, e.state.Bare) ∧ (returnedRun 2).2.Bare) ∧
      ¬ ((∀ e ∈ (returnedRun 3).1, e.state.Bare) ∧ (returnedRun 3).2.Bare) ∧
      ∃ w ∈ windows clearingFrames, w.name = "a" := by
  have htwo := Run.emptied_iff (r := {}) rfl (run_clearingRun 5) thread_cleared step_cleared run_destroyedRun
    (by decide) rfl (run_returnedRun 2) (by decide) (by decide) (by decide)
  have hthree := Run.emptied_iff (r := {}) rfl (run_clearingRun 5) thread_cleared step_cleared run_destroyedRun
    (by decide) rfl (run_returnedRun 3) (by decide) (by decide) (by decide)
  have hlast : (⟨cleared 11, 0⟩ : Moment Unit) ∈ (returnedRun 3).1 := by
    rw [moments_returnedRun]
    exact .head _
  refine ⟨htwo.1.2 ?_, fun hbare => ?_, (hthree.2 _ hlast "a" _ yield?_returnedRun).2⟩
  · show ∀ e ∈ [⟨cleared 10, 0⟩, ⟨cleared 9, 0⟩], ∀ n, Moment.yield? e n = none
    exact List.forall_mem_cons.2 ⟨fun _ => rfl, List.forall_mem_singleton.2 fun _ => rfl⟩
  · have hnone := hthree.1.1 hbare _ hlast "a"
    rw [yield?_returnedRun] at hnone
    cases hnone

/-- A name is complete after all singletons have been destroyed in a registry that does not reopen, although
nobody says that creations may begin again and nobody registers an instance. -/
theorem complete_after_destroyAll :
    ∃ (during seg : List (Moment Unit)) (m₀ m₁ m₂ m : Machine Unit),
      Reachable clearingHost clearingStart m₀ ∧ clearingStart.shared.registry.reopen = false ∧
        m₀.threads[0]? = some ⟨.point (.start .destroyAll), clearingFrames⟩ ∧
        m₀.step clearingHost 0 = some m₁ ∧ Run clearingHost m₁ during m₂ ∧
        Underway 0 clearingFrames.length during ∧
        m₂.threads[0]? = some ⟨.reply (.ok .done), clearingFrames⟩ ∧ Run clearingHost m₂ seg m ∧
        (∀ e ∈ seg ++ during, e.resets = false ∧ e.registers = false) ∧
        m.shared.registry.cache.count = 1 ∧ m.complete? "a" = some (some ⟨1, .unit⟩) :=
  ⟨destroyedRun.1, (returnedRun 3).1, cleared 5, cleared 6, destroyedRun.2, (returnedRun 3).2,
    (run_clearingRun 5).reachable, rfl, thread_cleared, step_cleared, run_destroyedRun, by decide, rfl,
    run_returnedRun 3, by decide, by decide, by decide⟩

end Machine

end Singletons
