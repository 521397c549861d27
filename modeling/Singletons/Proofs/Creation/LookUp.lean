import Singletons.Proofs.Creation.Bookkeeping
import Singletons.Proofs.Creation.OneInstance
import Singletons.Proofs.Machine.Call

/-
Look-ups by threads that do not create the name themselves. Whoever looks under the mutex is alone with
the cache: if the name is in creation, the creation is the thread's own. So a look-up by another thread
asks no early producer and sees no early reference; it finds the value of the complete name or nothing.

It finds nothing also for a name that is complete by then: the two looks without the mutex are separate,
and a creation that ends between them is taken for one that has never begun (`Sought.gaveUp`).
-/

namespace Singletons

variable {ω : Type}

namespace Mutex

theorem isHeldBy_of_times_pos {m : Mutex} {id : ThreadId} (h : 0 < m.times id) : m.isHeldBy id = true := by
  cases m with
  | free => simp [times] at h
  | held u k =>
    by_cases hu : u = id
    · simp [isHeldBy, hu]
    · simp [times, hu] at h

end Mutex

namespace Cache

variable {c : Cache} {n : Name}

theorem isInCreation_eq_false_of_complete? {v : Value} (h : c.complete? n = some v) : c.isInCreation n = false := by
  rw [Bool.eq_false_iff]
  intro hin
  obtain ⟨e, he⟩ := isInCreation_iff.1 hin
  rw [complete?_eq_some_iff.1 h] at he
  cases he

end Cache

/-- The look-up that the first step of a request begins: the name, whether an early producer may be asked,
and the frames below. -/
def Request.lookUp? (r : Registry) (fs : List (Frame ω)) : Request → Option (Name × Bool × List (Frame ω))
  | .get n early => some (r.canonical n, early, fs)
  | .getExact k early => some (k, early, fs)
  | .getTyped n t => some (r.canonical n, true, .typed n t :: fs)
  | _ => none

theorem Request.windows_of_lookUp? {r : Registry} {fs below : List (Frame ω)} {req : Request} {n : Name} {early : Bool}
    (hl : req.lookUp? r fs = some (n, early, below)) : windows below = windows fs := by
  cases req <;> cases hl <;> rfl

namespace Thread

/-- Where a thread is in a look-up of `n` with `fs` below: before one of its looks, waiting for the mutex,
or behind the look under the mutex with what the cache `c` holds for a complete `n`. From none of these
places a callback is called. -/
inductive Seeking (n : Name) (early : Bool) (fs : List (Frame ω)) (c : Cache) : Thread ω → Prop where
  | glance : Seeking n early fs c ⟨.point (.glance n early), fs⟩
  | glanceAgain : Seeking n early fs c ⟨.point (.glanceAgain n early), fs⟩
  | await : Seeking n early fs c ⟨.point (.await (.look n early)), fs⟩
  | inside : Seeking n early fs c ⟨.point (.inside (.look n early)), .guarded :: fs⟩
  | found : Seeking n early fs c ⟨.reply (.ok (.found (c.complete? n))), .guarded :: fs⟩

/-- What a look-up of `n` has come to: it is under way, or it has been answered with what the cache holds
for a complete `n`, or it gave up at the second look. -/
inductive Sought (n : Name) (early : Bool) (fs : List (Frame ω)) (c : Cache) : Bool → Thread ω → Prop where
  | seeking {t : Thread ω} (place : Seeking n early fs c t) : Sought n early fs c false t
  | answered : Sought n early fs c false ⟨.reply (.ok (.found (c.complete? n))), fs⟩
  | gaveUp : Sought n early fs c true ⟨.reply (.ok (.found none)), fs⟩

/-- Whether the next step of a thread is the second look for `n`, which tells a creation under way from
none. -/
def looksAgain (n : Name) (t : Thread ω) : Bool :=
  match t.control with
  | .point (.glanceAgain k _) => k == n
  | _ => false

variable {h : Host ω} {id : ThreadId} {s s' : Shared ω} {t t' : Thread ω} {n : Name} {early : Bool}
  {fs below : List (Frame ω)} {c c' : Cache}

theorem stepStart_lookUp {req : Request} (hl : req.lookUp? s.registry fs = some (n, early, below))
    (hs : stepStart h id s fs req = some (s', t')) : s' = s ∧ t' = ⟨.point (.glance n early), below⟩ := by
  cases req with
  | get k e => cases hl; cases hs; exact ⟨rfl, rfl⟩
  | getExact k e => cases hl; cases hs; exact ⟨rfl, rfl⟩
  | getTyped k type => cases hl; cases hs; exact ⟨rfl, rfl⟩
  | _ => cases hl

theorem Seeking.congr (ht : t.Seeking n early fs c) (hc : 0 < t.guards → c'.complete? n = c.complete? n) :
    t.Seeking n early fs c' := by
  cases ht with
  | glance => exact .glance
  | glanceAgain => exact .glanceAgain
  | await => exact .await
  | inside => exact .inside
  | found =>
    rw [← hc (by simp [guards, Frame.isGuard])]
    exact .found

/-- A step of a look-up. The second look gives up unless it finds the name in creation. -/
theorem Seeking.step (ht : t.Seeking n early fs s.registry.cache)
    (hidle : t.control.isInner = true → s.registry.cache.isInCreation n = false)
    (hs : t.step h id s = some (s', t')) :
    t'.Sought n early fs s'.registry.cache (t.looksAgain n && !s.registry.cache.isInCreation n) := by
  cases ht with
  | glance =>
    simp only [Thread.step, stepPoint] at hs
    split at hs
    · rename_i v hv
      cases hs
      rw [← hv]
      exact .answered
    · cases hs; exact .seeking .glanceAgain
  | glanceAgain =>
    simp only [Thread.step, stepPoint] at hs
    split at hs
    · rename_i hin
      cases hs
      simp only [hin, Bool.not_true, Bool.and_false]
      exact .seeking .await
    · rename_i hin
      cases hs
      simp only [hin, looksAgain, beq_self_eq_true, Bool.not_false, Bool.and_true]
      exact .gaveUp
  | await =>
    simp only [Thread.step, stepPoint] at hs
    split at hs
    · cases hs; exact .seeking .inside
    · cases hs
  | inside =>
    -- the name is not in creation here, so the look sees its value or none
    have hin := hidle rfl
    have hs : stepInside h s (.guarded :: fs) (.look n early) = (s', t') := Option.some.inj hs
    have hfound : s' = s ∧ t' = ⟨.reply (.ok (.found (s.registry.cache.complete? n))), .guarded :: fs⟩ := by
      unfold Cache.isInCreation Cache.lifecycle at hin
      unfold Cache.complete?
      simp only [stepInside] at hs
      cases hslot : s.registry.cache.slots.get? n with
      | none => simp only [hslot] at hs; cases hs; exact ⟨rfl, rfl⟩
      | some x =>
        cases x with
        | early p => simp only [hslot] at hs; cases hs; exact ⟨rfl, rfl⟩
        | inCreation e => rw [hslot] at hin; cases hin
        | complete v => simp only [hslot] at hs; cases hs; exact ⟨rfl, rfl⟩
    obtain ⟨rfl, rfl⟩ := hfound
    exact .seeking .found
  | found => cases hs; exact .answered

/-- A look-up that is under way has come to no reply. -/
theorem Sought.seeking_of_isWithin {b : Bool} (ht : t.Sought n early fs c b) (hw : t.isWithin fs.length = true) :
    b = false ∧ t.Seeking n early fs c := by
  cases ht with
  | seeking place => exact ⟨rfl, place⟩
  | answered => simp [isWithin] at hw
  | gaveUp => simp [isWithin] at hw

end Thread

/-- Whether thread `id` takes the second look for `n` in the step from a moment. -/
def Moment.looksAgain (e : Moment ω) (id : ThreadId) (n : Name) : Bool :=
  e.mover == id && e.thread?.any (·.looksAgain n)

namespace Machine

variable {h : Host ω} {m m' m₀ m₁ : Machine ω} {id : ThreadId} {t : Thread ω} {n : Name} {early : Bool}
  {fs below : List (Frame ω)} {past seg : List (Moment ω)}

/-- A name is in creation only while the thread that marked it holds the mutex. -/
theorem Balanced.creator (hb : m.Balanced) (hd : m.Disciplined)
    (hin : m.shared.registry.cache.isInCreation n = true) :
    ∃ id t, m.threads[id]? = some t ∧ (∃ w ∈ windows t.frames, w.name = n ∧ w.marked = true) ∧
      0 < m.shared.mutex.times id := by
  obtain ⟨t, ht, w, hw, hmarked⟩ := hb.marked n hin
  obtain ⟨id, hid⟩ := List.mem_iff_getElem?.1 ht
  refine ⟨id, t, hid, ⟨w, hw, hmarked⟩, ?_⟩
  rw [← hd.times id t hid]
  exact (hd.seated id t hid).guards_pos_of_windows (List.ne_nil_of_mem hw)

/-- Under the mutex a thread sees no name in creation that it has not marked itself. -/
theorem Balanced.isInCreation_eq_false (hb : m.Balanced) (hd : m.Disciplined) (ht : m.threads[id]? = some t)
    (hpos : 0 < t.guards) (hother : ∀ w ∈ windows t.frames, w.name = n → w.marked = false) :
    m.shared.registry.cache.isInCreation n = false := by
  rw [Bool.eq_false_iff]
  intro hin
  obtain ⟨j, u, hu, ⟨w, hw, hname, hmarked⟩, hheld⟩ := hb.creator hd hin
  rw [← hd.times j u hu] at hheld
  cases hd.unique ht hu hpos hheld
  cases ht.symm.trans hu
  rw [hother w hw hname] at hmarked
  cases hmarked

/-- The frames of a thread that looks a name up hold no creation but those below. -/
theorem windows_of_seeking {c : Cache} (ht : t.Seeking n early fs c) : windows t.frames = windows fs := by
  cases ht <;> rfl

/-- A look-up by a thread that has not marked the name takes its way, whatever other threads do. -/
theorem Run.sought (ho₁ : m₁.Orderly) (hb₁ : m₁.Balanced) (hr : Run h m₁ seg m)
    (ht : m₁.threads[id]? = some ⟨.point (.glance n early), fs⟩)
    (hother : ∀ w ∈ windows fs, w.name = n → w.marked = false) (hu : Underway id fs.length seg) :
    ∃ t, m.threads[id]? = some t ∧ t.Sought n early fs m.shared.registry.cache
      (seg.any fun e => e.looksAgain id n && !e.shared.registry.cache.isInCreation n) := by
  induction hr with
  | start => exact ⟨_, ht, .seeking .glance⟩
  | @step seg m m' j hr hs ih =>
    obtain ⟨t, hid, hsought⟩ := ih fun e he => hu e (List.mem_cons_of_mem _ he)
    obtain ⟨hflag, hseeking⟩ := hsought.seeking_of_isWithin (hu.isWithin hid)
    have hd := (ho₁.run hr).disciplined
    have hb := hb₁.reachable ho₁ hr.reachable
    rw [List.any_cons, hflag, Bool.or_false]
    by_cases hj : j = id
    · subst hj
      obtain ⟨s', t', hst, rfl⟩ := exists_of_step hs hid
      have hlook : (⟨m, j⟩ : Moment ω).looksAgain j n = t.looksAgain n := by
        simp [Moment.looksAgain, Moment.thread?, hid]
      rw [hlook]
      refine ⟨t', threads_set_self hid, hseeking.step (fun hinner => ?_) hst⟩
      refine hb.isInCreation_eq_false hd hid ((hd.seated j t hid).guards_pos (.inl hinner)) ?_
      rw [windows_of_seeking hseeking]
      exact hother
    · -- the others leave the thread where it is, and the cache too once it is under the mutex
      have hstay := threads_of_ne hs hj hid
      have hlook : (⟨m, j⟩ : Moment ω).looksAgain id n = false := by simp [Moment.looksAgain, hj]
      rw [hlook]
      refine ⟨t, hstay, .seeking (hseeking.congr fun hpos => ?_)⟩
      obtain ⟨exempt, hc⟩ := hd.step_cache hs hid hpos (Ne.symm hj)
      rw [hc]
      rfl

/-- A look-up that a request begins, in any state that requests lead to from a registry without
singletons. -/
theorem Run.sought_of_request {r : Registry} {w : ω} {programs : List (Program ω)} {req : Request}
    (hr : Run h (ofPrograms { r with cache := {} } w programs) past m₀)
    (ht : m₀.threads[id]? = some ⟨.point (.start req), fs⟩)
    (hl : req.lookUp? m₀.shared.registry fs = some (n, early, below))
    (hother : ∀ w ∈ windows fs, w.name = n → w.marked = false) (hs : m₀.step h id = some m₁)
    (hseg : Run h m₁ seg m) (hu : Underway id below.length seg) :
    ∃ t, m.threads[id]? = some t ∧ t.Sought n early below m.shared.registry.cache
      (seg.any fun e => e.looksAgain id n && !e.shared.registry.cache.isInCreation n) := by
  have ho := (ofPrograms_orderly { r with cache := {} } w programs).run hr
  have hb := (ofPrograms_balanced r w programs).reachable (ofPrograms_orderly ..) hr.reachable
  have ho₁ := ho.step hs
  have hb₁ := hb.step ho.disciplined hs
  obtain ⟨s', t', hst, rfl⟩ := exists_of_step hs ht
  obtain ⟨rfl, rfl⟩ := Thread.stepStart_lookUp hl hst
  refine hseg.sought ho₁ hb₁ (threads_set_self ht) ?_ hu
  rw [Request.windows_of_lookUp? hl]
  exact hother

/-- Early references stay with the thread that creates the name, for every interleaving. A name is in
creation only while the thread whose creation marked it holds the mutex. A look-up by a thread that has
not marked the name goes from place to place without calling anybody, and what it comes to is the value
of the complete name or nothing. -/
theorem Run.early_references_stay {r : Registry} {w : ω} {programs : List (Program ω)}
    (hr : Run h (ofPrograms { r with cache := {} } w programs) past m₀) :
    (∀ n, m₀.shared.registry.cache.isInCreation n = true →
        ∃ id t, m₀.threads[id]? = some t ∧ (∃ w ∈ windows t.frames, w.name = n ∧ w.marked = true) ∧
          m₀.shared.mutex.isHeldBy id = true) ∧
      ∀ (id : ThreadId) (req : Request) (fs below : List (Frame ω)) (n : Name) (early : Bool) (m₁ m : Machine ω)
        (seg : List (Moment ω)),
        m₀.threads[id]? = some ⟨.point (.start req), fs⟩ →
        req.lookUp? m₀.shared.registry fs = some (n, early, below) →
        (∀ w ∈ windows fs, w.name = n → w.marked = false) →
        m₀.step h id = some m₁ → Run h m₁ seg m → Underway id below.length seg →
        ∃ t, m.threads[id]? = some t ∧ (t.Seeking n early below m.shared.registry.cache ∨
          ∃ v, t = ⟨.reply (.ok (.found v)), below⟩ ∧ (v = m.complete? n ∨ v = none)) := by
  have ho := (ofPrograms_orderly { r with cache := {} } w programs).run hr
  have hb := (ofPrograms_balanced r w programs).reachable (ofPrograms_orderly ..) hr.reachable
  refine ⟨fun n hin => ?_, fun id req fs below n early m₁ m seg ht hl hother hs hseg hu => ?_⟩
  · obtain ⟨id, t, ht, hmarked, hheld⟩ := hb.creator ho.disciplined hin
    exact ⟨id, t, ht, hmarked, Mutex.isHeldBy_of_times_pos hheld⟩
  · obtain ⟨t, htid, hsought⟩ := hr.sought_of_request ht hl hother hs hseg hu
    refine ⟨t, htid, ?_⟩
    generalize (seg.any fun e => e.looksAgain id n && !e.shared.registry.cache.isInCreation n) = flag at hsought
    cases hsought with
    | seeking place => exact .inl place
    | answered => exact .inr ⟨_, rfl, .inl rfl⟩
    | gaveUp => exact .inr ⟨_, rfl, .inr rfl⟩

/-- Callbacks of two creations of `x`, both of which register an early producer: one yields an instance, the
other one fails. -/
def earlyHost : Host Unit where
  program c _ :=
    if c = 0 then .request (.change (.registerEarly "x" 2)) fun _ => .yield (some ⟨1, .unit⟩)
    else if c = 1 then .request (.change (.registerEarly "x" 2)) fun _ => .finish (.failed (.io "refused" none))
    else .yield (some ⟨2, .unit⟩)
  observe _ w := w

/-- What a reader of `x` has waiting for it while it looks up. -/
def readerFrames : List (Frame Unit) := [.caller fun _ => .finish (.ok .done)]

/-- A creator of `x` with the given callback and a reader of `x`, up to the request of the reader, which comes
when the early producer has been registered. -/
def requestedRun (create : Callback) : List (Moment Unit) × Machine Unit :=
  (ofPrograms {} () [.request (.getOrCreate "x" create) fun _ => .finish (.ok .done),
    .request (.get "x" true) fun _ => .finish (.ok .done)]).drive earlyHost [0, 0, 0, 0, 0, 0, 0, 1] []

/-- The rest of the run, once the look-up has begun, in a given order of the steps. -/
def lookUpRun (create : Callback) (order : List ThreadId) : List (Moment Unit) × Machine Unit :=
  ((requestedRun create).2.drive earlyHost [1] []).2.drive earlyHost order []

theorem step_requestedRun (create : Callback) (hc : create ≤ 1) :
    (requestedRun create).2.step earlyHost 1 = some ((requestedRun create).2.drive earlyHost [1] []).2 := by
  match create, hc with
  | 0, _ => rfl
  | 1, _ => rfl

/-- The reader waits for a creation that fails, and finds nothing, although the early producer of the creation
is back in its slot. -/
theorem early_references_stay_lookUpRun :
    let m := (lookUpRun 1 [1, 1, 0, 0, 0, 0, 0, 0, 1, 1, 1]).2
    (∃ id t, (requestedRun 1).2.threads[id]? = some t ∧
        (∃ w ∈ windows t.frames, w.name = "x" ∧ w.marked = true) ∧
        (requestedRun 1).2.shared.mutex.isHeldBy id = true) ∧
      m.shared.registry.cache.lifecycle "x" = .earlyReferenceAvailable ∧
      ∃ t, m.threads[1]? = some t ∧ (t.Seeking "x" true readerFrames m.shared.registry.cache ∨
        ∃ v, t = ⟨.reply (.ok (.found v)), readerFrames⟩ ∧ (v = m.complete? "x" ∨ v = none)) := by
  obtain ⟨hheld, hlook⟩ := Run.early_references_stay (r := {}) (Run.drive [0, 0, 0, 0, 0, 0, 0, 1] .start)
  exact ⟨hheld "x" (by decide), by decide,
    hlook 1 (.get "x" true) readerFrames readerFrames "x" true _ _ _ rfl rfl (by decide)
      (step_requestedRun 1 (by decide)) (.drive _ .start) (by decide)⟩

/-- What a look-up finds of a name that other threads complete meanwhile. If all the while the name is
complete or being created by others, and it is complete in the end, the look-up comes to its value or to
nothing: to its value exactly if the name was not complete yet at the second look, if there was one. -/
theorem Run.look_up_complete_iff {r : Registry} {w : ω} {programs : List (Program ω)} {req : Request}
    {reply : Reply} {v : Value} (hr : Run h (ofPrograms { r with cache := {} } w programs) past m₀)
    (ht : m₀.threads[id]? = some ⟨.point (.start req), fs⟩)
    (hl : req.lookUp? m₀.shared.registry fs = some (n, early, below))
    (hother : ∀ w ∈ windows fs, w.name = n → w.marked = false) (hs : m₀.step h id = some m₁)
    (hseg : Run h m₁ seg m) (hu : Underway id below.length seg)
    (hslot : ∀ e ∈ seg, (e.state.complete? n).isSome = true ∨ e.shared.registry.cache.isInCreation n = true)
    (hv : m.complete? n = some v) (hreturn : m.threads[id]? = some ⟨.reply reply, below⟩) :
    (reply = .ok (.found (some v)) ∨ reply = .ok (.found none)) ∧
      (reply = .ok (.found (some v)) ↔ ∀ e ∈ seg, e.looksAgain id n = true → e.state.complete? n = none) := by
  obtain ⟨t, htid, hsought⟩ := hr.sought_of_request ht hl hother hs hseg hu
  cases hreturn.symm.trans htid
  generalize hflag : (seg.any fun e => e.looksAgain id n && !e.shared.registry.cache.isInCreation n) = flag at hsought
  have hvalue : Reply.ok (.found (m.shared.registry.cache.complete? n)) = Reply.ok (.found (some v)) :=
    congrArg (fun found => Reply.ok (.found found)) hv
  cases hsought with
  | seeking place => cases place
  | answered =>
    refine ⟨.inl hvalue, fun _ e he hlook => ?_, fun _ => hvalue⟩
    have hin : e.shared.registry.cache.isInCreation n = true := by
      simpa [hlook] using List.any_eq_false.1 hflag e he
    cases hc : e.state.complete? n with
    | none => rfl
    | some u =>
      have hout := Cache.isInCreation_eq_false_of_complete? (c := e.shared.registry.cache) hc
      rw [hin] at hout
      cases hout
  | gaveUp =>
    obtain ⟨e, he, hlook⟩ := List.any_eq_true.1 hflag
    simp only [Bool.and_eq_true, Bool.not_eq_true'] at hlook
    refine ⟨.inr rfl, fun hfound => ?_, fun hlooks => ?_⟩
    · injection hfound with hfound
      injection hfound with hfound
      cases hfound
    · -- the second look gave up, so it found the name complete
      have hnone := hlooks e he hlook.1
      rcases hslot e he with hsome | hin
      · rw [hnone] at hsome; cases hsome
      · rw [hlook.2] at hin; cases hin

/-- The reader waits for the creation and finds its instance. -/
theorem look_up_complete_waiting :
    let run := lookUpRun 0 [1, 1, 0, 0, 0, 0, 0, 1, 1, 1]
    run.2.complete? "x" = some (some ⟨1, .unit⟩) ∧
      (∀ e ∈ run.1, (e.state.complete? "x").isSome = true ∨ e.shared.registry.cache.isInCreation "x" = true) ∧
      ∃ v, run.2.threads[1]? = some ⟨.reply (.ok (.found v)), readerFrames⟩ ∧ v = some (some ⟨1, .unit⟩) := by
  have hslot : ∀ e ∈ (lookUpRun 0 [1, 1, 0, 0, 0, 0, 0, 1, 1, 1]).1,
      (e.state.complete? "x").isSome = true ∨ e.shared.registry.cache.isInCreation "x" = true := by decide
  have hv : (lookUpRun 0 [1, 1, 0, 0, 0, 0, 0, 1, 1, 1]).2.complete? "x" = some (some ⟨1, .unit⟩) := by decide
  have ht : (requestedRun 0).2.threads[1]? = some ⟨.point (.start (.get "x" true)), readerFrames⟩ := rfl
  have hreply := (Run.look_up_complete_iff (r := {})
    (Run.drive [0, 0, 0, 0, 0, 0, 0, 1] .start) ht rfl (by decide) (step_requestedRun 0 (by decide))
    (Run.drive _ .start) (by decide) hslot hv rfl).2.2 (by decide)
  injection hreply with hreply
  injection hreply with hreply
  exact ⟨hv, hslot, _, rfl, hreply⟩

/-- The creation ends between the two looks of the reader, which finds nothing although `x` is complete. -/
theorem reader_misses_complete :
    ∃ (past seg : List (Moment Unit)) (m₀ m₁ m : Machine Unit),
      Run earlyHost (ofPrograms {} () [.request (.getOrCreate "x" 0) fun _ => .finish (.ok .done),
          .request (.get "x" true) fun _ => .finish (.ok .done)]) past m₀ ∧
        m₀.threads[1]? = some ⟨.point (.start (.get "x" true)), readerFrames⟩ ∧
        (∀ w ∈ windows readerFrames, w.name = "x" → w.marked = false) ∧ m₀.step earlyHost 1 = some m₁ ∧
        Run earlyHost m₁ seg m ∧ Underway 1 readerFrames.length seg ∧
        (∀ e ∈ seg, (e.state.complete? "x").isSome = true ∨ e.shared.registry.cache.isInCreation "x" = true) ∧
        m.complete? "x" = some (some ⟨1, .unit⟩) ∧
        m.threads[1]? = some ⟨.reply (.ok (.found none)), readerFrames⟩ :=
  ⟨(requestedRun 0).1, (lookUpRun 0 [1, 0, 0, 1]).1, (requestedRun 0).2, _, (lookUpRun 0 [1, 0, 0, 1]).2,
    .drive _ .start, rfl, by decide, step_requestedRun 0 (by decide), .drive _ .start, by decide, by decide,
    by decide, rfl⟩

end Machine

end Singletons
