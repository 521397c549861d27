import Singletons.Proofs.Creation.Bookkeeping
import Singletons.Proofs.Machine.Call

/-
The failures that a failed creation is related to. The list of suppressed failures is opened by the outermost
creation and closed by it; the creations nested in it record into the same list and leave it where it is. So the
outermost creation hands out what was recorded between its beginning and its end, in that order, and a nested one
hands out nothing.

`ListMove` says what a step does to the list, and `Trying` follows one request from place to place.
-/

namespace Singletons

variable {ω : Type}

/-- A failure that a creation passes on keeps the failures it is related to. One that the creation wraps has none. -/
theorem Failure.related_ofCreation (n : Name) (f : Failure) :
    (f.ofCreation n).related = if f.isCreationFailed then f.related else [] := by
  cases f <;> rfl

theorem Failure.isCreationFailed_withRelated (f : Failure) (more : List Failure) :
    (f.withRelated more).isCreationFailed = f.isCreationFailed := by
  cases f <;> rfl

namespace Cache

variable {c : Cache} {n : Name}

/-- A creation that cannot begin is refused, and has not failed. -/
theorem isCreationFailed_of_openWindow {f : Failure} (h : c.openWindow n = .error f) : f.isCreationFailed = false := by
  have hmark : ∀ g, c.mark n = .error g → g.isCreationFailed = false := by
    intro g hg
    unfold mark at hg
    split at hg <;> cases hg <;> rfl
  unfold openWindow at h
  dsimp only at h
  split at h
  · rename_i g hg
    cases h
    split at hg
    · exact hmark _ hg
    · cases hg
  · split at h <;> cases h

theorem suppress_eq (f : Failure) : (c.suppress f).1 = c.suppressed.isSome ∧
    (c.suppress f).2.suppressed = c.suppressed.map (· ++ [f]) := by
  unfold suppress
  cases h : c.suppressed with
  | none => exact ⟨rfl, h⟩
  | some fs => exact ⟨rfl, rfl⟩

end Cache

/-- A change that records no failure leaves the list as it is. -/
theorem Change.suppressed_apply (r : Registry) {c : Change}
    (hc : ∀ f, c = .suppress f → (r.cache.suppress f).1 = false) :
    (c.apply r).registry.cache.suppressed = r.cache.suppressed := by
  cases c with
  | suppress f =>
    have hnone := hc f rfl
    rw [(Cache.suppress_eq f).1, Option.isSome_eq_false_iff, Option.isNone_iff_eq_none] at hnone
    simp only [Change.apply, (Cache.suppress_eq f).2, hnone, Option.map_none]
  | registerSingleton k v =>
    cases hr : r.cache.register (r.canonical k) v with
    | error f => simp only [Change.apply, hr]
    | ok cache => simp only [Change.apply, hr, Cache.suppressed_register hr]
  | registerAlias k a => simp only [Change.apply]; split <;> rfl
  | removeAlias a => simp only [Change.apply]; split <;> rfl
  | resolveAliases f => simp only [Change.apply]; split <;> rfl
  | _ => rfl

namespace Thread

/-- The failure that the next step of a thread records, given the registry. A failure is recorded only if there is
a list, and the caller is told whether it was. -/
def records? (r : Registry) (t : Thread ω) : Option Failure :=
  match t.control with
  | .point (.start (.change (.suppress f))) => if (r.cache.suppress f).1 then some f else none
  | _ => none

variable {h : Host ω} {id : ThreadId} {s s' : Shared ω} {t t' : Thread ω} {fs : List (Frame ω)} {n : Name}
  {create : Callback} {w : Cache.Window}

theorem eq_of_records {r : Registry} {f : Failure} (hf : t.records? r = some f) :
    t.control = .point (.start (.change (.suppress f))) ∧ (r.cache.suppress f).1 = true := by
  unfold records? at hf
  split at hf
  · rename_i heq
    split at hf
    · rename_i hkept
      cases hf
      exact ⟨heq, hkept⟩
    · cases hf
  · cases hf

/-- What a step does to the list of suppressed failures and to the creations that the mover has under way. -/
inductive ListMove (s s' : Shared ω) (t t' : Thread ω) : Prop where
  | still (quiet : t.records? s.registry = none) (open_ : windows t'.frames = windows t.frames)
      (list : s'.registry.cache.suppressed = s.registry.cache.suppressed)
  | recorded (f : Failure) (record : t.records? s.registry = some f) (open_ : windows t'.frames = windows t.frames)
      (list : s'.registry.cache.suppressed = s.registry.cache.suppressed.map (· ++ [f]))
  | opened (w : Cache.Window) (quiet : t.records? s.registry = none) (open_ : windows t'.frames = w :: windows t.frames)
      (list : s'.registry.cache.suppressed = some (s.registry.cache.suppressed.getD []))
  | closed (w : Cache.Window) (quiet : t.records? s.registry = none) (open_ : windows t.frames = w :: windows t'.frames)
      (list : s'.registry.cache.suppressed = if w.outermost then none else s.registry.cache.suppressed)

theorem step_listMove (hs : t.step h id s = some (s', t')) : ListMove s s' t t' := by
  cases hrecord : t.records? s.registry with
  | some f =>
    obtain ⟨control, frames⟩ := t
    obtain ⟨rfl, hkept⟩ := eq_of_records hrecord
    have hreg := registry_of_change hs
    refine .recorded f hrecord ?_ (by rw [hreg]; exact (Cache.suppress_eq f).2)
    simp only [step, stepPoint, stepStart] at hs
    split at hs
    · cases hs
    · cases hs; rfl
  | none =>
    cases step_deed hs with
    | idle registry before after open_ torn =>
      obtain ⟨b, hb⟩ := registry
      exact .still hrecord open_ (by rw [hb])
    | change c fs admitted registry =>
      refine .still hrecord rfl ?_
      rw [registry]
      refine Change.suppressed_apply _ ?_
      rintro f rfl
      simpa [records?] using hrecord
    | close fs admitted registry => exact .still hrecord rfl (by rw [registry]; rfl)
    | plan tasks fs registry origin => exact .still hrecord rfl (by rw [registry])
    | task task rest tasks events fs admitted course =>
      exact .still hrecord rfl (Task.marksWithin_course course).2
    | dispose k d rest fs registry => exact .still hrecord rfl (by rw [registry])
    | disposed r k d rest fs registry => exact .still hrecord rfl (by rw [registry])
    | dropped text k d rest fs registry => exact .still hrecord rfl (by rw [registry])
    | ended fs registry => exact .still hrecord rfl (by rw [registry])
    | create k c w cache fs incomplete accepting opens registry =>
      refine .opened w hrecord (windows_cons ..) ?_
      rw [registry, (Cache.openWindow_eq opens).2]
    | created w c a fs registry =>
      exact .closed w hrecord (windows_cons ..) (by rw [registry]; exact Cache.suppressed_closeWith _)
    | abandoned w c r fs failed registry reply =>
      have hframes : t'.frames = fs := by rw [reply]; split <;> rfl
      exact .closed w hrecord (by rw [hframes]; exact windows_cons ..)
        (by rw [registry]; exact Cache.suppressed_abandon)
    | restore k p r fs registry => exact .still hrecord rfl (by rw [registry]; rfl)
    | expose k p a fs registry => exact .still hrecord rfl (by rw [registry, Cache.suppressed_expose])
    | keep r f fs produced inHook inner other registry after open_ torn =>
      refine .still hrecord ?_ (by rw [registry])
      rw [open_, windows_cons, other]
      rfl

/-- A guarded change waits for the mutex. -/
theorem admits_of_change {c : Change} (hc : c.isGuarded = true)
    (hs : (⟨.point (.start (.change c)), fs⟩ : Thread ω).step h id s = some (s', t')) : s.mutex.admits id = true := by
  simp only [step, stepPoint, stepStart, hc, Bool.true_and] at hs
  split at hs
  · cases hs
  · rename_i ha
    simpa using ha

end Thread

namespace Moment

/-- The failure that is recorded in the step from a moment. -/
def records? (e : Moment ω) : Option Failure := e.thread?.bind (·.records? e.shared.registry)

theorem records?_eq {m : Machine ω} {id : ThreadId} {t : Thread ω} (ht : m.threads[id]? = some t) :
    (⟨m, id⟩ : Moment ω).records? = t.records? m.shared.registry := by
  simp only [records?, thread?, ht, Option.bind_some, shared]

end Moment

/-- The failures that are recorded along a run, in the order in which they are. -/
def recorded (past : List (Moment ω)) : List Failure := past.reverse.filterMap Moment.records?

theorem recorded_cons (e : Moment ω) (past : List (Moment ω)) :
    recorded (e :: past) = recorded past ++ e.records?.toList := by
  unfold recorded
  rw [List.reverse_cons, List.filterMap_append, List.filterMap_cons]
  cases e.records? <;> rfl

namespace Machine

variable {h : Host ω} {m m' m₀ m₁ : Machine ω} {id : ThreadId} {t : Thread ω} {n : Name} {create : Callback}
  {fs : List (Frame ω)} {past seg : List (Moment ω)} {w : Cache.Window}

/-- While a thread is inside the mutex, no other one records a failure or touches the list. -/
theorem Disciplined.list_eq {j : ThreadId} (hd : m.Disciplined) (hs : m.step h j = some m')
    (ht : m.threads[id]? = some t) (hpos : 0 < t.guards) (hj : j ≠ id) :
    (⟨m, j⟩ : Moment ω).records? = none ∧
      m'.shared.registry.cache.suppressed = m.shared.registry.cache.suppressed := by
  obtain ⟨exempt, hc⟩ := hd.step_cache hs ht hpos (Ne.symm hj)
  refine ⟨?_, by rw [hc]⟩
  obtain ⟨u, s', u', hu, hst, rfl⟩ := step_eq_some_iff.1 hs
  rw [Moment.records?_eq hu]
  cases hf : u.records? m.shared.registry with
  | none => rfl
  | some f =>
    obtain ⟨control, frames⟩ := u
    obtain ⟨rfl, -⟩ := Thread.eq_of_records hf
    rw [hd.times id t ht] at hpos
    have := Thread.admits_of_change rfl hst
    rw [Mutex.not_admits_of_times_pos hpos hj] at this
    cases this

/-- While the outermost creation is under way, the list has what was recorded since, and nothing else. -/
theorem Balanced.list_step {l : List Failure} {j : ThreadId} (hb : m.Balanced) (hd : m.Disciplined)
    (hs : m.step h j = some m') (ht : m.threads[id]? = some t) (above : .creating w create :: fs <:+ t.frames)
    (hw : j = id → t.isWithin (fs.length + 1) = true) (hl : m.shared.registry.cache.suppressed = some l) :
    m'.shared.registry.cache.suppressed = some (l ++ (⟨m, j⟩ : Moment ω).records?.toList) := by
  have hinner : ∃ f ∈ t.frames, f.isInner = true := ⟨_, above.subset (List.mem_cons_self ..), rfl⟩
  by_cases hj : j = id
  · subst hj
    obtain ⟨s', t', hst, rfl⟩ := exists_of_step hs ht
    rw [Moment.records?_eq ht]
    cases Thread.step_listMove hst with
    | still quiet open_ list => rw [quiet, list, hl]; simp
    | recorded f record open_ list => rw [record, list, hl]; rfl
    | opened w' quiet open_ list => rw [quiet, list, hl]; simp
    | closed w' quiet open_ list =>
      -- the creation that ends is nested in the one under way, so it does not own the list
      have hbelow : w ∈ windows t'.frames :=
        List.mem_filterMap.2
          ⟨_, (Thread.suffix_step_of_isWithin above (hw rfl) hst).subset (List.mem_cons_self ..), rfl⟩
      have howned := hb.owned t (List.mem_of_getElem? ht)
      rw [open_] at howned
      have hnested : w'.outermost = false :=
        Bool.eq_false_iff.2 fun hout => List.ne_nil_of_mem hbelow (howned.1.1 hout)
      rw [quiet, list, hnested, hl]
      simp
  · obtain ⟨hquiet, hlist⟩ := hd.list_eq hs ht ((hd.seated id t ht).guards_pos (.inr hinner)) hj
    rw [hquiet, hlist, hl]
    simp

/-! ## A request from place to place -/

/-- Thread `id` begins a creation of `n` at `first`, with `fs` below, and hears at `last` that the callback failed
with `f`; `inner` are the moments in between. -/
structure Fails (id : ThreadId) (n : Name) (create : Callback) (fs : List (Frame ω)) (first : Moment ω)
    (inner : List (Moment ω)) (last : Moment ω) (f : Failure) : Prop where
  begins : first.mover = id ∧ first.thread? = some ⟨.point (.inside (.create n create)), fs⟩
  running : Underway id fs.length inner
  ends : last.mover = id ∧ ∃ w, last.thread? = some ⟨.reply (.failed f), .creating w create :: fs⟩

/-- Whether the failed creation `g` comes from a creation of `n` in the course of `seg`, and is related to what was
recorded in the course of that creation if it was the outermost one. -/
def Accounts (id : ThreadId) (n : Name) (create : Callback) (fs : List (Frame ω)) (seg : List (Moment ω))
    (g : Failure) : Prop :=
  g.isCreationFailed = true → ∃ later last inner first earlier f, seg = later ++ last :: (inner ++ first :: earlier) ∧
    Fails id n create fs first inner last f ∧
    g = (f.ofCreation n).withRelated (if windows fs = [] then recorded inner else [])

theorem Accounts.cons {g : Failure} (hg : Accounts id n create fs seg g) (e : Moment ω) :
    Accounts id n create fs (e :: seg) g := by
  intro hfailed
  obtain ⟨later, last, inner, first, earlier, f, rfl, hrest⟩ := hg hfailed
  exact ⟨e :: later, last, inner, first, earlier, f, rfl, hrest⟩

theorem Accounts.of_not_isCreationFailed {g : Failure} (hg : g.isCreationFailed = false) :
    Accounts id n create fs seg g := by
  intro hfailed
  rw [hg] at hfailed
  cases hfailed

/-- Where thread `id` is in a request to create `n` that it issued with `fs` below, after the moments `seg` and with
the cache `c`. -/
inductive Trying (id : ThreadId) (n : Name) (create : Callback) (fs : List (Frame ω)) (seg : List (Moment ω))
    (c : Cache) : Thread ω → Prop where
  | await : Trying id n create fs seg c ⟨.point (.await (.create n create)), fs⟩
  | inside : Trying id n create fs seg c ⟨.point (.inside (.create n create)), .guarded :: fs⟩
  /-- The callback runs. If this is the outermost creation, the list has what was recorded since it began. -/
  | running {t : Thread ω} {first : Moment ω} {inner earlier : List (Moment ω)} {w : Cache.Window}
      (passed : seg = inner ++ first :: earlier) (mover : first.mover = id)
      (place : first.thread? = some ⟨.point (.inside (.create n create)), .guarded :: fs⟩)
      (underway : Underway id (fs.length + 1) inner) (above : .creating w create :: .guarded :: fs <:+ t.frames)
      (name : w.name = n) (owner : w.outermost = true ↔ windows fs = [])
      (list : w.outermost = true → c.suppressed = some (recorded inner)) : Trying id n create fs seg c t
  | restoring (k : Name) (p : Callback) (r : Reply)
      (account : ∀ g, r = .failed g → Accounts id n create (.guarded :: fs) seg g) :
      Trying id n create fs seg c ⟨.point (.restore k p r), .guarded :: fs⟩
  | answered (r : Reply) (account : ∀ g, r = .failed g → Accounts id n create (.guarded :: fs) seg g) :
      Trying id n create fs seg c ⟨.reply r, .guarded :: fs⟩
  | returned (r : Reply) (account : ∀ g, r = .failed g → Accounts id n create (.guarded :: fs) seg g) :
      Trying id n create fs seg c ⟨.reply r, fs⟩

/-- A step under the mutex answers the request, or begins the creation. -/
theorem Balanced.trying_inside {s' : Shared ω} {t' : Thread ω} (hb' : Cache.Owned (windows t'.frames))
    (ht : m.threads[id]? = some ⟨.point (.inside (.create n create)), .guarded :: fs⟩)
    (hs : Thread.stepInside h m.shared (.guarded :: fs) (.create n create) = (s', t'))
    (hlist : windows fs = [] → m.shared.registry.cache.suppressed = none) :
    Trying id n create fs (⟨m, id⟩ :: seg) s'.registry.cache t' := by
  have hanswer : ∀ r : Reply, (∀ g, r = .failed g → g.isCreationFailed = false) →
      Trying id n create fs (⟨m, id⟩ :: seg) s'.registry.cache ⟨.reply r, .guarded :: fs⟩ := fun r hr =>
    .answered r fun g hg => .of_not_isCreationFailed (hr g hg)
  simp only [Thread.stepInside] at hs
  split at hs
  · cases hs; exact hanswer _ (by rintro g ⟨⟩)
  · split at hs
    · cases hs; exact hanswer _ (by rintro g ⟨⟩; rfl)
    · split at hs
      · rename_i f hf
        cases hs
        refine hanswer _ ?_
        rintro g ⟨⟩
        exact Cache.isCreationFailed_of_openWindow hf
      · rename_i w cache ho
        cases hs
        obtain ⟨hw, hcache⟩ := Cache.openWindow_eq ho
        refine .running (show ⟨m, id⟩ :: seg = [] ++ ⟨m, id⟩ :: seg from rfl) rfl ht (List.forall_mem_nil _)
          List.suffix_rfl (by rw [hw]) hb'.1 fun hout => ?_
        have hnone : m.shared.registry.cache.suppressed = none := hlist (hb'.1.1 hout)
        show cache.suppressed = some []
        rw [hcache, hnone]
        rfl

/-- The creation ends that the request has begun. -/
theorem trying_ended {s' : Shared ω} {t' : Thread ω} {r : Reply} {first : Moment ω} {inner earlier : List (Moment ω)}
    (passed : seg = inner ++ first :: earlier) (mover : first.mover = id)
    (place : first.thread? = some ⟨.point (.inside (.create n create)), .guarded :: fs⟩)
    (underway : Underway id (fs.length + 1) inner) (name : w.name = n) (owner : w.outermost = true ↔ windows fs = [])
    (list : w.outermost = true → m.shared.registry.cache.suppressed = some (recorded inner))
    (ht : m.threads[id]? = some ⟨.reply r, .creating w create :: .guarded :: fs⟩)
    (hs : Thread.stepCreating h m.shared (.guarded :: fs) w r = (s', t')) :
    Trying id n create fs (⟨m, id⟩ :: seg) s'.registry.cache t' := by
  have hleave : ∀ {s₁ : Shared ω} {survivor : Option Callback} {reply : Reply},
      Thread.leave s₁ (.guarded :: fs) w.name survivor reply = (s', t') →
      (∀ g, reply = .failed g → Accounts id n create (.guarded :: fs) (⟨m, id⟩ :: seg) g) →
      Trying id n create fs (⟨m, id⟩ :: seg) s'.registry.cache t' := by
    intro s₁ survivor reply hl haccount
    cases survivor with
    | none => cases hl; exact .answered reply haccount
    | some p => cases hl; exact .restoring w.name p reply haccount
  cases r with
  | ok a => cases hs; exact .answered _ (by rintro g ⟨⟩)
  | panicked text => exact hleave hs (by rintro g ⟨⟩)
  | failed f =>
    refine hleave hs fun g hg _ => ?_
    have hcollected : m.shared.registry.cache.collected w =
        if windows (.guarded :: fs) = [] then recorded inner else [] := by
      unfold Cache.collected
      by_cases hout : w.outermost = true
      · rw [if_pos hout, if_pos (show windows (.guarded :: fs) = [] from owner.1 hout), list hout, Option.getD_some]
      · rw [if_neg hout, if_neg (show ¬ windows (.guarded :: fs) = [] from fun h => hout (owner.2 h))]
    unfold Thread.failedCreation at hg
    split at hg
    · cases hg
    · cases hg
      rw [name, hcollected]
      exact ⟨[], ⟨m, id⟩, inner, first, earlier, f, by rw [passed]; rfl, ⟨⟨mover, place⟩, underway, rfl, w, ht⟩, rfl⟩

theorem Trying.step (hp : Trying id n create fs seg m.shared.registry.cache t) (ho : m.Orderly) (hb : m.Balanced)
    (ht : m.threads[id]? = some t) (hw : t.isWithin fs.length = true) (hs : m.step h id = some m') :
    ∃ t', m'.threads[id]? = some t' ∧ Trying id n create fs (⟨m, id⟩ :: seg) m'.shared.registry.cache t' := by
  have hb' := hb.step ho.disciplined hs
  obtain ⟨s', t', hst, rfl⟩ := exists_of_step hs ht
  have ht' : (m.threads.set id t')[id]? = some t' := threads_set_self ht
  refine ⟨t', ht', ?_⟩
  cases hp with
  | await =>
    simp only [Thread.step, Thread.stepPoint] at hst
    split at hst
    · cases hst; exact .inside
    · cases hst
  | inside =>
    have hpos := (ho.disciplined.seated id _ ht).guards_pos (.inl rfl)
    refine Balanced.trying_inside (hb'.owned t' (List.mem_of_getElem? ht')) ht (Option.some.inj hst) fun hnone => ?_
    -- nobody has a creation under way, so there is no list
    rw [← Option.not_isSome_iff_eq_none, hb.list, exists_mem_threads ht]
    rintro (hmine | ⟨j, u, hj, hu, hother⟩)
    · exact hmine hnone
    · exact hother (ho.disciplined.windows_eq_nil ht hpos hj hu)
  | @running _ first inner earlier w passed mover place underway above name owner list =>
    by_cases hin : t.isWithin (fs.length + 2) = true
    · have hpassed : ⟨m, id⟩ :: seg = (⟨m, id⟩ :: inner) ++ first :: earlier := by rw [passed]; rfl
      refine .running hpassed mover place ?_
        (Thread.suffix_step_of_isWithin above hin hst) name owner fun hout => ?_
      · refine List.forall_mem_cons.2 ⟨?_, underway⟩
        rw [ht]
        exact Thread.isWithin_of_suffix above
      · rw [recorded_cons]
        exact hb.list_step ho.disciplined hs ht above (fun _ => hin) (list hout)
    · obtain ⟨r, rfl⟩ := Thread.eq_of_not_isWithin above (Bool.eq_false_iff.2 hin)
      exact trying_ended passed mover place underway name owner list ht (Option.some.inj hst)
  | restoring k p r account => cases hst; exact .answered r fun g hg => (account g hg).cons _
  | answered r account => cases hst; exact .returned r fun g hg => (account g hg).cons _
  | returned r account => simp [Thread.isWithin] at hw

/-- The other threads leave a request where it is, and the list too while its callback runs. -/
theorem Trying.other {j : ThreadId} (hp : Trying id n create fs seg m.shared.registry.cache t) (ho : m.Orderly)
    (hb : m.Balanced) (ht : m.threads[id]? = some t) (hj : j ≠ id) (hs : m.step h j = some m') :
    Trying id n create fs (⟨m, j⟩ :: seg) m'.shared.registry.cache t := by
  cases hp with
  | await => exact .await
  | inside => exact .inside
  | @running _ first inner earlier w passed mover place underway above name owner list =>
    have hpassed : ⟨m, j⟩ :: seg = (⟨m, j⟩ :: inner) ++ first :: earlier := by rw [passed]; rfl
    refine .running hpassed mover place ?_ above name owner fun hout => ?_
    · refine List.forall_mem_cons.2 ⟨?_, underway⟩
      rw [ht]
      exact Thread.isWithin_of_suffix above
    · rw [recorded_cons]
      exact hb.list_step ho.disciplined hs ht above (fun h => absurd h hj) (list hout)
  | restoring k p r account => exact .restoring k p r fun g hg => (account g hg).cons _
  | answered r account => exact .answered r fun g hg => (account g hg).cons _
  | returned r account => exact .returned r fun g hg => (account g hg).cons _

theorem Run.trying (ho : m₁.Orderly) (hb : m₁.Balanced) (hr : Run h m₁ seg m)
    (ht : m₁.threads[id]? = some ⟨.point (.await (.create n create)), fs⟩) (hu : Underway id fs.length seg) :
    ∃ t, m.threads[id]? = some t ∧ Trying id n create fs seg m.shared.registry.cache t := by
  induction hr with
  | start => exact ⟨_, ht, .await⟩
  | @step seg m m' j hr hs ih =>
    obtain ⟨t, hid, hplace⟩ := ih fun e he => hu e (List.mem_cons_of_mem _ he)
    have hom := ho.run hr
    have hbm := hb.reachable ho hr.reachable
    by_cases hj : j = id
    · subst hj
      exact hplace.step hom hbm hid (hu.isWithin hid) hs
    · exact ⟨t, threads_of_ne hs hj hid, hplace.other hom hbm hid hj hs⟩

/-- The related causes of a failed creation, in every run and for every nesting. A request for a creation that ends
with a failed creation has run its callback, which failed. What it reports is the failure of the callback, wrapped
if it does not speak of creation; and it is related to what that failure was related to before, followed, if no other
creation is under way below, by exactly the failures that were recorded between the beginning and the end of the
callback, in their order. A creation nested in another one adds nothing. -/
theorem Run.related_causes {r : Registry} {w : ω} {programs : List (Program ω)} {k : Name} {g : Failure}
    (hr : Run h (ofPrograms { r with cache := {} } w programs) past m₀)
    (ht : m₀.threads[id]? = some ⟨.point (.start (.getOrCreate k create)), fs⟩) (hs : m₀.step h id = some m₁)
    (hseg : Run h m₁ seg m) (hu : Underway id fs.length seg)
    (hreply : m.threads[id]? = some ⟨.reply (.failed g), fs⟩) (hg : g.isCreationFailed = true) :
    ∃ later last inner first earlier f, seg = later ++ last :: (inner ++ first :: earlier) ∧
      Fails id (m₀.shared.registry.canonical k) create (.guarded :: fs) first inner last f ∧
      g.related =
        (if f.isCreationFailed then f.related else []) ++ (if windows fs = [] then recorded inner else []) := by
  have ho := (ofPrograms_orderly { r with cache := {} } w programs).run hr
  have hb := (ofPrograms_balanced r w programs).reachable (ofPrograms_orderly ..) hr.reachable
  have ho₁ := ho.step hs
  have hb₁ := hb.step ho.disciplined hs
  obtain ⟨s', t', hst, rfl⟩ := exists_of_step hs ht
  cases hst
  obtain ⟨t, hid, hplace⟩ := hseg.trying ho₁ hb₁ (threads_set_self ht) hu
  cases hid.symm.trans hreply
  cases hplace with
  | running _ _ _ _ above =>
    have := above.length_le
    simp only [List.length_cons] at this
    omega
  | returned _ account =>
    obtain ⟨later, last, inner, first, earlier, f, hpassed, hfails, heq⟩ := account g rfl hg
    refine ⟨later, last, inner, first, earlier, f, hpassed, hfails, ?_⟩
    have hwrapped : (f.ofCreation (m₀.shared.registry.canonical k)).isCreationFailed = true := by
      rw [← Failure.isCreationFailed_withRelated, ← heq]
      exact hg
    rw [heq, Failure.related_withRelated_of_isCreationFailed hwrapped, Failure.related_ofCreation]
    rfl

/-- A foreign failure with the given text. -/
def trouble (text : String) : Failure := .io text none

/-- Callbacks that record what they suppress. One records twice, with a creation in between whose callback is the
other one, and ends with a failed creation that is related to something already; the other one records once. -/
def recordingHost : Host Unit where
  program c _ :=
    if c = 0 then
      .request (.change (.suppress (trouble "first"))) fun _ => .request (.getOrCreate "b" 1) fun _ =>
        .request (.change (.suppress (trouble "third"))) fun _ =>
          .finish (.failed (.creationFailed "c" .callback none [trouble "own"]))
    else .request (.change (.suppress (trouble "second"))) fun _ => .finish (.failed (trouble "refused"))
  observe _ w := w

/-- What the caller has waiting for it while it requests the creation. -/
def recordingFrames : List (Frame Unit) := [.caller fun _ => .finish (.ok .done)]

/-- The run up to the request. -/
def recordingRun : List (Moment Unit) × Machine Unit :=
  (ofPrograms {} () [.request (.getOrCreate "a" 0) fun _ => .finish (.ok .done)]).drive recordingHost [0] []

/-- The rest of the run, from the first step of the request to its reply. -/
def recordedRun : List (Moment Unit) × Machine Unit :=
  (recordingRun.2.drive recordingHost [0] []).2.drive recordingHost (List.replicate 22 0) []

/-- The reply of the request. -/
def relatedFailure : Failure :=
  .creationFailed "c" .callback none [trouble "own", trouble "first", trouble "second", trouble "third"]

/-- The outermost creation is related to all that was recorded in its course, also by the creation nested in it. -/
theorem related_causes_recordedRun :
    recordedRun.2.threads[0]? = some ⟨.reply (.failed relatedFailure), recordingFrames⟩ ∧
      relatedFailure.isCreationFailed = true ∧ Underway 0 recordingFrames.length recordedRun.1 ∧
      ∃ later last inner first earlier f, recordedRun.1 = later ++ last :: (inner ++ first :: earlier) ∧
        Fails 0 "a" 0 (.guarded :: recordingFrames) first inner last f ∧
        relatedFailure.related = (if f.isCreationFailed then f.related else []) ++ recorded inner := by
  have ht : recordingRun.2.threads[0]? = some ⟨.point (.start (.getOrCreate "a" 0)), recordingFrames⟩ := rfl
  have hstep : recordingRun.2.step recordingHost 0 = some (recordingRun.2.drive recordingHost [0] []).2 := rfl
  have hreply : recordedRun.2.threads[0]? = some ⟨.reply (.failed relatedFailure), recordingFrames⟩ := rfl
  have hunder : Underway 0 recordingFrames.length recordedRun.1 := by decide
  have hrun : Run recordingHost (ofPrograms {} () [.request (.getOrCreate "a" 0) fun _ => .finish (.ok .done)])
      recordingRun.1 recordingRun.2 := .drive [0] .start
  have hrest : Run recordingHost (recordingRun.2.drive recordingHost [0] []).2 recordedRun.1 recordedRun.2 :=
    .drive _ .start
  exact ⟨hreply, rfl, hunder, Run.related_causes (r := {}) hrun ht hstep hrest hunder hreply rfl⟩

end Machine

end Singletons
