import Singletons.Proofs.Machine.Run
import Singletons.Proofs.Machine.Deed

/-
The singleton mutex along a run. A thread holds the mutex as many times as it has stretches under it
among its frames (`Disciplined`), so at most one thread has such stretches, and whatever stands inside
one keeps every other thread from changing what the mutex guards (`step_cache_of_not_admits`).

The proof is by `Shift`, the ways in which a step moves the frames of a thread together with the mutex.
-/

namespace Singletons

variable {ω : Type}

namespace Mutex

/-- How many times a thread holds the mutex. -/
def times (m : Mutex) (id : ThreadId) : Nat :=
  match m with
  | free => 0
  | held u k => if u = id then k else 0

variable {m : Mutex} {id j : ThreadId}

theorem admits_of_times_pos (h : 0 < m.times id) : m.admits id = true := by
  cases m with
  | free => rfl
  | held u k =>
    by_cases hu : u = id
    · simp [admits, hu]
    · simp [times, hu] at h

theorem not_admits_of_times_pos (h : 0 < m.times id) (hj : j ≠ id) : m.admits j = false := by
  cases m with
  | free => simp [times] at h
  | held u k =>
    by_cases hu : u = id
    · subst hu; simpa [admits] using Ne.symm hj
    · simp [times, hu] at h

theorem times_acquire (h : m.admits id = true) : (m.acquire id).times j = m.times j + if j = id then 1 else 0 := by
  cases m with
  | free =>
    by_cases hj : j = id
    · simp [acquire, times, hj]
    · simp [acquire, times, hj, Ne.symm hj]
  | held u k =>
    have hu : u = id := by simpa [admits] using h
    subst hu
    by_cases hj : j = u
    · simp [acquire, times, hj]
    · simp [acquire, times, hj, Ne.symm hj]

theorem times_release (h : 0 < m.times id) : m.release.times j + (if j = id then 1 else 0) = m.times j := by
  cases m with
  | free => simp [times] at h
  | held u k =>
    by_cases hu : u = id
    · subst hu
      simp only [times, if_true] at h
      by_cases hj : j = u
      · subst hj
        rcases k with _ | _ | k
        · simp at h
        · simp [release, times]
        · simp [release, times]
      · rcases k with _ | _ | k <;> simp [release, times, hj, Ne.symm hj]
    · simp [times, hu] at h

end Mutex

/-- Whether a frame is a stretch under the mutex. -/
def Frame.isGuard : Frame ω → Bool
  | guarded => true
  | _ => false

/-- Whether a thread stands inside a stretch under the mutex. -/
def Control.isInner : Control ω → Bool
  | .point (.inside _) | .point (.restore ..) => true
  | _ => false

/-- Whether the innermost frame is a stretch under the mutex. -/
def beginsGuarded : List (Frame ω) → Bool
  | .guarded :: _ => true
  | _ => false

/-- Every inner frame stands right above the stretch under the mutex that it belongs to. -/
def SeatedFrames : List (Frame ω) → Prop
  | [] => True
  | f :: fs => (f.isInner = true → beginsGuarded fs = true) ∧ SeatedFrames fs

namespace Thread

/-- Every inner place and frame stands right above the stretch under the mutex that it belongs to. -/
structure Seated (t : Thread ω) : Prop where
  control : t.control.isInner = true → beginsGuarded t.frames = true
  frames : SeatedFrames t.frames

/-- The number of stretches under the mutex that a thread is in. -/
def guards (t : Thread ω) : Nat := t.frames.countP Frame.isGuard

/-- The ways in which a step moves the frames of a thread and the mutex. -/
inductive Shift (id : ThreadId) (s s' : Shared ω) : Thread ω → Thread ω → Prop where
  | stay {c c' : Control ω} {fs : List (Frame ω)} (outer : c'.isInner = false) (mutex : s'.mutex = s.mutex) :
      Shift id s s' ⟨c, fs⟩ ⟨c', fs⟩
  | push {c c' : Control ω} {f : Frame ω} {fs : List (Frame ω)} (outer : c'.isInner = false)
      (seat : f.isInner = true → c.isInner = true) (guard : f.isGuard = false) (mutex : s'.mutex = s.mutex) :
      Shift id s s' ⟨c, fs⟩ ⟨c', f :: fs⟩
  | pop {c c' : Control ω} {f : Frame ω} {fs : List (Frame ω)} (seat : c'.isInner = true → f.isInner = true)
      (guard : f.isGuard = false) (mutex : s'.mutex = s.mutex) : Shift id s s' ⟨c, f :: fs⟩ ⟨c', fs⟩
  | swap {c c' : Control ω} {f f' : Frame ω} {fs : List (Frame ω)} (outer : c'.isInner = false)
      (seat : f'.isInner = true → f.isInner = true) (guard : f.isGuard = false) (guard' : f'.isGuard = false)
      (mutex : s'.mutex = s.mutex) : Shift id s s' ⟨c, f :: fs⟩ ⟨c', f' :: fs⟩
  | enter {c c' : Control ω} {fs : List (Frame ω)} (admitted : s.mutex.admits id = true)
      (mutex : s'.mutex = s.mutex.acquire id) : Shift id s s' ⟨c, fs⟩ ⟨c', .guarded :: fs⟩
  | leave {c c' : Control ω} {fs : List (Frame ω)} (outer : c'.isInner = false)
      (mutex : s'.mutex = s.mutex.release) : Shift id s s' ⟨c, .guarded :: fs⟩ ⟨c', fs⟩

variable {h : Host ω} {id : ThreadId} {s s' : Shared ω} {t t' : Thread ω} {fs : List (Frame ω)}

theorem stepStart_shift (r : Request) (hs : stepStart h id s fs r = some (s', t')) :
    Shift id s s' ⟨.point (.start r), fs⟩ t' := by
  cases r with
  | getTyped n k => cases hs; exact .push rfl (by rintro ⟨⟩) rfl rfl
  | _ =>
    simp only [stepStart] at hs
    repeat' split at hs
    all_goals cases hs
    all_goals exact .stay rfl rfl

theorem stepInside_shift (sec : Section) (hs : stepInside h s fs sec = (s', t')) :
    Shift id s s' ⟨.point (.inside sec), fs⟩ t' := by
  cases sec <;> simp only [stepInside] at hs
  all_goals repeat' split at hs
  all_goals cases hs
  all_goals first | exact .stay rfl rfl | exact .push rfl (fun _ => rfl) rfl rfl

theorem stepPoint_shift (p : Point) (hs : stepPoint h id s fs p = some (s', t')) :
    Shift id s s' ⟨.point p, fs⟩ t' := by
  cases p with
  | start r => exact stepStart_shift r hs
  | inside sec => exact stepInside_shift sec (Option.some.inj hs)
  | await sec =>
    simp only [stepPoint] at hs
    split at hs
    · rename_i ha; cases hs; exact .enter ha rfl
    · cases hs
  | agenda tasks =>
    cases tasks with
    | nil => cases hs; exact .stay rfl rfl
    | cons task rest =>
      simp only [stepPoint] at hs
      repeat' split at hs
      all_goals cases hs
      all_goals first | exact .stay rfl rfl | exact .push rfl (by rintro ⟨⟩) rfl rfl
  | _ =>
    simp only [stepPoint] at hs
    repeat' split at hs
    all_goals cases hs
    all_goals first | exact .stay rfl rfl | exact .push rfl (by rintro ⟨⟩) rfl rfl

theorem stepCreating_shift (w : Cache.Window) (c : Callback) (r : Reply)
    (hs : stepCreating h s fs w r = (s', t')) : Shift id s s' ⟨.reply r, .creating w c :: fs⟩ t' := by
  cases r <;> simp only [stepCreating, leave] at hs
  all_goals repeat' split at hs
  all_goals cases hs
  all_goals exact .pop (fun _ => rfl) rfl rfl

theorem stepProducing_shift (p : Producer) (n : Name) (shared hooked : Bool) (r : Reply)
    (hs : stepProducing h s fs n shared hooked r = (s', t')) :
    Shift id s s' ⟨.reply r, .producing p n shared hooked :: fs⟩ t' := by
  cases r <;> cases shared <;> simp only [stepProducing, startHook, Bool.false_eq_true, if_false, if_true] at hs
  all_goals repeat' split at hs
  all_goals cases hs
  all_goals first | exact .pop (by rintro ⟨⟩) rfl rfl | exact .swap rfl (fun i => i) rfl rfl rfl

theorem stepHooking_shift (n : Name) (shared : Bool) (object : Instance) (r : Reply)
    (hs : stepHooking s fs n shared object r = (s', t')) :
    Shift id s s' ⟨.reply r, .hooking n shared object :: fs⟩ t' := by
  cases r <;> cases shared <;> simp only [stepHooking, Bool.false_eq_true, if_false, if_true] at hs
  all_goals cases hs
  all_goals exact .pop (by rintro ⟨⟩) rfl rfl

theorem stepReply_shift (r : Reply) (f : Frame ω) (hs : stepReply h s fs r f = (s', t')) :
    Shift id s s' ⟨.reply r, f :: fs⟩ t' := by
  cases f with
  | creating w c => exact stepCreating_shift w c r hs
  | producing p n shared hooked => exact stepProducing_shift p n shared hooked r hs
  | hooking n shared object => exact stepHooking_shift n shared object r hs
  | guarded => cases hs; exact .leave rfl rfl
  | _ => cases r <;> cases hs <;> exact .pop (by rintro ⟨⟩) rfl rfl

theorem step_shift (hs : t.step h id s = some (s', t')) : Shift id s s' t t' := by
  obtain ⟨control, frames⟩ := t
  cases control with
  | program p =>
    have hs := Option.some.inj hs
    cases p <;> cases hs
    · exact .stay rfl rfl
    · exact .push rfl (by rintro ⟨⟩) rfl rfl
    · exact .stay rfl rfl
  | point p => exact stepPoint_shift p hs
  | reply r =>
    cases frames with
    | nil => cases hs
    | cons f fs => exact stepReply_shift r f (Option.some.inj hs)

theorem Shift.seated (hs : Shift id s s' t t') (ht : t.Seated) : t'.Seated := by
  obtain ⟨hc, hf⟩ := ht
  cases hs with
  | stay outer _ => exact ⟨by simp [outer], hf⟩
  | push outer seat _ _ => exact ⟨by simp [outer], fun hi => hc (seat hi), hf⟩
  | pop seat _ _ => exact ⟨fun hi => hf.1 (seat hi), hf.2⟩
  | swap outer seat _ _ _ => exact ⟨by simp [outer], fun hi => hf.1 (seat hi), hf.2⟩
  | enter _ _ => exact ⟨fun _ => rfl, by rintro ⟨⟩, hf⟩
  | leave outer _ => exact ⟨by simp [outer], hf.2⟩

/-- The mutex counts the stretches that threads are in. -/
theorem Shift.times (hs : Shift id s s' t t') (ht : t.guards = s.mutex.times id) :
    t'.guards = s'.mutex.times id ∧ ∀ j, j ≠ id → s'.mutex.times j = s.mutex.times j := by
  cases hs with
  | stay _ mutex => exact ⟨by rw [mutex]; exact ht, fun j _ => by rw [mutex]⟩
  | push _ _ guard mutex =>
    exact ⟨by rw [mutex, ← ht]; simp [guards, guard], fun j _ => by rw [mutex]⟩
  | pop _ guard mutex =>
    refine ⟨?_, fun j _ => by rw [mutex]⟩
    rw [mutex, ← ht]; simp [guards, guard]
  | swap _ _ guard guard' mutex =>
    refine ⟨?_, fun j _ => by rw [mutex]⟩
    rw [mutex, ← ht]; simp [guards, guard, guard']
  | enter admitted mutex =>
    rw [mutex]
    refine ⟨?_, fun j hj => ?_⟩
    · rw [Mutex.times_acquire admitted, ← ht]; simp [guards, List.countP_cons, Frame.isGuard]
    · rw [Mutex.times_acquire admitted]; simp [hj]
  | leave _ mutex =>
    simp only [guards, List.countP_cons, Frame.isGuard, if_true] at ht ⊢
    have hpos : 0 < s.mutex.times id := by omega
    rw [mutex]
    refine ⟨?_, fun j hj => ?_⟩
    · have := Mutex.times_release (j := id) hpos
      simp only [if_true] at this
      omega
    · have := Mutex.times_release (j := j) hpos
      simpa [hj] using this

theorem guards_pos {c : Control ω} (hb : beginsGuarded fs = true) : 0 < (⟨c, fs⟩ : Thread ω).guards := by
  match fs, hb with
  | .guarded :: fs, _ => simp [guards, Frame.isGuard]

/-- A thread at an inner place, or with an inner frame, is in a stretch under the mutex. -/
theorem Seated.guards_pos (ht : t.Seated) (hi : t.control.isInner = true ∨ ∃ f ∈ t.frames, f.isInner = true) :
    0 < t.guards := by
  obtain ⟨c, fs⟩ := t
  rcases hi with hi | ⟨f, hf, hi⟩
  · exact Thread.guards_pos (ht.control hi)
  · have hframes : ∀ fs : List (Frame ω), SeatedFrames fs → f ∈ fs → 0 < fs.countP Frame.isGuard := by
      intro fs
      induction fs with
      | nil => intro _ hm; cases hm
      | cons g fs ih =>
        intro hs hm
        rw [List.countP_cons]
        rcases List.mem_cons.1 hm with rfl | hm
        · have : 0 < fs.countP Frame.isGuard := Thread.guards_pos (c := c) (hs.1 hi)
          omega
        · have := ih hs.2 hm
          omega
    exact hframes fs ht.frames hf

end Thread

namespace Machine

/-- Threads are seated, and hold the mutex as often as they are in stretches under it. -/
structure Disciplined (m : Machine ω) : Prop where
  seated : ∀ (id : ThreadId) (t : Thread ω), m.threads[id]? = some t → t.Seated
  times : ∀ (id : ThreadId) (t : Thread ω), m.threads[id]? = some t → t.guards = m.shared.mutex.times id

variable {h : Host ω} {m m' : Machine ω} {id j : ThreadId} {t u : Thread ω}

theorem ofPrograms_disciplined (r : Registry) (w : ω) (programs : List (Program ω)) :
    (ofPrograms r w programs).Disciplined := by
  have hsome : ∀ (id : ThreadId) (t : Thread ω), (ofPrograms r w programs).threads[id]? = some t →
      t.frames = [] ∧ t.control.isInner = false := by
    intro id t ht
    simp only [ofPrograms, List.getElem?_map, Option.map_eq_some_iff] at ht
    obtain ⟨p, -, rfl⟩ := ht
    exact ⟨rfl, rfl⟩
  refine ⟨fun id t ht => ?_, fun id t ht => ?_⟩
  · obtain ⟨hf, hc⟩ := hsome id t ht
    exact ⟨by simp [hc], by rw [hf]; trivial⟩
  · obtain ⟨hf, -⟩ := hsome id t ht
    simp [Thread.guards, hf, ofPrograms, Mutex.times]

theorem Disciplined.step (hm : m.Disciplined) (hs : m.step h id = some m') : m'.Disciplined := by
  obtain ⟨t, s', t', ht, hst, rfl⟩ := step_eq_some_iff.1 hs
  have hshift := Thread.step_shift hst
  obtain ⟨hmine, hothers⟩ := hshift.times (hm.times id t ht)
  refine ⟨fun j u hu => ?_, fun j u hu => ?_⟩
  · rcases threads_set ht hu with ⟨rfl, rfl⟩ | ⟨-, hu⟩
    · exact hshift.seated (hm.seated _ t ht)
    · exact hm.seated j u hu
  · rcases threads_set ht hu with ⟨rfl, rfl⟩ | ⟨hj, hu⟩
    · exact hmine
    · rw [hm.times j u hu]; exact (hothers j hj).symm

theorem Disciplined.run {start : Machine ω} {past : List (Moment ω)} (hm : start.Disciplined)
    (hr : Run h start past m) : m.Disciplined :=
  hr.invariant Disciplined hm fun _ _ _ hd hs => hd.step hs

theorem Disciplined.unique (hm : m.Disciplined) (ht : m.threads[id]? = some t) (hu : m.threads[j]? = some u)
    (hpos : 0 < t.guards) (hpos' : 0 < u.guards) : j = id := by
  rw [hm.times id t ht] at hpos
  rw [hm.times j u hu] at hpos'
  by_cases hj : j = id
  · exact hj
  · have := Mutex.not_admits_of_times_pos hpos hj
    rw [Mutex.admits_of_times_pos hpos'] at this
    cases this

end Machine

/-! ## What the mutex guards -/

theorem Change.cache_apply_of_not_isGuarded (r : Registry) (c : Change) (hc : c.isGuarded = false) :
    ∃ exempt, (c.apply r).registry.cache = { r.cache with exempt } := by
  cases c with
  | setExempt n e => exact ⟨_, rfl⟩
  | registerAlias n a => refine ⟨r.cache.exempt, ?_⟩; simp only [Change.apply]; split <;> rfl
  | removeAlias a => refine ⟨r.cache.exempt, ?_⟩; simp only [Change.apply]; split <;> rfl
  | resolveAliases f => refine ⟨r.cache.exempt, ?_⟩; simp only [Change.apply]; split <;> rfl
  | addDependency n d => exact ⟨_, rfl⟩
  | addPart n p => exact ⟨_, rfl⟩
  | registerDisposal n d => exact ⟨_, rfl⟩
  | setHook k => exact ⟨_, rfl⟩
  | _ => cases hc

theorem Task.cache_course_of_not_isGuarded {r r' : Registry} {task : Task} {tasks : List Task} {events : List Event}
    (ht : task.isGuarded = false) (hc : task.course r = .on r' tasks events) : r'.cache = r.cache := by
  cases task <;> cases ht <;> cases hc <;> rfl

/-- While another thread is in a stretch under the mutex, a step changes nothing in the cache but
exemptions. -/
theorem Thread.step_cache_of_not_admits {h : Host ω} {id : ThreadId} {s s' : Shared ω} {t t' : Thread ω}
    (hs : t.step h id s = some (s', t')) (ht : t.Seated) (hg : t.guards = s.mutex.times id)
    (hn : s.mutex.admits id = false) : ∃ exempt, s'.registry.cache = { s.registry.cache with exempt } := by
  have hout : ¬ (t.control.isInner = true ∨ ∃ f ∈ t.frames, f.isInner = true) := by
    intro hi
    have hpos := ht.guards_pos hi
    rw [hg] at hpos
    rw [Mutex.admits_of_times_pos hpos] at hn
    cases hn
  have hframe : ∀ f ∈ t.frames, f.isInner = false := fun f hf => by
    cases hi : f.isInner with
    | false => rfl
    | true => exact absurd (.inr ⟨f, hf, hi⟩) hout
  cases Thread.step_deed hs with
  | idle registry => obtain ⟨b, hb⟩ := registry; exact ⟨s.registry.cache.exempt, by rw [hb]⟩
  | change c fs admitted registry =>
    rw [registry]
    exact Change.cache_apply_of_not_isGuarded _ c (by cases hc : c.isGuarded <;> simp_all)
  | close fs admitted => rw [hn] at admitted; cases admitted
  | plan tasks fs registry => exact ⟨s.registry.cache.exempt, by rw [registry]⟩
  | task task rest tasks events fs admitted course =>
    exact ⟨s.registry.cache.exempt,
      Task.cache_course_of_not_isGuarded (by cases hc : task.isGuarded <;> simp_all) course⟩
  | dispose n d rest fs registry => exact ⟨s.registry.cache.exempt, by rw [registry]⟩
  | disposed r n d rest fs registry => exact ⟨s.registry.cache.exempt, by rw [registry]⟩
  | dropped text n d rest fs registry => exact ⟨s.registry.cache.exempt, by rw [registry]⟩
  | ended fs registry => exact ⟨s.registry.cache.exempt, by rw [registry]⟩
  | create n c w cache fs => exact absurd (.inl rfl) hout
  | created w c a fs => cases hframe _ (List.mem_cons_self ..)
  | abandoned w c r fs => cases hframe _ (List.mem_cons_self ..)
  | restore n p r fs => exact absurd (.inl rfl) hout
  | expose n p a fs => cases hframe _ (List.mem_cons_self ..)
  | keep r f fs produced inHook inner =>
    rw [hframe f (List.mem_cons_self ..)] at inner; cases inner

end Singletons
