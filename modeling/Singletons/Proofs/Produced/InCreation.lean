import Singletons.Proofs.Creation.EarlyReference
import Singletons.Proofs.Produced.Mark
import Singletons.Proofs.Produced.Origin

/-
Objects of names in creation. What a producer yields for a name in creation goes through the hook like any other
object that is not kept. The look at the creation that would hand it out as it is belongs to the requests that found
the name complete, and none of these hears from its producer while the name is in creation (`Apart`): when such a
request comes to its producer under the mutex nobody has the name in creation, and a creation that marks the name
later ends before the producer returns.
-/

namespace Singletons

variable {ω : Type}

namespace Thread

variable {h : Host ω} {id : ThreadId} {s s' : Shared ω} {t t' : Thread ω} {fs : List (Frame ω)} {n : Name}
  {c c' : Cache} {object : Instance}

/-! ## Fetches and marks keep apart -/

/-- A fetch that found `n` complete comes to its producer under the mutex while `n` is not in creation, and if `n` is
in creation while the fetch waits for the producer, then a creation above it has marked `n`. -/
structure Apart (n : Name) (c : Cache) (t : Thread ω) : Prop where
  ahead : t.control.isFetchOf n = true → 0 < t.guards → c.isInCreation n = false
  waiting : c.isInCreation n = true → ∀ p hooked fs, .producing p n true hooked :: fs ∈ fetches t.frames →
    (windows fs).countP (fun w => w.name == n && w.marked) < t.marks n

/-- It matters only what the cache says while the thread is in a stretch under the mutex. -/
theorem Apart.congr (ht : t.Apart n c) (hseated : t.Seated)
    (hc : 0 < t.guards → c'.isInCreation n = c.isInCreation n) : t.Apart n c' where
  ahead hf hpos := (hc hpos).trans (ht.ahead hf hpos)
  waiting hin p hooked fs hl := by
    have hmem := (mem_fetches.1 hl).1.mem (List.mem_cons_self ..)
    have hpos := hseated.guards_pos (.inr ⟨_, hmem, rfl⟩)
    exact ht.waiting ((hc hpos).symm.trans hin) p hooked fs hl

/-- A fetch for `n` is ahead of its producer once it has found `n` complete; then it takes the mutex. -/
theorem isFetchOf_step (hs : t.step h id s = some (s', t')) (hf : t'.control.isFetchOf n = true) :
    s'.registry.cache = s.registry.cache ∧
      (s.registry.cache.contains n = true ∨ t.control.isFetchOf n = true ∧ s.mutex.admits id = true) := by
  cases step_objectMove hs with
  | outside _ _ after => rw [Control.isFetchOf_of_not_isFetch after] at hf; cases hf
  | unshared after => rw [Control.isFetchOf_of_not_isFetch after] at hf; cases hf
  | called _ after => rw [Control.isFetchOf_of_not_isFetch after] at hf; cases hf
  | begun _ _ _ _ after => rw [Control.isFetchOf_of_not_isFetch after] at hf; cases hf
  | shared complete =>
    obtain rfl := eq_of_beq hf
    exact ⟨rfl, .inl complete⟩
  | entered cache =>
    refine ⟨cache, .inr ⟨hf, ?_⟩⟩
    simp only [step, stepPoint] at hs
    split at hs
    · assumption
    · cases hs
  | _ => cases hf

/-- A step of the thread itself: nobody has `n` in creation when a fetch takes the mutex for the first time, and
creations are opened and closed above the fetches that wait. -/
theorem Apart.step (ht : t.Apart n s.registry.cache) (hseated : t.Seated) (hs : t.step h id s = some (s', t'))
    (hfree : t.guards = 0 → s.mutex.admits id = true → s.registry.cache.isInCreation n = false) :
    t'.Apart n s'.registry.cache where
  ahead hf _ := by
    obtain ⟨hcache, hfound⟩ := isFetchOf_step hs hf
    rw [hcache]
    rcases hfound with hcomplete | ⟨hf, hadmits⟩
    · obtain ⟨v, hv⟩ := Option.isSome_iff_exists.1 hcomplete
      exact Cache.isInCreation_eq_false_of_complete? hv
    · rcases Nat.eq_zero_or_pos t.guards with hz | hpos
      · exact hfree hz hadmits
      · exact ht.ahead hf hpos
  waiting hin p hooked fs hl := by
    rcases mem_fetches_step hs hl with hl | ⟨p, n, hooked, fs, heq, rfl⟩ | ⟨_, _, _, _, _, heq, -, -⟩
    · cases (step_deed hs).windowMove with
      | still open_ marks list =>
        rw [marks_congr open_]
        exact ht.waiting (marks n hin) p hooked fs hl
      | opened w inner open_ marks owner list =>
        have hcount : t'.marks n = t.marks n + if w.name == n && w.marked then 1 else 0 := by
          rw [Thread.marks, open_, List.countP_cons]
          rfl
        rcases marks n hin with hin | ⟨hname, hmarked⟩
        · have := ht.waiting hin p hooked fs hl
          omega
        · have hbelow : fs <:+ t.frames := (List.suffix_cons ..).trans (mem_fetches.1 hl).1
          have := marks_le_of_suffix hbelow n
          rw [hcount, hname, hmarked, beq_self_eq_true, Bool.true_and, if_pos rfl]
          omega
      | closed w open_ marks list =>
        obtain ⟨hin, hother⟩ := marks n hin
        have hcount : t'.marks n = t.marks n := by
          rw [Thread.marks, Thread.marks, open_, List.countP_cons_of_neg (by simpa using hother)]
        rw [hcount]
        exact ht.waiting hin p hooked fs hl
    · -- the fetch has just called its producer
      cases heq
      have hidle := ht.ahead (beq_self_eq_true _) (hseated.guards_pos (.inl rfl))
      simp only [step, stepPoint, stepInside] at hs
      split at hs <;> cases hs <;> exact absurd hin (Bool.eq_false_iff.1 hidle)
    · cases heq

/-- A fetch that hears from its producer finds its name not in creation. -/
theorem Apart.isInCreation_eq_false {r : Reply} {p : Producer} {hooked : Bool}
    (ht : Apart n c ⟨.reply r, .producing p n true hooked :: fs⟩) : c.isInCreation n = false := by
  rw [Bool.eq_false_iff]
  intro hin
  have hlt := ht.waiting hin p hooked fs (mem_fetches.2 ⟨List.suffix_rfl, rfl⟩)
  exact Nat.lt_irrefl _ hlt

/-! ## Requests whose object is not kept -/

/-- The reply of a request for an object that is not kept, once the hook has replied `r`. -/
def replyOfHook (n : Name) (object : Instance) : Reply → Reply
  | .ok a => .ok (.value (some (a.toValue.getD object)))
  | .failed f => .failed (.creationFailed n .hook (some (.failure f)) [])
  | .panicked text => .panicked text

theorem stepHooking_unshared (s : Shared ω) (fs : List (Frame ω)) (n : Name) (object : Instance) (r : Reply) :
    stepHooking s fs n false object r = (s, ⟨.reply (replyOfHook n object r), fs⟩) := by
  cases r <;> rfl

/-- The place of a thread whose request is about to hear from the hook, or hears that there is none. -/
def hookStart (h : Host ω) (r : Registry) (n : Name) (object : Instance) : Control ω :=
  match r.hook with
  | none => .reply (.ok (.value (some object)))
  | some hook => .program (h.program hook (.object object n))

/-- Whether the name is in creation does not matter to a request that did not find it complete. -/
theorem stepProducing_unshared (h : Host ω) (s : Shared ω) (fs : List (Frame ω)) (n : Name) {a : Answer}
    (hobject : a.toValue = some object) : stepProducing h s fs n false true (.ok a) =
      (s, ⟨hookStart h s.registry n object, .hooking n false object :: fs⟩) := by
  simp only [stepProducing, hobject, Option.isNone_some, Bool.false_and, Bool.false_eq_true, if_false, startHook,
    hookStart]
  cases s.registry.hook <;> rfl

end Thread

namespace Machine

variable {h : Host ω} {m m' m₁ : Machine ω} {id : ThreadId} {past seg : List (Moment ω)} {n : Name}
  {fs : List (Frame ω)} {object : Instance}

/-- All fetches for `n` and the marks on `n` keep apart. -/
def Apart (n : Name) (m : Machine ω) : Prop :=
  ∀ (id : ThreadId) (t : Thread ω), m.threads[id]? = some t → t.Apart n m.shared.registry.cache

theorem Apart.step (ha : m.Apart n) (hd : m.Disciplined) (hb : m.Balanced) (hs : m.step h id = some m') :
    m'.Apart n := by
  intro j u hu
  obtain ⟨t, s', t', ht, hst, rfl⟩ := step_eq_some_iff.1 hs
  rcases threads_set ht hu with ⟨rfl, rfl⟩ | ⟨hj, hu⟩
  · refine (ha _ t ht).step (hd.seated _ t ht) hst fun hz hadmits => Bool.eq_false_iff.2 fun hin => ?_
    -- whoever marked the name would hold the mutex
    obtain ⟨k, v, hv, -, hheld⟩ := hb.creator hd hin
    by_cases hk : k = j
    · subst hk
      rw [← hd.times k t ht, hz] at hheld
      exact Nat.lt_irrefl 0 hheld
    · rw [Mutex.not_admits_of_times_pos hheld (Ne.symm hk)] at hadmits
      cases hadmits
  · refine (ha j u hu).congr (hd.seated j u hu) fun hpos => ?_
    obtain ⟨exempt, hc⟩ := hd.step_cache hs hu hpos hj
    rw [hc]
    rfl

theorem Run.apart {r : Registry} {w : ω} {programs : List (Program ω)}
    (hr : Run h (ofPrograms { r with cache := {} } w programs) past m) : m.Apart n := by
  induction hr with
  | start =>
    intro id t ht
    obtain ⟨p, rfl⟩ := eq_ofProgram_of_ofPrograms ht
    exact ⟨by rintro ⟨⟩, by rintro ⟨⟩⟩
  | step id hr hs ih =>
    have ho := ofPrograms_orderly { r with cache := {} } w programs
    exact ih.step (ho.run hr).disciplined ((ofPrograms_balanced r w programs).reachable ho hr.reachable) hs

/-- A request that waits for the hook, whose object is not kept, goes on waiting until its thread hands it the reply
of the hook; that step ends it. -/
theorem Run.hooking {control : Control ω} (hr : Run h m₁ seg m)
    (ht : m₁.threads[id]? = some ⟨control, .hooking n false object :: fs⟩) (hu : Underway id fs.length seg) :
    (∃ t, m.threads[id]? = some t ∧ .hooking n false object :: fs <:+ t.frames ∧
        ∀ r, control = .reply r → t = ⟨.reply r, .hooking n false object :: fs⟩) ∨
      ∃ last inner r, seg = last :: inner ∧ last.mover = id ∧
        last.thread? = some ⟨.reply r, .hooking n false object :: fs⟩ ∧ (∀ r', control = .reply r' → r = r') ∧
        m.shared.registry = last.shared.registry ∧
        m.threads[id]? = some ⟨.reply (Thread.replyOfHook n object r), fs⟩ := by
  induction hr with
  | start => exact .inl ⟨_, ht, List.suffix_rfl, fun r hr => by rw [hr]⟩
  | @step seg m m' j hr hs ih =>
    rcases ih fun e he => hu e (List.mem_cons_of_mem _ he) with ⟨t, hid, hwaits, hstays⟩ | ⟨_, _, r, -, -, -, -, -, hid⟩
    · by_cases hj : j = id
      · subst hj
        obtain ⟨s', t', hst, rfl⟩ := exists_of_step hs hid
        cases hw : t.isWithin (fs.length + 1) with
        | true =>
          refine .inl ⟨t', threads_set_self hid, Thread.suffix_step_of_isWithin hwaits hw hst, fun r hr => ?_⟩
          rw [hstays r hr] at hw
          simp [Thread.isWithin] at hw
        | false =>
          obtain ⟨r, rfl⟩ := Thread.eq_of_not_isWithin hwaits hw
          have hst : Thread.stepHooking m.shared fs n false object r = (s', t') := Option.some.inj hst
          rw [Thread.stepHooking_unshared] at hst
          cases hst
          refine .inr ⟨⟨m, j⟩, seg, r, rfl, rfl, hid, fun r' hr' => ?_, rfl, threads_set_self hid⟩
          cases hstays r' hr'
          rfl
      · exact .inl ⟨t, threads_of_ne hs hj hid, hwaits, hstays⟩
    · -- the request was over at the last moment
      have hover := hu.isWithin hid
      simp [Thread.isWithin] at hover

/-- When the producer of a request returns an object for a name in creation, the request does not hand it out as it
is unless no hook is set. It has not found the name complete, and so the hook is called on the object, and the request
ends with what the hook makes of it. At least nothing is kept: the name has no object, and neither the step to the
hook nor the last one keeps any. -/
theorem Run.hooked_in_creation {r : Registry} {w : ω} {programs : List (Program ω)} {a : Answer} {p : Producer}
    {shared : Bool} (hr : Run h (ofPrograms { r with cache := {} } w programs) past m)
    (ht : m.threads[id]? = some ⟨.reply (.ok a), .producing p n shared true :: fs⟩) (hobject : a.toValue = some object)
    (hin : m.shared.registry.cache.isInCreation n = true) :
    shared = false ∧ m.produced? n = none ∧
      ∃ m₁, m.step h id = some m₁ ∧ m₁.shared.registry = m.shared.registry ∧
        m₁.threads[id]? =
          some ⟨Thread.hookStart h m.shared.registry n object, .hooking n false object :: fs⟩ ∧
        ∀ seg m' reply, Run h m₁ seg m' → Underway id fs.length seg → m'.threads[id]? = some ⟨.reply reply, fs⟩ →
          ∃ last inner r, seg = last :: inner ∧ last.mover = id ∧
            last.thread? = some ⟨.reply r, .hooking n false object :: fs⟩ ∧
            m'.shared.registry = last.shared.registry ∧ reply = Thread.replyOfHook n object r ∧
            (m.shared.registry.hook = none → reply = .ok (.value (some object))) := by
  obtain rfl : shared = false := by
    cases shared with
    | false => rfl
    | true =>
      rw [(hr.apart id _ ht).isInCreation_eq_false] at hin
      cases hin
  have hmissing : m.produced? n = none := by
    rw [← Option.not_isSome_iff_eq_none]
    intro hkept
    obtain ⟨v, hv⟩ := Option.isSome_iff_exists.1 ((Tabled.run hr).kept n hkept)
    rw [Cache.isInCreation_eq_false_of_complete? hv] at hin
    cases hin
  have hstep : m.step h id = some ⟨m.shared, m.threads.set id
      ⟨Thread.hookStart h m.shared.registry n object, .hooking n false object :: fs⟩⟩ := by
    refine step_eq_some_iff.2 ⟨_, _, _, ht, ?_, rfl⟩
    exact congrArg some (Thread.stepProducing_unshared h m.shared fs n hobject)
  refine ⟨rfl, hmissing, _, hstep, rfl, threads_set_self ht, fun seg m' reply hr' hu hend => ?_⟩
  rcases hr'.hooking (threads_set_self ht) hu with
    ⟨t, hid, hwaits, -⟩ | ⟨last, inner, r, hseg, hlast, hplace, hsame, hreg, hid⟩
  · cases hid.symm.trans hend
    have := hwaits.length_le
    simp at this
  · cases hid.symm.trans hend
    refine ⟨last, inner, r, hseg, hlast, hplace, hreg, rfl, fun hnone => ?_⟩
    rw [hsame (.ok (.value (some object))) (by rw [Thread.hookStart, hnone])]
    rfl

/-- Callbacks: one creates an instance and asks the producer for an object of the name that it creates, the second
one is the producer, and the third one is the hook, which replaces what it is given. -/
def nascentHost : Host Unit where
  program c _ :=
    if c = 0 then .request (.yielded ⟨1, true, none⟩ "n" true true) fun _ => .yield (some ⟨3, .unit⟩)
    else .yield (some ⟨c, .unit⟩)
  observe _ w := w

/-- A caller that sets the hook and asks for the creation of `n`. -/
def nascentCaller : Program Unit :=
  [.change (.setHook (some 2)), .getOrCreate "n" 0].foldr (fun request rest => .request request fun _ => rest)
    (.finish (.ok .done))

/-- The run of the caller up to the return of the producer. -/
def nascentRun : List (Moment Unit) × Machine Unit :=
  (ofPrograms {} () [nascentCaller]).drive nascentHost (List.replicate 11 0) []

/-- The frames below the request for the object. -/
def nascentFrames : List (Frame Unit) :=
  [.caller fun _ => .yield (some ⟨3, .unit⟩), .creating ⟨"n", true, true⟩ 0, .guarded,
    .caller fun _ => .finish (.ok .done)]

theorem thread_nascentRun : nascentRun.2.threads[0]? =
    some ⟨.reply (.ok (.value (some ⟨1, .unit⟩))), .producing ⟨1, true, none⟩ "n" false true :: nascentFrames⟩ := rfl

theorem hooked_in_creation_nascentRun :
    nascentRun.2.shared.registry.cache.isInCreation "n" = true ∧ nascentRun.2.produced? "n" = none ∧
      ∃ m₁, nascentRun.2.step nascentHost 0 = some m₁ ∧
        m₁.threads[0]? = some ⟨.program (nascentHost.program 2 (.object ⟨1, .unit⟩ "n")),
          .hooking "n" false ⟨1, .unit⟩ :: nascentFrames⟩ := by
  have hin : nascentRun.2.shared.registry.cache.isInCreation "n" = true := by decide
  have hrun : Run nascentHost (ofPrograms {} () [nascentCaller]) nascentRun.1 nascentRun.2 := .drive _ .start
  obtain ⟨-, hmissing, m₁, hstep, -, hstart, -⟩ := Run.hooked_in_creation (r := {}) hrun thread_nascentRun rfl hin
  exact ⟨hin, hmissing, m₁, hstep, hstart⟩

/-- The rest of the request for the object. -/
def replacedRun : List (Moment Unit) × Machine Unit := nascentRun.2.drive nascentHost (List.replicate 3 0) []

/-- The name is in creation when the producer of a shared and hooked request returns, and still the request ends with
what the hook has put in the place of the object. -/
theorem hook_runs_in_creation :
    Run nascentHost (ofPrograms {} () [nascentCaller]) nascentRun.1 nascentRun.2 ∧
      (∃ e ∈ nascentRun.1,
        e.thread? = some ⟨.point (.start (.yielded ⟨1, true, none⟩ "n" true true)), nascentFrames⟩) ∧
      nascentRun.2.threads[0]? = some
        ⟨.reply (.ok (.value (some ⟨1, .unit⟩))), .producing ⟨1, true, none⟩ "n" false true :: nascentFrames⟩ ∧
      nascentRun.2.shared.registry.cache.isInCreation "n" = true ∧
      Run nascentHost nascentRun.2 replacedRun.1 replacedRun.2 ∧
      Underway 0 nascentFrames.length replacedRun.1 ∧
      replacedRun.2.threads[0]? = some ⟨.reply (.ok (.value (some ⟨2, .unit⟩))), nascentFrames⟩ := by
  have hlength : 2 < nascentRun.1.length := by decide
  exact ⟨.drive _ .start, ⟨nascentRun.1[2], List.getElem_mem hlength, rfl⟩, rfl, by decide, .drive _ .start, by decide,
    rfl⟩

end Machine

end Singletons
