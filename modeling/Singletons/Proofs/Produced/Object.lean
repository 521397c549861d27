import Mathlib.Data.List.Infix
import Singletons.Proofs.Cache.Tables

/-
Fetches: requests for the shared object of a producer. `ObjectMove` lists what a step may do for a fetch, from
the look for the producer to the reply of the hook, and says that every other step leaves the fetches that
wait in the frames alone. From the list follow what a step does to the object kept for a name and to the
hooks that run on its behalf.
-/

namespace Singletons

variable {ω : Type}

/-- Whether a frame belongs to a fetch: it waits for the producer, or for the hook. -/
def Frame.isFetch : Frame ω → Bool
  | producing _ _ true _ | hooking _ true _ => true
  | _ => false

/-- Whether a frame waits for the hook, on behalf of a fetch for `n`. -/
def Frame.isHook (n : Name) : Frame ω → Bool
  | hooking k true _ => k == n
  | _ => false

/-- Whether a frame belongs to a fetch for `n`. -/
def Frame.isFetchOf (n : Name) : Frame ω → Bool
  | producing _ k true _ | hooking k true _ => k == n
  | _ => false

/-- Whether a fetch for `n` that found `n` complete waits for the mutex or has just taken it. -/
def Control.isFetchOf (n : Name) : Control ω → Bool
  | .point (.await (.produceShared _ k _)) | .point (.inside (.produceShared _ k _)) => k == n
  | _ => false

/-- Whether a fetch goes on with the next step. -/
def Control.isFetch : Control ω → Bool
  | .point (.produce _ _ true _) | .point (.await (.produceShared ..)) | .point (.inside (.produceShared ..)) => true
  | _ => false

theorem Control.isFetchOf_of_not_isFetch {c : Control ω} {n : Name} (hc : c.isFetch = false) :
    c.isFetchOf n = false := by
  unfold isFetchOf
  split
  · cases hc
  · cases hc
  · rfl

/-- The fetches that wait in some frames, innermost first, each with the frames below it. -/
def fetches (frames : List (Frame ω)) : List (List (Frame ω)) :=
  frames.tails.filter fun fs => fs.head?.any Frame.isFetch

theorem mem_fetches {frames : List (Frame ω)} {f : Frame ω} {fs : List (Frame ω)} :
    f :: fs ∈ fetches frames ↔ f :: fs <:+ frames ∧ f.isFetch = true := by
  rw [fetches, List.mem_filter, List.mem_tails]
  rfl

theorem fetches_cons_of_isFetch {f : Frame ω} (hf : f.isFetch = true) (fs : List (Frame ω)) :
    fetches (f :: fs) = (f :: fs) :: fetches fs := by
  rw [fetches, List.tails_cons, List.filter_cons, if_pos (by exact hf)]
  rfl

theorem fetches_cons_of_not_isFetch {f : Frame ω} (hf : f.isFetch = false) (fs : List (Frame ω)) :
    fetches (f :: fs) = fetches fs := by
  rw [fetches, List.tails_cons, List.filter_cons, if_neg (by simp [hf])]
  rfl

/-- What is counted of the frames of fetches only is counted from the fetches. -/
theorem countP_eq_countP_fetches {p : Frame ω → Bool} (hp : ∀ f, p f = true → f.isFetch = true) :
    ∀ fs : List (Frame ω), fs.countP p = (fetches fs).countP fun l => l.head?.any p
  | [] => rfl
  | f :: fs => by
    rw [List.countP_cons, countP_eq_countP_fetches hp fs]
    cases hf : f.isFetch with
    | true => rw [fetches_cons_of_isFetch hf, List.countP_cons, List.head?_cons, Option.any_some]
    | false =>
      have hpf : p f = false := by
        cases hpf : p f with
        | false => rfl
        | true => rw [hp f hpf] at hf; cases hf
      rw [fetches_cons_of_not_isFetch hf, hpf]
      rfl

namespace Cache

variable {c c' : Cache} {n k : Name} {v : Value}

/-- Whether two caches have the same object for `n`, and say the same of whether the hook runs for it. -/
structure SameObject (c : Cache) (n : Name) (c' : Cache) : Prop where
  produced : c'.produced? n = c.produced? n
  inHook : c'.inHook.contains n = c.inHook.contains n

theorem SameObject.remove (hn : n ≠ k) : c.SameObject n (c.remove k) := ⟨Table.get?_erase_of_ne _ hn, rfl⟩

theorem produced?_keep : (c.keep k v).produced? n = if n = k ∧ c.contains k = true then some v else c.produced? n := by
  unfold keep
  by_cases hk : c.contains k = true
  · rw [if_pos hk]
    exact (Table.get?_insert ..).trans (by simp [hk, produced?])
  · rw [if_neg hk, if_neg fun hn => hk hn.2]

theorem inHook_keep : (c.keep k v).inHook = c.inHook := by
  unfold keep
  split <;> rfl

theorem contains_inHook_beginHook : (c.beginHook k).inHook.contains n = (n == k || c.inHook.contains n) := by
  rw [Bool.eq_iff_iff, Bool.or_eq_true, Roster.contains_iff, Roster.contains_iff, beq_iff_eq]
  exact Roster.mem_add ..

theorem contains_inHook_endHook : (c.endHook k).inHook.contains n = (n != k && c.inHook.contains n) := by
  rw [Bool.eq_iff_iff, Bool.and_eq_true, Roster.contains_iff, Roster.contains_iff, bne_iff_ne]
  exact Roster.mem_remove ..

end Cache

namespace Thread

/-- Whether a thread hands a reply to a fetch. -/
def hears : Thread ω → Bool
  | ⟨.reply _, f :: _⟩ => f.isFetch
  | _ => false

/-- What a step may do for a fetch. -/
inductive ObjectMove (s : Shared ω) : Thread ω → Shared ω → Thread ω → Prop where
  /-- Nothing. -/
  | outside {t t' : Thread ω} {s' : Shared ω} (quiet : t.hears = false) (before : t.control.isFetch = false)
      (after : t'.control.isFetch = false) (frames : fetches t'.frames = fetches t.frames) : ObjectMove s t s' t'
  /-- The producer is found under the name. -/
  | found {k n : Name} {i : Instance} {p : Producer} {hooked : Bool} {fs : List (Frame ω)}
      (name : s.registry.canonical k.unmarked = n) (complete : s.registry.cache.complete? n = some (some i))
      (producer : i.producer? = some p) :
      ObjectMove s ⟨.point (.start (.produced k true hooked)), fs⟩ s ⟨.point (.produce p n true hooked), fs⟩
  /-- The producer is given with the request. -/
  | given {p : Producer} {n : Name} {hooked : Bool} {fs : List (Frame ω)} :
      ObjectMove s ⟨.point (.start (.yielded p n true hooked)), fs⟩ s ⟨.point (.produce p n true hooked), fs⟩
  /-- Nothing is complete under the name, and its object will not be kept. -/
  | unshared {t' : Thread ω} {p : Producer} {n : Name} {hooked : Bool} {fs : List (Frame ω)}
      (after : t'.control.isFetch = false) (frames : fetches t'.frames = fetches fs) :
      ObjectMove s ⟨.point (.produce p n true hooked), fs⟩ s t'
  | shared {p : Producer} {n : Name} {hooked : Bool} {fs : List (Frame ω)}
      (complete : s.registry.cache.contains n = true) :
      ObjectMove s ⟨.point (.produce p n true hooked), fs⟩ s ⟨.point (.await (.produceShared p n hooked)), fs⟩
  | entered {s' : Shared ω} {p : Producer} {n : Name} {hooked : Bool} {fs : List (Frame ω)}
      (cache : s'.registry.cache = s.registry.cache) :
      ObjectMove s ⟨.point (.await (.produceShared p n hooked)), fs⟩ s'
        ⟨.point (.inside (.produceShared p n hooked)), .guarded :: fs⟩
  /-- There is an object already. -/
  | served {s' : Shared ω} {p : Producer} {n : Name} {hooked : Bool} {v : Value} {fs : List (Frame ω)}
      (there : s.registry.cache.produced? n = some v) (cache : s'.registry.cache = s.registry.cache) :
      ObjectMove s ⟨.point (.inside (.produceShared p n hooked)), fs⟩ s' ⟨.reply (.ok (.value v)), fs⟩
  | called {t' : Thread ω} {p : Producer} {n : Name} {hooked : Bool} {fs : List (Frame ω)}
      (missing : s.registry.cache.produced? n = none) (after : t'.control.isFetch = false)
      (frames : t'.frames = .producing p n true hooked :: fs) :
      ObjectMove s ⟨.point (.inside (.produceShared p n hooked)), fs⟩ s t'
  /-- The fetch ends without a new object. If there is one meanwhile, no other is handed out. -/
  | returned {s' : Shared ω} {r r' : Reply} {p : Producer} {n : Name} {hooked : Bool} {fs : List (Frame ω)}
      (cache : s'.registry.cache = s.registry.cache)
      (answer : ∀ v, s.registry.cache.produced? n = some v → ∀ a, r' = .ok a → a = .value v) :
      ObjectMove s ⟨.reply r, .producing p n true hooked :: fs⟩ s' ⟨.reply r', fs⟩
  /-- The object is kept as it is. -/
  | kept {s' : Shared ω} {a : Answer} {p : Producer} {n : Name} {hooked : Bool} {fs : List (Frame ω)}
      (missing : s.registry.cache.produced? n = none)
      (cache : s'.registry.cache = s.registry.cache.keep n a.toValue) :
      ObjectMove s ⟨.reply (.ok a), .producing p n true hooked :: fs⟩ s' ⟨.reply (.ok (.value a.toValue)), fs⟩
  /-- The hook starts on the object. -/
  | begun {s' : Shared ω} {t' : Thread ω} {a : Answer} {p : Producer} {n : Name} {object : Instance}
      {fs : List (Frame ω)} (missing : s.registry.cache.produced? n = none)
      (unbarred : s.registry.cache.inHook.contains n = false) (yielded : a.toValue = some object)
      (cache : s'.registry.cache = s.registry.cache.beginHook n) (after : t'.control.isFetch = false)
      (frames : t'.frames = .hooking n true object :: fs) :
      ObjectMove s ⟨.reply (.ok a), .producing p n true true :: fs⟩ s' t'
  /-- The hook has returned, and its object is kept. -/
  | hooked {s' : Shared ω} {a : Answer} {n : Name} {object : Instance} {fs : List (Frame ω)}
      (cache : s'.registry.cache = (s.registry.cache.endHook n).keep n (some (a.toValue.getD object))) :
      ObjectMove s ⟨.reply (.ok a), .hooking n true object :: fs⟩ s'
        ⟨.reply (.ok (.value (some (a.toValue.getD object)))), fs⟩
  /-- The hook has failed. -/
  | unhooked {s' : Shared ω} {f f' : Failure} {n : Name} {object : Instance} {fs : List (Frame ω)}
      (cache : s'.registry.cache = s.registry.cache.endHook n) :
      ObjectMove s ⟨.reply (.failed f), .hooking n true object :: fs⟩ s' ⟨.reply (.failed f'), fs⟩
  /-- The hook has panicked, and the name stays marked. -/
  | unwound {text : String} {n : Name} {object : Instance} {fs : List (Frame ω)} :
      ObjectMove s ⟨.reply (.panicked text), .hooking n true object :: fs⟩ s ⟨.reply (.panicked text), fs⟩

variable {h : Host ω} {id : ThreadId} {s s' : Shared ω} {t t' : Thread ω} {fs : List (Frame ω)} {n : Name}

theorem stepStart_objectMove (r : Request) (hs : stepStart h id s fs r = some (s', t')) :
    ObjectMove s ⟨.point (.start r), fs⟩ s' t' := by
  cases r with
  | produced k shared hooked =>
    simp only [stepStart] at hs
    split at hs
    · rename_i i hi
      split at hs
      · cases hs; exact .outside rfl rfl rfl rfl
      · rename_i p hp
        have hp : i.producer? = some p := by
          unfold Instance.asProducer at hp
          split at hp
          · rename_i hp'; cases hp; exact hp'
          · cases hp
        split at hs
        · cases hs; exact .outside rfl rfl rfl rfl
        · cases hs
          cases shared with
          | true => exact .found rfl hi hp
          | false => exact .outside rfl rfl rfl rfl
    · cases hs; exact .outside rfl rfl rfl rfl
  | yielded p k shared hooked =>
    cases hs
    cases shared with
    | true => exact .given
    | false => exact .outside rfl rfl rfl rfl
  | _ =>
    simp only [stepStart] at hs
    repeat' split at hs
    all_goals cases hs
    all_goals exact .outside rfl rfl rfl rfl

theorem stepInside_objectMove (sec : Section) (hs : stepInside h s fs sec = (s', t')) :
    ObjectMove s ⟨.point (.inside sec), fs⟩ s' t' := by
  cases sec with
  | produceShared p k hooked =>
    simp only [stepInside] at hs
    split at hs
    · rename_i v hv; cases hs; exact .served hv rfl
    · rename_i hv; cases hs; exact .called hv rfl rfl
  | _ =>
    simp only [stepInside] at hs
    repeat' split at hs
    all_goals cases hs
    all_goals exact .outside rfl rfl rfl rfl

theorem stepPoint_objectMove (p : Point) (hs : stepPoint h id s fs p = some (s', t')) :
    ObjectMove s ⟨.point p, fs⟩ s' t' := by
  cases p with
  | start r => exact stepStart_objectMove r hs
  | inside sec => exact stepInside_objectMove sec (Option.some.inj hs)
  | await sec =>
    simp only [stepPoint] at hs
    split at hs
    · cases hs
      cases sec with
      | produceShared p k hooked => exact .entered rfl
      | _ => exact .outside rfl rfl rfl rfl
    · cases hs
  | produce p k shared hooked =>
    cases shared with
    | false => cases hs; exact .outside rfl rfl rfl rfl
    | true =>
      simp only [stepPoint, Bool.true_and] at hs
      split at hs
      · rename_i hc; cases hs; exact .shared hc
      · cases hs; exact .unshared rfl rfl
  | agenda tasks =>
    cases tasks with
    | nil => cases hs; exact .outside rfl rfl rfl rfl
    | cons task rest =>
      simp only [stepPoint] at hs
      repeat' split at hs
      all_goals cases hs
      all_goals exact .outside rfl rfl rfl rfl
  | _ =>
    simp only [stepPoint] at hs
    repeat' split at hs
    all_goals cases hs
    all_goals exact .outside rfl rfl rfl rfl

theorem stepProducing_objectMove (p : Producer) (k : Name) (shared hooked : Bool) (r : Reply)
    (hs : stepProducing h s fs k shared hooked r = (s', t')) :
    ObjectMove s ⟨.reply r, .producing p k shared hooked :: fs⟩ s' t' := by
  cases shared with
  | false =>
    cases r <;> simp only [stepProducing, startHook, Bool.false_eq_true, if_false] at hs
    all_goals repeat' split at hs
    all_goals cases hs
    all_goals exact .outside rfl rfl rfl rfl
  | true =>
    cases r with
    | failed f => cases hs; exact .returned rfl fun _ _ _ ha => by cases ha
    | panicked text => cases hs; exact .returned rfl fun _ _ _ ha => by cases ha
    | ok a =>
      simp only [stepProducing, if_true] at hs
      split at hs
      · cases hs; exact .returned rfl fun _ _ _ ha => by cases ha
      · split at hs
        · rename_i v hv
          cases hs
          exact .returned rfl fun u hu b hb => by cases hb; rw [hv] at hu; cases hu; rfl
        · rename_i hnone
          split at hs
          · rename_i object hobject
            split at hs
            · cases hs
              exact .returned rfl fun u hu => by rw [hnone] at hu; cases hu
            · rename_i hbarred
              have hin : s.registry.cache.inHook.contains k = false := by
                simp only [Cache.hookBarred, Bool.or_eq_true, not_or, Bool.not_eq_true] at hbarred
                exact hbarred.2
              unfold startHook at hs
              split at hs <;> cases hs <;> exact .begun hnone hin hobject rfl rfl rfl
          · cases hs; exact .kept hnone rfl

theorem stepHooking_objectMove (k : Name) (shared : Bool) (object : Instance) (r : Reply)
    (hs : stepHooking s fs k shared object r = (s', t')) :
    ObjectMove s ⟨.reply r, .hooking k shared object :: fs⟩ s' t' := by
  cases shared with
  | false =>
    cases r <;> simp only [stepHooking, Bool.false_eq_true, if_false] at hs
    all_goals cases hs
    all_goals exact .outside rfl rfl rfl rfl
  | true =>
    cases r with
    | ok a => cases hs; exact .hooked rfl
    | failed f => cases hs; exact .unhooked rfl
    | panicked text => cases hs; exact .unwound

theorem stepCreating_objectMove (w : Cache.Window) (c : Callback) (r : Reply)
    (hs : stepCreating h s fs w r = (s', t')) : ObjectMove s ⟨.reply r, .creating w c :: fs⟩ s' t' := by
  cases r <;> simp only [stepCreating, leave] at hs
  all_goals repeat' split at hs
  all_goals cases hs
  all_goals exact .outside rfl rfl rfl rfl

theorem stepReply_objectMove (r : Reply) (f : Frame ω) (hs : stepReply h s fs r f = (s', t')) :
    ObjectMove s ⟨.reply r, f :: fs⟩ s' t' := by
  cases f with
  | creating w c => exact stepCreating_objectMove w c r hs
  | producing p k shared hooked => exact stepProducing_objectMove p k shared hooked r hs
  | hooking k shared object => exact stepHooking_objectMove k shared object r hs
  | _ => cases r <;> cases hs <;> exact .outside rfl rfl rfl rfl

theorem step_objectMove (hs : t.step h id s = some (s', t')) : ObjectMove s t s' t' := by
  obtain ⟨control, frames⟩ := t
  cases control with
  | program p =>
    have hs := Option.some.inj hs
    cases p <;> cases hs <;> exact .outside rfl rfl rfl rfl
  | point p => exact stepPoint_objectMove p hs
  | reply r =>
    cases frames with
    | nil => cases hs
    | cons f fs => exact stepReply_objectMove r f (Option.some.inj hs)

/-! ## What fetches do to the object of a name -/

/-- The number of hooks that run for `n` on behalf of fetches of a thread. -/
def hooks (t : Thread ω) (n : Name) : Nat := t.frames.countP (Frame.isHook n)

/-- Whether a thread is in a fetch for `n` that found `n` complete. -/
def isFetching (t : Thread ω) (n : Name) : Bool := t.control.isFetchOf n || t.frames.any (Frame.isFetchOf n)

/-- The object that the producer of `n` has yielded for a fetch. -/
def yielded? (t : Thread ω) (n : Name) : Option Value :=
  match t with
  | ⟨.reply (.ok a), .producing _ k true _ :: _⟩ => if k = n then some a.toValue else none
  | _ => none

/-- The object that the hook has returned for a fetch for `n`. A hook that yields nothing leaves the object as
it was. -/
def hooked? (t : Thread ω) (n : Name) : Option Value :=
  match t with
  | ⟨.reply (.ok a), .hooking k true object :: _⟩ => if k = n then some (some (a.toValue.getD object)) else none
  | _ => none

theorem eq_of_yielded {v : Value} (hy : t.yielded? n = some v) :
    ∃ a p hooked fs, t = ⟨.reply (.ok a), .producing p n true hooked :: fs⟩ ∧ a.toValue = v := by
  unfold yielded? at hy
  split at hy
  · split at hy
    · rename_i hk
      cases hk
      cases hy
      exact ⟨_, _, _, _, rfl, rfl⟩
    · cases hy
  · cases hy

theorem eq_of_hooked {v : Value} (hy : t.hooked? n = some v) :
    ∃ a object fs, t = ⟨.reply (.ok a), .hooking n true object :: fs⟩ ∧ some (a.toValue.getD object) = v := by
  unfold hooked? at hy
  split at hy
  · split at hy
    · rename_i hk
      cases hk
      cases hy
      exact ⟨_, _, _, rfl, rfl⟩
    · cases hy
  · cases hy

theorem isFetching_congr (h : fetches t'.frames = fetches t.frames) (n : Name) :
    t'.frames.any (Frame.isFetchOf n) = t.frames.any (Frame.isFetchOf n) := by
  have hfetch : ∀ f : Frame ω, f.isFetchOf n = true → f.isFetch = true := by
    intro f hf
    cases f with
    | producing p k shared hooked => cases shared <;> first | rfl | cases hf
    | hooking k shared object => cases shared <;> first | rfl | cases hf
    | _ => cases hf
  rw [Bool.eq_iff_iff, List.any_eq_true, List.any_eq_true, ← List.countP_pos_iff, ← List.countP_pos_iff,
    countP_eq_countP_fetches hfetch, countP_eq_countP_fetches hfetch, h]

theorem hooks_congr (h : fetches t'.frames = fetches t.frames) (n : Name) : t'.hooks n = t.hooks n := by
  have hfetch : ∀ f : Frame ω, f.isHook n = true → f.isFetch = true := by
    intro f hf
    cases f with
    | hooking k shared object => cases shared <;> first | rfl | cases hf
    | _ => cases hf
  rw [hooks, hooks, countP_eq_countP_fetches hfetch, countP_eq_countP_fetches hfetch, h]

theorem hooked?_of_not_hears (ht : t.hears = false) (n : Name) : t.hooked? n = none := by
  unfold hooked?
  split
  · cases ht
  · rfl

/-- Whoever comes to be in a fetch that found `n` complete finds it so in this step. -/
theorem step_isFetching (hs : t.step h id s = some (s', t')) (hf : t'.isFetching n = true) :
    t.isFetching n = true ∨ s.registry.cache.contains n = true := by
  cases step_objectMove hs with
  | outside _ before after frames =>
    left
    rw [isFetching, Control.isFetchOf_of_not_isFetch after, isFetching_congr frames] at hf
    rw [isFetching, Control.isFetchOf_of_not_isFetch before, hf]
  | unshared after frames =>
    left
    rw [isFetching, Control.isFetchOf_of_not_isFetch after, isFetching_congr (t := ⟨_, _⟩) frames] at hf
    exact hf
  | @called _ p k hooked fs missing after frames =>
    left
    rw [isFetching, Control.isFetchOf_of_not_isFetch after, frames] at hf
    simpa [isFetching, Control.isFetchOf, Frame.isFetchOf] using hf
  | @begun _ _ a p k object fs missing unbarred yielded cache after frames =>
    left
    rw [isFetching, Control.isFetchOf_of_not_isFetch after, frames] at hf
    simpa [isFetching, Control.isFetchOf, Frame.isFetchOf] using hf
  | @shared p k hooked fs complete =>
    rcases Bool.or_eq_true_iff.1 hf with hk | hf
    · right
      have hk : k = n := by simpa [Control.isFetchOf] using hk
      exact hk ▸ complete
    · exact .inl (by simpa [isFetching, Control.isFetchOf] using hf)
  | _ =>
    left
    simp only [isFetching, Control.isFetchOf, List.any_cons, Frame.isFetchOf, Bool.false_or, Bool.or_eq_true] at hf ⊢
    tauto

/-- A change that does not remove `n` leaves its object. -/
theorem sameObject_change {c : Change} (registry : s'.registry = (c.apply s.registry).registry)
    (hk : removes s.registry n (⟨.point (.start (.change c)), fs⟩ : Thread ω) = false) :
    s.registry.cache.SameObject n s'.registry.cache := by
  rw [registry]
  cases c with
  | registerSingleton k v =>
    cases hr : s.registry.cache.register (s.registry.canonical k) v with
    | error f => simp only [Change.apply, hr]; exact ⟨rfl, rfl⟩
    | ok cache =>
      simp only [Change.apply, hr]
      unfold Cache.register at hr
      split at hr
      · cases hr
      · cases hr; exact ⟨rfl, rfl⟩
  | removeSingleton k => exact .remove fun hn => by simp [removes, hn] at hk
  | evict k => exact .remove fun hn => by simp [removes, hn] at hk
  | clear reset => cases hk
  | suppress f => simp only [Change.apply, Cache.suppress]; split <;> exact ⟨rfl, rfl⟩
  | registerAlias k a => simp only [Change.apply]; split <;> exact ⟨rfl, rfl⟩
  | removeAlias a => simp only [Change.apply]; split <;> exact ⟨rfl, rfl⟩
  | resolveAliases f => simp only [Change.apply]; split <;> exact ⟨rfl, rfl⟩
  | _ => exact ⟨rfl, rfl⟩

/-- A task that does not remove `n` leaves its object. -/
theorem sameObject_task {task : Task} {rest tasks : List Task} {events : List Event}
    (course : task.course s.registry = .on s'.registry tasks events)
    (hk : removes s.registry n (⟨.point (.agenda (task :: rest)), fs⟩ : Thread ω) = false) :
    s.registry.cache.SameObject n s'.registry.cache := by
  cases task with
  | destroy k =>
    injection course with hr
    rw [← hr]
    exact .remove fun hn => by simp [removes, hn] at hk
  | empty => cases hk
  | dispose k d => cases course
  | _ => injection course with hr; rw [← hr]; exact ⟨rfl, rfl⟩

/-- Unless it hands a reply to a fetch or removes `n`, a step leaves the object of `n`. -/
theorem sameObject_of_not_hears (hs : t.step h id s = some (s', t')) (hquiet : t.hears = false)
    (hk : t.removes s.registry n = false) : s.registry.cache.SameObject n s'.registry.cache := by
  cases step_deed hs with
  | idle registry => obtain ⟨b, hb⟩ := registry; rw [hb]; exact ⟨rfl, rfl⟩
  | change c fs admitted registry => exact sameObject_change registry hk
  | task task rest tasks events fs admitted course => exact sameObject_task course hk
  | close fs admitted registry => rw [registry]; exact ⟨rfl, rfl⟩
  | create k c w cache fs incomplete accepting opens registry =>
    rw [registry, (Cache.openWindow_eq opens).2]; exact ⟨rfl, rfl⟩
  | created w c a fs registry =>
    rw [registry]
    simp only [Cache.closeWith]
    split <;> exact ⟨rfl, rfl⟩
  | abandoned w c r fs failed registry => rw [registry, Cache.abandon_eq]; exact ⟨rfl, rfl⟩
  | restore k p r fs registry => rw [registry]; exact ⟨rfl, rfl⟩
  | expose k p a fs registry =>
    rw [registry]
    simp only [Cache.expose]
    split <;> exact ⟨rfl, rfl⟩
  | keep r f fs produced inHook inner other registry =>
    -- the frame is an early reference, whose step is looked at once more: what it keeps is a reference
    cases f with
    | exposing k p =>
      cases r with
      | ok a =>
        cases hs
        simp only [Shared.registry_report, Shared.registry_withCache]
        split <;> exact ⟨rfl, rfl⟩
      | failed f => cases hs; exact ⟨rfl, rfl⟩
      | panicked text => cases hs; exact ⟨rfl, rfl⟩
    | creating w c => cases other
    | producing p k shared hooked =>
      cases shared with
      | true => cases hquiet
      | false => cases inner
    | hooking k shared object =>
      cases shared with
      | true => cases hquiet
      | false => cases inner
    | _ => cases inner
  | plan tasks fs registry => rw [registry]; exact ⟨rfl, rfl⟩
  | dispose k d rest fs registry => rw [registry]; exact ⟨rfl, rfl⟩
  | disposed r k d rest fs registry => rw [registry]; exact ⟨rfl, rfl⟩
  | dropped text k d rest fs registry => rw [registry]; exact ⟨rfl, rfl⟩
  | ended fs registry => rw [registry]; exact ⟨rfl, rfl⟩

/-- Where no hook returns for a fetch for `n`, a step that does not remove `n` leaves its object, or keeps what
the producer has yielded where there was none. -/
theorem step_produced? (hs : t.step h id s = some (s', t')) (hk : t.removes s.registry n = false)
    (hy : t.hooked? n = none) : s'.registry.cache.produced? n = s.registry.cache.produced? n ∨
      s.registry.cache.produced? n = none ∧ s'.registry.cache.produced? n = t.yielded? n := by
  by_cases hquiet : t.hears = false
  · exact .inl (sameObject_of_not_hears hs hquiet hk).produced
  · cases step_objectMove hs with
    | @kept _ a p k hooked fs missing cache =>
      rw [cache, Cache.produced?_keep]
      by_cases hn : n = k ∧ s.registry.cache.contains k = true
      · obtain ⟨rfl, hc⟩ := hn
        exact .inr ⟨missing, by rw [if_pos ⟨rfl, hc⟩, yielded?, if_pos rfl]⟩
      · exact .inl (if_neg hn)
    | @hooked _ a k object fs cache =>
      have hn : n ≠ k := fun hn => by simp [hooked?, hn] at hy
      rw [cache, Cache.produced?_keep, if_neg fun h => hn h.1]
      exact .inl rfl
    | outside quiet => exact absurd quiet hquiet
    | returned cache => exact .inl (by rw [cache])
    | begun _ _ _ cache => exact .inl (by rw [cache]; rfl)
    | unhooked cache => exact .inl (by rw [cache]; rfl)
    | unwound => exact .inl rfl
    | _ => exact absurd rfl hquiet

/-- The object that the hook returns for a fetch is answered, and kept for a complete name, whatever is there. -/
theorem step_of_hooked {v : Value} (hs : t.step h id s = some (s', t')) (hy : t.hooked? n = some v) :
    t'.control = .reply (.ok (.value v)) ∧ t'.hooks n + 1 = t.hooks n ∧
      (s.registry.cache.contains n = true → s'.registry.cache.produced? n = some v) := by
  obtain ⟨a, object, fs, rfl, rfl⟩ := eq_of_hooked hy
  cases hs
  refine ⟨rfl, ?_, fun hc => ?_⟩
  · simp [hooks, answer, Frame.isHook]
  · exact Cache.produced?_keep.trans (if_pos ⟨rfl, hc⟩)

/-- What a step does to the hooks that run for `n` on behalf of the mover's fetches, and to the mark for them. -/
inductive HookMove (n : Name) (s s' : Shared ω) (t t' : Thread ω) : Prop where
  | still (quiet : t.hooked? n = none) (count : t'.hooks n = t.hooks n)
      (mark : s'.registry.cache.inHook.contains n = s.registry.cache.inHook.contains n)
  | begins (quiet : t.hooked? n = none) (missing : s.registry.cache.produced? n = none)
      (unmarked : s.registry.cache.inHook.contains n = false) (count : t'.hooks n = t.hooks n + 1)
      (mark : s'.registry.cache.inHook.contains n = true)
  | ends (count : t'.hooks n + 1 = t.hooks n)

theorem hooks_cons (c : Control ω) (f : Frame ω) (fs : List (Frame ω)) (n : Name) :
    hooks ⟨c, f :: fs⟩ n = hooks ⟨c, fs⟩ n + if f.isHook n then 1 else 0 := List.countP_cons ..

/-- Unless it hands a reply to a fetch, a step begins and ends no hook. -/
theorem hooks_of_not_hears (hs : t.step h id s = some (s', t')) (hquiet : t.hears = false) (n : Name) :
    t'.hooks n = t.hooks n := by
  cases step_objectMove hs with
  | outside _ _ _ frames => exact hooks_congr frames n
  | unshared after frames => exact hooks_congr (t := ⟨_, _⟩) frames n
  | called missing after frames => rw [hooks, frames]; rfl
  | found | given | shared | entered | served => rfl
  | _ => cases hquiet

theorem step_hookMove (hs : t.step h id s = some (s', t')) (hk : t.removes s.registry n = false) :
    HookMove n s s' t t' := by
  by_cases hquiet : t.hears = false
  · exact .still (hooked?_of_not_hears hquiet n) (hooks_of_not_hears hs hquiet n)
      (sameObject_of_not_hears hs hquiet hk).inHook
  · cases step_objectMove hs with
    | outside quiet => exact absurd quiet hquiet
    | @returned _ r _ _ _ _ _ cache => exact .still (by cases r <;> rfl) rfl (by rw [cache])
    | kept missing cache => exact .still rfl rfl (by rw [cache, Cache.inHook_keep])
    | @begun _ _ a p k object fs missing unbarred yielded cache after frames =>
      have hcount : t'.hooks n = hooks ⟨.reply (.ok a), .producing p k true true :: fs⟩ n + if k = n then 1 else 0 := by
        rw [hooks, frames]
        exact (hooks_cons t'.control ..).trans (by simp [hooks, Frame.isHook])
      by_cases hn : k = n
      · subst hn
        exact .begins rfl missing unbarred (by simpa using hcount)
          (by rw [cache, Cache.contains_inHook_beginHook]; simp)
      · refine .still rfl (by simpa [hn] using hcount) ?_
        rw [cache, Cache.contains_inHook_beginHook]
        simp [Ne.symm hn]
    | @hooked _ a k object fs cache =>
      by_cases hn : k = n
      · exact .ends (by simp [hooks, Frame.isHook, hn])
      · refine .still (by simp [hooked?, hn]) (by simp [hooks, Frame.isHook, hn]) ?_
        rw [cache, Cache.inHook_keep, Cache.contains_inHook_endHook]
        simp [Ne.symm hn]
    | @unhooked _ f f' k object fs cache =>
      by_cases hn : k = n
      · exact .ends (by simp [hooks, Frame.isHook, hn])
      · refine .still rfl (by simp [hooks, Frame.isHook, hn]) ?_
        rw [cache, Cache.contains_inHook_endHook]
        simp [Ne.symm hn]
    | @unwound text k object fs =>
      by_cases hn : k = n
      · exact .ends (by simp [hooks, Frame.isHook, hn])
      · exact .still rfl (by simp [hooks, Frame.isHook, hn]) rfl
    | _ => exact absurd rfl hquiet

end Thread

end Singletons
