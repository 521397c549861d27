import Singletons.Proofs.Creation.OneInstance
import Singletons.Proofs.Machine.Call
import Singletons.Proofs.Produced.Hook

/-
Where the object of a name comes from. While no request brings a producer of its own, the object that is kept
for a name is what a fetch got from the producer that it found under the name, or what the hook made of it
(`Stems`); this is read off the history of the run (`Traced`). The instance under the name may have changed
since the fetch found it, and is then the last one given to the name.
-/

namespace Singletons

variable {ω : Type}

namespace Thread

variable {h : Host ω} {id : ThreadId} {s s' : Shared ω} {t t' : Thread ω} {fs gs : List (Frame ω)} {n : Name}
  {p : Producer} {hooked : Bool} {v u : Value}

/-! ## Fetches under way -/

/-- The instance that a fetch finds under `n` with the next step, given the registry. -/
def found? (r : Registry) (n : Name) (t : Thread ω) : Option Instance :=
  match t.control with
  | .point (.start (.produced k true _)) =>
    if r.canonical k.unmarked = n then (r.cache.complete? n).join else none
  | _ => none

/-- Whether a request that a thread is about to look at brings its producer along. -/
def bringsProducer (t : Thread ω) : Bool :=
  match t.control with
  | .point (.start (.yielded ..)) => true
  | _ => false

/-- The places of a thread in a fetch that was issued with `gs` below and found `p` under `n`, up to the return
of the producer. -/
inductive Fetches (p : Producer) (n : Name) (hooked : Bool) (gs : List (Frame ω)) : Thread ω → Prop where
  | found : Fetches p n hooked gs ⟨.point (.produce p n true hooked), gs⟩
  | awaiting : Fetches p n hooked gs ⟨.point (.await (.produceShared p n hooked)), gs⟩
  | looking : Fetches p n hooked gs ⟨.point (.inside (.produceShared p n hooked)), .guarded :: gs⟩
  | producing {t : Thread ω} (frame : .producing p n true hooked :: .guarded :: gs ∈ fetches t.frames) :
      Fetches p n hooked gs t

theorem Fetches.of_producing (c : Control ω) :
    Fetches p n hooked gs ⟨c, .producing p n true hooked :: .guarded :: gs⟩ :=
  .producing (mem_fetches.2 ⟨List.suffix_rfl, rfl⟩)

/-- A fetch that waits in the frames waited there before, or its producer is called, or the hook starts on what
its producer has yielded. -/
theorem mem_fetches_step (hs : t.step h id s = some (s', t')) {l : List (Frame ω)} (hl : l ∈ fetches t'.frames) :
    l ∈ fetches t.frames ∨
      (∃ p n hooked fs, l = .producing p n true hooked :: fs ∧
        t = ⟨.point (.inside (.produceShared p n hooked)), fs⟩) ∨
      ∃ a p n object fs, l = .hooking n true object :: fs ∧ a.toValue = some object ∧
        t = ⟨.reply (.ok a), .producing p n true true :: fs⟩ := by
  have hpop : ∀ {f : Frame ω} {fs : List (Frame ω)}, f.isFetch = true → l ∈ fetches fs → l ∈ fetches (f :: fs) :=
    fun hf hl => by rw [fetches_cons_of_isFetch hf]; exact List.mem_cons_of_mem _ hl
  cases step_objectMove hs with
  | outside _ _ _ frames => exact .inl (frames ▸ hl)
  | unshared _ frames => exact .inl (frames ▸ hl)
  | found | given | shared | served => exact .inl hl
  | entered => exact .inl (by rwa [fetches_cons_of_not_isFetch rfl] at hl)
  | @called _ p n hooked fs _ _ frames =>
    rw [frames, fetches_cons_of_isFetch rfl] at hl
    rcases List.mem_cons.1 hl with rfl | hl
    · exact .inr (.inl ⟨p, n, hooked, fs, rfl, rfl⟩)
    · exact .inl hl
  | @begun _ _ a p n object fs _ _ yielded _ _ frames =>
    rw [frames, fetches_cons_of_isFetch rfl] at hl
    rcases List.mem_cons.1 hl with rfl | hl
    · exact .inr (.inr ⟨a, p, n, object, fs, rfl, yielded, rfl⟩)
    · exact .inl (hpop rfl hl)
  | returned | kept | hooked | unhooked | unwound => exact .inl (hpop rfl hl)

/-- A thread in a fetch was in it before, or the fetch finds its producer, or the request brings it along. -/
theorem step_fetches (hs : t.step h id s = some (s', t')) (hf : t'.Fetches p n hooked gs) :
    t.Fetches p n hooked gs ∨ t.bringsProducer = true ∨
      ∃ k i, t = ⟨.point (.start (.produced k true hooked)), gs⟩ ∧ t.found? s.registry n = some i ∧
        i.producer? = some p := by
  cases hf with
  | found =>
    cases step_objectMove hs with
    | outside _ _ after => cases after
    | unshared after => cases after
    | @found k _ i _ _ _ name complete producer =>
      refine .inr (.inr ⟨k, i, rfl, ?_, producer⟩)
      simp [found?, name, complete]
    | given => exact .inr (.inl rfl)
    | called _ after => cases after
    | begun _ _ _ _ after => cases after
  | awaiting =>
    cases step_objectMove hs with
    | outside _ _ after => cases after
    | unshared after => cases after
    | shared => exact .inl .found
    | called _ after => cases after
    | begun _ _ _ _ after => cases after
  | looking =>
    cases step_objectMove hs with
    | outside _ _ after => cases after
    | unshared after => cases after
    | entered => exact .inl .awaiting
    | called _ after => cases after
    | begun _ _ _ _ after => cases after
  | producing frame =>
    rcases mem_fetches_step hs frame with hl | ⟨_, _, _, _, heq, rfl⟩ | ⟨_, _, _, _, _, heq, -, -⟩
    · exact .inl (.producing hl)
    · cases heq; exact .inl .looking
    · cases heq

theorem isWithin_of_mem_fetches {f : Frame ω} (hl : f :: .guarded :: gs ∈ fetches t.frames) :
    t.isWithin gs.length = true := by
  have hle := (mem_fetches.1 hl).1.length_le
  simp only [List.length_cons] at hle
  unfold isWithin
  split <;> exact decide_eq_true (by omega)

theorem Fetches.isWithin (hf : t.Fetches p n hooked gs) : t.isWithin gs.length = true := by
  cases hf with
  | found | awaiting | looking => simp [Thread.isWithin]
  | producing frame => exact isWithin_of_mem_fetches frame

/-! ## The instance of a name -/

/-- The value that the next step of a thread gives to `n`, given the registry: an instance is registered, or a
creation ends. -/
def gives? (r : Registry) (n : Name) (t : Thread ω) : Option Value :=
  match t with
  | ⟨.point (.start (.change (.registerSingleton k v))), _⟩ =>
    if r.canonical k = n ∧ r.cache.contains n = false then some v else none
  | ⟨.reply (.ok a), .creating w _ :: _⟩ => if w.name = n then some a.toValue else none
  | _ => none

theorem complete?_of_gives (hs : t.step h id s = some (s', t')) (hg : t.gives? s.registry n = some v) :
    s'.registry.cache.complete? n = some v := by
  unfold gives? at hg
  split at hg
  · rename_i k _ fs
    split at hg
    · rename_i hn
      cases hg
      obtain ⟨rfl, hfree⟩ := hn
      have hr : s.registry.cache.register (s.registry.canonical k) v =
          .ok (s.registry.cache.complete (s.registry.canonical k) v) := by
        rw [Cache.register, hfree, if_neg (by simp)]
      rw [registry_of_change hs]
      simp only [Change.apply, hr]
      exact Cache.complete?_eq_some_iff.2 (Table.get?_insert_self ..)
    · cases hg
  · rename_i a w c fs
    exact Cache.complete?_eq_some_iff.2 (step_of_yield hs (by simpa [yield?] using hg)).1
  · cases hg

/-- A step that gives a name nothing does not complete it. -/
theorem not_completes_of_gives (hg : t.gives? s.registry n = none) :
    t.completes? s.registry ≠ some n ∧ t.yield? n = none := by
  unfold gives? at hg
  split at hg
  · rename_i k u fs
    refine ⟨fun hc => ?_, rfl⟩
    simp only [completes?] at hc
    split at hc
    · cases hc
    · rename_i hfree
      cases hc
      rw [if_pos ⟨rfl, by simpa using hfree⟩] at hg
      cases hg
  · rename_i a w c fs
    refine ⟨fun hc => ?_, by simpa [yield?] using hg⟩
    cases hc
    simp at hg
  · rename_i hchange hcreating
    refine ⟨fun hc => ?_, ?_⟩
    · unfold completes? at hc
      split at hc
      · exact hchange _ _ _ rfl
      · exact hcreating _ _ _ _ rfl
      · cases hc
    · unfold yield?
      split
      · exact (hcreating _ _ _ _ rfl).elim
      · rfl

end Thread

namespace Moment

def bringsProducer (e : Moment ω) : Bool := e.thread?.any (·.bringsProducer)

def found? (e : Moment ω) (n : Name) : Option Instance := e.thread?.bind (·.found? e.shared.registry n)

/-- The value that the step from a moment gives to `n`. -/
def gives? (e : Moment ω) (n : Name) : Option Value := e.thread?.bind (·.gives? e.shared.registry n)

/-- A fetch for `n` that is issued with `gs` below finds that `i` is the producer `p`. -/
structure Finds (e : Moment ω) (n : Name) (i : Instance) (p : Producer) (hooked : Bool) (gs : List (Frame ω)) :
    Prop where
  place : ∃ k, e.thread? = some ⟨.point (.start (.produced k true hooked)), gs⟩
  found : e.found? n = some i
  producer : i.producer? = some p

theorem Finds.complete {e : Moment ω} {n : Name} {i : Instance} {p : Producer} {hooked : Bool} {gs : List (Frame ω)}
    (hf : e.Finds n i p hooked gs) : e.state.complete? n = some (some i) := by
  obtain ⟨⟨k, hplace⟩, hfound, -⟩ := hf
  rw [found?, hplace] at hfound
  simp only [Option.bind_some, Thread.found?] at hfound
  split at hfound
  · rwa [Option.join_eq_some_iff] at hfound
  · cases hfound

/-- A fetch gives its name nothing in the step in which it finds its producer. -/
theorem Finds.gives?_eq_none {e : Moment ω} {n : Name} {i : Instance} {p : Producer} {hooked : Bool}
    {gs : List (Frame ω)} (hf : e.Finds n i p hooked gs) : e.gives? n = none := by
  obtain ⟨k, hplace⟩ := hf.place
  rw [gives?, hplace]
  rfl

/-- The producer `p` yields `v` for a fetch for `n` that was issued with `gs` below. -/
def Yields (e : Moment ω) (n : Name) (p : Producer) (hooked : Bool) (gs : List (Frame ω)) (v : Value) : Prop :=
  ∃ a, e.thread? = some ⟨.reply (.ok a), .producing p n true hooked :: .guarded :: gs⟩ ∧ a.toValue = v

/-- The hook returns `v` for the object of a fetch for `n` that was issued with `gs` below. -/
def Returns (e : Moment ω) (n : Name) (object : Instance) (gs : List (Frame ω)) (v : Value) : Prop :=
  ∃ a, e.thread? = some ⟨.reply (.ok a), .hooking n true object :: .guarded :: gs⟩ ∧
    some (a.toValue.getD object) = v

end Moment

namespace Machine

variable {h : Host ω} {start m m' m₀ : Machine ω} {past seg : List (Moment ω)} {id : ThreadId} {n : Name}
  {v u : Value}

/-! ## The instance of a name along a run -/

/-- The instance that a complete name has after a step is given to it in the step, or it is the one from
before. -/
theorem complete?_step_back (ho : m.Orderly) (hs : m.step h id = some m') (hu : m'.complete? n = some u) :
    (⟨m, id⟩ : Moment ω).gives? n = some u ∨
      (⟨m, id⟩ : Moment ω).gives? n = none ∧ m.complete? n = some u := by
  obtain ⟨t, s', t', ht, hst, rfl⟩ := step_eq_some_iff.1 hs
  have hgives : (⟨m, id⟩ : Moment ω).gives? n = t.gives? m.shared.registry n := by
    simp only [Moment.gives?, Moment.thread?, ht, Option.bind_some, Moment.shared]
  rw [hgives]
  cases hg : t.gives? m.shared.registry n with
  | some w =>
    have hw : s'.registry.cache.complete? n = some w := Thread.complete?_of_gives hst hg
    exact .inl (hw.symm.trans hu)
  | none =>
    -- the step does not complete the name, so the name was complete and is not removed
    obtain ⟨hnew, hy⟩ := Thread.not_completes_of_gives hg
    have hc : s'.registry.cache.contains n = true := by
      rw [Cache.contains, show s'.registry.cache.complete? n = some u from hu]; rfl
    obtain ⟨hc, hk⟩ := (((Thread.step_tableMove hst fun k => ho.vacant id t k ht).complete n).1 hc).resolve_left hnew
    obtain ⟨w, hw⟩ := Option.isSome_iff_exists.1 hc
    have hstay := complete?_step ho.vacant hs ht hk hy hw
    exact .inr ⟨rfl, by rw [complete?, hw, ← hstay]; exact hu⟩

/-- A name that is complete at the end of a run has the instance that it was last given, and its old one if it
was given none. -/
theorem Run.complete?_eq_given (ho : m₀.Orderly) (hr : Run h m₀ seg m) (hv : m₀.complete? n = some v) :
    ∀ {u : Value}, m.complete? n = some u → u = (seg.findSome? (·.gives? n)).getD v := by
  induction hr with
  | start => exact fun hu => Option.some.inj (hu.symm.trans hv)
  | @step seg m m' id hr hs ih =>
    intro u hu
    rw [List.findSome?_cons]
    rcases complete?_step_back (ho.run hr) hs hu with hg | ⟨hg, hu⟩
    · rw [hg]; rfl
    · rw [hg]; exact ih hu

/-! ## The object of a name -/

/-- In the step from `keep` a fetch has `v` from the run of `p`, or from the hook on what that run has yielded at
one of the moments `early`. -/
def Obtains (n : Name) (p : Producer) (hooked : Bool) (gs : List (Frame ω)) (v : Value) (keep : Moment ω)
    (early : List (Moment ω)) : Prop :=
  keep.Yields n p hooked gs v ∨
    ∃ y ∈ early, ∃ object, y.mover = keep.mover ∧ y.Yields n p true gs (some object) ∧ keep.Returns n object gs v

/-- The value `v` stems from the producer `i`: a fetch that finds `i` under `n` at the moment `e` obtains it in
one of the steps `since`, without having returned before, and it has been kept ever after. -/
def Stems (n : Name) (v : Value) (i : Instance) (e : Moment ω) (since : List (Moment ω)) : Prop :=
  ∃ p hooked gs late keep early, e.Finds n i p hooked gs ∧ since = late ++ keep :: early ∧ keep.mover = e.mover ∧
    Underway e.mover gs.length (keep :: early) ∧ Obtains n p hooked gs v keep early ∧
    ∀ x ∈ late, x.state.produced? n = some v

/-- A fetch that thread `id` issued with `gs` below, and that found that `i` is `p`, is under way since then. -/
def OpenFetch (past : List (Moment ω)) (id : ThreadId) (n : Name) (p : Producer) (hooked : Bool) (gs : List (Frame ω))
    (since : List (Moment ω)) : Prop :=
  ∃ i e earlier, past = since ++ e :: earlier ∧ e.mover = id ∧ e.Finds n i p hooked gs ∧ Underway id gs.length since

theorem OpenFetch.cons {since : List (Moment ω)} {p : Producer} {hooked : Bool} {gs : List (Frame ω)} {t : Thread ω}
    (hopen : OpenFetch past id n p hooked gs since) (ht : m.threads[id]? = some t) (hw : t.isWithin gs.length = true)
    (j : ThreadId) : OpenFetch (⟨m, j⟩ :: past) id n p hooked gs (⟨m, j⟩ :: since) := by
  obtain ⟨i, e, earlier, rfl, hid, hfinds, hunder⟩ := hopen
  refine ⟨i, e, earlier, rfl, hid, hfinds, List.forall_mem_cons.2 ⟨?_, hunder⟩⟩
  rw [ht]
  exact hw

/-- The hook that thread `id` has started on `object`, for a fetch that it issued with `gs` below, is under way
since the producer has yielded `object`. -/
def OpenHook (past : List (Moment ω)) (id : ThreadId) (n : Name) (object : Instance) (gs : List (Frame ω)) : Prop :=
  ∃ p since, OpenFetch past id n p true gs since ∧ ∃ y ∈ since, y.mover = id ∧ y.Yields n p true gs (some object)

theorem OpenHook.cons {object : Instance} {gs : List (Frame ω)} {t : Thread ω} (hopen : OpenHook past id n object gs)
    (ht : m.threads[id]? = some t) (hl : .hooking n true object :: .guarded :: gs ∈ fetches t.frames) (j : ThreadId) :
    OpenHook (⟨m, j⟩ :: past) id n object gs := by
  obtain ⟨p, since, hopen, y, hy, hyields⟩ := hopen
  exact ⟨p, _, hopen.cons ht (Thread.isWithin_of_mem_fetches hl) j, y, List.mem_cons_of_mem _ hy, hyields⟩

/-- What the frames of the threads and the object of `n` say of the past of a run. -/
structure Traced (n : Name) (past : List (Moment ω)) (m : Machine ω) : Prop where
  /-- A fetch found its producer when it was issued. -/
  fetching : ∀ {id : ThreadId} {t : Thread ω} {p : Producer} {hooked : Bool} {gs : List (Frame ω)},
    m.threads[id]? = some t → t.Fetches p n hooked gs → ∃ since, OpenFetch past id n p hooked gs since
  /-- A hook was started on what the producer of its fetch had yielded. -/
  hooking : ∀ {id : ThreadId} {t : Thread ω} {object : Instance} {gs : List (Frame ω)}, m.threads[id]? = some t →
    .hooking n true object :: .guarded :: gs ∈ fetches t.frames → OpenHook past id n object gs
  kept : ∀ {v : Value}, m.produced? n = some v → ∃ i e since earlier, past = since ++ e :: earlier ∧ Stems n v i e since

/-- What an open fetch obtains stems from the producer that it found. -/
theorem OpenFetch.stems {keep : Moment ω} {early : List (Moment ω)} {p : Producer} {hooked : Bool} {gs : List (Frame ω)}
    (hopen : OpenFetch past id n p hooked gs (keep :: early)) (hmover : keep.mover = id)
    (hget : Obtains n p hooked gs v keep early) :
    ∃ i e since earlier, past = since ++ e :: earlier ∧ Stems n v i e since := by
  obtain ⟨i, e, earlier, rfl, hid, hfinds, hunder⟩ := hopen
  rw [← hid] at hmover hunder
  exact ⟨i, e, _, earlier, rfl, p, hooked, gs, [], keep, early, hfinds, rfl, hmover, hunder, hget,
    List.forall_mem_nil _⟩

/-- Frames of a fetch stand right above the beginning of its stretch under the mutex. -/
theorem Disciplined.guarded_below {c : Control ω} {f : Frame ω} {fs : List (Frame ω)}
    (hd : m.Disciplined) (ht : m.threads[id]? = some ⟨c, f :: fs⟩) (hf : f.isInner = true) :
    ∃ gs, fs = .guarded :: gs := by
  have hb := (hd.seated id _ ht).frames.1 hf
  match fs, hb with
  | .guarded :: gs, _ => exact ⟨gs, rfl⟩

/-- An object that a step keeps for `n` comes from a producer or a hook that the mover has called. -/
theorem obtained_step (hd : m.Disciplined) (hs : m.step h id = some m') (hk : (⟨m, id⟩ : Moment ω).removes n = false)
    (hc : m.shared.registry.cache.contains n = true) (hv : m'.produced? n = some v) :
    m.produced? n = some v ∨
      (∃ (p : Producer) (hooked : Bool) (gs : List (Frame ω)), (⟨m, id⟩ : Moment ω).Yields n p hooked gs v) ∨
      ∃ (object : Instance) (gs : List (Frame ω)), (⟨m, id⟩ : Moment ω).Returns n object gs v := by
  obtain ⟨t, s', t', ht, hst, rfl⟩ := step_eq_some_iff.1 hs
  rw [Moment.removes_eq ht] at hk
  have hplace : (⟨m, id⟩ : Moment ω).thread? = some t := ht
  cases hy : t.hooked? n with
  | some u =>
    have hu : s'.registry.cache.produced? n = some u := (Thread.step_of_hooked hst hy).2.2 hc
    cases hu.symm.trans hv
    obtain ⟨a, object, fs, rfl, rfl⟩ := Thread.eq_of_hooked hy
    obtain ⟨gs, rfl⟩ := hd.guarded_below ht rfl
    exact .inr (.inr ⟨object, gs, a, hplace, rfl⟩)
  | none =>
    rcases Thread.step_produced? hst hk hy with hsame | ⟨-, hyield⟩
    · exact .inl (hsame.symm.trans hv)
    · obtain ⟨a, p, hooked, fs, rfl, rfl⟩ := Thread.eq_of_yielded (hyield.symm.trans hv)
      obtain ⟨gs, rfl⟩ := hd.guarded_below ht rfl
      exact .inr (.inl ⟨p, hooked, gs, a, hplace, rfl⟩)

section Traced

variable {j : ThreadId} {u : Thread ω} {p : Producer} {hooked : Bool} {object : Instance} {gs : List (Frame ω)}

theorem Traced.fetching_step (hm : m.Traced n past) (hs : m.step h id = some m')
    (hown : (⟨m, id⟩ : Moment ω).bringsProducer = false) (hu : m'.threads[j]? = some u)
    (hf : u.Fetches p n hooked gs) : ∃ since, OpenFetch (⟨m, id⟩ :: past) j n p hooked gs since := by
  obtain ⟨t, s', t', ht, hst, rfl⟩ := step_eq_some_iff.1 hs
  have hplace : (⟨m, id⟩ : Moment ω).thread? = some t := ht
  rcases threads_set ht hu with ⟨rfl, rfl⟩ | ⟨-, hu⟩
  · rcases Thread.step_fetches hst hf with hf | hbrings | ⟨k, i, rfl, hfound, hp⟩
    · obtain ⟨since, hopen⟩ := hm.fetching ht hf
      exact ⟨_, hopen.cons ht hf.isWithin j⟩
    · rw [Moment.bringsProducer, hplace, Option.any_some, hbrings] at hown
      cases hown
    · refine ⟨[], i, ⟨m, j⟩, past, rfl, rfl, ⟨⟨k, hplace⟩, ?_, hp⟩, List.forall_mem_nil _⟩
      rw [Moment.found?, hplace]
      exact hfound
  · obtain ⟨since, hopen⟩ := hm.fetching hu hf
    exact ⟨_, hopen.cons hu hf.isWithin id⟩

theorem Traced.hooking_step (hm : m.Traced n past) (hs : m.step h id = some m') (hu : m'.threads[j]? = some u)
    (hl : .hooking n true object :: .guarded :: gs ∈ fetches u.frames) :
    OpenHook (⟨m, id⟩ :: past) j n object gs := by
  obtain ⟨t, s', t', ht, hst, rfl⟩ := step_eq_some_iff.1 hs
  rcases threads_set ht hu with ⟨rfl, rfl⟩ | ⟨-, hu⟩
  · rcases Thread.mem_fetches_step hst hl with hl | ⟨_, _, _, _, heq, -⟩ | ⟨a, p, _, _, fs, heq, hobject, rfl⟩
    · exact (hm.hooking ht hl).cons ht hl j
    · cases heq
    · -- the hook starts in this step, on what the producer has just yielded
      cases heq
      have hf : Thread.Fetches p n true gs ⟨.reply (.ok a), .producing p n true true :: .guarded :: gs⟩ :=
        .of_producing _
      obtain ⟨since, hopen⟩ := hm.fetching ht hf
      exact ⟨p, _, hopen.cons ht hf.isWithin j, ⟨m, j⟩, List.mem_cons_self .., rfl, a, ht, hobject⟩
  · exact (hm.hooking hu hl).cons hu hl id

theorem Traced.kept_step (hm : m.Traced n past) (ho : m.Orderly) (htab : m.Tabled past) (hs : m.step h id = some m')
    (hv : m'.produced? n = some v) :
    ∃ i e since earlier, ⟨m, id⟩ :: past = since ++ e :: earlier ∧ Stems n v i e since := by
  obtain ⟨t, s', t', ht, hst, hm'⟩ := step_eq_some_iff.1 hs
  -- the object is kept after the step, so the step does not remove the name, which was complete before
  have hsome : (s'.registry.cache.produced? n).isSome = true := by
    rw [hm', produced?] at hv
    rw [hv]
    rfl
  obtain ⟨hk, hc⟩ := (Thread.step_tableMove hst fun k => ho.vacant id t k ht).kept n hsome
  have hc : m.shared.registry.cache.contains n = true := hc.elim (htab.kept n) fun hc => hc
  rcases obtained_step ho.disciplined hs (Moment.removes_eq ht n ▸ hk) hc hv with
    hsame | ⟨p, hooked, gs, a, hreply, hvalue⟩ | ⟨object, gs, a, hreply, hvalue⟩
  · obtain ⟨i, e, since, earlier, rfl, p, hooked, gs, late, keep, early, hfinds, rfl, hrest⟩ := hm.kept hsame
    obtain ⟨hmover, hunder, hget, hlate⟩ := hrest
    exact ⟨i, e, _, earlier, rfl, p, hooked, gs, ⟨m, id⟩ :: late, keep, early, hfinds, rfl, hmover, hunder, hget,
      List.forall_mem_cons.2 ⟨hsame, hlate⟩⟩
  · cases Option.some.inj (ht.symm.trans hreply)
    have hf : Thread.Fetches p n hooked gs ⟨.reply (.ok a), .producing p n true hooked :: .guarded :: gs⟩ :=
      .of_producing _
    obtain ⟨since, hopen⟩ := hm.fetching ht hf
    exact (hopen.cons ht hf.isWithin id).stems rfl (.inl ⟨a, hreply, hvalue⟩)
  · cases Option.some.inj (ht.symm.trans hreply)
    have hl : .hooking n true object :: .guarded :: gs ∈ fetches (.hooking n true object :: .guarded :: gs) :=
      mem_fetches.2 ⟨List.suffix_rfl, rfl⟩
    obtain ⟨p, since, hopen, y, hy, hmover, hyields⟩ := hm.hooking ht hl
    exact (hopen.cons ht (Thread.isWithin_of_mem_fetches hl) id).stems rfl
      (.inr ⟨y, hy, object, hmover, hyields, a, hreply, hvalue⟩)

theorem Traced.step (hm : m.Traced n past) (ho : m.Orderly) (htab : m.Tabled past) (hs : m.step h id = some m')
    (hown : (⟨m, id⟩ : Moment ω).bringsProducer = false) : m'.Traced n (⟨m, id⟩ :: past) where
  fetching := hm.fetching_step hs hown
  hooking := hm.hooking_step hs
  kept := hm.kept_step ho htab hs

end Traced

theorem ofPrograms_traced (r : Registry) (w : ω) (programs : List (Program ω)) (n : Name) :
    (ofPrograms { r with cache := {} } w programs).Traced n [] := by
  refine ⟨fun ht hf => ?_, fun ht hl => ?_, fun hv => by cases hv⟩
  · obtain ⟨p, rfl⟩ := eq_ofProgram_of_ofPrograms ht
    cases hf with
    | producing frame => cases frame
  · obtain ⟨p, rfl⟩ := eq_ofProgram_of_ofPrograms ht
    cases hl

theorem Traced.run {r : Registry} {w : ω} {programs : List (Program ω)}
    (hr : Run h (ofPrograms { r with cache := {} } w programs) past m)
    (hown : ∀ e ∈ past, e.bringsProducer = false) : m.Traced n past := by
  induction hr with
  | start => exact ofPrograms_traced ..
  | step id hr hs ih =>
    have ih := ih fun e he => hown e (List.mem_cons_of_mem _ he)
    exact ih.step ((ofPrograms_orderly ..).run hr) (Tabled.run hr) hs (hown _ (List.mem_cons_self ..))

/-- Where the object of a name comes from, in every run in which no request brings a producer of its own. What is
kept for `n` stems from a producer `i` that a fetch found under `n`; and whichever fetch it stems from, the
instance of `n` is by now the last one that `n` was given since the fetch found `i`, and `i` itself if there was
none. So the object is that of the present instance unless `n` was given another one since. -/
theorem Run.object_stems {r : Registry} {w : ω} {programs : List (Program ω)}
    (hr : Run h (ofPrograms { r with cache := {} } w programs) past m)
    (hown : ∀ e ∈ past, e.bringsProducer = false) (hv : m.produced? n = some v) :
    (∃ i e since earlier, past = since ++ e :: earlier ∧ Stems n v i e since) ∧
      ∀ i e since earlier, past = since ++ e :: earlier → Stems n v i e since →
        m.complete? n = some ((since.findSome? (·.gives? n)).getD (some i)) := by
  refine ⟨(Traced.run hr hown).kept hv, ?_⟩
  rintro i e since earlier rfl ⟨p, hooked, gs, late, keep, early, hfinds, -⟩
  -- the run from the moment at which the fetch found its producer, that moment included
  obtain ⟨next, h1, hs, h2⟩ := hr.cut_at
  have hsince : Run h e.state (since ++ [e]) m := Run.append (.step e.mover .start hs) h2
  have hc : (m.complete? n).isSome = true := (Tabled.run hr).kept n (by rw [produced?] at hv; rw [hv]; rfl)
  obtain ⟨u, hu⟩ := Option.isSome_iff_exists.1 hc
  have hgiven := hsince.complete?_eq_given ((ofPrograms_orderly ..).run h1) hfinds.complete hu
  rw [List.findSome?_append, List.findSome?_singleton, hfinds.gives?_eq_none, Option.or_none] at hgiven
  rw [hu, hgiven]

/-- The producer of the caller that asks for its object again and again. -/
def retryingProducer : Instance := ⟨1, .producer ⟨0, true, none⟩⟩

/-- What a hook has made of the object of that producer stems from the producer, which is still the instance of
its name. -/
theorem object_stems_retryingRun :
    retryingRun.2.produced? "a" = some (some ⟨3, .unit⟩) ∧ (∀ e ∈ retryingRun.1, e.bringsProducer = false) ∧
      retryingRun.2.complete? "a" = some (some retryingProducer) ∧
      ∃ e since earlier, retryingRun.1 = since ++ e :: earlier ∧ Stems "a" (some ⟨3, .unit⟩) retryingProducer e since ∧
        (since.findSome? (·.gives? "a")).getD (some retryingProducer) = some retryingProducer := by
  have hv : retryingRun.2.produced? "a" = some (some ⟨3, .unit⟩) := by decide
  have hown : ∀ e ∈ retryingRun.1, e.bringsProducer = false := by decide
  have hcomplete : retryingRun.2.complete? "a" = some (some retryingProducer) := by decide
  have hfound : ∀ e ∈ retryingRun.1, e.found? "a" = none ∨ e.found? "a" = some retryingProducer := by decide
  obtain ⟨⟨i, e, since, earlier, hpast, hstems⟩, hgiven⟩ :=
    Run.object_stems (r := {}) (Run.drive (h := retryingHost) _ .start) hown hv
  have hi : i = retryingProducer := by
    obtain ⟨p, hooked, gs, late, keep, early, hfinds, -⟩ := hstems
    have he : e ∈ retryingRun.1 := hpast ▸ List.mem_append_right _ (List.mem_cons_self ..)
    rcases hfound e he with hnone | hsome
    · rw [hfinds.found] at hnone; cases hnone
    · exact Option.some.inj (hfinds.found.symm.trans hsome)
  subst hi
  refine ⟨hv, hown, hcomplete, e, since, earlier, hpast, hstems, ?_⟩
  exact Option.some.inj ((hgiven _ e since earlier hpast hstems).symm.trans hcomplete)

/-- A producer that removes itself and registers another one in its place before it yields an object. -/
def replacingHost : Host Unit where
  program c _ :=
    if c = 0 then
      .request (.change (.removeSingleton "a")) fun _ =>
        .request (.change (.registerSingleton "a" (some ⟨2, .producer ⟨1, true, none⟩⟩))) fun _ =>
          .yield (some ⟨3, .unit⟩)
    else .yield (some ⟨4, .unit⟩)
  observe _ w := w

/-- A caller that registers the producer and asks for its object. -/
def replacingCaller : Program Unit :=
  [.change (.registerSingleton "a" (some ⟨1, .producer ⟨0, true, none⟩⟩)), .produced "a" true false].foldr
    (fun request rest => .request request fun _ => rest) (.finish (.ok .done))

def replacingRun : List (Moment Unit) × Machine Unit :=
  (ofPrograms {} () [replacingCaller]).drive replacingHost (List.replicate 20 0) []

/-- The object that a producer yields is kept although it was removed meanwhile and another producer has its
name: no run of that one is where the object stems from. -/
theorem object_of_removed_producer :
    ∃ (past : List (Moment Unit)) (m : Machine Unit) (v : Value) (i : Instance),
      Run replacingHost (ofPrograms {} () [replacingCaller]) past m ∧ (∀ e ∈ past, e.bringsProducer = false) ∧
        m.produced? "a" = some v ∧ m.complete? "a" = some (some i) ∧ i.producer?.isSome = true ∧
        ∀ e since earlier, past = since ++ e :: earlier → ¬ Stems "a" v i e since := by
  refine ⟨replacingRun.1, replacingRun.2, some ⟨3, .unit⟩, ⟨2, .producer ⟨1, true, none⟩⟩, .drive _ .start, by decide,
    by decide, by decide, rfl, ?_⟩
  rintro e since earlier hpast ⟨p, hooked, gs, late, keep, early, hfinds, -⟩
  have hfound : ∀ e ∈ replacingRun.1, e.found? "a" ≠ some ⟨2, .producer ⟨1, true, none⟩⟩ := by decide
  exact hfound e (hpast ▸ List.mem_append_right _ (List.mem_cons_self ..)) hfinds.found

end Machine

end Singletons
