import Singletons.Proofs.Creation.LookUp
import Singletons.Proofs.Produced.Hook

/-
The mark that a name bears while the hook runs for it, on behalf of a fetch. A hook that returns or fails takes its
mark away; a hook that panics leaves it behind, and then only the emptying of the cache does. As long as the mark is
there no hook starts for the name, and fetches hand out what the producer has yielded.

`MarkMove` says what a step does to the mark, one run lemma finds the hook that the mark is from (`marked_cases`), and
one follows a hook from its start to its panic and beyond (`Stuck`).
-/

namespace Singletons

variable {ω : Type}

/-- For a complete name only the mark keeps the hook from starting. -/
theorem Cache.hookBarred_of_contains {c : Cache} {n : Name} (hc : c.contains n = true) :
    c.hookBarred n = c.inHook.contains n := by
  obtain ⟨v, hv⟩ := Option.isSome_iff_exists.1 hc
  rw [hookBarred, isInCreation_eq_false_of_complete? hv, Bool.false_or]

theorem Frame.isInner_of_isHook {f : Frame ω} {n : Name} (hf : f.isHook n = true) : f.isInner = true := by
  cases f with
  | hooking k shared object => cases shared <;> first | rfl | cases hf
  | _ => cases hf

namespace Thread

/-- Whether the next step of a thread takes all marks away. -/
def clears (t : Thread ω) : Bool :=
  match t.control with
  | .point (.start (.change (.clear _))) | .point (.agenda (.empty :: _)) => true
  | _ => false

/-- Whether a thread passes a panic on. -/
def isUnwinding (t : Thread ω) : Bool :=
  match t.control with
  | .reply (.panicked _) | .point (.restore _ _ (.panicked _)) => true
  | _ => false

variable {h : Host ω} {id : ThreadId} {s s' : Shared ω} {t t' : Thread ω} {fs : List (Frame ω)} {n : Name}

/-- A panic passes every frame. -/
theorem isUnwinding_step (hu : t.isUnwinding = true) (hs : t.step h id s = some (s', t')) : t'.isUnwinding = true := by
  obtain ⟨control, frames⟩ := t
  unfold isUnwinding at hu
  split at hu
  · rename_i text heq
    obtain rfl : control = .reply (.panicked text) := heq
    cases frames with
    | nil => cases hs
    | cons f fs =>
      have hs := Option.some.inj hs
      cases f with
      | creating w create =>
        simp only [stepReply, stepCreating, leave] at hs
        split at hs <;> cases hs <;> rfl
      | _ => cases hs; rfl
  · rename_i k p text heq
    obtain rfl : control = .point (.restore k p (.panicked text)) := heq
    cases hs; rfl
  · cases hu

/-- A fetch for a complete name without an object, whose producer has yielded one. -/
theorem stepProducing_of_missing (h : Host ω) (s : Shared ω) (fs : List (Frame ω)) {a : Answer} {object : Instance}
    (hobject : a.toValue = some object) (hcomplete : s.registry.cache.contains n = true)
    (hmissing : s.registry.cache.produced? n = none) :
    stepProducing h s fs n true true (.ok a) =
      if s.registry.cache.inHook.contains n then (s.report h [.rawReturned n], answer (.value (some object)) fs)
      else startHook h (s.withCache (s.registry.cache.beginHook n)) fs n true object := by
  simp only [stepProducing, hobject, Option.isNone_some, Bool.false_and, Bool.false_eq_true, if_false, if_true,
    hmissing, Cache.hookBarred_of_contains hcomplete]

theorem startHook_thread (h : Host ω) (s : Shared ω) (fs : List (Frame ω)) (n : Name) (shared : Bool)
    (object : Instance) : ∃ control, (startHook h s fs n shared object).2 = ⟨control, .hooking n shared object :: fs⟩ ∧
      ∀ hook, s.registry.hook = some hook → control = .program (h.program hook (.object object n)) := by
  unfold startHook
  cases hhook : s.registry.hook with
  | none => exact ⟨_, rfl, by rintro hook ⟨⟩⟩
  | some hook => exact ⟨_, rfl, by rintro _ ⟨⟩; rfl⟩

/-- What a step does to the mark of `n`, and to the hooks that run for `n` on behalf of the mover's fetches. -/
inductive MarkMove (n : Name) (s s' : Shared ω) : Thread ω → Thread ω → Prop where
  | still {t t' : Thread ω} (count : t'.hooks n = t.hooks n)
      (mark : s'.registry.cache.inHook.contains n = s.registry.cache.inHook.contains n) : MarkMove n s s' t t'
  | begins {t' : Thread ω} {a : Answer} {p : Producer} {object : Instance} {fs : List (Frame ω)}
      (unmarked : s.registry.cache.inHook.contains n = false) (frames : t'.frames = .hooking n true object :: fs)
      (mark : s'.registry.cache.inHook.contains n = true) :
      MarkMove n s s' ⟨.reply (.ok a), .producing p n true true :: fs⟩ t'
  /-- The hook returns or fails. -/
  | ends {r r' : Reply} {object : Instance} {fs : List (Frame ω)} (calm : ∀ text, r ≠ .panicked text)
      (mark : s'.registry.cache.inHook.contains n = false) :
      MarkMove n s s' ⟨.reply r, .hooking n true object :: fs⟩ ⟨.reply r', fs⟩
  | panics {text : String} {object : Instance} {fs : List (Frame ω)}
      (mark : s'.registry.cache.inHook.contains n = s.registry.cache.inHook.contains n) :
      MarkMove n s s' ⟨.reply (.panicked text), .hooking n true object :: fs⟩ ⟨.reply (.panicked text), fs⟩
  | cleared {t t' : Thread ω} (clear : t.clears = true) (mark : s'.registry.cache.inHook.contains n = false) :
      MarkMove n s s' t t'

/-- A step that takes all marks away takes that of `n` away. -/
theorem inHook_of_clears (hs : t.step h id s = some (s', t')) (hc : t.clears = true) :
    s'.registry.cache.inHook.contains n = false := by
  obtain ⟨control, frames⟩ := t
  unfold clears at hc
  split at hc
  · rename_i reset heq
    obtain rfl : control = .point (.start (.change (.clear reset))) := heq
    rw [registry_of_change hs]
    rfl
  · rename_i rest heq
    obtain rfl : control = .point (.agenda (.empty :: rest)) := heq
    simp only [step, stepPoint] at hs
    split at hs
    · cases hs
    · cases hs; rfl
  · cases hc

/-- Unless it hands a reply to a fetch or takes all marks away, a step leaves the mark of `n`; the removal of a name
does so too. -/
theorem inHook_of_not_hears (hs : t.step h id s = some (s', t')) (hquiet : t.hears = false) (hc : t.clears = false) :
    s'.registry.cache.inHook.contains n = s.registry.cache.inHook.contains n := by
  cases hk : t.removes s.registry n with
  | false => exact (sameObject_of_not_hears hs hquiet hk).inHook
  | true =>
    obtain ⟨control, frames⟩ := t
    unfold removes at hk
    split at hk
    · rename_i k heq
      obtain rfl : control = .point (.start (.change (.removeSingleton k))) := heq
      rw [registry_of_change hs]
      rfl
    · rename_i k rest heq
      obtain rfl : control = .point (.agenda (.destroy k :: rest)) := heq
      simp only [step, stepPoint] at hs
      split at hs
      · cases hs
      · cases hs; rfl
    · rename_i k heq
      obtain rfl : control = .point (.start (.change (.evict k))) := heq
      rw [registry_of_change hs]
      rfl
    · rename_i heq
      obtain rfl : control = _ := heq
      cases hc
    · rename_i heq
      obtain rfl : control = _ := heq
      cases hc
    · cases hk

theorem step_markMove (hs : t.step h id s = some (s', t')) : MarkMove n s s' t t' := by
  cases hc : t.clears with
  | true => exact .cleared hc (inHook_of_clears hs hc)
  | false =>
    by_cases hquiet : t.hears = false
    · exact .still (hooks_of_not_hears hs hquiet n) (inHook_of_not_hears hs hquiet hc)
    · cases step_objectMove hs with
      | outside quiet => exact absurd quiet hquiet
      | returned cache => exact .still rfl (by rw [cache])
      | kept missing cache => exact .still rfl (by rw [cache, Cache.inHook_keep])
      | @begun _ _ a p k object fs missing unbarred yielded cache after frames =>
        by_cases hn : k = n
        · subst hn
          exact .begins unbarred frames (by rw [cache, Cache.contains_inHook_beginHook]; simp)
        · refine .still ?_ (by rw [cache, Cache.contains_inHook_beginHook]; simp [Ne.symm hn])
          rw [hooks, frames]
          simp [hooks, Frame.isHook, hn]
      | @hooked _ a k object fs cache =>
        by_cases hn : k = n
        · subst hn
          refine .ends (by rintro text ⟨⟩) ?_
          rw [cache, Cache.inHook_keep, Cache.contains_inHook_endHook]
          simp
        · refine .still (by simp [hooks, Frame.isHook, hn]) ?_
          rw [cache, Cache.inHook_keep, Cache.contains_inHook_endHook]
          simp [Ne.symm hn]
      | @unhooked _ f f' k object fs cache =>
        by_cases hn : k = n
        · subst hn
          refine .ends (by rintro text ⟨⟩) ?_
          rw [cache, Cache.contains_inHook_endHook]
          simp
        · refine .still (by simp [hooks, Frame.isHook, hn]) ?_
          rw [cache, Cache.contains_inHook_endHook]
          simp [Ne.symm hn]
      | @unwound text k object fs =>
        by_cases hn : k = n
        · subst hn
          exact .panics rfl
        · exact .still (by simp [hooks, Frame.isHook, hn]) rfl
      | _ => exact absurd rfl hquiet

end Thread

namespace Moment

/-- Whether the step from a moment takes all marks away. -/
def clears (e : Moment ω) : Bool := e.thread?.any (·.clears)

theorem clears_eq {m : Machine ω} {id : ThreadId} {t : Thread ω} (ht : m.threads[id]? = some t) :
    (⟨m, id⟩ : Moment ω).clears = t.clears := by
  simp only [clears, thread?, ht, Option.any_some]

end Moment

namespace Machine

variable {h : Host ω} {start m m' m₀ : Machine ω} {past inner : List (Moment ω)} {id j : ThreadId} {t : Thread ω}
  {n : Name} {fs : List (Frame ω)} {first : Moment ω} {object : Instance}

/-- Whether `n` is marked as a name for which the hook runs. -/
def isMarked (m : Machine ω) (n : Name) : Bool := m.shared.registry.cache.inHook.contains n

/-- Thread `id` comes to the hook for `n` in the step from `first`, with `fs` below, and the hook runs at all moments
of `inner`; none of them takes the marks away. -/
structure Hooks (id : ThreadId) (n : Name) (fs : List (Frame ω)) (first : Moment ω) (inner : List (Moment ω)) :
    Prop where
  begins : first.mover = id ∧ ∃ a p, first.thread? = some ⟨.reply (.ok a), .producing p n true true :: fs⟩
  running : Underway id fs.length inner
  uncleared : ∀ e ∈ inner, e.clears = false

/-- A hook for `n` has panicked, and nothing has taken the marks away since it began. -/
def Stuck (n : Name) (past : List (Moment ω)) : Prop :=
  ∃ id fs later last inner first earlier text object, past = later ++ last :: (inner ++ first :: earlier) ∧
    Hooks id n fs first inner ∧ last.mover = id ∧
    last.thread? = some ⟨.reply (.panicked text), .hooking n true object :: fs⟩ ∧ ∀ e ∈ later, e.clears = false

theorem Stuck.cons {e : Moment ω} (hs : Stuck n past) (hc : e.clears = false) : Stuck n (e :: past) := by
  obtain ⟨id, fs, later, last, inner, first, earlier, text, object, rfl, hhooks, hmover, hlast, hlater⟩ := hs
  exact ⟨id, fs, e :: later, last, inner, first, earlier, text, object, rfl, hhooks, hmover, hlast,
    List.forall_mem_cons.2 ⟨hc, hlater⟩⟩

/-! ## Where a mark is from -/

/-- A hook for `n` runs that has begun since the marks were last taken away. -/
def Running (n : Name) (past : List (Moment ω)) (m : Machine ω) : Prop :=
  ∃ id fs inner first earlier t object, past = inner ++ first :: earlier ∧ Hooks id n fs first inner ∧
    m.threads[id]? = some t ∧ .hooking n true object :: fs <:+ t.frames

theorem Running.hooks_pos (hr : Running n past m) : 0 < m.hooks n := by
  obtain ⟨id, fs, inner, first, earlier, t, object, -, -, ht, hframes⟩ := hr
  have hmine : 0 < t.hooks n :=
    List.countP_pos_iff.2 ⟨_, hframes.subset (List.mem_cons_self ..), by simp [Frame.isHook]⟩
  exact Nat.lt_of_lt_of_le hmine (hooks_le ht n)

/-- A hook that runs goes on, or it panics, or it ends and takes the mark away. -/
theorem Running.step (hr : Running n past m) (hs : m.step h j = some m') (hc : (⟨m, j⟩ : Moment ω).clears = false)
    (hmark : m'.isMarked n = true) : Running n (⟨m, j⟩ :: past) m' ∨ Stuck n (⟨m, j⟩ :: past) := by
  obtain ⟨id, fs, inner, first, earlier, t, object, rfl, hhooks, ht, hframes⟩ := hr
  have hgo : Hooks id n fs first (⟨m, j⟩ :: inner) := by
    refine ⟨hhooks.begins, List.forall_mem_cons.2 ⟨?_, hhooks.running⟩,
      List.forall_mem_cons.2 ⟨hc, hhooks.uncleared⟩⟩
    rw [ht]
    exact Thread.isWithin_of_suffix hframes
  by_cases hj : j = id
  · subst hj
    obtain ⟨s', t', hst, rfl⟩ := exists_of_step hs ht
    cases hw : t.isWithin (fs.length + 1) with
    | true =>
      exact .inl ⟨j, fs, ⟨m, j⟩ :: inner, first, earlier, t', object, rfl, hgo, threads_set_self ht,
        Thread.suffix_step_of_isWithin hframes hw hst⟩
    | false =>
      obtain ⟨r, rfl⟩ := Thread.eq_of_not_isWithin hframes hw
      cases r with
      | panicked text =>
        exact .inr ⟨j, fs, [], ⟨m, j⟩, inner, first, earlier, text, object, rfl, hhooks, rfl, ht,
          List.forall_mem_nil _⟩
      | _ =>
        cases hst
        simp [isMarked, Shared.withCache, Cache.inHook_keep, Cache.contains_inHook_endHook] at hmark
  · exact .inl ⟨id, fs, ⟨m, j⟩ :: inner, first, earlier, t, object, rfl, hgo, threads_of_ne hs hj ht, hframes⟩

theorem Run.marked_cases {r : Registry} {w : ω} {programs : List (Program ω)}
    (hr : Run h (ofPrograms { r with cache := {} } w programs) past m) (hmark : m.isMarked n = true) :
    Running n past m ∨ Stuck n past := by
  induction hr with
  | start => cases hmark
  | @step past m m' j hr hs ih =>
    obtain ⟨t, s', t', ht, hst, rfl⟩ := step_eq_some_iff.1 hs
    have hc : (⟨m, j⟩ : Moment ω).clears = false := by
      rw [Moment.clears_eq ht]
      cases hc : t.clears with
      | false => rfl
      | true =>
        have hgone : isMarked ⟨s', m.threads.set j t'⟩ n = false := Thread.inHook_of_clears hst hc
        rw [hgone] at hmark
        cases hmark
    have hthere : m.isMarked n = true →
        Running n (⟨m, j⟩ :: past) ⟨s', m.threads.set j t'⟩ ∨ Stuck n (⟨m, j⟩ :: past) := by
      intro hm
      rcases ih hm with hrunning | hstuck
      · exact hrunning.step hs hc hmark
      · exact .inr (hstuck.cons hc)
    cases Thread.step_markMove (n := n) hst with
    | still count mark => exact hthere (mark.symm.trans hmark)
    | panics mark => exact hthere (mark.symm.trans hmark)
    | @begins _ a p object fs unmarked frames mark =>
      exact .inl ⟨j, fs, [], ⟨m, j⟩, past, t', object, rfl,
        ⟨⟨rfl, a, p, ht⟩, List.forall_mem_nil _, List.forall_mem_nil _⟩, threads_set_self ht, by rw [frames]⟩
    | ends calm mark => cases hmark.symm.trans mark
    | cleared clear mark => cases hmark.symm.trans mark

/-! ## A hook that panics -/

/-- The hook for `n` that thread `id` came to with `fs` below is over, or it is the innermost one and `n` is marked. -/
def Barring (id : ThreadId) (n : Name) (fs : List (Frame ω)) (m : Machine ω) : Prop :=
  (∃ r, m.threads[id]? = some ⟨.reply r, fs⟩) ∨
    (m.isMarked n = true ∧ ∃ t object, m.threads[id]? = some t ∧ .hooking n true object :: fs <:+ t.frames ∧
      t.hooks n = fs.countP (Frame.isHook n) + 1)

/-- The mark stays because no other hook for the name begins, and no other thread runs one. -/
theorem Barring.step (hb : Barring id n fs m) (hd : m.Disciplined) (hs : m.step h j = some m')
    (hw : ∀ t, m.threads[id]? = some t → t.isWithin fs.length = true) (hc : (⟨m, j⟩ : Moment ω).clears = false) :
    Barring id n fs m' := by
  rcases hb with ⟨r, ht⟩ | ⟨hmark, t, object, ht, hframes, hcount⟩
  · have := hw _ ht
    simp [Thread.isWithin] at this
  · by_cases hj : j = id
    · subst hj
      obtain ⟨s', t', hst, rfl⟩ := exists_of_step hs ht
      rw [Moment.clears_eq ht] at hc
      cases hin : t.isWithin (fs.length + 1) with
      | false =>
        obtain ⟨r, rfl⟩ := Thread.eq_of_not_isWithin hframes hin
        exact .inl (by cases r <;> cases hst <;> exact ⟨_, threads_set_self ht⟩)
      | true =>
        have hframes' := Thread.suffix_step_of_isWithin hframes hin hst
        -- a hook for the name that ends here stands above this one, and there is none
        have hinner : ∀ {r : Reply} {o : Instance} {gs : List (Frame ω)}, t ≠ ⟨.reply r, .hooking n true o :: gs⟩ := by
          rintro r o gs rfl
          have hlen : fs.length + 1 < gs.length + 1 := by simpa [Thread.isWithin] using hin
          rcases List.suffix_cons_iff.1 hframes with heq | hgs
          · have := congrArg List.length heq
            simp only [List.length_cons] at this
            omega
          · have := hgs.sublist.countP_le (p := Frame.isHook n)
            rw [Thread.hooks_cons] at hcount
            simp only [List.countP_cons, Frame.isHook, beq_self_eq_true, if_true, Thread.hooks] at this hcount
            omega
        cases Thread.step_markMove (n := n) hst with
        | still count mark =>
          exact .inr ⟨mark.trans hmark, t', object, threads_set_self ht, hframes', count.trans hcount⟩
        | begins unmarked => cases hmark.symm.trans unmarked
        | ends => exact absurd rfl hinner
        | panics => exact absurd rfl hinner
        | cleared clear => rw [hc] at clear; cases clear
    · refine .inr ⟨?_, t, object, threads_of_ne hs hj ht, hframes, hcount⟩
      have hpos := (hd.seated id t ht).guards_pos (.inr ⟨_, hframes.subset (List.mem_cons_self ..), rfl⟩)
      obtain ⟨exempt, hcache⟩ := hd.step_cache hs ht hpos (Ne.symm hj)
      rw [isMarked, hcache]
      exact hmark

/-- A fetch that hears from its producer comes to the hook, or is over. -/
theorem Hooks.barring {inner : List (Moment ω)} (hh : Hooks id n fs first inner)
    (hs : first.state.step h first.mover = some m) : Barring id n fs m := by
  obtain ⟨⟨hmover, a, p, ht⟩, -, -⟩ := hh
  obtain ⟨m₀, j⟩ := first
  subst hmover
  obtain ⟨s', t', hst, rfl⟩ := exists_of_step hs ht
  cases Thread.step_objectMove hst with
  | outside quiet => cases quiet
  | returned => exact .inl ⟨_, threads_set_self ht⟩
  | kept => exact .inl ⟨_, threads_set_self ht⟩
  | begun missing unbarred yielded cache after frames =>
    refine .inr ⟨?_, t', _, threads_set_self ht, by rw [frames], ?_⟩
    · rw [isMarked, cache, Cache.contains_inHook_beginHook, beq_self_eq_true, Bool.true_or]
    · rw [Thread.hooks, frames]
      simp [Frame.isHook]

theorem Run.barring (hd : m₀.Disciplined) (hb : Barring id n fs m₀) (hr : Run h m₀ inner m)
    (hu : Underway id fs.length inner) (hc : ∀ e ∈ inner, e.clears = false) : Barring id n fs m := by
  induction hr with
  | start => exact hb
  | @step inner m m' j hr hs ih =>
    have hb := ih (fun e he => hu e (List.mem_cons_of_mem _ he)) fun e he => hc e (List.mem_cons_of_mem _ he)
    exact hb.step (hd.run hr) hs (fun t ht => hu.isWithin ht) (hc _ (List.mem_cons_self ..))

/-- `n` is marked, and whoever runs a hook for it passes a panic on. -/
structure Jammed (n : Name) (m : Machine ω) : Prop where
  marked : m.isMarked n = true
  unwinding : ∀ (id : ThreadId) (t : Thread ω), m.threads[id]? = some t → 0 < t.hooks n → t.isUnwinding = true

theorem Jammed.step (hm : m.Jammed n) (hs : m.step h id = some m') (hc : (⟨m, id⟩ : Moment ω).clears = false) :
    m'.Jammed n := by
  obtain ⟨t, s', t', ht, hst, rfl⟩ := step_eq_some_iff.1 hs
  rw [Moment.clears_eq ht] at hc
  have hmove : isMarked ⟨s', m.threads.set id t'⟩ n = true ∧ (0 < t'.hooks n → 0 < t.hooks n) := by
    have hmark := hm.marked
    cases Thread.step_markMove (n := n) hst with
    | still count mark => exact ⟨mark.trans hmark, fun hpos => count ▸ hpos⟩
    | begins unmarked => cases hmark.symm.trans unmarked
    | panics mark => exact ⟨mark.trans hmark, fun _ => by rw [Thread.hooks_cons]; simp [Frame.isHook]⟩
    | @ends r _ object fs calm =>
      have := hm.unwinding id _ ht (by rw [Thread.hooks_cons]; simp [Frame.isHook])
      cases r with
      | panicked text => exact absurd rfl (calm text)
      | _ => cases this
    | cleared clear => rw [hc] at clear; cases clear
  refine ⟨hmove.1, fun j u hu hpos => ?_⟩
  rcases threads_set ht hu with ⟨rfl, rfl⟩ | ⟨-, hu⟩
  · exact Thread.isUnwinding_step (hm.unwinding _ t ht (hmove.2 hpos)) hst
  · exact hm.unwinding j u hu hpos

/-- A name whose hook has panicked is marked until the marks are taken away. -/
theorem Run.jammed (hd : start.Disciplined) (hr : Run h start past m) (hs : Stuck n past) : m.Jammed n := by
  obtain ⟨id, fs, later, last, inner, first, earlier, text, object, rfl, hhooks, hmover, hlast, hlater⟩ := hs
  obtain ⟨next, hrun, hpanic, hrest⟩ := hr.cut_at
  obtain ⟨begun, hearlier, hbegin, hinner⟩ := hrun.cut_at
  have hd₁ := hd.run hrun
  obtain ⟨m₁, j⟩ := last
  subst hmover
  have ht : m₁.threads[j]? = some ⟨.reply (.panicked text), .hooking n true object :: fs⟩ := hlast
  have hmark : m₁.isMarked n = true := by
    rcases Run.barring ((hd.run hearlier).step hbegin) (hhooks.barring hbegin) hinner hhooks.running hhooks.uncleared
      with ⟨r, hover⟩ | ⟨hmark, -⟩
    · have := congrArg (fun t => t.map fun t => t.frames.length) (ht.symm.trans hover)
      simp at this
    · exact hmark
  have hjammed : next.Jammed n := by
    obtain ⟨s', t', hst, rfl⟩ := exists_of_step hpanic ht
    cases hst
    refine ⟨hmark, fun k u hu hpos => ?_⟩
    rcases threads_set ht hu with ⟨rfl, rfl⟩ | ⟨hk, hu⟩
    · rfl
    · -- two threads that run hooks would both be inside the mutex
      obtain ⟨f, hf, hhook⟩ := List.countP_pos_iff.1 hpos
      exact absurd (hd₁.unique ht hu ((hd₁.seated j _ ht).guards_pos (.inr ⟨_, List.mem_cons_self .., rfl⟩))
        ((hd₁.seated k u hu).guards_pos (.inr ⟨f, hf, Frame.isInner_of_isHook hhook⟩))) hk
  exact hrest.invariant (Jammed n) hjammed fun e he _ hp hs => hp.step hs (hlater e he)

/-- The mark of a name for which no hook runs, and what becomes of a fetch. In every run, whatever producers and hooks
do, such a name is marked exactly if a hook for it has panicked since the marks were last taken away. A fetch for a
complete name without an object, whose producer has yielded one, has the hook run on it exactly if the name is not
marked so; otherwise it hands out what the producer has yielded. -/
theorem Run.marked_iff_stuck {r : Registry} {w : ω} {programs : List (Program ω)}
    (hr : Run h (ofPrograms { r with cache := {} } w programs) past m) (hidle : m.hooks n = 0) :
    (m.shared.registry.cache.inHook.contains n = true ↔ Stuck n past) ∧
      ∀ (id : ThreadId) (a : Answer) (p : Producer) (object : Instance) (fs : List (Frame ω)),
        m.threads[id]? = some ⟨.reply (.ok a), .producing p n true true :: fs⟩ → a.toValue = some object →
        m.shared.registry.cache.contains n = true → m.produced? n = none →
        ∃ m', m.step h id = some m' ∧
          (Stuck n past → m'.threads[id]? = some ⟨.reply (.ok (.value (some object))), fs⟩) ∧
          (¬ Stuck n past → ∃ control, m'.threads[id]? = some ⟨control, .hooking n true object :: fs⟩ ∧
            ∀ hook, m.shared.registry.hook = some hook → control = .program (h.program hook (.object object n))) := by
  have hiff : m.shared.registry.cache.inHook.contains n = true ↔ Stuck n past := by
    refine ⟨fun hmark => ?_, fun hstuck => (hr.jammed (ofPrograms_disciplined ..) hstuck).marked⟩
    rcases hr.marked_cases hmark with hrunning | hstuck
    · have := hrunning.hooks_pos
      omega
    · exact hstuck
  refine ⟨hiff, fun id a p object fs ht hobject hcomplete hmissing => ?_⟩
  generalize htaken : Thread.stepProducing h m.shared fs n true true (.ok a) = taken
  have hstep : m.step h id = some ⟨taken.1, m.threads.set id taken.2⟩ := by
    simp only [Machine.step, ht, ← htaken]
    rfl
  rw [Thread.stepProducing_of_missing h m.shared fs hobject hcomplete hmissing] at htaken
  refine ⟨_, hstep, fun hstuck => ?_, fun hfree => ?_⟩
  · rw [if_pos (hiff.2 hstuck)] at htaken
    subst htaken
    exact threads_set_self ht
  · rw [if_neg (mt hiff.1 hfree)] at htaken
    obtain ⟨control, hthread, hcontrol⟩ :=
      Thread.startHook_thread h (m.shared.withCache (m.shared.registry.cache.beginHook n)) fs n true object
    rw [htaken] at hthread
    refine ⟨control, ?_, hcontrol⟩
    rw [hthread]
    exact threads_set_self ht

/-- A producer, and a hook that panics when it is called for the first time. -/
def panickingHost : Host Bool where
  program c _ :=
    if c = 0 then .yield (some ⟨2, .unit⟩)
    else .access (fun _ => true) fun tried => if tried then .yield (some ⟨3, .unit⟩) else .finish (.panicked "boom")
  observe _ w := w

/-- A caller that asks for the object. -/
def fetchingCaller : Program Bool := .request (.produced "a" true true) fun _ => .finish (.ok .done)

/-- Two callers that ask for the object. The first one has set the hook and registered the producer. -/
def fetchingCallers : Machine Bool :=
  ofPrograms {} false
    [.request (.change (.setHook (some 1))) fun _ =>
        .request (.change (.registerSingleton "a" (some ⟨1, .producer ⟨0, true, none⟩⟩))) fun _ => fetchingCaller,
      fetchingCaller]

/-- The first caller has hit the panic, and the second one hears from the producer. -/
def panickedRun : List (Moment Bool) × Machine Bool :=
  fetchingCallers.drive panickingHost (List.replicate 18 0 ++ List.replicate 6 1) []

/-- The frames of the second caller below its fetch. -/
def fetchingFrames : List (Frame Bool) := [.guarded, .caller fun _ => .finish (.ok .done)]

theorem marked_iff_stuck_panickedRun :
    panickedRun.2.hooks "a" = 0 ∧ Stuck "a" panickedRun.1 ∧
      ∃ m', panickedRun.2.step panickingHost 1 = some m' ∧
        m'.threads[1]? = some ⟨.reply (.ok (.value (some ⟨2, .unit⟩))), fetchingFrames⟩ := by
  have hidle : panickedRun.2.hooks "a" = 0 := by decide
  have hrun : Run panickingHost fetchingCallers panickedRun.1 panickedRun.2 := .drive _ .start
  have hfetch : panickedRun.2.threads[1]? = some ⟨.reply (.ok (.value (some ⟨2, .unit⟩))),
      .producing ⟨0, true, none⟩ "a" true true :: fetchingFrames⟩ := rfl
  obtain ⟨hiff, hanswer⟩ := Run.marked_iff_stuck (r := {}) (n := "a") hrun hidle
  have hstuck : Stuck "a" panickedRun.1 := hiff.1 (by decide)
  obtain ⟨m', hstep, hraw, -⟩ := hanswer 1 _ _ _ _ hfetch rfl (by decide) (by decide)
  exact ⟨hidle, hstuck, m', hstep, hraw hstuck⟩

/-- After the panic no hook runs for the name, which is complete and has no object, and still it is marked, so the
second caller is handed the object that the producer has yielded, and the hook is not called. -/
theorem hook_skipped_after_panic :
    ∃ past m m', Run panickingHost fetchingCallers past m ∧ m.hooks "a" = 0 ∧
      m.shared.registry.cache.inHook.contains "a" = true ∧ m.shared.registry.cache.contains "a" = true ∧
      m.produced? "a" = none ∧ m.shared.registry.hook = some 1 ∧
      m.threads[1]? = some ⟨.reply (.ok (.value (some ⟨2, .unit⟩))),
        .producing ⟨0, true, none⟩ "a" true true :: fetchingFrames⟩ ∧
      m.step panickingHost 1 = some m' ∧
      m'.threads[1]? = some ⟨.reply (.ok (.value (some ⟨2, .unit⟩))), fetchingFrames⟩ :=
  ⟨panickedRun.1, panickedRun.2, (panickedRun.2.drive panickingHost [1] []).2, .drive _ .start, by decide, by decide,
    by decide, by decide, rfl, rfl, rfl, rfl⟩

end Machine

end Singletons
