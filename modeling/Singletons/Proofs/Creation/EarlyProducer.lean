import Singletons.Proofs.Creation.EarlyReference

/-
How often an early producer runs. A look-up that asks for an early reference calls the producer with the slot as it
is, so a look-up from within that call finds the producer still waiting to be asked, and calls it once more. This is
the only way in which a producer is called again after a call of it that did not fail, or during a call of it,
between one registration and the next (`Run.askedOnce_iff`).

While a call is under way the slot keeps the producer, unless something happens that leaves the name without any
(`Pursuit`); and a name without a producer gets none but by a registration (`Barren`).
-/

namespace Singletons

variable {ω : Type}

/-- The early producer that a slot has, be it for a creation to come or for the one under way. -/
def Slot.producer? : Option Slot → Option Callback
  | some (early p) | some (inCreation (.pending p)) => some p
  | _ => none

namespace Thread

variable {h : Host ω} {id : ThreadId} {s s' : Shared ω} {t t' : Thread ω} {n : Name} {p : Callback}

/-- A step that removes a name leaves its slot empty. -/
theorem step_of_removes (hs : t.step h id s = some (s', t')) (hk : t.removes s.registry n = true) :
    s'.registry.cache.slots.get? n = none ∧ t'.isRestoring n = false := by
  obtain ⟨control, frames⟩ := t
  have hchange : ∀ c, control = .point (.start (.change c)) → (c.apply s.registry).registry.cache.slots.get? n = none →
      s'.registry.cache.slots.get? n = none ∧ t'.isRestoring n = false := by
    rintro c rfl hc
    refine ⟨by rw [registry_of_change hs]; exact hc, ?_⟩
    simp only [step, stepPoint, stepStart] at hs
    split at hs
    · cases hs
    · cases hs; rfl
  unfold removes at hk
  split at hk
  · rename_i k heq
    refine hchange _ heq ?_
    obtain rfl : s.registry.canonical k = n := by simpa using hk
    exact Table.get?_erase_self ..
  · rename_i k rest heq
    obtain rfl : control = _ := heq
    obtain rfl : s.registry.canonical k = n := by simpa using hk
    simp only [step, stepPoint] at hs
    split at hs
    · cases hs
    · cases hs; exact ⟨Table.get?_erase_self .., rfl⟩
  · rename_i k heq
    refine hchange _ heq ?_
    obtain rfl : k = n := by simpa using hk
    exact Table.get?_erase_self ..
  · rename_i reset heq
    exact hchange _ heq rfl
  · rename_i rest heq
    obtain rfl : control = _ := heq
    simp only [step, stepPoint] at hs
    split at hs
    · cases hs
    · cases hs; exact ⟨rfl, rfl⟩
  · cases hk

/-- A reference that an early producer returns is exposed if it is the first one. -/
theorem step_of_handsOut (hs : t.step h id s = some (s', t')) (hq : t.handsOut n = true)
    (hp : s.registry.cache.slots.get? n = some (.inCreation (.pending p))) :
    ∃ v, s'.registry.cache.slots.get? n = some (.inCreation (.exposed v)) := by
  unfold handsOut at hq
  split at hq
  · rename_i a k q fs
    obtain rfl : k = n := by simpa using hq
    simp only [step, stepReply, Cache.expose, hp] at hs
    cases hs
    exact ⟨_, Table.get?_insert_self ..⟩
  · cases hq

/-- As long as the producer of a name waits to be asked, nothing has removed the name, and no call of the producer has
returned. -/
theorem calm_of_pending {q : Callback} (hs : t.step h id s = some (s', t'))
    (hp : s.registry.cache.slots.get? n = some (.inCreation (.pending p)))
    (hp' : s'.registry.cache.slots.get? n = some (.inCreation (.pending q))) :
    t.removes s.registry n = false ∧ t.handsOut n = false := by
  refine ⟨Bool.eq_false_iff.2 fun hk => ?_, Bool.eq_false_iff.2 fun hq => ?_⟩
  · rw [(step_of_removes hs hk).1] at hp'
    cases hp'
  · obtain ⟨v, hv⟩ := step_of_handsOut hs hq hp
    rw [hv] at hp'
    cases hp'

/-- A step that registers no early producer gives none to a name that has none. -/
theorem step_barren (hx : Slot.producer? (s.registry.cache.slots.get? n) = none) (hr : t.isRestoring n = false)
    (hs : t.step h id s = some (s', t')) (ha : t.arms s.registry n = false) :
    Slot.producer? (s'.registry.cache.slots.get? n) = none ∧ t'.isRestoring n = false := by
  cases hk : t.removes s.registry n with
  | true =>
    obtain ⟨hnone, hr'⟩ := step_of_removes hs hk
    exact ⟨by rw [hnone]; rfl, hr'⟩
  | false =>
    have hr' : t'.isRestoring n = false := by
      refine Bool.eq_false_iff.2 fun hr' => ?_
      obtain ⟨⟨p, hp⟩, -⟩ := (step_deed hs).get?_of_restoring hr'
      rw [hp] at hx
      cases hx
    refine ⟨?_, hr'⟩
    cases hy : t.yield? n with
    | some v =>
      rw [(step_of_yield hs hy).1]
      rfl
    | none =>
      cases (step_deed hs).slotMove hk hy with
      | still slot | enter _ slot => rw [slot]; exact hx
      | register v _ slot => rw [slot]; rfl
      | arm p _ _ _ arming => rw [ha] at arming; cases arming
      | mark e free slot _ reference =>
        rw [slot, reference]
        cases hfound : s.registry.cache.slots.get? n with
        | none => rfl
        | some x =>
          rw [hfound] at hx
          cases x with
          | early p => cases hx
          | _ => rfl
      | abandon slot =>
        rcases slot with slot | ⟨-, slot⟩
        · rw [slot]; exact hx
        · rw [slot]; rfl
      | restore p restoring => rw [hr] at restoring; cases restoring
      | expose v pending =>
        obtain ⟨p, hp⟩ := pending
        rw [hp] at hx
        cases hx

/-- A step that registers no early producer keeps the one that waits to be asked, or it ends a creation that marked the
name, or it leaves the name without any. -/
theorem pending_step (hp : s.registry.cache.slots.get? n = some (.inCreation (.pending p)))
    (hr : t.isRestoring n = false) (hs : t.step h id s = some (s', t')) (ha : t.arms s.registry n = false) :
    (s'.registry.cache.slots.get? n = some (.inCreation (.pending p)) ∧ t'.marks n = t.marks n) ∨
      t'.marks n + 1 = t.marks n ∨
      (Slot.producer? (s'.registry.cache.slots.get? n) = none ∧ t'.isRestoring n = false ∧
        (t.removes s.registry n = true ∨ t.handsOut n = true ∨ (s'.registry.cache.complete? n).isSome = true)) := by
  have hquiet : ∀ x, s'.registry.cache.slots.get? n = some x → t'.isRestoring n = false := fun x hx =>
    Bool.eq_false_iff.2 fun hr' => by
      rw [((step_deed hs).get?_of_restoring hr').2] at hx
      cases hx
  have hcomplete : ∀ v, s'.registry.cache.slots.get? n = some (.complete v) →
      (Slot.producer? (s'.registry.cache.slots.get? n) = none ∧ t'.isRestoring n = false ∧
        (t.removes s.registry n = true ∨ t.handsOut n = true ∨ (s'.registry.cache.complete? n).isSome = true)) :=
    fun v hv => ⟨by rw [hv]; rfl, hquiet _ hv, .inr (.inr (by rw [Cache.complete?_eq_some_iff.2 hv]; rfl))⟩
  cases hk : t.removes s.registry n with
  | true =>
    obtain ⟨hnone, hr'⟩ := step_of_removes hs hk
    exact .inr (.inr ⟨by rw [hnone]; rfl, hr', .inl rfl⟩)
  | false =>
    cases hy : t.yield? n with
    | some v => exact .inr (.inr (hk ▸ hcomplete v (step_of_yield hs hy).1))
    | none =>
      cases (step_deed hs).slotMove hk hy with
      | still slot _ marks | enter _ slot _ marks => exact .inl ⟨slot.trans hp, marks⟩
      | register v _ slot => exact .inr (.inr (hk ▸ hcomplete v slot))
      | arm q _ _ _ arming => rw [ha] at arming; cases arming
      | mark e free => exact absurd (free _ hp) (by simp [Slot.isTaken])
      | abandon _ _ marks =>
        rcases marks with ⟨slot, marks⟩ | hfewer
        · exact .inl ⟨slot.trans hp, marks⟩
        · exact .inr (.inl hfewer)
      | restore q restoring => rw [hr] at restoring; cases restoring
      | expose v _ slot _ _ returned => exact .inr (.inr ⟨by rw [slot]; rfl, hquiet _ slot, .inr (.inl returned)⟩)

end Thread

namespace Moment

/-- Whether an early producer for `n` has returned at a moment, without a failure. -/
def handsOut (e : Moment ω) (n : Name) : Bool := e.thread?.any (·.handsOut n)

theorem handsOut_eq {m : Machine ω} {id : ThreadId} {t : Thread ω} (ht : m.threads[id]? = some t) (n : Name) :
    (⟨m, id⟩ : Moment ω).handsOut n = t.handsOut n := by
  simp only [handsOut, thread?, ht, Option.any_some]

/-- A look-up of `n` that may ask for an early reference looks at the slot, under the mutex and with `fs` below. -/
def Looks (e : Moment ω) (n : Name) (fs : List (Frame ω)) : Prop :=
  e.thread? = some ⟨.point (.inside (.look n true)), fs⟩

/-- The number of frames below such a look-up. -/
def lookDepth? (e : Moment ω) (n : Name) : Option Nat :=
  match e.thread? with
  | some ⟨.point (.inside (.look k true)), fs⟩ => if k = n then some fs.length else none
  | _ => none

theorem Looks.lookDepth? {e : Moment ω} {n : Name} {fs : List (Frame ω)} (hl : e.Looks n fs) :
    e.lookDepth? n = some fs.length := by
  unfold Moment.lookDepth?
  rw [show e.thread? = _ from hl]
  exact if_pos rfl

/-- A call of the early producer of `n` begins in the step from a moment, with `fs` below. -/
structure Calls (e : Moment ω) (n : Name) (fs : List (Frame ω)) : Prop where
  looks : e.Looks n fs
  waiting : ∃ p, e.shared.registry.cache.slots.get? n = some (.inCreation (.pending p))

end Moment

namespace Machine

variable {h : Host ω} {start m m' m₁ : Machine ω} {past seg : List (Moment ω)} {id j : ThreadId} {n : Name}
  {fs : List (Frame ω)} {p : Callback}

/-- Whether the call of an early producer for `n` that thread `id` began with `fs` below, right before `since`, returns
in the course of `since`, without a failure. -/
def HandsOut (id : ThreadId) (n : Name) (fs : List (Frame ω)) (since : List (Moment ω)) : Prop :=
  ∃ later e inner a p, since = later ++ e :: inner ∧ Underway id fs.length inner ∧ e.mover = id ∧
    e.thread? = some ⟨.reply (.ok a), .exposing n p :: fs⟩

/-- The early producers for `n` are called as they should: of two calls for one registration the second one does not
begin while the first one is under way, and no more than one of them returns without a failure. -/
def AskedOnce (n : Name) (past : List (Moment ω)) : Prop :=
  ∀ later second between first earlier fs gs, past = later ++ second :: (between ++ first :: earlier) →
    first.Calls n fs → second.Calls n gs → (∀ e ∈ between, e.arms n = false) →
    ¬ Underway first.mover fs.length (second :: between) ∧
      ¬ (HandsOut first.mover n fs (later ++ second :: between) ∧ HandsOut second.mover n gs later)

/-- During a call of an early producer for `n`, the thread that runs it looks `n` up and may ask for an early
reference; `n` is not complete, and since the call began nothing has registered an early producer for `n` or removed
`n`, and no early producer for `n` has returned without a failure. -/
def SelfAsking (n : Name) (past : List (Moment ω)) : Prop :=
  ∃ later second between first earlier fs gs, past = later ++ second :: (between ++ first :: earlier) ∧
    first.Calls n fs ∧ second.mover = first.mover ∧ second.Looks n gs ∧
    Underway first.mover fs.length (second :: between) ∧ second.state.complete? n = none ∧
    ∀ e ∈ between, e.arms n = false ∧ e.removes n = false ∧ e.handsOut n = false

/-! ## Names without an early producer -/

/-- No early producer waits to be asked for `n`, or to be put back. -/
structure Barren (n : Name) (m : Machine ω) : Prop where
  slot : Slot.producer? (m.shared.registry.cache.slots.get? n) = none
  quiet : ∀ (id : ThreadId) (t : Thread ω), m.threads[id]? = some t → t.isRestoring n = false

theorem Barren.step (hb : m.Barren n) (hs : m.step h j = some m') (ha : (⟨m, j⟩ : Moment ω).arms n = false) :
    m'.Barren n := by
  obtain ⟨t, s', t', ht, hst, rfl⟩ := step_eq_some_iff.1 hs
  rw [Moment.arms_eq ht] at ha
  obtain ⟨hslot, hquiet⟩ := Thread.step_barren hb.slot (hb.quiet j t ht) hst ha
  refine ⟨hslot, fun k u hu => ?_⟩
  rcases threads_set ht hu with ⟨-, rfl⟩ | ⟨-, hu⟩
  · exact hquiet
  · exact hb.quiet k u hu

theorem Run.barren (hb : m₁.Barren n) (hr : Run h m₁ seg m) (ha : ∀ e ∈ seg, e.arms n = false) : m.Barren n :=
  hr.invariant (Barren n) hb fun e he _ hp hs => hp.step hs (ha e he)

theorem Barren.not_calls {e : Moment ω} (hb : e.state.Barren n) : ¬ e.Calls n fs := by
  rintro ⟨-, p, hp⟩
  have := hb.slot
  rw [show e.state.shared.registry.cache.slots.get? n = _ from hp] at this
  cases this

/-! ## During a call of an early producer -/

/-- What has become of the slot of `n` since thread `id` called the producer `p` with `fs` below, after the moments
`seg`. Either `p` still waits there to be asked, and no creation that marked `n` has begun meanwhile; or there is no
producer any more, because the name was removed or is complete, or because a call of the producer has returned. -/
inductive Pursuit (id : ThreadId) (n : Name) (p : Callback) (fs : List (Frame ω)) (seg : List (Moment ω))
    (m : Machine ω) : Prop where
  | waiting (t : Thread ω) (thread : m.threads[id]? = some t) (above : .exposing n p :: fs <:+ t.frames)
      (slot : m.shared.registry.cache.slots.get? n = some (.inCreation (.pending p)))
      (marks : t.marks n = (windows fs).countP fun w => w.name == n && w.marked)
      (calm : ∀ e ∈ seg, e.removes n = false ∧ e.handsOut n = false)
  | gone (t : Thread ω) (thread : m.threads[id]? = some t) (above : .exposing n p :: fs <:+ t.frames)
      (barren : m.Barren n)
      (reason : (∃ e ∈ seg, e.removes n = true ∨ e.handsOut n = true) ∨ (m.complete? n).isSome = true)

/-- The frame of the call stays as long as the call is under way. -/
theorem suffix_of_exposing {t : Thread ω} (hs : m.step h j = some m') (ht : m.threads[id]? = some t)
    (above : .exposing n p :: fs <:+ t.frames) (hw : ∀ t, m'.threads[id]? = some t → t.isWithin fs.length = true) :
    ∃ t', m'.threads[id]? = some t' ∧ .exposing n p :: fs <:+ t'.frames := by
  by_cases hj : j = id
  · subst hj
    obtain ⟨s', t', hst, rfl⟩ := exists_of_step hs ht
    have ht' : (m.threads.set j t')[j]? = some t' := threads_set_self ht
    refine ⟨t', ht', ?_⟩
    cases hin : t.isWithin (fs.length + 1) with
    | true => exact Thread.suffix_step_of_isWithin above hin hst
    | false =>
      obtain ⟨r, rfl⟩ := Thread.eq_of_not_isWithin above hin
      obtain ⟨r', rfl⟩ : ∃ r', t' = ⟨.reply r', fs⟩ := by cases r <;> cases hst <;> exact ⟨_, rfl⟩
      exact absurd (hw _ ht') (by simp [Thread.isWithin])
  · exact ⟨t, threads_of_ne hs hj ht, above⟩

/-- A complete name stays complete until it is removed. -/
theorem isSome_complete?_step (ho : m.Orderly) (hs : m.step h j = some m') (hk : (⟨m, j⟩ : Moment ω).removes n = false)
    (hc : (m.complete? n).isSome = true) : (m'.complete? n).isSome = true := by
  obtain ⟨v, hv⟩ := Option.isSome_iff_exists.1 hc
  cases hy : (⟨m, j⟩ : Moment ω).yield? n with
  | some u => rw [complete?_of_yield hs hy]; rfl
  | none => rw [complete?_of_not_yield ho hs hk hy hv]; rfl

theorem Pursuit.step (hp : Pursuit id n p fs seg m) (ho : m.Orderly) (hs : m.step h j = some m')
    (ha : (⟨m, j⟩ : Moment ω).arms n = false) (hw : ∀ t, m'.threads[id]? = some t → t.isWithin fs.length = true) :
    Pursuit id n p fs (⟨m, j⟩ :: seg) m' := by
  cases hp with
  | gone t thread above barren reason =>
    obtain ⟨t', ht', above'⟩ := suffix_of_exposing hs thread above hw
    refine .gone t' ht' above' (barren.step hs ha) ?_
    rcases reason with ⟨e, he, hevent⟩ | hcomplete
    · exact .inl ⟨e, List.mem_cons_of_mem _ he, hevent⟩
    · cases hk : (⟨m, j⟩ : Moment ω).removes n with
      | true => exact .inl ⟨_, List.mem_cons_self .., .inl hk⟩
      | false => exact .inr (isSome_complete?_step ho hs hk hcomplete)
  | waiting t thread above slot marks calm =>
    obtain ⟨t', ht', above'⟩ := suffix_of_exposing hs thread above hw
    have hpos := (ho.disciplined.seated id t thread).guards_pos (.inr ⟨_, above.subset (List.mem_cons_self ..), rfl⟩)
    by_cases hj : j = id
    · subst hj
      obtain ⟨s', u', hst, rfl⟩ := exists_of_step hs thread
      cases ht'.symm.trans (threads_set_self thread)
      rw [Moment.arms_eq thread] at ha
      have hquiet : ∀ (k : ThreadId) (u : Thread ω), m.threads[k]? = some u → u.isRestoring n = false :=
        fun k u hu => Bool.eq_false_iff.2 fun hr => by
          rw [ho.vacant k u n hu hr] at slot
          cases slot
      rcases Thread.pending_step slot (hquiet _ t thread) hst ha with ⟨slot', marks'⟩ | hfewer | ⟨hslot, hr, hreason⟩
      · refine .waiting t' ht' above' slot' (marks'.trans marks) (List.forall_mem_cons.2 ⟨?_, calm⟩)
        rw [Moment.removes_eq thread, Moment.handsOut_eq thread]
        exact Thread.calm_of_pending hst slot slot'
      · -- the creation that ended would be one of those below
        have := Thread.marks_le_of_suffix ((List.suffix_cons ..).trans above') n
        omega
      · refine .gone t' ht' above' ⟨hslot, fun k u hu => ?_⟩ ?_
        · rcases threads_set thread hu with ⟨-, rfl⟩ | ⟨-, hu⟩
          · exact hr
          · exact hquiet k u hu
        · rcases hreason with hk | hq | hc
          · exact .inl ⟨_, List.mem_cons_self .., .inl ((Moment.removes_eq thread n).trans hk)⟩
          · exact .inl ⟨_, List.mem_cons_self .., .inr ((Moment.handsOut_eq thread n).trans hq)⟩
          · exact .inr hc
    · obtain ⟨hstay, hslots⟩ := ho.disciplined.stay hs thread hpos hj
      refine .waiting t hstay above (by rw [hslots]; exact slot) marks (List.forall_mem_cons.2 ⟨?_, calm⟩)
      obtain ⟨u, s', u', hu, hst, rfl⟩ := step_eq_some_iff.1 hs
      rw [Moment.removes_eq hu, Moment.handsOut_eq hu]
      exact Thread.calm_of_pending hst slot (by rw [hslots]; exact slot)

theorem Run.pursuit (ho : m₁.Orderly) (hp : Pursuit id n p fs [] m₁) (hr : Run h m₁ seg m)
    (ha : ∀ e ∈ seg, e.arms n = false) (hu : Underway id fs.length seg)
    (hw : ∀ t, m.threads[id]? = some t → t.isWithin fs.length = true) : Pursuit id n p fs seg m := by
  induction hr with
  | start => exact hp
  | @step seg m m' j hr hs ih =>
    have hp := ih (fun e he => ha e (List.mem_cons_of_mem _ he)) (fun e he => hu e (List.mem_cons_of_mem _ he))
      fun t ht => hu.isWithin ht
    exact hp.step (ho.run hr) hs (ha _ (List.mem_cons_self ..)) hw

theorem pursuit_of_calls {first : Moment ω} (hc : first.Calls n fs) (hs : first.state.step h first.mover = some m) :
    ∃ p, Pursuit first.mover n p fs [] m := by
  obtain ⟨ht, p, hp⟩ := hc
  obtain ⟨m₀, j⟩ := first
  obtain ⟨s', t', hst, rfl⟩ := exists_of_step hs ht
  have hslot : m₀.shared.registry.cache.slots.get? n = some (.inCreation (.pending p)) := hp
  simp only [Thread.step, Thread.stepPoint, Thread.stepInside, hslot] at hst
  cases hst
  exact ⟨p, .waiting _ (threads_set_self ht) List.suffix_rfl hslot rfl (List.forall_mem_nil _)⟩

/-- A run that passed the beginning of a call, as long as the call is under way and nothing is registered. -/
theorem Run.pursued {first : Moment ω} {between earlier : List (Moment ω)} (ho : start.Orderly)
    (hr : Run h start (between ++ first :: earlier) m) (hc : first.Calls n fs) (ha : ∀ e ∈ between, e.arms n = false)
    (hu : Underway first.mover fs.length between)
    (hw : ∀ t, m.threads[first.mover]? = some t → t.isWithin fs.length = true) :
    ∃ p, Pursuit first.mover n p fs between m := by
  obtain ⟨begun, hearlier, hbegin, hbetween⟩ := hr.cut_at
  obtain ⟨p, hp⟩ := pursuit_of_calls hc hbegin
  exact ⟨p, hbetween.pursuit ((ho.run hearlier).step hbegin) hp ha hu hw⟩

/-- Once a call of the producer that waits to be asked has returned without a failure, there is no producer any more. -/
theorem barren_of_handsOut (ho : m.Orderly) (hs : m.step h j = some m') (hq : (⟨m, j⟩ : Moment ω).handsOut n = true)
    (hp : m.shared.registry.cache.slots.get? n = some (.inCreation (.pending p))) : m'.Barren n := by
  obtain ⟨t, s', t', ht, hst, rfl⟩ := step_eq_some_iff.1 hs
  rw [Moment.handsOut_eq ht] at hq
  obtain ⟨v, hv⟩ := Thread.step_of_handsOut hst hq hp
  refine ⟨by rw [hv]; rfl, fun k u hu => Bool.eq_false_iff.2 fun hr => ?_⟩
  rw [(ho.step hs).vacant k u n hu hr] at hv
  cases hv

/-- Of two different elements of a list one comes behind the other. -/
theorem suffix_or_suffix_of_ne {α : Type} {xs ys zs ws : List α} {a b : α} (h : xs ++ a :: ys = zs ++ b :: ws)
    (hne : a ≠ b) : a :: ys <:+ ws ∨ b :: ws <:+ ys := by
  have hcons : ∀ {c d : α} {cs ds : List α}, c ≠ d → c :: cs <:+ d :: ds → c :: cs <:+ ds := by
    intro c d cs ds hcd hs
    rcases List.suffix_cons_iff.1 hs with heq | hs
    · cases heq; exact absurd rfl hcd
    · exact hs
  rcases List.suffix_or_suffix_of_suffix (List.suffix_append zs (b :: ws)) (h ▸ List.suffix_append xs (a :: ys)) with
    hs | hs
  · exact .inr (hcons hne.symm hs)
  · exact .inl (hcons hne hs)

variable {later between inner earlier : List (Moment ω)} {first second last : Moment ω} {gs : List (Frame ω)}

/-- After a call has returned without a failure, none begins before a producer is registered anew. -/
theorem Run.not_calls_of_handsOut {a : Answer} {q : Callback} (ho : start.Orderly)
    (hr : Run h start (later ++ last :: (inner ++ first :: earlier)) second.state) (hc : first.Calls n fs)
    (hu : Underway first.mover fs.length inner) (hmover : last.mover = first.mover)
    (hlast : last.thread? = some ⟨.reply (.ok a), .exposing n q :: fs⟩)
    (ha : ∀ e ∈ later ++ last :: inner, e.arms n = false) : ¬ second.Calls n gs := by
  obtain ⟨next, hrun, hreturn, hlater⟩ := hr.cut_at
  obtain ⟨haLater, haRest⟩ := List.forall_mem_append.1 ha
  obtain ⟨haLast, haInner⟩ := List.forall_mem_cons.1 haRest
  obtain ⟨m₂, j⟩ := last
  obtain rfl : j = first.mover := hmover
  have ht : m₂.threads[first.mover]? = some ⟨.reply (.ok a), .exposing n q :: fs⟩ := hlast
  obtain ⟨p, hp⟩ := hrun.pursued ho hc haInner hu fun t hid => by
    cases ht.symm.trans hid
    simp [Thread.isWithin]
  have hbarren : next.Barren n := by
    cases hp with
    | waiting _ _ _ slot =>
      have hout : (⟨m₂, first.mover⟩ : Moment ω).handsOut n = true := by
        rw [Moment.handsOut_eq ht]
        simp [Thread.handsOut]
      exact barren_of_handsOut (ho.run hrun) hreturn hout slot
    | gone _ _ _ barren => exact barren.step hreturn haLast
  exact (hlater.barren hbarren haLater).not_calls

/-- A call that begins during another one for the same registration asks for itself. -/
theorem Run.selfAsking_of_underway (ho : start.Orderly)
    (hr : Run h start (later ++ second :: (between ++ first :: earlier)) m) (hfirst : first.Calls n fs)
    (hsecond : second.Calls n gs) (ha : ∀ e ∈ between, e.arms n = false)
    (hu : Underway first.mover fs.length (second :: between)) :
    SelfAsking n (later ++ second :: (between ++ first :: earlier)) := by
  obtain ⟨next, hrun, -, -⟩ := hr.cut_at
  obtain ⟨p, hp⟩ := hrun.pursued ho hfirst ha (List.forall_mem_cons.1 hu).2 fun t ht => hu.isWithin ht
  cases hp with
  | waiting t thread above slot marks calm =>
    -- both threads are inside the mutex, so they are one
    have hd := (ho.run hrun).disciplined
    have hmover : second.mover = first.mover := hd.unique thread hsecond.looks
      ((hd.seated _ t thread).guards_pos (.inr ⟨_, above.subset (List.mem_cons_self ..), rfl⟩))
      ((hd.seated _ _ hsecond.looks).guards_pos (.inl rfl))
    have hnone : second.state.complete? n = none := by simp only [Machine.complete?, Cache.complete?, slot]
    exact ⟨later, second, between, first, earlier, fs, gs, rfl, hfirst, hmover, hsecond.looks, hu, hnone,
      fun e he => ⟨ha e he, calm e he⟩⟩
  | gone _ _ _ barren => exact absurd hsecond barren.not_calls

/-- What a call leads to that asks for itself: the look-up stands deeper, and calls the producer. -/
theorem SelfAsking.calls (ho : start.Orderly) (hr : Run h start past m) (hs : SelfAsking n past) :
    ∃ later second between first earlier fs gs, past = later ++ second :: (between ++ first :: earlier) ∧
      first.Calls n fs ∧ second.Calls n gs ∧ (∀ e ∈ between, e.arms n = false) ∧
      Underway first.mover fs.length (second :: between) ∧ fs.length < gs.length := by
  obtain ⟨later, second, between, first, earlier, fs, gs, rfl, hfirst, hmover, hlooks, hu, hnone, hcalm⟩ := hs
  obtain ⟨next, hrun, -, -⟩ := hr.cut_at
  have ha : ∀ e ∈ between, e.arms n = false := fun e he => (hcalm e he).1
  have hat : second.state.threads[first.mover]? = some ⟨.point (.inside (.look n true)), gs⟩ := hmover ▸ hlooks
  obtain ⟨p, hp⟩ := hrun.pursued ho hfirst ha (List.forall_mem_cons.1 hu).2 fun t ht => hu.isWithin ht
  cases hp with
  | waiting t thread above slot =>
    cases thread.symm.trans hat
    exact ⟨later, second, between, first, earlier, fs, gs, rfl, hfirst, ⟨hlooks, p, slot⟩, ha, hu, above.length_le⟩
  | gone _ _ _ _ reason =>
    rcases reason with ⟨e, he, hk | hq⟩ | hcomplete
    · rw [(hcalm e he).2.1] at hk; cases hk
    · rw [(hcalm e he).2.2] at hq; cases hq
    · rw [hnone] at hcomplete; cases hcomplete

/-- The early producer of a name is called as it should, in every run: no two calls for one registration return without
a failure, and none begins while one is under way. The one exception is that the producer itself leads to a look-up of
the name that may ask for an early reference; and then it is called again, unless the name is complete by then, or was
removed, or has a new producer, or another call has returned meanwhile. -/
theorem Run.askedOnce_iff {r : Registry} {w : ω} {programs : List (Program ω)}
    (hr : Run h (ofPrograms r w programs) past m) : AskedOnce n past ↔ ¬ SelfAsking n past := by
  have ho := ofPrograms_orderly r w programs
  constructor
  · intro hask hself
    obtain ⟨later, second, between, first, earlier, fs, gs, rfl, hfirst, hsecond, ha, hu, -⟩ := hself.calls ho hr
    exact (hask _ _ _ _ _ _ _ rfl hfirst hsecond ha).1 hu
  · rintro hself later second between first earlier fs gs rfl hfirst hsecond ha
    have hover : ¬ Underway first.mover fs.length (second :: between) := fun hu =>
      hself (hr.selfAsking_of_underway ho hfirst hsecond ha hu)
    refine ⟨hover, ?_⟩
    rintro ⟨⟨later', last, inner, a, q, hpassed, hu, hmover, hlast⟩, -⟩
    have hne : last ≠ second := by
      rintro rfl
      cases hlast.symm.trans hsecond.looks
    -- the first call has returned before the second one begins, because it is not under way then
    obtain ⟨rest, rfl⟩ : last :: inner <:+ between := by
      rcases suffix_or_suffix_of_ne hpassed.symm hne with hbefore | hafter
      · exact hbefore
      · exact absurd (fun e he => hu e (hafter.subset he)) hover
    obtain ⟨next, hrun, -, -⟩ := hr.cut_at
    rw [List.append_assoc] at hrun
    exact hrun.not_calls_of_handsOut ho hfirst hu hmover hlast ha hsecond

/-- A creation of `x` that asks for `x` three times. Its early producer fails when it is called for the first time. -/
def patientHost : Host Bool where
  program c _ :=
    if c = 0 then
      .request (.change (.registerEarly "x" 1)) fun _ => .request (.get "x" true) fun _ =>
        .request (.get "x" true) fun _ => .request (.get "x" true) fun _ => .yield none
    else
      .access (fun _ => true) fun asked =>
        if asked then .yield (some ⟨1, .unit⟩) else .finish (.failed (.io "refused" none))
  observe _ asked := asked

def patientRun : List (Moment Bool) × Machine Bool :=
  (ofPrograms {} false [.request (.getOrCreate "x" 0) fun _ => .finish (.ok .done)]).drive patientHost
    (List.replicate 42 0) []

/-- An early producer that is called twice, because the first call fails, is called as it should. -/
theorem askedOnce_patientRun :
    patientRun.2.isOver = true ∧ patientRun.1.countP (fun e => (e.lookDepth? "x").isSome) = 3 ∧
      patientRun.1.countP (·.handsOut "x") = 1 ∧ AskedOnce "x" patientRun.1 := by
  have hlevel : ∀ e ∈ patientRun.1, e.lookDepth? "x" = none ∨ e.lookDepth? "x" = some 5 := by decide
  have hrun : Run patientHost (ofPrograms {} false [.request (.getOrCreate "x" 0) fun _ => .finish (.ok .done)])
      patientRun.1 patientRun.2 := .drive _ .start
  refine ⟨by decide, by decide, by decide, hrun.askedOnce_iff.2 fun hself => ?_⟩
  -- all look-ups stand at one level, so none is made during a call of the producer
  obtain ⟨later, second, between, first, earlier, fs, gs, hpast, hfirst, hsecond, -, -, hlt⟩ :=
    hself.calls (ofPrograms_orderly ..) hrun
  have hfs : fs.length = 5 := by simpa [hfirst.looks.lookDepth?] using hlevel first (by simp [hpast])
  have hgs : gs.length = 5 := by simpa [hsecond.looks.lookDepth?] using hlevel second (by simp [hpast])
  omega

/-- The run of `nestingHost` up to the first call of the early producer. -/
def firstCall : List (Moment Nat) × Machine Nat :=
  nestingRun (ofPrograms {} 0 [.request (.getOrCreate "x" 0) fun _ => .finish (.ok .done)]) 12

/-- From there up to the third call, which is made during the first one. -/
def thirdCall : List (Moment Nat) × Machine Nat := nestingRun (nestingRun firstCall.2 1).2 17

/-- From there until the third call returns. -/
def thirdReturn : List (Moment Nat) × Machine Nat := nestingRun (nestingRun thirdCall.2 1).2 2

/-- From there until the first call returns. -/
def firstReturn : List (Moment Nat) × Machine Nat := nestingRun (nestingRun thirdReturn.2 1).2 3

/-- What follows the third call, up to the return of the first one. -/
def afterThirdCall : List (Moment Nat) := ⟨firstReturn.2, 0⟩ :: (firstReturn.1 ++ ⟨thirdReturn.2, 0⟩ :: thirdReturn.1)

theorem run_afterThirdCall :
    Run nestingHost (ofPrograms {} 0 [.request (.getOrCreate "x" 0) fun _ => .finish (.ok .done)])
      (afterThirdCall ++ ⟨thirdCall.2, 0⟩ :: (thirdCall.1 ++ ⟨firstCall.2, 0⟩ :: firstCall.1))
      (nestingRun firstReturn.2 1).2 := by
  have hfirst : Run nestingHost _ (⟨firstCall.2, 0⟩ :: firstCall.1) (nestingRun firstCall.2 1).2 :=
    .step 0 (.drive _ .start) rfl
  have hthird : Run nestingHost _ (⟨thirdCall.2, 0⟩ :: (thirdCall.1 ++ _)) (nestingRun thirdCall.2 1).2 :=
    .step 0 (hfirst.append (.drive _ .start)) rfl
  have hreturn : Run nestingHost _ (⟨thirdReturn.2, 0⟩ :: (thirdReturn.1 ++ _)) (nestingRun thirdReturn.2 1).2 :=
    .step 0 (hthird.append (.drive _ .start)) rfl
  have hlast : Run nestingHost _ (⟨firstReturn.2, 0⟩ :: (firstReturn.1 ++ _)) (nestingRun firstReturn.2 1).2 :=
    .step 0 (hreturn.append (.drive _ .start)) rfl
  simpa only [afterThirdCall, List.cons_append, List.append_assoc] using hlast

/-- A call of an early producer begins during another one for the same registration, and both return an instance. -/
theorem early_producer_called_in_itself :
    ∃ past m, Run nestingHost (ofPrograms {} 0 [.request (.getOrCreate "x" 0) fun _ => .finish (.ok .done)]) past m ∧
      ¬ AskedOnce "x" past ∧
      ∃ later second between first earlier fs gs, past = later ++ second :: (between ++ first :: earlier) ∧
        first.Calls "x" fs ∧ second.Calls "x" gs ∧ (∀ e ∈ between, e.arms "x" = false) ∧
        Underway first.mover fs.length (second :: between) ∧
        HandsOut first.mover "x" fs (later ++ second :: between) ∧ HandsOut second.mover "x" gs later := by
  have hfirst : (⟨firstCall.2, 0⟩ : Moment Nat).Calls "x" _ := ⟨rfl, 1, rfl⟩
  have hsecond : (⟨thirdCall.2, 0⟩ : Moment Nat).Calls "x" _ := ⟨rfl, 1, rfl⟩
  have ha : ∀ e ∈ thirdCall.1, e.arms "x" = false := by decide
  have hunder : Underway 0 5 (⟨thirdCall.2, 0⟩ :: thirdCall.1) := by decide
  refine ⟨_, _, run_afterThirdCall, fun hask => (hask _ _ _ _ _ _ _ rfl hfirst hsecond ha).1 hunder,
    _, _, _, _, _, _, _, rfl, hfirst, hsecond, ha, hunder, ?_, ?_⟩
  · exact ⟨[], ⟨firstReturn.2, 0⟩, _, _, 1, rfl, by decide, rfl, rfl⟩
  · exact ⟨⟨firstReturn.2, 0⟩ :: firstReturn.1, ⟨thirdReturn.2, 0⟩, thirdReturn.1, _, 1, rfl, by decide, rfl, rfl⟩

end Machine

end Singletons
