import Singletons.Proofs.Creation.LookUp

/-
One early reference for a name in creation. A look-up from inside a creation runs with the slot as it is: while its
early producer runs, look-ups that are nested in it may ask the producer again, before the first run returns, and
any of the runs may fail. Whichever run returns first exposes its value, and all the suspended look-ups come to
that value then.

The proof has two halves. A look-up that is answered while the name is in creation is answered with the reference
in the slot (`Inquiry`): the frames below keep their marks until it returns, so the slot that it found pending can
only become exposed meanwhile. And a slot whose reference is exposed offers no other one (`Spent`), unless an early
producer is registered anew: not even when the name is abandoned and marked once more.
-/

namespace Singletons

variable {ω : Type}

namespace Slot

/-- Whether a slot has neither an early reference other than `v` nor a producer of one. -/
def Spent (v : Value) (x : Option Slot) : Prop :=
  x = none ∨ x = some (.inCreation .unavailable) ∨ x = some (.inCreation (.exposed v))

theorem Spent.not_pending {v : Value} {x : Option Slot} (hx : Spent v x) :
    ¬ ∃ p, x = some (.inCreation (.pending p)) := by
  rintro ⟨p, hp⟩
  rcases hx with hx | hx | hx <;> rw [hp] at hx <;> cases hx

end Slot

theorem Cache.complete?_eq_none_of_isInCreation {c : Cache} {n : Name} (h : c.isInCreation n = true) :
    c.complete? n = none := by
  cases hc : c.complete? n with
  | none => rfl
  | some v =>
    rw [isInCreation_eq_false_of_complete? hc] at h
    cases h

theorem Request.suffix_of_lookUp? {r : Registry} {fs below : List (Frame ω)} {req : Request} {n : Name} {early : Bool}
    (hl : req.lookUp? r fs = some (n, early, below)) : fs <:+ below := by
  cases req <;> cases hl
  · exact List.suffix_rfl
  · exact List.suffix_rfl
  · exact List.suffix_cons ..

namespace Thread

/-- Where a thread is in a look-up of `n` with `fs` below, for a name that is not complete and has the slot `x`.
While an early producer runs, the slot has a reference or a producer of one, and no creation of `n` that marked it
is under way but those below. If the look-up is answered with a value, that is the reference in the slot. -/
inductive Inquiry (n : Name) (early : Bool) (fs : List (Frame ω)) (x : Option Slot) : Thread ω → Prop where
  | glance : Inquiry n early fs x ⟨.point (.glance n early), fs⟩
  | glanceAgain : Inquiry n early fs x ⟨.point (.glanceAgain n early), fs⟩
  | await : Inquiry n early fs x ⟨.point (.await (.look n early)), fs⟩
  | inside : Inquiry n early fs x ⟨.point (.inside (.look n early)), .guarded :: fs⟩
  | asking {t : Thread ω} (p : Callback) (above : .exposing n p :: .guarded :: fs <:+ t.frames)
      (marks : t.marks n = (windows fs).countP fun w => w.name == n && w.marked)
      (reference : ∃ e, x = some (.inCreation e) ∧ e ≠ .unavailable) : Inquiry n early fs x t
  | answered (r : Reply) (sole : ∀ v, r = .ok (.found (some v)) → x = some (.inCreation (.exposed v))) :
      Inquiry n early fs x ⟨.reply r, .guarded :: fs⟩
  | returned (r : Reply) (sole : ∀ v, r = .ok (.found (some v)) → x = some (.inCreation (.exposed v))) :
      Inquiry n early fs x ⟨.reply r, fs⟩

variable {h : Host ω} {id : ThreadId} {s s' : Shared ω} {t t' : Thread ω} {n : Name} {early : Bool}
  {fs : List (Frame ω)} {x : Option Slot} {v : Value}

theorem Inquiry.suffix (ht : t.Inquiry n early fs x) : fs <:+ t.frames := by
  cases ht with
  | inside => exact List.suffix_cons ..
  | answered => exact List.suffix_cons ..
  | asking p above => exact ((List.suffix_cons ..).trans (List.suffix_cons ..)).trans above
  | _ => exact List.suffix_rfl

theorem guards_pos_of_suffix (hfs : fs <:+ t.frames) (hpos : 0 < fs.countP Frame.isGuard) : 0 < t.guards :=
  Nat.lt_of_lt_of_le hpos hfs.sublist.countP_le

/-- The marks of some frames count among those of all frames above them. -/
theorem marks_le_of_suffix (hfs : fs <:+ t.frames) (n : Name) :
    (windows fs).countP (fun w => w.name == n && w.marked) ≤ t.marks n :=
  (hfs.filterMap Frame.window?).sublist.countP_le

/-- A creation of `n` that yields in a step leaves `n` complete. -/
theorem yield?_eq_none (hs : t.step h id s = some (s', t')) (hn : s'.registry.cache.complete? n = none) :
    t.yield? n = none := by
  cases hy : t.yield? n with
  | none => rfl
  | some v =>
    rw [Cache.complete?_eq_some_iff.2 (step_of_yield hs hy).1] at hn
    cases hn

/-- The look under the mutex for a name that is not complete. -/
theorem inquiry_look (hn : s.registry.cache.complete? n = none)
    (hs : stepInside h s (.guarded :: fs) (.look n early) = (s', t')) :
    t'.Inquiry n early fs (s'.registry.cache.slots.get? n) := by
  have hnone : ∀ x, Inquiry n early fs x ⟨.reply (.ok (.found none)), .guarded :: fs⟩ := fun x =>
    .answered _ (by rintro v ⟨⟩)
  simp only [stepInside] at hs
  split at hs
  · rename_i v hv
    rw [Cache.complete?_eq_some_iff.2 hv] at hn
    cases hn
  · rename_i v hv
    cases hs
    exact .answered _ (by rintro u ⟨⟩; exact hv)
  · rename_i p hp
    split at hs
    · cases hs
      exact .asking p List.suffix_rfl rfl ⟨_, hp, by simp⟩
    · cases hs; exact hnone _
  · cases hs; exact hnone _

/-- A step from within an early producer keeps the look-up that asked for it waiting. -/
theorem asking_step {p : Callback} (above : .exposing n p :: .guarded :: fs <:+ t.frames)
    (hmarks : t.marks n = (windows fs).countP fun w => w.name == n && w.marked)
    (reference : ∃ e, s.registry.cache.slots.get? n = some (.inCreation e) ∧ e ≠ .unavailable)
    (hw : t.isWithin (fs.length + 2) = true) (hs : t.step h id s = some (s', t'))
    (hk : t.removes s.registry n = false) (hvacant : t.isRestoring n = true → s.registry.cache.slots.get? n = none)
    (hn : s'.registry.cache.complete? n = none) : t'.Inquiry n early fs (s'.registry.cache.slots.get? n) := by
  obtain ⟨e, he, hoffered⟩ := reference
  have above' := suffix_step_of_isWithin above hw hs
  cases (step_deed hs).slotMove hk (yield?_eq_none hs hn) with
  | still slot _ marks | enter _ slot _ marks =>
    exact .asking p above' (marks.trans hmarks) ⟨e, slot.trans he, hoffered⟩
  | register v _ slot =>
    rw [Cache.complete?_eq_some_iff.2 slot] at hn
    cases hn
  | arm p' slot _ marks =>
    exact .asking p above' (marks.trans hmarks) ⟨.pending p', by rw [slot, he]; rfl, by simp⟩
  | mark e' free => exact absurd (free _ he) (by simp [Slot.isTaken])
  | abandon _ _ marks =>
    rcases marks with ⟨slot, marks⟩ | hfewer
    · exact .asking p above' (marks.trans hmarks) ⟨e, slot.trans he, hoffered⟩
    · -- the creation that ended would be one of those below
      have hbelow := ((List.suffix_cons ..).trans (List.suffix_cons ..)).trans above'
      have := marks_le_of_suffix hbelow n
      omega
  | restore p' restoring =>
    rw [hvacant restoring] at he
    cases he
  | expose v _ slot _ marks => exact .asking p above' (marks.trans hmarks) ⟨.exposed v, slot, by simp⟩

/-- The early producer of a look-up returns. Its value is exposed, unless another one was exposed meanwhile: then
that one is the answer. -/
theorem inquiry_expose {p : Callback} {r : Reply}
    (reference : ∃ e, s.registry.cache.slots.get? n = some (.inCreation e) ∧ e ≠ .unavailable)
    (hs : stepReply h s (.guarded :: fs) r (.exposing n p) = (s', t')) :
    t'.Inquiry n early fs (s'.registry.cache.slots.get? n) := by
  obtain ⟨e, he, hoffered⟩ := reference
  cases r with
  | ok a =>
    cases e with
    | unavailable => exact absurd rfl hoffered
    | pending q =>
      simp only [stepReply, Cache.expose, he] at hs
      cases hs
      refine .answered _ ?_
      rintro v ⟨⟩
      exact Table.get?_insert_self ..
    | exposed u =>
      simp only [stepReply, Cache.expose, he] at hs
      cases hs
      refine .answered _ ?_
      rintro v ⟨⟩
      exact he
  | failed f => cases hs; exact .answered _ (by rintro v ⟨⟩)
  | panicked text => cases hs; exact .answered _ (by rintro v ⟨⟩)

theorem Inquiry.step (ht : t.Inquiry n early fs (s.registry.cache.slots.get? n)) (hw : t.isWithin fs.length = true)
    (hs : t.step h id s = some (s', t')) (hk : t.removes s.registry n = false)
    (hvacant : t.isRestoring n = true → s.registry.cache.slots.get? n = none)
    (hn : s.registry.cache.complete? n = none) (hn' : s'.registry.cache.complete? n = none) :
    t'.Inquiry n early fs (s'.registry.cache.slots.get? n) := by
  cases ht with
  | glance =>
    simp only [Thread.step, stepPoint, hn] at hs
    cases hs
    exact .glanceAgain
  | glanceAgain =>
    simp only [Thread.step, stepPoint] at hs
    split at hs
    · cases hs; exact .await
    · cases hs; exact .returned _ (by rintro v ⟨⟩)
  | await =>
    simp only [Thread.step, stepPoint] at hs
    split at hs
    · cases hs; exact .inside
    · cases hs
  | inside => exact inquiry_look hn (Option.some.inj hs)
  | asking p above marks reference =>
    by_cases hin : t.isWithin (fs.length + 2) = true
    · exact asking_step above marks reference hin hs hk hvacant hn'
    · obtain ⟨r, rfl⟩ := eq_of_not_isWithin above (Bool.eq_false_iff.2 hin)
      exact inquiry_expose reference (Option.some.inj hs)
  | answered r sole => cases hs; exact .returned r sole
  | returned r sole => simp [isWithin] at hw

/-- A step that registers no early producer leaves a spent slot spent, as long as the name does not get complete. -/
theorem spent_step (hx : Slot.Spent v (s.registry.cache.slots.get? n)) (hr : t.isRestoring n = false)
    (hs : t.step h id s = some (s', t')) (hk : t.removes s.registry n = false) (ha : t.arms s.registry n = false)
    (hn : s'.registry.cache.complete? n = none) :
    Slot.Spent v (s'.registry.cache.slots.get? n) ∧ t'.isRestoring n = false := by
  have hd := step_deed hs
  refine ⟨?_, Bool.eq_false_iff.2 fun hr' => hx.not_pending (hd.get?_of_restoring hr').1⟩
  cases hd.slotMove hk (yield?_eq_none hs hn) with
  | still slot | enter _ slot => rw [slot]; exact hx
  | register u _ slot =>
    rw [Cache.complete?_eq_some_iff.2 slot] at hn
    cases hn
  | arm p _ _ _ arming => rw [ha] at arming; cases arming
  | mark e free slot _ reference =>
    -- a slot that is free and spent is empty, so nothing can be asked after the mark
    rcases hx with hx | hx | hx
    · rw [slot, reference, hx]; exact .inr (.inl rfl)
    · exact absurd (free _ hx) (by simp [Slot.isTaken])
    · exact absurd (free _ hx) (by simp [Slot.isTaken])
  | abandon slot =>
    rcases slot with slot | ⟨-, slot⟩
    · rw [slot]; exact hx
    · rw [slot]; exact .inl rfl
  | restore p restoring => rw [hr] at restoring; cases restoring
  | expose u pending => exact absurd pending hx.not_pending

end Thread

namespace Moment

/-- Whether the step from a moment registers an early producer for `n`. -/
def arms (e : Moment ω) (n : Name) : Bool := e.thread?.any (·.arms e.shared.registry n)

theorem arms_eq {m : Machine ω} {id : ThreadId} {t : Thread ω} (ht : m.threads[id]? = some t) (n : Name) :
    (⟨m, id⟩ : Moment ω).arms n = t.arms m.shared.registry n := by
  simp only [arms, thread?, ht, Option.any_some, shared]

end Moment

namespace Machine

variable {h : Host ω} {m m' m₁ : Machine ω} {id : ThreadId} {t : Thread ω} {n : Name} {early : Bool}
  {fs below : List (Frame ω)} {past seg seg' : List (Moment ω)} {v v' : Value}

/-- While a thread is inside the mutex, the others leave it where it is, and all slots too. -/
theorem Disciplined.stay {j : ThreadId} (hd : m.Disciplined) (hs : m.step h j = some m')
    (ht : m.threads[id]? = some t) (hpos : 0 < t.guards) (hj : j ≠ id) :
    m'.threads[id]? = some t ∧ m'.shared.registry.cache.slots = m.shared.registry.cache.slots := by
  obtain ⟨exempt, hc⟩ := hd.step_cache hs ht hpos (Ne.symm hj)
  exact ⟨threads_of_ne hs hj ht, by rw [hc]⟩

/-- A name in creation has not been complete since it was last removed. -/
theorem Run.incomplete (ho : m₁.Orderly) (hr : Run h m₁ seg m) (hkept : ∀ e ∈ seg, e.removes n = false)
    (hin : m.shared.registry.cache.isInCreation n = true) : ∀ e ∈ seg, e.state.complete? n = none := by
  intro e he
  cases hc : e.state.complete? n with
  | none => rfl
  | some v =>
    obtain ⟨later, earlier, rfl⟩ := List.append_of_mem he
    obtain ⟨next, h1, hs, h2⟩ := hr.cut_at
    obtain ⟨hlater, hcons⟩ := List.forall_mem_append.1 hkept
    have hrest : Run h e.state (later ++ [e]) m := (Run.start.step e.mover hs).append h2
    have hcomplete := hrest.complete?_eq (ho.run h1) hc
      (List.forall_mem_append.2 ⟨hlater, List.forall_mem_singleton.2 (hcons e (List.mem_cons_self ..))⟩)
    rw [Machine.complete?, Cache.complete?_eq_none_of_isInCreation hin] at hcomplete
    cases hcomplete

/-- A look-up of a name that is not complete meanwhile takes its way, if it is made under the mutex. -/
theorem Run.inquiry (ho : m₁.Orderly) (hr : Run h m₁ seg m)
    (ht : m₁.threads[id]? = some ⟨.point (.glance n early), fs⟩) (hpos : 0 < fs.countP Frame.isGuard)
    (hu : Underway id fs.length seg) (hkept : ∀ e ∈ seg, e.removes n = false)
    (hopen : ∀ e ∈ seg, e.state.complete? n = none) (hend : m.complete? n = none) :
    ∃ t, m.threads[id]? = some t ∧ t.Inquiry n early fs (m.shared.registry.cache.slots.get? n) := by
  induction hr with
  | start => exact ⟨_, ht, .glance⟩
  | @step seg m m' j hr hs ih =>
    obtain ⟨hnow, hopen⟩ := List.forall_mem_cons.1 hopen
    obtain ⟨t, hid, hplace⟩ := ih (fun e he => hu e (List.mem_cons_of_mem _ he))
      (fun e he => hkept e (List.mem_cons_of_mem _ he)) hopen hnow
    have hom := ho.run hr
    by_cases hj : j = id
    · subst hj
      obtain ⟨s', t', hst, rfl⟩ := exists_of_step hs hid
      have hk := Moment.removes_eq hid n ▸ hkept _ (List.mem_cons_self ..)
      exact ⟨t', threads_set_self hid, hplace.step (hu.isWithin hid) hst hk (hom.vacant j t n hid) hnow hend⟩
    · have hguards := Thread.guards_pos_of_suffix hplace.suffix hpos
      obtain ⟨hstay, hslots⟩ := hom.disciplined.stay hs hid hguards hj
      rw [hslots]
      exact ⟨t, hstay, hplace⟩

/-- A spent slot stays spent while a thread under the mutex registers no early producer. -/
theorem Run.spent (ho : m₁.Orderly) (hr : Run h m₁ seg m) (ht : m₁.threads[id]? = some t)
    (hb : below <:+ t.frames) (hpos : 0 < below.countP Frame.isGuard) (hu : Underway id below.length seg)
    (hx : Slot.Spent v (m₁.shared.registry.cache.slots.get? n)) (hres : t.isRestoring n = false)
    (hkept : ∀ e ∈ seg, e.removes n = false) (harmed : ∀ e ∈ seg, e.arms n = false)
    (hopen : ∀ e ∈ seg, e.state.complete? n = none) (hend : m.complete? n = none) :
    ∃ t, m.threads[id]? = some t ∧ below <:+ t.frames ∧ t.isRestoring n = false ∧
      Slot.Spent v (m.shared.registry.cache.slots.get? n) := by
  induction hr with
  | start => exact ⟨t, ht, hb, hres, hx⟩
  | @step seg m m' j hr hs ih =>
    obtain ⟨hnow, hopen⟩ := List.forall_mem_cons.1 hopen
    obtain ⟨t, hid, hbelow, hres, hx⟩ := ih (fun e he => hu e (List.mem_cons_of_mem _ he))
      (fun e he => hkept e (List.mem_cons_of_mem _ he)) (fun e he => harmed e (List.mem_cons_of_mem _ he)) hopen hnow
    have hom := ho.run hr
    by_cases hj : j = id
    · subst hj
      obtain ⟨s', t', hst, rfl⟩ := exists_of_step hs hid
      have hk := Moment.removes_eq hid n ▸ hkept _ (List.mem_cons_self ..)
      have ha := Moment.arms_eq hid n ▸ harmed _ (List.mem_cons_self ..)
      obtain ⟨hx', hres'⟩ := Thread.spent_step hx hres hst hk ha hend
      exact ⟨t', threads_set_self hid, Thread.suffix_step_of_isWithin hbelow (hu.isWithin hid) hst, hres', hx'⟩
    · obtain ⟨hstay, hslots⟩ := hom.disciplined.stay hs hid (Thread.guards_pos_of_suffix hbelow hpos) hj
      rw [hslots]
      exact ⟨t, hstay, hbelow, hres, hx⟩

/-- Whether thread `id` issues a look-up of `n` in the course of `seg` and is answered with `v` where `seg` ends. A
look-up for an instance of one type is answered before the type is checked. -/
def Receives (id : ThreadId) (n : Name) (seg : List (Moment ω)) (m : Machine ω) (v : Value) : Prop :=
  ∃ later e earlier req fs early below, seg = later ++ e :: earlier ∧ e.mover = id ∧
    e.thread? = some ⟨.point (.start req), fs⟩ ∧ req.lookUp? e.shared.registry fs = some (n, early, below) ∧
    Underway id below.length later ∧ m.threads[id]? = some ⟨.reply (.ok (.found (some v))), below⟩

/-- Whoever looks a name up from inside a creation and is answered with a value, while the name is in creation, is
answered with the early reference in its slot. -/
theorem Run.exposed_of_receives (ho : m₁.Orderly) (hr : Run h m₁ seg m) (ht : m₁.threads[id]? = some t)
    (hb : fs <:+ t.frames) (hpos : 0 < fs.countP Frame.isGuard) (hu : Underway id fs.length seg)
    (hkept : ∀ e ∈ seg, e.removes n = false) (hin : m.shared.registry.cache.isInCreation n = true)
    (hv : Receives id n seg m v) : m.shared.registry.cache.slots.get? n = some (.inCreation (.exposed v)) := by
  obtain ⟨later, e, earlier, req, gs, early, below, rfl, rfl, hstart, hlook, hunder, hfound⟩ := hv
  have hopen := hr.incomplete ho hkept hin
  obtain ⟨next, h1, hs, h2⟩ := hr.cut_at
  obtain ⟨hlater, -⟩ := List.forall_mem_append.1 hkept
  obtain ⟨hopenLater, -⟩ := List.forall_mem_append.1 hopen
  -- the look-up is made above the frames of the creation, so under the mutex
  obtain ⟨u, hid, hframes⟩ := h1.suffix ht hb fun e' he' => hu e' (by simp [he'])
  cases hid.symm.trans hstart
  have hbelow : fs <:+ below := hframes.trans (Request.suffix_of_lookUp? hlook)
  obtain ⟨s', t', hst, rfl⟩ := exists_of_step hs hid
  obtain ⟨rfl, rfl⟩ := Thread.stepStart_lookUp hlook hst
  obtain ⟨t, hid', hplace⟩ := h2.inquiry ((ho.run h1).step hs) (threads_set_self hid)
    (Nat.lt_of_lt_of_le hpos hbelow.sublist.countP_le) hunder hlater hopenLater
    (Cache.complete?_eq_none_of_isInCreation hin)
  cases hid'.symm.trans hfound
  cases hplace with
  | asking p above => exact absurd above.length_le (by simp only [List.length_cons]; omega)
  | returned r sole => exact sole v rfl

/-- One early reference for each creation. All look-ups of `n` that are made inside a creation and are answered with
a value while `n` is in creation are answered with the same one, however they are nested and whichever runs of early
producers fail, as long as `n` is not removed and no early producer of `n` is registered between the two answers.
The creation may be one of `n` or of another name. An instance of `n` that is registered meanwhile does not matter:
`n` is complete then, and not in creation any more. -/
theorem Run.one_early_reference {r : Registry} {w : ω} {programs : List (Program ω)} {c : Control ω}
    {window : Cache.Window} {create : Callback} (hr : Run h (ofPrograms r w programs) past m₁)
    (ht : m₁.threads[id]? = some ⟨c, .creating window create :: fs⟩) (hseg : Run h m₁ seg m)
    (hseg' : Run h m seg' m') (hu : Underway id (fs.length + 1) (seg' ++ seg))
    (hkept : ∀ e ∈ seg' ++ seg, e.removes n = false) (harmed : ∀ e ∈ seg', e.arms n = false)
    (hin : m.shared.registry.cache.isInCreation n = true) (hin' : m'.shared.registry.cache.isInCreation n = true)
    (hv : Receives id n seg m v) (hv' : Receives id n (seg' ++ seg) m' v') : v' = v := by
  have ho₁ := (ofPrograms_orderly r w programs).run hr
  have hpos : 0 < (Frame.creating window create :: fs).countP Frame.isGuard :=
    (ho₁.disciplined.seated id _ ht).guards_pos (.inr ⟨_, List.mem_cons_self .., rfl⟩)
  obtain ⟨hkeptLater, hkeptFirst⟩ := List.forall_mem_append.1 hkept
  obtain ⟨huLater, huFirst⟩ : Underway id (fs.length + 1) seg' ∧ Underway id (fs.length + 1) seg :=
    List.forall_mem_append.1 hu
  have hfirst := hseg.exposed_of_receives ho₁ ht List.suffix_rfl hpos huFirst hkeptFirst hin hv
  have hsecond := (hseg.append hseg').exposed_of_receives ho₁ ht List.suffix_rfl hpos hu hkept hin' hv'
  -- from the first answer on the slot has that reference or none
  obtain ⟨t, hid, hbelow⟩ := hseg.suffix ht List.suffix_rfl huFirst
  have hom := ho₁.run hseg
  have hres : t.isRestoring n = false := by
    rw [Bool.eq_false_iff]
    intro hr
    rw [hom.vacant id t n hid hr] at hfirst
    cases hfirst
  obtain ⟨-, -, -, -, hspent⟩ := hseg'.spent hom hid hbelow hpos huLater (.inr (.inr hfirst)) hres hkeptLater harmed
    (hseg'.incomplete hom hkeptLater hin') (Cache.complete?_eq_none_of_isInCreation hin')
  rw [hsecond] at hspent
  rcases hspent with hspent | hspent | hspent <;> cases hspent
  rfl

/-- A creation of `x` that asks for `x`. Its early producer asks for `x` twice itself, before it yields an instance:
of the runs nested in it the first one fails, and the second one yields another instance. -/
def nestingHost : Host Nat where
  program c _ :=
    if c = 0 then
      .request (.change (.registerEarly "x" 1)) fun _ => .request (.get "x" true) fun _ => .yield none
    else
      .access (· + 1) fun runs =>
        match runs with
        | 0 => .request (.get "x" true) fun _ => .request (.get "x" true) fun _ => .yield (some ⟨1, .unit⟩)
        | 1 => .finish (.failed (.io "refused" none))
        | _ => .yield (some ⟨2, .unit⟩)
  observe _ runs := runs

/-- What follows in some steps of the only thread. -/
def nestingRun (m : Machine Nat) (steps : Nat) : List (Moment Nat) × Machine Nat :=
  m.drive nestingHost (List.replicate steps 0) []

/-- The creation has begun. -/
def openedRun : List (Moment Nat) × Machine Nat :=
  nestingRun (ofPrograms {} 0 [.request (.getOrCreate "x" 0) fun _ => .finish (.ok .done)]) 4

/-- Its look-up is about to begin. -/
def outerRun : List (Moment Nat) × Machine Nat := nestingRun openedRun.2 4

/-- The second look-up of the early producer is about to begin. -/
def innerRun : List (Moment Nat) × Machine Nat := nestingRun (nestingRun outerRun.2 1).2 17

/-- The second look-up of the early producer has been answered. -/
def innerAnswered : List (Moment Nat) × Machine Nat := nestingRun (nestingRun innerRun.2 1).2 8

/-- The look-up of the creation has been answered. -/
def outerAnswered : List (Moment Nat) × Machine Nat := nestingRun innerAnswered.2 4

/-- What has passed since the creation began, up to the first of the two answers. -/
def nestingPast : List (Moment Nat) :=
  innerAnswered.1 ++ ⟨innerRun.2, 0⟩ :: (innerRun.1 ++ ⟨outerRun.2, 0⟩ :: outerRun.1)

theorem run_nestingPast : Run nestingHost openedRun.2 nestingPast innerAnswered.2 := by
  have houter : Run nestingHost openedRun.2 (⟨outerRun.2, 0⟩ :: outerRun.1) (nestingRun outerRun.2 1).2 :=
    .step 0 (.drive _ .start) rfl
  have hinner : Run nestingHost openedRun.2 (⟨innerRun.2, 0⟩ :: (innerRun.1 ++ ⟨outerRun.2, 0⟩ :: outerRun.1))
      (nestingRun innerRun.2 1).2 :=
    .step 0 (houter.append (.drive _ .start)) rfl
  exact hinner.append (.drive _ .start)

theorem one_early_reference_nestingRun :
    innerAnswered.2.shared.registry.cache.isInCreation "x" = true ∧
      outerAnswered.2.shared.registry.cache.isInCreation "x" = true ∧
      Receives 0 "x" nestingPast innerAnswered.2 (some ⟨2, .unit⟩) ∧
      Receives 0 "x" (outerAnswered.1 ++ nestingPast) outerAnswered.2 (some ⟨2, .unit⟩) ∧
      ∀ v, Receives 0 "x" (outerAnswered.1 ++ nestingPast) outerAnswered.2 v → v = some ⟨2, .unit⟩ := by
  have hopened : openedRun.2.threads[0]? = some ⟨.program (nestingHost.program 0 .plain),
      [.creating ⟨"x", true, true⟩ 0, .guarded, .caller fun _ => .finish (.ok .done)]⟩ := rfl
  have hinner : Receives 0 "x" nestingPast innerAnswered.2 (some ⟨2, .unit⟩) :=
    ⟨innerAnswered.1, ⟨innerRun.2, 0⟩, _, .get "x" true, _, true, _, rfl, rfl, rfl, rfl, by decide, rfl⟩
  have houter : Receives 0 "x" (outerAnswered.1 ++ nestingPast) outerAnswered.2 (some ⟨2, .unit⟩) :=
    ⟨outerAnswered.1 ++ (innerAnswered.1 ++ ⟨innerRun.2, 0⟩ :: innerRun.1), ⟨outerRun.2, 0⟩, outerRun.1,
      .get "x" true, _, true, _, by simp [nestingPast], rfl, rfl, rfl, by decide, rfl⟩
  have hin : innerAnswered.2.shared.registry.cache.isInCreation "x" = true := by decide
  have hin' : outerAnswered.2.shared.registry.cache.isInCreation "x" = true := by decide
  exact ⟨hin, hin', hinner, houter, fun v hv => Run.one_early_reference (r := {}) (Run.drive _ .start) hopened
    run_nestingPast (Run.drive _ .start) (by decide) (by decide) (by decide) hin hin' hinner hv⟩

end Machine

end Singletons
