import Singletons.Proofs.Machine.Mutex

/-
Requests under way. A thread that issues a request with some frames below works above these frames until
it comes back to them with the reply: a step that does not hand in a reply leaves all frames in place, and
a reply goes to the innermost frame only.
-/

namespace Singletons

variable {ω : Type}

namespace Thread

variable {h : Host ω} {id : ThreadId} {s s' : Shared ω} {t t' : Thread ω} {fs below : List (Frame ω)}

/-- Whether a thread is inside a request that it issued with `depth` frames below: it has not come back
to them with a reply. -/
def isWithin (depth : Nat) (t : Thread ω) : Bool :=
  match t.control with
  | .reply _ => decide (depth < t.frames.length)
  | _ => decide (depth ≤ t.frames.length)

theorem suffix_stepStart (r : Request) (hs : stepStart h id s fs r = some (s', t')) : fs <:+ t'.frames := by
  cases r with
  | getTyped n k => cases hs; exact List.suffix_cons ..
  | _ =>
    simp only [stepStart] at hs
    repeat' split at hs
    all_goals cases hs
    all_goals exact List.suffix_rfl

theorem suffix_stepInside (sec : Section) (hs : stepInside h s fs sec = (s', t')) : fs <:+ t'.frames := by
  cases sec <;> simp only [stepInside] at hs
  all_goals repeat' split at hs
  all_goals cases hs
  all_goals first | exact List.suffix_rfl | exact List.suffix_cons ..

theorem suffix_stepPoint (p : Point) (hs : stepPoint h id s fs p = some (s', t')) : fs <:+ t'.frames := by
  cases p with
  | start r => exact suffix_stepStart r hs
  | inside sec => exact suffix_stepInside sec (Option.some.inj hs)
  | agenda tasks =>
    cases tasks with
    | nil => cases hs; exact List.suffix_rfl
    | cons task rest =>
      simp only [stepPoint] at hs
      repeat' split at hs
      all_goals cases hs
      all_goals first | exact List.suffix_rfl | exact List.suffix_cons ..
  | _ =>
    simp only [stepPoint] at hs
    repeat' split at hs
    all_goals cases hs
    all_goals first | exact List.suffix_rfl | exact List.suffix_cons ..

/-- However a step moves the frames, those below the innermost one stay. -/
theorem Shift.suffix_tail (hs : Shift id s s' t t') : t.frames.tail <:+ t'.frames := by
  cases hs with
  | stay => exact List.tail_suffix _
  | push => exact (List.tail_suffix _).trans (List.suffix_cons ..)
  | pop => exact List.suffix_rfl
  | swap => exact List.suffix_cons ..
  | enter => exact (List.tail_suffix _).trans (List.suffix_cons ..)
  | leave => exact List.suffix_rfl

/-- A thread that hands in no reply leaves all its frames in place. -/
theorem suffix_step (hc : ∀ r, t.control ≠ .reply r) (hs : t.step h id s = some (s', t')) :
    t.frames <:+ t'.frames := by
  obtain ⟨control, frames⟩ := t
  cases control with
  | program p =>
    have hs := Option.some.inj hs
    cases p <;> cases hs
    · exact List.suffix_rfl
    · exact List.suffix_cons ..
    · exact List.suffix_rfl
  | point p => exact suffix_stepPoint p hs
  | reply r => exact absurd rfl (hc r)

/-- While a request is under way, the frames below it stay. -/
theorem suffix_step_of_isWithin (hb : below <:+ t.frames) (hw : t.isWithin below.length = true)
    (hs : t.step h id s = some (s', t')) : below <:+ t'.frames := by
  obtain ⟨control, frames⟩ := t
  cases control with
  | reply r =>
    have hlt : below.length < frames.length := by simpa [isWithin] using hw
    cases frames with
    | nil => cases hs
    | cons f fs =>
      have hfs : below <:+ fs := by
        rcases List.suffix_cons_iff.1 hb with heq | hfs
        · rw [heq] at hlt; omega
        · exact hfs
      exact hfs.trans (step_shift hs).suffix_tail
  | _ => exact hb.trans (suffix_step (by rintro r ⟨⟩) hs)

/-- A thread with more frames than those below a request is inside the request. -/
theorem isWithin_of_suffix {f : Frame ω} (hb : f :: below <:+ t.frames) : t.isWithin below.length = true := by
  have hle : below.length + 1 ≤ t.frames.length := hb.length_le
  unfold isWithin
  split <;> exact decide_eq_true (by omega)

/-- A thread that is no longer inside a request stands at the frames below it with the reply. -/
theorem eq_of_not_isWithin (hb : below <:+ t.frames) (hw : t.isWithin below.length = false) :
    ∃ r, t = ⟨.reply r, below⟩ := by
  obtain ⟨control, frames⟩ := t
  have hle : below.length ≤ frames.length := hb.length_le
  cases control with
  | reply r =>
    have heq : frames.length ≤ below.length := by simpa [isWithin] using hw
    exact ⟨r, by rw [hb.eq_of_length (by dsimp only; omega)]⟩
  | _ =>
    have hlt : frames.length < below.length := by simpa [isWithin] using hw
    omega

end Thread

namespace Machine

/-- A request that thread `id` issued with `depth` frames below is under way at all moments of `seg`. -/
def Underway (id : ThreadId) (depth : Nat) (seg : List (Moment ω)) : Prop :=
  ∀ e ∈ seg, e.state.threads[id]?.any (·.isWithin depth) = true

instance (id : ThreadId) (depth : Nat) (seg : List (Moment ω)) : Decidable (Underway id depth seg) :=
  inferInstanceAs (Decidable (∀ e ∈ seg, _ = true))

theorem Underway.isWithin {id : ThreadId} {depth : Nat} {seg : List (Moment ω)} {m : Machine ω} {j : ThreadId}
    {t : Thread ω} (hu : Underway id depth (⟨m, j⟩ :: seg)) (ht : m.threads[id]? = some t) :
    t.isWithin depth = true := by
  have := hu _ (List.mem_cons_self ..)
  rwa [ht] at this

/-- A thread that is inside a request all the while works above the frames below it. -/
theorem Run.suffix {h : Host ω} {start m : Machine ω} {id : ThreadId} {t : Thread ω} {below : List (Frame ω)}
    {seg : List (Moment ω)} (hr : Run h start seg m) (ht : start.threads[id]? = some t) (hb : below <:+ t.frames)
    (hu : Underway id below.length seg) : ∃ t, m.threads[id]? = some t ∧ below <:+ t.frames := by
  induction hr with
  | start => exact ⟨t, ht, hb⟩
  | @step seg m m' j hr hs ih =>
    obtain ⟨t, hid, hbelow⟩ := ih fun e he => hu e (List.mem_cons_of_mem _ he)
    by_cases hj : j = id
    · subst hj
      obtain ⟨s', t', hst, rfl⟩ := exists_of_step hs hid
      exact ⟨t', threads_set_self hid, Thread.suffix_step_of_isWithin hbelow (hu.isWithin hid) hst⟩
    · exact ⟨t, threads_of_ne hs hj hid, hbelow⟩

end Machine

end Singletons
