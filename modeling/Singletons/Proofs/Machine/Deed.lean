import Singletons.Machine.Step

/-
What a step of a thread does to the registry. `Deed` lists the kinds of steps: the changes and the
tasks of a teardown, the opening and the ends of creations, the early references, the objects of
producers, and the idle steps, which touch nothing but the flag of the shut-down. Everything a step
may do to aliases, cache, edges and disposal callbacks is read off this list; `step_deed` says that it
is complete.
-/

namespace Singletons

variable {ω : Type}

namespace Frame

/-- The creation that a frame waits for. -/
def window? : Frame ω → Option Cache.Window
  | creating w _ => some w
  | _ => none

/-- The tasks that a teardown goes on with once the disposal callback has returned. -/
def teardown? : Frame ω → Option (List Task)
  | disposing _ _ rest => some rest
  | _ => none

/-- Whether a frame belongs to a stretch under the mutex and stands right above its beginning. -/
def isInner : Frame ω → Bool
  | creating .. | exposing .. | producing _ _ true _ | hooking _ true _ => true
  | _ => false

end Frame

/-- The creations that wait in some frames, innermost first. -/
def windows (frames : List (Frame ω)) : List Cache.Window := frames.filterMap Frame.window?

/-- The teardowns that wait in some frames, innermost first. -/
def teardowns (frames : List (Frame ω)) : List (List Task) := frames.filterMap Frame.teardown?

@[simp] theorem windows_nil : windows ([] : List (Frame ω)) = [] := rfl

@[simp] theorem windows_cons (f : Frame ω) (fs : List (Frame ω)) :
    windows (f :: fs) = f.window?.toList ++ windows fs := by
  cases f <;> rfl

@[simp] theorem teardowns_cons (f : Frame ω) (fs : List (Frame ω)) :
    teardowns (f :: fs) = f.teardown?.toList ++ teardowns fs := by
  cases f <;> rfl

/-- Whether a thread neither puts an early producer back nor works on an agenda. -/
def Control.isOrdinary : Control ω → Bool
  | .point (.restore ..) | .point (.agenda _) => false
  | _ => true

namespace Shared

/-- The registry after a step that leaves everything but the flag of the shut-down. -/
def Unmoved (s s' : Shared ω) : Prop := ∃ b, s'.registry = { s.registry with shutDown := b }

/-- The registry after a step that puts `c` in place of the cache. -/
def Recached (s s' : Shared ω) (c : Cache) : Prop := s'.registry = { s.registry with cache := c }

theorem Unmoved.of_eq {s s' : Shared ω} (h : s'.registry = s.registry) : s.Unmoved s' := ⟨_, h⟩

@[simp] theorem registry_report (s : Shared ω) (h : Host ω) (events : List Event) :
    (s.report h events).registry = s.registry := rfl

@[simp] theorem registry_withCache (s : Shared ω) (c : Cache) :
    (s.withCache c).registry = { s.registry with cache := c } := rfl

end Shared

namespace Thread

/-- The reply of a creation that is abandoned when its callback replies `r`, given the cache in which
its name is no longer marked. -/
def replyOfAbandoned (before after : Cache) (w : Cache.Window) : Reply → Reply
  | .failed f => (failedCreation after w.name f (before.collected w)).value
  | r => r

/-- The kinds of steps, by what they do to the registry. -/
inductive Deed (h : Host ω) (id : ThreadId) (s : Shared ω) : Thread ω → Shared ω → Thread ω → Prop where
  /-- Nothing that creations, teardowns or requests can tell. -/
  | idle {t t' : Thread ω} {s' : Shared ω} (registry : s.Unmoved s') (before : t.control.isOrdinary = true)
      (after : t'.control.isOrdinary = true) (open_ : windows t'.frames = windows t.frames)
      (torn : teardowns t'.frames = teardowns t.frames) : Deed h id s t s' t'
  | change {s' : Shared ω} (c : Change) (fs : List (Frame ω))
      (admitted : c.isGuarded = true → s.mutex.admits id = true)
      (registry : s'.registry = (c.apply s.registry).registry) :
      Deed h id s ⟨.point (.start (.change c)), fs⟩ s' ⟨.reply (.ofExcept (c.apply s.registry).outcome), fs⟩
  /-- The destruction of all singletons begins. -/
  | close {s' : Shared ω} (fs : List (Frame ω)) (admitted : s.mutex.admits id = true)
      (registry : s.Recached s' (s.registry.cache.setInDestruction true)) :
      Deed h id s ⟨.point (.start .destroyAll), fs⟩ s' ⟨.point .gather, fs⟩
  /-- The agenda of a teardown is laid out. -/
  | plan {s' : Shared ω} {p : Point} (tasks : List Task) (fs : List (Frame ω)) (registry : s'.registry = s.registry)
      (origin : (∃ n, p = .start (.destroy n) ∧ tasks = [.destroy n]) ∨
        (p = .gather ∧ tasks = s.registry.agendaOfAll)) :
      Deed h id s ⟨.point p, fs⟩ s' ⟨.point (.agenda tasks), fs⟩
  /-- A task that calls nobody. -/
  | task {s' : Shared ω} (task : Task) (rest tasks : List Task) (events : List Event) (fs : List (Frame ω))
      (admitted : task.isGuarded = true → s.mutex.admits id = true)
      (course : task.course s.registry = .on s'.registry tasks events) :
      Deed h id s ⟨.point (.agenda (task :: rest)), fs⟩ s' ⟨.point (.agenda (tasks ++ rest)), fs⟩
  | dispose {s' : Shared ω} (n : Name) (d : Callback) (rest : List Task) (fs : List (Frame ω))
      (registry : s'.registry = s.registry) :
      Deed h id s ⟨.point (.agenda (.dispose n d :: rest)), fs⟩ s'
        ⟨.program (h.program d .plain), .disposing n d rest :: fs⟩
  | disposed {s' : Shared ω} (r : Reply) (n : Name) (d : Callback) (rest : List Task) (fs : List (Frame ω))
      (registry : s'.registry = s.registry) :
      Deed h id s ⟨.reply r, .disposing n d rest :: fs⟩ s' ⟨.point (.agenda rest), fs⟩
  /-- A disposal callback has panicked, and the rest of its teardown is dropped. -/
  | dropped {s' : Shared ω} (text : String) (n : Name) (d : Callback) (rest : List Task) (fs : List (Frame ω))
      (registry : s'.registry = s.registry) :
      Deed h id s ⟨.reply (.panicked text), .disposing n d rest :: fs⟩ s' ⟨.reply (.panicked text), fs⟩
  | ended {s' : Shared ω} (fs : List (Frame ω)) (registry : s'.registry = s.registry) :
      Deed h id s ⟨.point (.agenda []), fs⟩ s' ⟨.reply (.ok .done), fs⟩
  /-- A creation begins, and its callback is called. -/
  | create {s' : Shared ω} (n : Name) (c : Callback) (w : Cache.Window) (cache : Cache) (fs : List (Frame ω))
      (incomplete : s.registry.cache.complete? n = none) (accepting : s.registry.cache.inDestruction = false)
      (opens : s.registry.cache.openWindow n = .ok (w, cache)) (registry : s.Recached s' cache) :
      Deed h id s ⟨.point (.inside (.create n c)), fs⟩ s' ⟨.program (h.program c .plain), .creating w c :: fs⟩
  | created {s' : Shared ω} (w : Cache.Window) (c : Callback) (a : Answer) (fs : List (Frame ω))
      (registry : s.Recached s' (s.registry.cache.closeWith w a.toValue)) :
      Deed h id s ⟨.reply (.ok a), .creating w c :: fs⟩ s' ⟨.reply (.ok (.value a.toValue)), fs⟩
  /-- A creation ends without a value. -/
  | abandoned {s' : Shared ω} {t' : Thread ω} (w : Cache.Window) (c : Callback) (r : Reply) (fs : List (Frame ω))
      (failed : ∀ a, r ≠ .ok a)
      (registry : s.Recached s' (s.registry.cache.abandon w).1)
      (reply : t' = match (s.registry.cache.abandon w).2 with
        | none => ⟨.reply (replyOfAbandoned s.registry.cache (s.registry.cache.abandon w).1 w r), fs⟩
        | some p =>
          ⟨.point (.restore w.name p (replyOfAbandoned s.registry.cache (s.registry.cache.abandon w).1 w r)), fs⟩) :
      Deed h id s ⟨.reply r, .creating w c :: fs⟩ s' t'
  | restore {s' : Shared ω} (n : Name) (p : Callback) (r : Reply) (fs : List (Frame ω))
      (registry : s.Recached s' (s.registry.cache.restore n p)) :
      Deed h id s ⟨.point (.restore n p r), fs⟩ s' ⟨.reply r, fs⟩
  /-- An early producer has yielded a reference. -/
  | expose {s' : Shared ω} (n : Name) (p : Callback) (a : Answer) (fs : List (Frame ω))
      (registry : s.Recached s' (s.registry.cache.expose n a.toValue).2) :
      Deed h id s ⟨.reply (.ok a), .exposing n p :: fs⟩ s'
        ⟨.reply (.ok (.found (some (s.registry.cache.expose n a.toValue).1.value))), fs⟩
  /-- The object of a shared producer is kept, or the hook on it starts or ends. -/
  | keep {s' : Shared ω} {t' : Thread ω} (r : Reply) (f : Frame ω) (fs : List (Frame ω)) (produced : Table Value)
      (inHook : Roster) (inner : f.isInner = true) (other : f.window? = none)
      (registry : s.Recached s' { s.registry.cache with produced, inHook })
      (after : t'.control.isOrdinary = true) (open_ : windows t'.frames = windows fs)
      (torn : teardowns t'.frames = teardowns fs)
      (table : produced = s.registry.cache.produced ∨
        ∃ n v, s.registry.cache.contains n = true ∧ produced = s.registry.cache.produced.insert n v) :
      Deed h id s ⟨.reply r, f :: fs⟩ s' t'

variable {h : Host ω} {id : ThreadId} {s s' : Shared ω} {t t' : Thread ω} {fs : List (Frame ω)}

theorem stepProgram_deed (p : Program ω) (hs : stepProgram s fs p = (s', t')) :
    Deed h id s ⟨.program p, fs⟩ s' t' := by
  cases p <;> cases hs <;> exact .idle (.of_eq rfl) rfl rfl rfl rfl

theorem stepStart_deed (r : Request) (hs : stepStart h id s fs r = some (s', t')) :
    Deed h id s ⟨.point (.start r), fs⟩ s' t' := by
  cases r with
  | change c =>
    simp only [stepStart] at hs
    split at hs
    · cases hs
    · rename_i hg
      cases hs
      exact .change c fs (by simpa using hg) rfl
  | destroy n => cases hs; exact .plan [.destroy n] fs rfl (.inl ⟨n, rfl, rfl⟩)
  | destroyAll =>
    simp only [stepStart] at hs
    split at hs
    · rename_i hg; cases hs; exact .close fs hg rfl
    · cases hs
  | _ =>
    simp only [stepStart] at hs
    repeat' split at hs
    all_goals cases hs
    all_goals exact .idle ⟨_, rfl⟩ rfl rfl rfl rfl

theorem stepInside_deed (sec : Section) (hs : stepInside h s fs sec = (s', t')) :
    Deed h id s ⟨.point (.inside sec), fs⟩ s' t' := by
  cases sec with
  | create n c =>
    simp only [stepInside] at hs
    split at hs
    · cases hs; exact .idle (.of_eq rfl) rfl rfl rfl rfl
    · rename_i hn
      split at hs
      · cases hs; exact .idle (.of_eq rfl) rfl rfl rfl rfl
      · rename_i hd
        split at hs
        · cases hs; exact .idle (.of_eq rfl) rfl rfl rfl rfl
        · rename_i w cache ho
          cases hs
          exact .create n c w cache fs hn (by simpa using hd) ho rfl
  | _ =>
    simp only [stepInside] at hs
    repeat' split at hs
    all_goals cases hs
    all_goals exact .idle (.of_eq rfl) rfl rfl rfl rfl

theorem stepPoint_deed (p : Point) (hs : stepPoint h id s fs p = some (s', t')) :
    Deed h id s ⟨.point p, fs⟩ s' t' := by
  cases p with
  | start r => exact stepStart_deed r hs
  | inside sec => exact stepInside_deed sec (Option.some.inj hs)
  | restore n p r => cases hs; exact .restore n p r fs rfl
  | gather => cases hs; exact .plan _ fs rfl (.inr ⟨rfl, rfl⟩)
  | agenda tasks =>
    cases tasks with
    | nil => cases hs; exact .ended fs rfl
    | cons task rest =>
      simp only [stepPoint] at hs
      split at hs
      · cases hs
      · rename_i hg
        have hg : task.isGuarded = true → s.mutex.admits id = true := by simpa using hg
        split at hs
        · rename_i r tasks events hc
          cases hs
          exact .task task rest tasks events fs hg hc
        · rename_i n d hc
          have : task = .dispose n d := by
            cases task <;> cases hc; rfl
          subst this
          cases hs
          exact .dispose n d rest fs rfl
  | _ =>
    simp only [stepPoint] at hs
    repeat' split at hs
    all_goals cases hs
    all_goals exact .idle (.of_eq rfl) rfl rfl rfl rfl

theorem stepCreating_deed (w : Cache.Window) (c : Callback) (r : Reply)
    (hs : stepCreating h s fs w r = (s', t')) : Deed h id s ⟨.reply r, .creating w c :: fs⟩ s' t' := by
  cases r with
  | ok a => cases hs; exact .created w c a fs rfl
  | failed f =>
    cases hv : (s.registry.cache.abandon w).2 with
    | none =>
      simp only [stepCreating, leave, hv] at hs
      cases hs
      exact .abandoned w c _ fs (by rintro a ⟨⟩) rfl (by rw [hv]; rfl)
    | some p =>
      simp only [stepCreating, leave, hv] at hs
      cases hs
      exact .abandoned w c _ fs (by rintro a ⟨⟩) rfl (by rw [hv]; rfl)
  | panicked text =>
    cases hv : (s.registry.cache.abandon w).2 with
    | none =>
      simp only [stepCreating, leave, hv] at hs
      cases hs
      exact .abandoned w c _ fs (by rintro a ⟨⟩) rfl (by rw [hv]; rfl)
    | some p =>
      simp only [stepCreating, leave, hv] at hs
      cases hs
      exact .abandoned w c _ fs (by rintro a ⟨⟩) rfl (by rw [hv]; rfl)

theorem keep_eq (c : Cache) (n : Name) (v : Value) : ∃ produced, c.keep n v = { c with produced } ∧
    (produced = c.produced ∨ ∃ n v, c.contains n = true ∧ produced = c.produced.insert n v) := by
  unfold Cache.keep
  split
  · rename_i hn; exact ⟨_, rfl, .inr ⟨n, v, hn, rfl⟩⟩
  · exact ⟨c.produced, rfl, .inl rfl⟩

theorem stepProducing_deed (p : Producer) (n : Name) (shared hooked : Bool) (r : Reply)
    (hs : stepProducing h s fs n shared hooked r = (s', t')) :
    Deed h id s ⟨.reply r, .producing p n shared hooked :: fs⟩ s' t' := by
  cases r with
  | ok a =>
    cases shared with
    | false =>
      simp only [stepProducing, startHook, Bool.false_eq_true, if_false] at hs
      repeat' split at hs
      all_goals cases hs
      all_goals exact .idle (.of_eq rfl) rfl rfl rfl rfl
    | true =>
      simp only [stepProducing, startHook, if_true] at hs
      split at hs
      · cases hs; exact .idle (.of_eq rfl) rfl rfl rfl rfl
      · split at hs
        · cases hs; exact .idle (.of_eq rfl) rfl rfl rfl rfl
        · split at hs
          · split at hs
            · cases hs; exact .idle (.of_eq rfl) rfl rfl rfl rfl
            · split at hs <;> cases hs <;> exact .keep _ _ fs _ _ rfl rfl rfl rfl rfl rfl (.inl rfl)
          · cases hs
            obtain ⟨produced, hk, htable⟩ := keep_eq s.registry.cache n a.toValue
            exact .keep _ _ fs produced s.registry.cache.inHook rfl rfl
              (by simp only [Shared.Recached, Shared.registry_withCache, hk]) rfl rfl rfl htable
  | _ => cases hs; exact .idle (.of_eq rfl) rfl rfl rfl rfl

theorem stepHooking_deed (n : Name) (shared : Bool) (object : Instance) (r : Reply)
    (hs : stepHooking s fs n shared object r = (s', t')) :
    Deed h id s ⟨.reply r, .hooking n shared object :: fs⟩ s' t' := by
  cases shared with
  | false =>
    cases r <;> simp only [stepHooking, Bool.false_eq_true, if_false] at hs
    all_goals cases hs
    all_goals exact .idle (.of_eq rfl) rfl rfl rfl rfl
  | true =>
    cases r with
    | ok a =>
      simp only [stepHooking, if_true] at hs
      cases hs
      obtain ⟨produced, hk, htable⟩ := keep_eq (s.registry.cache.endHook n) n (some (a.toValue.getD object))
      exact .keep _ _ fs produced (s.registry.cache.inHook.remove n) rfl rfl
        (by simp only [Shared.Recached, Shared.registry_withCache, hk]; rfl) rfl rfl rfl htable
    | failed f =>
      simp only [stepHooking, if_true] at hs
      cases hs; exact .keep _ _ fs _ _ rfl rfl rfl rfl rfl rfl (.inl rfl)
    | panicked text => cases hs; exact .idle (.of_eq rfl) rfl rfl rfl rfl

theorem stepReply_deed (r : Reply) (f : Frame ω) (hs : stepReply h s fs r f = (s', t')) :
    Deed h id s ⟨.reply r, f :: fs⟩ s' t' := by
  cases f with
  | creating w c => exact stepCreating_deed w c r hs
  | producing p n shared hooked => exact stepProducing_deed p n shared hooked r hs
  | hooking n shared object => exact stepHooking_deed n shared object r hs
  | exposing n p =>
    cases r with
    | ok a => cases hs; exact .expose n p a fs rfl
    | _ => cases hs; exact .idle (.of_eq rfl) rfl rfl rfl rfl
  | disposing n d rest =>
    cases r with
    | panicked text => cases hs; exact .dropped text n d rest fs rfl
    | _ => cases hs; exact .disposed _ n d rest fs rfl
  | _ => cases r <;> cases hs <;> exact .idle (.of_eq rfl) rfl rfl rfl rfl

/-- Every step of a thread is one of the listed kinds. -/
theorem step_deed (hs : t.step h id s = some (s', t')) : Deed h id s t s' t' := by
  obtain ⟨control, frames⟩ := t
  cases control with
  | program p => exact stepProgram_deed p (Option.some.inj hs)
  | point p => exact stepPoint_deed p hs
  | reply r =>
    cases frames with
    | nil => cases hs
    | cons f fs => exact stepReply_deed r f (Option.some.inj hs)

/-- A change takes one step. -/
theorem registry_of_change {c : Change}
    (hs : (⟨.point (.start (.change c)), fs⟩ : Thread ω).step h id s = some (s', t')) :
    s'.registry = (c.apply s.registry).registry := by
  simp only [step, stepPoint, stepStart] at hs
  split at hs
  · cases hs
  · cases hs; rfl

end Thread

end Singletons
