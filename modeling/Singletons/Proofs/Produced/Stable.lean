import Singletons.Proofs.Creation.OneInstance
import Singletons.Proofs.Produced.Hook

/-
The object of a name once it is kept. Until the name is removed, only a hook that was under way already
changes it: what the hook returns is kept without a look at what is there. No hook begins while an object is
kept, and requests for the shared object are answered with it.
-/

namespace Singletons

variable {ω : Type}

namespace Thread

/-- The places from which the next step may answer a fetch for `n`. -/
inductive Providing (n : Name) : Thread ω → Prop where
  | look (p : Producer) (hooked : Bool) (fs : List (Frame ω)) :
      Providing n ⟨.point (.inside (.produceShared p n hooked)), fs⟩
  | produced (r : Reply) (p : Producer) (hooked : Bool) (fs : List (Frame ω)) :
      Providing n ⟨.reply r, .producing p n true hooked :: fs⟩
  | hooked (r : Reply) (object : Instance) (fs : List (Frame ω)) : Providing n ⟨.reply r, .hooking n true object :: fs⟩

variable {h : Host ω} {id : ThreadId} {s s' : Shared ω} {t t' : Thread ω} {n : Name} {v : Value}

/-- While an object is kept, a fetch is answered with it, or with what the hook has just returned. -/
theorem Providing.answer_eq (ht : t.Providing n) (hs : t.step h id s = some (s', t'))
    (hv : s.registry.cache.produced? n = some v) {a : Answer} (ha : t'.answered? = some a) :
    a = .value ((t.hooked? n).getD v) := by
  cases ht with
  | look p hooked fs =>
    cases step_objectMove hs with
    | outside quiet before => cases before
    | served there =>
      cases ha
      rw [hv] at there
      cases there
      rfl
    | called missing => rw [hv] at missing; cases missing
  | produced r p hooked fs =>
    cases step_objectMove hs with
    | outside quiet => cases quiet
    | @returned _ _ r' _ _ _ _ cache answer =>
      cases r' with
      | ok b =>
        cases ha
        rw [answer v hv a rfl]
        cases r <;> rfl
      | failed f => cases ha
      | panicked text => cases ha
    | kept missing => rw [hv] at missing; cases missing
    | begun missing => rw [hv] at missing; cases missing
  | hooked r object fs =>
    cases step_objectMove hs with
    | outside quiet => cases quiet
    | @hooked _ b => cases ha; simp [hooked?]
    | unhooked => cases ha
    | unwound => cases ha

end Thread

namespace Machine

variable {h : Host ω} {start m m' m₀ : Machine ω} {past seg : List (Moment ω)} {id : ThreadId} {n : Name}
  {v u : Value}

/-- Where an object is kept, a step that does not remove the name keeps it, or what a hook has returned. -/
theorem produced?_step (hs : m.step h id = some m') (hk : (⟨m, id⟩ : Moment ω).removes n = false)
    (hc : m.shared.registry.cache.contains n = true) (hv : m.produced? n = some v) :
    m'.produced? n = some (((⟨m, id⟩ : Moment ω).hooked? n).getD v) := by
  obtain ⟨t, s', t', ht, hst, rfl⟩ := step_eq_some_iff.1 hs
  rw [Moment.removes_eq ht] at hk
  rw [Moment.hooked?_eq ht]
  cases hy : t.hooked? n with
  | some u => exact (Thread.step_of_hooked hst hy).2.2 hc
  | none =>
    rcases Thread.step_produced? hst hk hy with hsame | ⟨hnone, -⟩
    · exact hsame.trans hv
    · rw [produced?, hnone] at hv; cases hv

/-- No hook begins for a name whose object is kept. -/
theorem hooks_step (hs : m.step h id = some m') (hk : (⟨m, id⟩ : Moment ω).removes n = false)
    (hv : m.produced? n = some v) :
    (if ((⟨m, id⟩ : Moment ω).hooked? n).isSome then 1 else 0) + m'.hooks n ≤ m.hooks n := by
  obtain ⟨t, s', t', ht, hst, rfl⟩ := step_eq_some_iff.1 hs
  rw [Moment.removes_eq ht] at hk
  rw [Moment.hooked?_eq ht]
  have hset := hooks_set ht s' t' n
  cases Thread.step_hookMove hst hk with
  | still quiet count => rw [quiet]; simp only [Option.isSome_none, Bool.false_eq_true, if_false]; omega
  | begins quiet missing => rw [produced?, missing] at hv; cases hv
  | ends count => split <;> omega

/-- An object is kept along a run that does not remove its name, and the name is complete. -/
theorem Run.produced?_eq (ho : m₀.Orderly) (hc : m₀.shared.registry.cache.contains n = true) (hr : Run h m₀ seg m)
    (hv : m₀.produced? n = some v) (hkept : ∀ e ∈ seg, e.removes n = false) :
    m.shared.registry.cache.contains n = true ∧ m.produced? n = some ((seg.findSome? (·.hooked? n)).getD v) ∧
      seg.countP (fun e => (e.hooked? n).isSome) + m.hooks n ≤ m₀.hooks n := by
  induction hr with
  | start => exact ⟨hc, hv, by simp⟩
  | @step seg m m' id hr hs ih =>
    have hk := hkept ⟨m, id⟩ (List.mem_cons_self ..)
    obtain ⟨hc, hv, hcount⟩ := ih fun e he => hkept e (List.mem_cons_of_mem _ he)
    have hbegun := hooks_step hs hk hv
    refine ⟨contains_step (ho.run hr) hs hk hc, ?_, ?_⟩
    · rw [produced?_step hs hk hc hv, List.findSome?_cons]
      cases (⟨m, id⟩ : Moment ω).hooked? n <;> rfl
    · rw [List.countP_cons]
      omega

/-- Along the moments of a run and at its end, `v` is kept for `n`. -/
structure KeepsObject (n : Name) (v : Value) (seg : List (Moment ω)) (m : Machine ω) : Prop where
  along : ∀ e ∈ seg, e.state.produced? n = some v
  last : m.produced? n = some v

/-- The object stays exactly if no hook returns another. -/
theorem Run.keepsObject_iff (ho : m₀.Orderly) (hc : m₀.shared.registry.cache.contains n = true) (hr : Run h m₀ seg m)
    (hv : m₀.produced? n = some v) (hkept : ∀ e ∈ seg, e.removes n = false) :
    KeepsObject n v seg m ↔ ∀ e ∈ seg, ∀ u, e.hooked? n = some u → u = v := by
  induction hr with
  | start => exact ⟨fun _ => by simp, fun _ => ⟨by simp, hv⟩⟩
  | @step seg m m' id hr hs ih =>
    have hkept' := fun e he => hkept e (List.mem_cons_of_mem _ he)
    have hk := hkept ⟨m, id⟩ (List.mem_cons_self ..)
    have hcm := (hr.produced?_eq ho hc hv hkept').1
    have ih := ih hkept'
    constructor
    · rintro ⟨halong, hlast⟩ e he u hy
      have hkeeps : KeepsObject n v seg m :=
        ⟨fun e he => halong e (List.mem_cons_of_mem _ he), halong _ (List.mem_cons_self ..)⟩
      rcases List.mem_cons.1 he with rfl | he
      · rw [produced?_step hs hk hcm hkeeps.last, hy] at hlast
        exact Option.some.inj hlast
      · exact ih.1 hkeeps e he u hy
    · intro hhooks
      have hkeeps := ih.2 fun e he => hhooks e (List.mem_cons_of_mem _ he)
      refine ⟨List.forall_mem_cons.2 ⟨hkeeps.last, hkeeps.along⟩, ?_⟩
      rw [produced?_step hs hk hcm hkeeps.last]
      cases hy : (⟨m, id⟩ : Moment ω).hooked? n with
      | none => rfl
      | some u => rw [← hhooks _ (List.mem_cons_self ..) u hy]; rfl

/-- A name has one object from `m₀` to the end: `v` is kept for it, and whatever requests for its shared object
are answered with is `v`. -/
structure OneObject (h : Host ω) (n : Name) (v : Value) (seg : List (Moment ω)) (m : Machine ω) : Prop extends
    KeepsObject n v seg m where
  answers : ∀ e ∈ seg, ∀ t s' t' a, e.thread? = some t → t.Providing n →
    t.step h e.mover e.shared = some (s', t') → t'.answered? = some a → a = .value v

/-- What becomes of the object of a name once it is kept. From any state in which an object is kept for `n`, and
until `n` is removed, there is one: what the last hook returned meanwhile, or the old one if none did. The name
has one object, kept and handed out, exactly if no hook returns another; and only hooks return that were under
way for `n` already. -/
theorem Run.object_stable {r : Registry} {w : ω} {programs : List (Program ω)}
    (hr : Run h (ofPrograms { r with cache := {} } w programs) past m₀) (hseg : Run h m₀ seg m)
    (hv : m₀.produced? n = some v) (hkept : ∀ e ∈ seg, e.removes n = false) :
    m.produced? n = some ((seg.findSome? (·.hooked? n)).getD v) ∧
      (OneObject h n v seg m ↔ ∀ e ∈ seg, ∀ u, e.hooked? n = some u → u = v) ∧
      seg.countP (fun e => (e.hooked? n).isSome) + m.hooks n ≤ m₀.hooks n := by
  have ho : m₀.Orderly := (ofPrograms_orderly ..).run hr
  have hc : m₀.shared.registry.cache.contains n = true :=
    (Tabled.run hr).kept n (by rw [produced?] at hv; rw [hv]; rfl)
  obtain ⟨-, heq, hcount⟩ := hseg.produced?_eq ho hc hv hkept
  refine ⟨heq, ⟨fun hone => (hseg.keepsObject_iff ho hc hv hkept).1 hone.toKeepsObject, fun hhooks => ?_⟩, hcount⟩
  have hkeeps := (hseg.keepsObject_iff ho hc hv hkept).2 hhooks
  refine ⟨hkeeps, fun e he t s' t' a ht hproviding hst ha => ?_⟩
  have heq := hproviding.answer_eq hst (hkeeps.along e he) ha
  cases hy : t.hooked? n with
  | none => rwa [hy] at heq
  | some u =>
    have hu : u = v := hhooks e he u (by rw [Moment.hooked?, ht]; exact hy)
    rwa [hy, Option.getD_some, hu] at heq

/-- A producer, and a hook that asks for the object without a hook on it before it yields one of its own. -/
def rehookingHost : Host Unit where
  program c _ :=
    if c = 0 then .yield (some ⟨2, .unit⟩)
    else .request (.produced "a" true false) fun _ => .yield (some ⟨3, .unit⟩)
  observe _ w := w

/-- A caller that sets the hook, registers the producer and asks for its object twice. -/
def rehookingCaller : Program Unit :=
  [.change (.setHook (some 1)), .change (.registerSingleton "a" (some ⟨1, .producer ⟨0, true, none⟩⟩)),
    .produced "a" true true, .produced "a" true true].foldr
    (fun request rest => .request request fun _ => rest) (.finish (.ok .done))

/-- The run up to the reply to the request that the hook issues. -/
def unhookedRun : List (Moment Unit) × Machine Unit :=
  (ofPrograms {} () [rehookingCaller]).drive rehookingHost (List.replicate 20 0) []

/-- The run on to the return of the hook. -/
def rehookedRun : List (Moment Unit) × Machine Unit :=
  unhookedRun.2.drive rehookingHost (List.replicate 4 0) []

/-- The rest of the run. -/
def rereadRun : List (Moment Unit) × Machine Unit :=
  rehookedRun.2.drive rehookingHost (List.replicate 10 0) []

theorem run_rehookedRun :
    Run rehookingHost (ofPrograms {} () [rehookingCaller]) (rehookedRun.1 ++ unhookedRun.1) rehookedRun.2 :=
  (Run.drive _ .start).append (.drive _ .start)

/-- Once the hook has returned, the name has one object to the end of the run. -/
theorem object_stable_rereadRun :
    rehookedRun.2.produced? "a" = some (some ⟨3, .unit⟩) ∧ (∀ e ∈ rereadRun.1, e.removes "a" = false) ∧
      rereadRun.2.isOver = true ∧ OneObject rehookingHost "a" (some ⟨3, .unit⟩) rereadRun.1 rereadRun.2 := by
  have hv : rehookedRun.2.produced? "a" = some (some ⟨3, .unit⟩) := by decide
  have hkept : ∀ e ∈ rereadRun.1, e.removes "a" = false := by decide
  obtain ⟨-, hone, -⟩ := Run.object_stable (r := {}) run_rehookedRun (Run.drive _ .start) hv hkept
  refine ⟨hv, hkept, by decide, hone.2 fun e he u hu => ?_⟩
  have hnone : ∀ e ∈ rereadRun.1, e.hooked? "a" = none := by decide
  rw [hnone e he] at hu
  cases hu

/-- A hook overwrites the object that a request nested in it has kept, although the name was never removed. -/
theorem hook_overwrites_object :
    ∃ (past seg : List (Moment Unit)) (m₀ m : Machine Unit),
      Run rehookingHost (ofPrograms {} () [rehookingCaller]) past m₀ ∧ Run rehookingHost m₀ seg m ∧
        (∀ e ∈ seg, e.removes "a" = false) ∧ m₀.produced? "a" = some (some ⟨2, .unit⟩) ∧
        m.produced? "a" = some (some ⟨3, .unit⟩) :=
  ⟨unhookedRun.1, rehookedRun.1, unhookedRun.2, rehookedRun.2, .drive _ .start, .drive _ .start, by decide, by decide,
    by decide⟩

end Machine

end Singletons
