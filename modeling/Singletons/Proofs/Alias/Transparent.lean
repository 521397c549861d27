import Singletons.Proofs.Alias.Acyclic
import Singletons.Proofs.Machine.Run

/-
Aliases are transparent. A request looks at a name that it is given only through the canonical form, so two
requests that differ in names with the same canonical form (`Request.Alike`) lead to the same state: most of
them within one step, a destruction within two. Machines that differ in such a request only (`Twins`) then
take their steps side by side until they are equal, whatever other threads do but change the aliases.

A request for what a given producer yields is not among them: it takes its name as it is.
-/

namespace Singletons

variable {ω : Type}

/-- Queries that differ at most in names that `c` takes to the same name. -/
inductive Query.Alike (c : Name → Name) : Query → Query → Prop where
  | contains {x y : Name} (same : c x = c y) : Alike c (.contains x) (.contains y)
  | state {x y : Name} (same : c x = c y) : Alike c (.state x) (.state y)
  | isInCreation {x y : Name} (same : c x = c y) : Alike c (.isInCreation x) (.isInCreation y)
  /-- The marks that ask for a producer are no part of a name. -/
  | produced {x y : Name} (same : c x.unmarked = c y.unmarked) : Alike c (.produced x) (.produced y)
  | isDependent {x y x' y' : Name} (same : c x = c y) (same' : c x' = c y') :
      Alike c (.isDependent x x') (.isDependent y y')
  | dependentsOf {x y : Name} (same : c x = c y) : Alike c (.dependentsOf x) (.dependentsOf y)
  | dependenciesOf {x y : Name} (same : c x = c y) : Alike c (.dependenciesOf x) (.dependenciesOf y)
  | hasDependents {x y : Name} (same : c x = c y) : Alike c (.hasDependents x) (.hasDependents y)
  | hasDisposal {x y : Name} (same : c x = c y) : Alike c (.hasDisposal x) (.hasDisposal y)

/-- Changes that differ at most in names that `c` takes to the same name. -/
inductive Change.Alike (c : Name → Name) : Change → Change → Prop where
  | registerSingleton {x y : Name} (same : c x = c y) (v : Value) :
      Alike c (.registerSingleton x v) (.registerSingleton y v)
  | registerEarly {x y : Name} (same : c x = c y) (p : Callback) : Alike c (.registerEarly x p) (.registerEarly y p)
  | removeSingleton {x y : Name} (same : c x = c y) : Alike c (.removeSingleton x) (.removeSingleton y)
  | setExempt {x y : Name} (same : c x = c y) (exempt : Bool) : Alike c (.setExempt x exempt) (.setExempt y exempt)
  | addDependency {x y x' y' : Name} (same : c x = c y) (same' : c x' = c y') :
      Alike c (.addDependency x x') (.addDependency y y')
  | addPart {x y x' y' : Name} (same : c x = c y) (same' : c x' = c y') : Alike c (.addPart x x') (.addPart y y')
  | registerDisposal {x y : Name} (same : c x = c y) (d : Callback) :
      Alike c (.registerDisposal x d) (.registerDisposal y d)

/-- Requests that differ at most in names that `c` takes to the same name. A request for the object of a
producer tells names apart by their marks, so it is given names without any. -/
inductive Request.Alike (c : Name → Name) : Request → Request → Prop where
  | query {q q' : Query} (alike : q.Alike c q') : Alike c (.query q) (.query q')
  | change {a a' : Change} (alike : a.Alike c a') : Alike c (.change a) (.change a')
  | get {x y : Name} (same : c x = c y) (early : Bool) : Alike c (.get x early) (.get y early)
  | getOrCreate {x y : Name} (same : c x = c y) (create : Callback) :
      Alike c (.getOrCreate x create) (.getOrCreate y create)
  | produced {x y : Name} (same : c x = c y) (plain : x.asksForProducer = false) (plain' : y.asksForProducer = false)
      (shared hooked : Bool) : Alike c (.produced x shared hooked) (.produced y shared hooked)
  | destroy {x y : Name} (same : c x = c y) : Alike c (.destroy x) (.destroy y)

/-- Places that differ at most in names that `c` takes to the same name, and that have yet to be taken in
their canonical form. -/
inductive Point.Alike (c : Name → Name) : Point → Point → Prop where
  | start {r r' : Request} (alike : r.Alike c r') : Alike c (.start r) (.start r')
  | destroy {x y : Name} (same : c x = c y) (rest : List Task) :
      Alike c (.agenda (.destroy x :: rest)) (.agenda (.destroy y :: rest))

section Steps

variable {r : Registry}

theorem Query.Alike.isGuarded_eq {c : Name → Name} {q q' : Query} (hq : q.Alike c q') :
    q.isGuarded = q'.isGuarded := by
  cases hq <;> rfl

theorem Query.Alike.answer_eq {q q' : Query} (hq : q.Alike r.canonical q') : q.answer r = q'.answer r := by
  cases hq with
  | produced same => simp only [Query.answer, Registry.produced?, same]
  | isDependent same same' =>
    simp only [Query.answer, Registry.isDependent, Graph.isDependent, Relation.leadsTo, same, same']
  | hasDisposal same => simp only [Query.answer, Registry.hasDisposal, same]
  | _ same => simp only [Query.answer, same]

theorem Change.Alike.isGuarded_eq {c : Name → Name} {a a' : Change} (ha : a.Alike c a') :
    a.isGuarded = a'.isGuarded := by
  cases ha <;> rfl

theorem Change.Alike.apply_eq {a a' : Change} (ha : a.Alike r.canonical a') : a.apply r = a'.apply r := by
  cases ha with
  | addDependency same same' | addPart same same' => simp only [Change.apply, same, same']
  | _ same => simp only [Change.apply, same]

variable {s : Shared ω}

/-- From alike places a thread takes the same step, or comes to alike places without touching anything. -/
theorem Point.Alike.step {p p' : Point} (hp : p.Alike s.registry.canonical p') (h : Host ω) (id : ThreadId)
    (fs : List (Frame ω)) :
    Thread.stepPoint h id s fs p = Thread.stepPoint h id s fs p' ∨
      ∃ q q', q.Alike s.registry.canonical q' ∧ Thread.stepPoint h id s fs p = some (s, Thread.goto q fs) ∧
        Thread.stepPoint h id s fs p' = some (s, Thread.goto q' fs) := by
  cases hp with
  | start alike =>
    cases alike with
    | query alike => exact .inl (by simp only [Thread.stepPoint, Thread.stepStart, alike.isGuarded_eq, alike.answer_eq])
    | change alike => exact .inl (by simp only [Thread.stepPoint, Thread.stepStart, alike.isGuarded_eq, alike.apply_eq])
    | get same early => exact .inl (by simp only [Thread.stepPoint, Thread.stepStart, same])
    | getOrCreate same create => exact .inl (by simp only [Thread.stepPoint, Thread.stepStart, same])
    | produced same plain plain' shared hooked =>
      exact .inl (by simp only [Thread.stepPoint, Thread.stepStart, Name.unmarked_of_not_asksForProducer plain,
        Name.unmarked_of_not_asksForProducer plain', same, plain, plain'])
    | destroy same => exact .inr ⟨_, _, .destroy same [], rfl, rfl⟩
  | destroy same rest =>
    refine .inl ?_
    simp only [Thread.stepPoint, Task.course, same]
    rfl

end Steps

/-- Whether the step from a moment changes the aliases. -/
def Moment.relinks (h : Host ω) (e : Moment ω) : Bool :=
  (e.state.step h e.mover).any fun m => m.shared.registry.aliases != e.shared.registry.aliases

namespace Machine

/-- The machine with thread `id` at another place, above the frames `fs`. -/
def moved (m : Machine ω) (id : ThreadId) (p : Point) (fs : List (Frame ω)) : Machine ω :=
  ⟨m.shared, m.threads.set id ⟨.point p, fs⟩⟩

/-- Machines that are equal, or that differ in the names thread `id` is about to take in their canonical
form, which is the same one. -/
inductive Twins (id : ThreadId) (fs : List (Frame ω)) : Machine ω → Machine ω → Prop where
  | same (m : Machine ω) : Twins id fs m m
  | apart {m : Machine ω} {p p' : Point} (alike : p.Alike m.shared.registry.canonical p')
      (place : m.threads[id]? = some ⟨.point p, fs⟩) : Twins id fs m (m.moved id p' fs)

variable {h : Host ω} {m m' m₁ : Machine ω} {id j : ThreadId} {fs : List (Frame ω)} {seg : List (Moment ω)}

theorem Twins.shared_eq (ht : Twins id fs m m') : m'.shared = m.shared := by
  cases ht <;> rfl

/-- Twins whose thread has come to a reply are equal. -/
theorem Twins.eq_of_reply (ht : Twins id fs m m') {reply : Reply} {gs : List (Frame ω)}
    (hreply : m.threads[id]? = some ⟨.reply reply, gs⟩) : m' = m := by
  cases ht with
  | same => rfl
  | apart alike place =>
    rw [place] at hreply
    cases hreply

/-- Twins take the same steps and stay twins, as long as only the thread itself changes the aliases. -/
theorem Twins.step (ht : Twins id fs m m') (hs : m.step h j = some m₁)
    (hlinks : j ≠ id → m₁.shared.registry.aliases = m.shared.registry.aliases) :
    ∃ m₁', m'.step h j = some m₁' ∧ Twins id fs m₁ m₁' := by
  cases ht with
  | same => exact ⟨m₁, hs, .same m₁⟩
  | @apart p p' alike place =>
    obtain ⟨t, s₁, t₁, hj, hst, rfl⟩ := step_eq_some_iff.1 hs
    by_cases hid : j = id
    · subst hid
      cases place.symm.trans hj
      have hst : Thread.stepPoint h j m.shared fs p = some (s₁, t₁) := hst
      have hmoved : (m.moved j p' fs).threads[j]? = some ⟨.point p', fs⟩ := threads_set_self place
      rcases alike.step h j fs with heq | ⟨q, q', hq, hp, hp'⟩
      · rw [heq] at hst
        exact ⟨_, step_eq_some_iff.2 ⟨_, s₁, t₁, hmoved, hst, by rw [moved, List.set_set]⟩, .same _⟩
      · rw [hp] at hst
        cases hst
        refine ⟨_, step_eq_some_iff.2 ⟨_, _, _, hmoved, hp', rfl⟩, ?_⟩
        have hplace : (m.threads.set j (Thread.goto q fs))[j]? = some ⟨.point q, fs⟩ := threads_set_self place
        have htwins := Twins.apart (m := ⟨m.shared, m.threads.set j (Thread.goto q fs)⟩) hq hplace
        rwa [moved, List.set_set] at htwins ⊢
    · -- another thread does not see where this one stands
      have hother : (m.moved id p' fs).threads[j]? = some t := by
        rw [moved, List.getElem?_set_ne (Ne.symm hid)]
        exact hj
      refine ⟨_, step_eq_some_iff.2 ⟨t, s₁, t₁, hother, hst, rfl⟩, ?_⟩
      rw [moved, List.set_comm _ _ (Ne.symm hid)]
      refine .apart (m := ⟨s₁, m.threads.set j t₁⟩) (p := p) ?_ ?_
      · have hlinks : s₁.registry.aliases = m.shared.registry.aliases := hlinks hid
        have hcanonical : s₁.registry.canonical = m.shared.registry.canonical := by
          funext n
          simp only [Registry.canonical, hlinks]
        show p.Alike s₁.registry.canonical p'
        rw [hcanonical]
        exact alike
      · rw [List.getElem?_set_ne hid]
        exact place

theorem Twins.run (ht : Twins id fs m m') (hr : Run h m seg m₁)
    (hlinks : ∀ e ∈ seg, e.mover ≠ id → e.relinks h = false) :
    ∃ seg' m₁', Run h m' seg' m₁' ∧ seg'.map (·.mover) = seg.map (·.mover) ∧ Twins id fs m₁ m₁' := by
  induction hr with
  | start => exact ⟨[], m', .start, rfl, ht⟩
  | @step seg m₀ m₁ j hr hs ih =>
    obtain ⟨seg', m₀', hr', hmovers, ht'⟩ := ih fun e he => hlinks e (List.mem_cons_of_mem _ he)
    obtain ⟨m₁', hs', htwins⟩ := ht'.step hs fun hj => by
      have := hlinks ⟨m₀, j⟩ (List.mem_cons_self ..) hj
      rw [Moment.relinks, hs] at this
      simpa [Moment.shared] using this
    exact ⟨⟨m₀', j⟩ :: seg', m₁', .step j hr' hs', by simp only [List.map_cons, hmovers], htwins⟩

/-- Aliases are transparent, in every state of the registry and whatever callbacks do. A request that is given
one name and a request that is given another one with the same canonical form take the same course: whatever
steps the one takes, in turns with other threads that leave the aliases alone, the other one takes too. They
leave the registry, the mutex and the world alike after each of them, and once the one has come to a reply
the other one has come to the same reply, and nothing tells the two machines apart. -/
theorem Run.alias_transparent {r r' : Request} (ht : m.threads[id]? = some ⟨.point (.start r), fs⟩)
    (alike : r.Alike m.shared.registry.canonical r') (hr : Run h m seg m₁)
    (hlinks : ∀ e ∈ seg, e.mover ≠ id → e.relinks h = false) :
    ∃ seg' m₁', Run h (m.moved id (.start r') fs) seg' m₁' ∧ seg'.map (·.mover) = seg.map (·.mover) ∧
      m₁'.shared = m₁.shared ∧
      ∀ (reply : Reply) (gs : List (Frame ω)), m₁.threads[id]? = some ⟨.reply reply, gs⟩ → m₁' = m₁ := by
  have htwins : Twins id fs m (m.moved id (.start r') fs) := .apart (.start alike) ht
  obtain ⟨seg', m₁', hr', hmovers, htwins'⟩ := htwins.run hr hlinks
  exact ⟨seg', m₁', hr', hmovers, htwins'.shared_eq, fun reply gs hreply => htwins'.eq_of_reply hreply⟩

/-- Callbacks that yield an instance. -/
def yieldingHost : Host Unit where
  program _ _ := .yield (some ⟨2, .unit⟩)
  observe _ w := w

/-- The registry in which `b` is an alias of `a`. -/
def oneAlias : Registry := { aliases := { entries := Directory.empty.insert "b" "a" } }

/-- What a caller has waiting for its last request. -/
def renamingFrames : List (Frame Unit) := [.caller fun _ => .finish (.ok .done)]

/-- A caller that registers a producer and a disposal callback under `a` and issues a last request. -/
def renamingCaller (r : Request) : Program Unit :=
  .request (.change (.registerSingleton "a" (some ⟨1, .producer ⟨0, true, none⟩⟩))) fun _ =>
    .request (.change (.registerDisposal "a" 0)) fun _ => .request r fun _ => .finish (.ok .done)

/-- The machine when the last request is about to be looked at. -/
def renamed (r : Request) : Machine Unit :=
  ((ofPrograms oneAlias () [renamingCaller r]).drive yieldingHost (List.replicate 7 0) []).2

theorem thread_renamed (r : Request) : (renamed r).threads[0]? = some ⟨.point (.start r), renamingFrames⟩ := rfl

/-- The destruction of `b`, up to its reply. -/
def renamedRun : List (Moment Unit) × Machine Unit :=
  (renamed (.destroy "b")).drive yieldingHost (List.replicate 9 0) []

/-- The destruction of `a` takes the course of the destruction of `b`, which is an alias of it. -/
theorem alias_transparent_renamedRun :
    renamedRun.2.threads[0]? = some ⟨.reply (.ok .done), renamingFrames⟩ ∧
      ∃ seg, Run yieldingHost ((renamed (.destroy "b")).moved 0 (.start (.destroy "a")) renamingFrames) seg
        renamedRun.2 ∧ seg.map (·.mover) = List.replicate 9 0 := by
  have hreply : renamedRun.2.threads[0]? = some ⟨.reply (.ok .done), renamingFrames⟩ := rfl
  have alike : (Request.destroy "b").Alike (renamed (.destroy "b")).shared.registry.canonical (.destroy "a") :=
    .destroy (by decide)
  obtain ⟨seg, m, hrun, hmovers, -, heq⟩ := Run.alias_transparent (thread_renamed (.destroy "b")) alike
    (Run.drive (h := yieldingHost) (List.replicate 9 0) .start) (by decide)
  refine ⟨hreply, seg, ?_, hmovers⟩
  have hm : m = renamedRun.2 := heq _ _ hreply
  exact hm ▸ hrun

/-- The request for what the producer yields, given `b`, up to its reply. -/
def yieldedRun : List (Moment Unit) × Machine Unit :=
  (renamed (.yielded ⟨0, true, none⟩ "b" true false)).drive yieldingHost (List.replicate 4 0) []

/-- The same request, given `a`, up to its reply. -/
def yieldedByNameRun : List (Moment Unit) × Machine Unit :=
  ((renamed (.yielded ⟨0, true, none⟩ "b" true false)).moved 0 (.start (.yielded ⟨0, true, none⟩ "a" true false))
    renamingFrames).drive yieldingHost (List.replicate 7 0) []

/-- A request for what a given producer yields takes its name as it is. Given an alias of the name that its
producer is registered under, it keeps no object for that name, as the same request given the name does. -/
theorem yielded_by_alias_not_kept :
    ∃ (p : Producer) (m : Machine Unit),
      Reachable yieldingHost (ofPrograms oneAlias () [renamingCaller (.yielded p "b" true false)]) m ∧
        m.threads[0]? = some ⟨.point (.start (.yielded p "b" true false)), renamingFrames⟩ ∧
        m.shared.registry.canonical "b" = m.shared.registry.canonical "a" ∧
        Run yieldingHost m yieldedRun.1 yieldedRun.2 ∧
        yieldedRun.2.threads[0]? = some ⟨.reply (.ok (.value (some ⟨2, .unit⟩))), renamingFrames⟩ ∧
        Run yieldingHost (m.moved 0 (.start (.yielded p "a" true false)) renamingFrames) yieldedByNameRun.1
          yieldedByNameRun.2 ∧
        yieldedByNameRun.2.threads[0]? = some ⟨.reply (.ok (.value (some ⟨2, .unit⟩))), renamingFrames⟩ ∧
        yieldedRun.2.shared.registry.produced? "a" = none ∧
        yieldedByNameRun.2.shared.registry.produced? "a" = some (some ⟨2, .unit⟩) :=
  ⟨⟨0, true, none⟩, renamed (.yielded ⟨0, true, none⟩ "b" true false), (Run.drive _ .start).reachable, rfl, by decide,
    .drive _ .start, rfl, .drive _ .start, rfl, by decide, by decide⟩

end Machine

end Singletons
