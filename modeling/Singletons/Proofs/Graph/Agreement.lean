import Singletons.Proofs.Machine.Alone
import Singletons.Proofs.Machine.Deed
import Singletons.Proofs.Alias.Acyclic
import Singletons.Proofs.Teardown.Closure

/-
The two directions of a dependency along a run. Under a fixed alias map all names in the graph are
canonical, and whatever is recorded to depend on a name is among the dependents of that name, unless a
teardown under way still owes it a purge (`Agreed`).

A purge is lost only with a disposal callback that panics. Threads whose callbacks settle are `Calm`: a
callback runs above everything else and brings no requests with it.
-/

namespace Singletons

variable {ω : Type}

namespace Task

/-- The disposal callback that a task may call. -/
def disposal? : Task → Option Callback
  | dependents _ d => d
  | dispose _ d => some d
  | _ => none

/-- Whether a task, with those that it brings along, ends with the purge of a name. -/
def owes (aliases : Aliases) (n : Name) : Task → Bool
  | destroy k => aliases.canonical k == n
  | dependents k _ | purge k => k == n
  | _ => false

end Task

/-- Whether a disposal callback is about to return, or has returned. -/
def Control.IsSettled : Control ω → Prop
  | .program p => p.Settles
  | .reply (.ok _) | .reply (.failed _) => True
  | _ => False

namespace Thread

/-- The tasks that a thread has yet to do: those of its agenda, and those that wait for a callback. -/
def pending (t : Thread ω) : List Task :=
  match t.control with
  | .point (.agenda tasks) => tasks ++ (teardowns t.frames).flatten
  | _ => (teardowns t.frames).flatten

/-- Whether a thread owes a name its purge. -/
def Owes (aliases : Aliases) (t : Thread ω) (n : Name) : Prop := ∃ task ∈ t.pending, task.owes aliases n = true

/-- Disposal callbacks settle: one that runs is about to return to the innermost frame, and those of the
pending tasks will. -/
structure Calm (h : Host ω) (t : Thread ω) : Prop where
  running : teardowns t.frames = [] ∨ ∃ n d rest fs, t.frames = .disposing n d rest :: fs ∧ teardowns fs = [] ∧
    t.control.IsSettled
  settles : ∀ task ∈ t.pending, ∀ d, task.disposal? = some d → (h.program d .plain).Settles

variable {h : Host ω} {id : ThreadId} {s s' : Shared ω} {t t' : Thread ω} {fs : List (Frame ω)}

theorem pending_of_isOrdinary (ht : t.control.isOrdinary = true) : t.pending = (teardowns t.frames).flatten := by
  unfold pending
  split
  · rename_i heq; rw [heq] at ht; cases ht
  · rfl

theorem pending_of_ne_agenda (ht : ∀ tasks, t.control ≠ .point (.agenda tasks)) :
    t.pending = (teardowns t.frames).flatten := by
  unfold pending
  split
  · rename_i heq; exact absurd heq (ht _)
  · rfl

/-- The callbacks of the tasks that a task brings along come from it or from the table. -/
theorem disposal?_of_course {r r' : Registry} {task new : Task} {tasks : List Task} {events : List Event}
    {d : Callback} (hc : task.course r = .on r' tasks events) (hn : new ∈ tasks) (hd : new.disposal? = some d) :
    task.disposal? = some d ∨ ∃ n, (n, d) ∈ r.disposals.rows := by
  cases task with
  | destroy k =>
    cases hc
    rw [List.mem_singleton.1 hn] at hd
    obtain ⟨l₁, l₂, hrows, -⟩ := List.lookup_eq_some_iff.1 hd
    exact .inr ⟨_, by rw [hrows]; exact List.mem_append.2 (.inr (List.mem_cons_self ..))⟩
  | dependents k disposal =>
    cases hc
    refine .inl ?_
    simp only [List.mem_append, List.mem_map, Option.mem_toList, Option.map_eq_some_iff, List.mem_cons,
      List.not_mem_nil, or_false] at hn
    rcases hn with (⟨_, _, rfl⟩ | ⟨_, rfl, rfl⟩) | (rfl | rfl)
    · cases hd
    · exact hd
    · cases hd
    · cases hd
  | parts k =>
    cases hc
    obtain ⟨_, _, rfl⟩ := List.mem_map.1 hn
    cases hd
  | dispose k d => cases hc
  | purge k => cases hc; cases hn
  | empty => cases hc; cases hn

theorem calm_of_pending_eq (hp : t.pending = (teardowns t.frames).flatten) (hn : teardowns t.frames = []) :
    t.Calm h := by
  refine ⟨.inl hn, fun task ht => ?_⟩
  rw [hp, hn] at ht
  cases ht

/-- A thread that runs no callback stays calm: nothing but the call of one changes that. -/
theorem Calm.step_of_idle (hcalm : t.Calm h) (hnone : teardowns t.frames = [])
    (htable : ∀ row ∈ s.registry.disposals.rows, (h.program row.2 .plain).Settles)
    (hs : t.step h id s = some (s', t')) : t'.Calm h := by
  have hsettles := hcalm.settles
  cases step_deed hs with
  | idle registry before after open_ torn =>
    exact calm_of_pending_eq (pending_of_isOrdinary after) (torn.trans hnone)
  | change c fs admitted registry => exact calm_of_pending_eq rfl hnone
  | close fs admitted registry => exact calm_of_pending_eq rfl hnone
  | plan tasks fs registry origin =>
    have hnone : teardowns fs = [] := hnone
    have hplanned : ∀ task ∈ tasks, task.disposal? = none := by
      rcases origin with ⟨n, -, rfl⟩ | ⟨-, rfl⟩
      · simp [Task.disposal?]
      · intro task ht
        rcases List.mem_append.1 ht with ht | ht
        · obtain ⟨k, -, rfl⟩ := List.mem_map.1 ht; rfl
        · rw [List.mem_singleton.1 ht]; rfl
    refine ⟨.inl hnone, fun task ht d hd => ?_⟩
    rcases List.mem_append.1 ht with ht | ht
    · rw [hplanned task ht] at hd; cases hd
    · rw [hnone] at ht; cases ht
  | task task rest tasks events fs admitted course =>
    refine ⟨.inl hnone, fun new hn d hd => ?_⟩
    rcases List.mem_append.1 hn with hn | hn
    · rcases List.mem_append.1 hn with hn | hn
      · rcases disposal?_of_course course hn hd with hd | ⟨n, hrow⟩
        · exact hsettles task (List.mem_append.2 (.inl (List.mem_cons_self ..))) d hd
        · exact htable _ hrow
      · exact hsettles new (List.mem_append.2 (.inl (List.mem_cons_of_mem _ hn))) d hd
    · exact hsettles new (List.mem_append.2 (.inr hn)) d hd
  | dispose n d rest fs registry =>
    have hp : pending (⟨.program (h.program d .plain), .disposing n d rest :: fs⟩ : Thread ω) =
        rest ++ (teardowns fs).flatten := by
      simp [pending, Frame.teardown?]
    refine ⟨.inr ⟨n, d, rest, fs, rfl, hnone, ?_⟩, fun task ht => ?_⟩
    · exact hsettles (.dispose n d) (List.mem_append.2 (.inl (List.mem_cons_self ..))) d rfl
    · rw [hp] at ht
      refine hsettles task ?_
      rcases List.mem_append.1 ht with ht | ht
      · exact List.mem_append.2 (.inl (List.mem_cons_of_mem _ ht))
      · exact List.mem_append.2 (.inr ht)
  | disposed r n d rest fs registry => simp [Frame.teardown?] at hnone
  | dropped text n d rest fs registry => simp [Frame.teardown?] at hnone
  | ended fs registry => exact calm_of_pending_eq rfl hnone
  | create n c w cache fs incomplete accepting opens registry => exact calm_of_pending_eq rfl hnone
  | created w c a fs registry => exact calm_of_pending_eq rfl hnone
  | abandoned w c r fs failed registry reply =>
    have hfs : t'.frames = fs := by rw [reply]; split <;> rfl
    refine calm_of_pending_eq (pending_of_ne_agenda fun tasks => ?_) (by rw [hfs]; exact hnone)
    rw [reply]
    split <;> rintro ⟨⟩
  | restore n p r fs registry => exact calm_of_pending_eq rfl hnone
  | expose n p a fs registry => exact calm_of_pending_eq rfl hnone
  | keep r f fs produced inHook inner other registry after open_ torn =>
    refine calm_of_pending_eq (pending_of_isOrdinary after) (torn.trans ?_)
    rw [teardowns_cons] at hnone
    exact (List.append_eq_nil_iff.1 hnone).2

theorem pending_disposing {c : Control ω} (n : Name) (d : Callback) (rest : List Task) (fs : List (Frame ω))
    (hc : ∀ tasks, c ≠ .point (.agenda tasks)) :
    pending ⟨c, .disposing n d rest :: fs⟩ = rest ++ (teardowns fs).flatten := by
  rw [pending_of_ne_agenda hc]
  simp [Frame.teardown?]

/-- A thread that runs a callback stays calm: the program of the callback goes on to its end and returns to the
teardown. -/
theorem Calm.step_of_running {c : Control ω} {n : Name} {d : Callback} {rest : List Task}
    (hcalm : Calm h ⟨c, .disposing n d rest :: fs⟩) (hnone : teardowns fs = []) (hc : c.IsSettled)
    (hs : Thread.step h id s ⟨c, .disposing n d rest :: fs⟩ = some (s', t')) : t'.Calm h := by
  have hsettles := hcalm.settles
  have hkeep : ∀ c' : Control ω, c'.IsSettled → (∀ tasks, c' ≠ .point (.agenda tasks)) →
      (∀ tasks, c ≠ .point (.agenda tasks)) → Calm h ⟨c', .disposing n d rest :: fs⟩ := by
    intro c' hs' hc' hc
    refine ⟨.inr ⟨n, d, rest, fs, rfl, hnone, hs'⟩, fun task ht => hsettles task ?_⟩
    rw [pending_disposing n d rest fs hc'] at ht
    rw [pending_disposing n d rest fs hc]
    exact ht
  cases c with
  | point p => cases hc
  | program p =>
    have hs := Option.some.inj hs
    have hp : p.Settles := hc
    cases hp with
    | ok a => cases hs; exact hkeep _ trivial (by rintro _ ⟨⟩) (by rintro _ ⟨⟩)
    | failed f => cases hs; exact hkeep _ trivial (by rintro _ ⟨⟩) (by rintro _ ⟨⟩)
    | access f next settles => cases hs; exact hkeep _ (settles _) (by rintro _ ⟨⟩) (by rintro _ ⟨⟩)
  | reply r =>
    have hback : Calm h (goto (.agenda rest) fs) := by
      refine ⟨.inl hnone, fun task ht => hsettles task ?_⟩
      rw [pending_disposing n d rest fs (by rintro _ ⟨⟩)]
      exact ht
    have hs := Option.some.inj hs
    cases r with
    | ok a => cases hs; exact hback
    | failed f => cases hs; exact hback
    | panicked text => cases hc

/-- A calm thread stays calm, as long as the callbacks of the table settle. -/
theorem Calm.step (hcalm : t.Calm h) (htable : ∀ row ∈ s.registry.disposals.rows, (h.program row.2 .plain).Settles)
    (hs : t.step h id s = some (s', t')) : t'.Calm h := by
  rcases hcalm.running with hnone | ⟨n, d, rest, fs, hfs, hnone, hc⟩
  · exact hcalm.step_of_idle hnone htable hs
  · obtain ⟨c, frames⟩ := t
    cases hfs
    exact hcalm.step_of_running hnone hc hs

theorem Calm.pending_start {r : Request} (hcalm : Calm h ⟨.point (.start r), fs⟩) :
    pending (⟨.point (.start r), fs⟩ : Thread ω) = [] := by
  rcases hcalm.running with hnone | ⟨_, _, _, _, -, -, hc⟩
  · have hnone : teardowns fs = [] := hnone
    simp only [pending, hnone, List.flatten_nil]
  · cases hc

/-! ## What a step does to the graph -/

/-- What a step of a calm thread does to its pending tasks, and how it comes to touch the graph. -/
inductive PendingMove (s s' : Shared ω) (t t' : Thread ω) : Prop where
  /-- At most a disposal is begun or an agenda laid out. -/
  | still (graph : s'.registry.graph = s.registry.graph)
      (kept : ∀ task ∈ t.pending, task ∈ t'.pending ∨ ∃ n d, task = .dispose n d)
      (purges : ∀ n, .purge n ∈ t'.pending → .purge n ∈ t.pending)
  /-- A registry is changed only while nothing is pending. -/
  | change (c : Change) (registry : s'.registry = (c.apply s.registry).registry) (before : t.pending = [])
      (after : t'.pending = [])
  /-- A task is done. -/
  | work (task : Task) (rest tasks : List Task) (events : List Event)
      (course : task.course s.registry = .on s'.registry tasks events) (before : t.pending = task :: rest)
      (after : t'.pending = tasks ++ rest)

theorem PendingMove.of_pending_eq (graph : s'.registry.graph = s.registry.graph) (hp : t'.pending = t.pending) :
    PendingMove s s' t t' :=
  .still graph (fun _ ht => .inl (hp ▸ ht)) fun _ hn => hp ▸ hn

theorem Calm.pendingMove (hcalm : t.Calm h) (hs : t.step h id s = some (s', t')) : PendingMove s s' t t' := by
  cases step_deed hs with
  | idle registry before after open_ torn =>
    obtain ⟨b, hb⟩ := registry
    refine .of_pending_eq (by rw [hb]) ?_
    rw [pending_of_isOrdinary before, pending_of_isOrdinary after, torn]
  | change c fs admitted registry => exact .change c registry hcalm.pending_start hcalm.pending_start
  | close fs admitted registry => exact .of_pending_eq (by rw [registry]) rfl
  | @plan _ p tasks fs registry origin =>
    have hnone : ∀ n, .purge n ∉ tasks := by
      rcases origin with ⟨k, -, rfl⟩ | ⟨-, rfl⟩ <;> simp [Registry.agendaOfAll]
    have hbefore : pending (⟨.point p, fs⟩ : Thread ω) = (teardowns fs).flatten :=
      pending_of_ne_agenda (by rcases origin with ⟨k, rfl, -⟩ | ⟨rfl, -⟩ <;> rintro _ ⟨⟩)
    refine .still (by rw [registry]) (fun task ht => .inl ?_) fun n hn => ?_
    · rw [hbefore] at ht
      exact List.mem_append.2 (.inr ht)
    · rw [hbefore]
      exact (List.mem_append.1 hn).resolve_left (hnone n)
  | task task rest tasks events fs admitted course =>
    exact .work task (rest ++ (teardowns fs).flatten) tasks events course rfl (List.append_assoc ..)
  | dispose n d rest fs registry =>
    have hafter : pending (⟨.program (h.program d .plain), .disposing n d rest :: fs⟩ : Thread ω) =
        rest ++ (teardowns fs).flatten := pending_disposing n d rest fs (by rintro _ ⟨⟩)
    refine .still (by rw [registry]) (fun task ht => ?_) fun k hk => ?_
    · rcases List.mem_cons.1 ht with rfl | ht
      · exact .inr ⟨n, d, rfl⟩
      · exact .inl (hafter ▸ ht)
    · rw [hafter] at hk
      exact List.mem_cons_of_mem _ hk
  | disposed r n d rest fs registry =>
    exact .of_pending_eq (by rw [registry]) (pending_disposing n d rest fs (by rintro _ ⟨⟩)).symm
  | dropped text n d rest fs registry =>
    rcases hcalm.running with hnone | ⟨_, _, _, _, -, -, hc⟩
    · simp [Frame.teardown?] at hnone
    · cases hc
  | ended fs registry => exact .of_pending_eq (by rw [registry]) rfl
  | create n c w cache fs incomplete accepting opens registry => exact .of_pending_eq (by rw [registry]) rfl
  | created w c a fs registry => exact .of_pending_eq (by rw [registry]) rfl
  | abandoned w c r fs failed registry reply =>
    refine .of_pending_eq (by rw [registry]) ?_
    rw [reply]
    split <;> rfl
  | restore n p r fs registry => exact .of_pending_eq (by rw [registry]) rfl
  | expose n p a fs registry => exact .of_pending_eq (by rw [registry]) rfl
  | keep r f fs produced inHook inner other registry after open_ torn =>
    refine .of_pending_eq (by rw [registry]) ?_
    rw [pending_of_isOrdinary after, torn]
    cases f <;> first | rfl | cases inner

/-- What a step of a calm thread does to the graph and to what it owes. -/
inductive GraphMove (s s' : Shared ω) (t t' : Thread ω) : Prop where
  | still (graph : s'.registry.graph = s.registry.graph) (owed : ∀ aliases n, t.Owes aliases n → t'.Owes aliases n)
  /-- It is recorded that `b` depends on `a`, and maybe that `a` is part of `b`. -/
  | record (a b : Name) (canonical : ∃ k l, a = s.registry.canonical k ∧ b = s.registry.canonical l)
      (dependents : ∀ p, p ∈ s'.registry.graph.dependents.pairs ↔ p = (a, b) ∨ p ∈ s.registry.graph.dependents.pairs)
      (dependencies : ∀ p ∈ s'.registry.graph.dependencies.pairs,
        p = (b, a) ∨ p ∈ s.registry.graph.dependencies.pairs)
      (parts : ∀ p ∈ s'.registry.graph.parts.pairs, p = (b, a) ∨ p ∈ s.registry.graph.parts.pairs)
      (owed : ∀ aliases n, t.Owes aliases n → t'.Owes aliases n)
  /-- A task is done. -/
  | work (task : Task) (rest tasks : List Task) (events : List Event)
      (course : task.course s.registry = .on s'.registry tasks events) (before : t.pending = task :: rest)
      (after : t'.pending = tasks ++ rest)

theorem Owes.congr {aliases : Aliases} {n : Name} (h : t'.pending = t.pending) (ho : t.Owes aliases n) :
    t'.Owes aliases n := by
  unfold Owes
  rw [h]
  exact ho

end Thread

namespace Graph

theorem mem_addDependency {g : Graph} {a b : Name} {p : Name × Name} :
    (p ∈ (g.addDependency a b).value.dependents.pairs ↔ p = (a, b) ∨ p ∈ g.dependents.pairs) ∧
      (p ∈ (g.addDependency a b).value.dependencies.pairs → p = (b, a) ∨ p ∈ g.dependencies.pairs) ∧
      (g.addDependency a b).value.parts = g.parts := by
  unfold addDependency
  split
  · rename_i hholds
    have hab := (Relation.holds_iff ..).1 hholds
    refine ⟨⟨.inr, ?_⟩, .inr, rfl⟩
    rintro (rfl | hp)
    · exact hab
    · exact hp
  · exact ⟨Relation.mem_pairs_add .., (Relation.mem_pairs_add ..).1, rfl⟩

/-- A part is recorded, or was recorded before. -/
theorem addPart_eq (g : Graph) (whole part : Name) :
    (g.addPart whole part).value = g ∨
      (g.addPart whole part).value = ({ g with parts := g.parts.add whole part }.addDependency part whole).value := by
  unfold addPart
  split
  · exact .inl rfl
  · exact .inr rfl

end Graph

namespace Thread

variable {h : Host ω} {id : ThreadId} {s s' : Shared ω} {t t' : Thread ω} {fs : List (Frame ω)}

theorem graphMove_change {c : Change} {t t' : Thread ω} (registry : s'.registry = (c.apply s.registry).registry)
    (hp : t'.pending = t.pending) : GraphMove s s' t t' := by
  have howed : ∀ aliases n, t.Owes aliases n → t'.Owes aliases n := fun _ _ => Owes.congr hp
  cases c with
  | addDependency k l =>
    have hg : s'.registry.graph =
        (s.registry.graph.addDependency (s.registry.canonical k) (s.registry.canonical l)).value := by
      rw [registry]; rfl
    refine .record _ _ ⟨k, l, rfl, rfl⟩ (fun p => ?_) (fun p hp => ?_) (fun p hp => ?_) howed
    · rw [hg]; exact Graph.mem_addDependency.1
    · rw [hg] at hp; exact Graph.mem_addDependency.2.1 hp
    · rw [hg, (Graph.mem_addDependency (p := p)).2.2] at hp; exact .inr hp
  | addPart k l =>
    have hg : s'.registry.graph =
        (s.registry.graph.addPart (s.registry.canonical k) (s.registry.canonical l)).value := by
      rw [registry]; rfl
    rcases s.registry.graph.addPart_eq (s.registry.canonical k) (s.registry.canonical l) with heq | heq
    · exact .still (hg.trans heq) howed
    · rw [heq] at hg
      let g : Graph :=
        { s.registry.graph with
          parts := s.registry.graph.parts.add (s.registry.canonical k) (s.registry.canonical l) }
      refine .record _ _ ⟨l, k, rfl, rfl⟩ (fun p => ?_) (fun p hp => ?_) (fun p hp => ?_) howed
      · rw [hg]; exact (Graph.mem_addDependency (g := g)).1
      · rw [hg] at hp; exact (Graph.mem_addDependency (g := g)).2.1 hp
      · rw [hg, (Graph.mem_addDependency (p := p)).2.2] at hp
        exact (Relation.mem_pairs_add ..).1 hp
  | registerAlias n a => refine .still ?_ howed; rw [registry]; simp only [Change.apply]; split <;> rfl
  | removeAlias a => refine .still ?_ howed; rw [registry]; simp only [Change.apply]; split <;> rfl
  | resolveAliases f => refine .still ?_ howed; rw [registry]; simp only [Change.apply]; split <;> rfl
  | registerSingleton n v => refine .still ?_ howed; rw [registry]; simp only [Change.apply]; split <;> rfl
  | _ => exact .still (by rw [registry]; rfl) howed

theorem Calm.graphMove (hcalm : t.Calm h) (hs : t.step h id s = some (s', t')) : GraphMove s s' t t' := by
  cases hcalm.pendingMove hs with
  | still graph kept purges =>
    refine .still graph ?_
    rintro aliases n ⟨task, ht, howes⟩
    rcases kept task ht with ht | ⟨k, d, rfl⟩
    · exact ⟨task, ht, howes⟩
    · cases howes
  | change c registry before after => exact graphMove_change registry (after.trans before.symm)
  | work task rest tasks events course before after => exact .work task rest tasks events course before after

end Thread

namespace Graph

/-- Whether a pair is recorded in one of the relations of a graph. -/
def Records (g : Graph) (p : Name × Name) : Prop :=
  p ∈ g.dependents.pairs ∨ p ∈ g.dependencies.pairs ∨ p ∈ g.parts.pairs

end Graph

namespace Task

variable {aliases : Aliases} {r r' : Registry} {task : Task} {tasks : List Task} {events : List Event} {a b : Name}

theorem records_of_course (hc : task.course r = .on r' tasks events) {p : Name × Name} (hp : r'.graph.Records p) :
    r.graph.Records p := by
  cases task with
  | destroy k => cases hc; exact hp
  | dependents k d =>
    cases hc
    rcases hp with hp | hp | hp
    · exact .inl ((Relation.mem_pairs_dropFrom ..).1 hp).1
    · exact .inr (.inl hp)
    · exact .inr (.inr hp)
  | dispose k d => cases hc
  | parts k =>
    cases hc
    rcases hp with hp | hp | hp
    · exact .inl hp
    · exact .inr (.inl hp)
    · exact .inr (.inr ((Relation.mem_pairs_dropFrom ..).1 hp).1)
  | purge k =>
    cases hc
    rcases hp with hp | hp | hp
    · exact .inl ((Relation.mem_pairs_dropInto ..).1 hp).1
    · exact .inr (.inl ((Relation.mem_pairs_dropFrom ..).1 hp).1)
    · exact .inr (.inr ((Relation.mem_pairs_dropInto ..).1 hp).1)
  | empty => cases hc; rcases hp with hp | hp | hp <;> cases hp

theorem dependencies_of_course (hc : task.course r = .on r' tasks events) {p : Name × Name}
    (hp : p ∈ r'.graph.dependencies.pairs) : p ∈ r.graph.dependencies.pairs := by
  cases task with
  | purge k => cases hc; exact ((Relation.mem_pairs_dropFrom ..).1 hp).1
  | dispose k d => cases hc
  | empty => cases hc; cases hp
  | _ => cases hc; exact hp

/-- A task that takes the record of a dependent away owes the dependent its purge, and pays what it owes. -/
theorem owed_of_course (hc : task.course r = .on r' tasks events) (haliases : r.aliases = aliases)
    (hb : aliases.canonical b = b) (hbefore : (a, b) ∈ r.graph.dependents.pairs ∨ task.owes aliases b = true)
    (hba : (b, a) ∈ r'.graph.dependencies.pairs) :
    (a, b) ∈ r'.graph.dependents.pairs ∨ ∃ new ∈ tasks, new.owes aliases b = true := by
  cases task with
  | destroy k =>
    cases hc
    rcases hbefore with h | h
    · exact .inl h
    · refine .inr ⟨_, List.mem_cons_self .., ?_⟩
      rw [← haliases] at h
      exact h
  | dependents k d =>
    cases hc
    rcases hbefore with h | h
    · by_cases hak : a = k
      · subst hak
        refine .inr ⟨.destroy b, ?_, by simp [owes, hb]⟩
        refine List.mem_append.2 (.inl (List.mem_append.2 (.inl (List.mem_map.2 ⟨b, ?_, rfl⟩))))
        exact (Relation.mem_images ..).2 h
      · exact .inl ((Relation.mem_pairs_dropFrom ..).2 ⟨h, hak⟩)
    · exact .inr ⟨.purge k, by simp, h⟩
  | dispose k d => cases hc
  | parts k =>
    cases hc
    rcases hbefore with h | h
    · exact .inl h
    · cases h
  | purge k =>
    cases hc
    have hbk : b ≠ k := ((Relation.mem_pairs_dropFrom ..).1 hba).2
    rcases hbefore with h | h
    · exact .inl ((Relation.mem_pairs_dropInto ..).2 ⟨h, hbk⟩)
    · simp only [owes, beq_iff_eq] at h
      exact absurd h.symm hbk
  | empty => cases hc; cases hba

end Task

namespace Machine

/-- Whether a thread owes a name its purge. -/
def Owes (aliases : Aliases) (m : Machine ω) (n : Name) : Prop :=
  ∃ (id : ThreadId) (t : Thread ω), m.threads[id]? = some t ∧ t.Owes aliases n

/-- Names in the graph are canonical, and what depends on a name is among its dependents or is owed its
purge. -/
structure Agreed (aliases : Aliases) (m : Machine ω) : Prop where
  canonical : ∀ p, m.shared.registry.graph.Records p → aliases.canonical p.1 = p.1 ∧ aliases.canonical p.2 = p.2
  agreed : ∀ a b, (b, a) ∈ m.shared.registry.graph.dependencies.pairs →
    (a, b) ∈ m.shared.registry.graph.dependents.pairs ∨ m.Owes aliases b

variable {h : Host ω} {aliases : Aliases} {m m' : Machine ω} {id : ThreadId} {t t' : Thread ω} {s' : Shared ω}
  {b : Name}

theorem owes_of_mover (ht : m.threads[id]? = some t) (ho : t'.Owes aliases b) :
    Owes aliases (⟨s', m.threads.set id t'⟩ : Machine ω) b :=
  ⟨id, t', threads_set_self ht, ho⟩

/-- What the others owe, they still owe after a step. -/
theorem Owes.cases (hm : m.Owes aliases b) (ht : m.threads[id]? = some t) :
    t.Owes aliases b ∨ ∀ s' t', Owes aliases (⟨s', m.threads.set id t'⟩ : Machine ω) b := by
  obtain ⟨j, u, hu, ho⟩ := hm
  by_cases hj : j = id
  · subst hj
    cases ht.symm.trans hu
    exact .inl ho
  · exact .inr fun s' t' => ⟨j, u, by rw [List.getElem?_set_ne (Ne.symm hj)]; exact hu, ho⟩

theorem Owes.step (hm : m.Owes aliases b) (ht : m.threads[id]? = some t)
    (howed : t.Owes aliases b → t'.Owes aliases b) : Owes aliases (⟨s', m.threads.set id t'⟩ : Machine ω) b := by
  rcases hm.cases ht with ho | hothers
  · exact owes_of_mover ht (howed ho)
  · exact hothers s' t'

theorem Agreed.step (hm : m.Agreed aliases) (hacyclic : Aliases.Acyclic aliases.entries)
    (haliases : m.shared.registry.aliases = aliases) (hcalm : ∀ t ∈ m.threads, t.Calm h)
    (hs : m.step h id = some m') : m'.Agreed aliases := by
  obtain ⟨t, s', t', ht, hst, rfl⟩ := step_eq_some_iff.1 hs
  have hmove := (hcalm t (List.mem_of_getElem? ht)).graphMove hst
  cases hmove with
  | still graph owed =>
    refine ⟨fun p hp => hm.canonical p (graph ▸ hp), fun a b hba => ?_⟩
    have hba : (b, a) ∈ s'.registry.graph.dependencies.pairs := hba
    show (a, b) ∈ s'.registry.graph.dependents.pairs ∨ _
    rw [graph] at hba ⊢
    exact (hm.agreed a b hba).imp_right fun ho => ho.step ht (owed aliases b)
  | record k l canonical dependents dependencies parts owed =>
    obtain ⟨x, y, rfl, rfl⟩ := canonical
    have hfixed : ∀ x, aliases.canonical (m.shared.registry.canonical x) = m.shared.registry.canonical x := by
      intro x
      unfold Registry.canonical
      rw [haliases]
      exact hacyclic.canonical_canonical x
    constructor
    · rintro p (hp | hp | hp)
      · rcases (dependents p).1 hp with rfl | hp
        · exact ⟨hfixed x, hfixed y⟩
        · exact hm.canonical p (.inl hp)
      · rcases dependencies p hp with rfl | hp
        · exact ⟨hfixed y, hfixed x⟩
        · exact hm.canonical p (.inr (.inl hp))
      · rcases parts p hp with rfl | hp
        · exact ⟨hfixed y, hfixed x⟩
        · exact hm.canonical p (.inr (.inr hp))
    · intro a b hba
      rcases dependencies (b, a) hba with heq | hba
      · cases heq
        exact .inl ((dependents _).2 (.inl rfl))
      · exact (hm.agreed a b hba).imp (fun hab => (dependents _).2 (.inr hab)) fun ho => ho.step ht (owed aliases b)
  | work task rest tasks events course before after =>
    refine ⟨fun p hp => hm.canonical p (Task.records_of_course course hp), fun a b hba => ?_⟩
    have hold := Task.dependencies_of_course course hba
    have hb : aliases.canonical b = b := (hm.canonical (b, a) (.inr (.inl hold))).1
    -- the record is still there, or the tasks brought along come to the purge
    have hpaid : (a, b) ∈ m.shared.registry.graph.dependents.pairs ∨ task.owes aliases b = true →
        (a, b) ∈ s'.registry.graph.dependents.pairs ∨ Owes aliases (⟨s', m.threads.set id t'⟩ : Machine ω) b := by
      intro hbefore
      refine (Task.owed_of_course course haliases hb hbefore hba).imp_right ?_
      rintro ⟨new, hn, ho⟩
      exact owes_of_mover ht ⟨new, by rw [after]; exact List.mem_append.2 (.inl hn), ho⟩
    rcases hm.agreed a b hold with hab | ho
    · exact hpaid (.inl hab)
    · rcases ho.cases ht with ⟨owing, hin, ho⟩ | hothers
      · rw [before] at hin
        rcases List.mem_cons.1 hin with rfl | hin
        · exact hpaid (.inr ho)
        · exact .inr (owes_of_mover ht ⟨owing, by rw [after]; exact List.mem_append.2 (.inr hin), ho⟩)
      · exact .inr (hothers s' t')

theorem Agreed.canonical_of_leads (hm : m.Agreed aliases) (haliases : m.shared.registry.aliases = aliases) {a : Name}
    (hab : m.shared.registry.graph.Leads a b) : m.shared.registry.canonical b = b := by
  unfold Registry.canonical
  rw [haliases]
  rcases hab with hab | hab
  · exact (hm.canonical (a, b) (.inl hab)).2
  · exact (hm.canonical (a, b) (.inr (.inr hab))).2

/-- As long as nobody is amid a teardown, what depends on a name is among its dependents. -/
theorem Agreed.dependents_of_idle (hm : m.Agreed aliases)
    (hidle : ∀ (j : ThreadId) (u : Thread ω), m.threads[j]? = some u → u.pending = []) {a : Name}
    (hba : (b, a) ∈ m.shared.registry.graph.dependencies.pairs) :
    (a, b) ∈ m.shared.registry.graph.dependents.pairs := by
  rcases hm.agreed a b hba with hab | ⟨j, u, hu, task, htask, -⟩
  · exact hab
  · rw [hidle j u hu] at htask
    cases htask

/-- Under a fixed alias map, with disposal callbacks that settle, the directions of a graph agree that was
recorded from the empty one. -/
theorem Run.agreed {r : Registry} {w : ω} {programs : List (Program ω)} {past : List (Moment ω)}
    (halias : r.aliases.Reached) (hgraph : r.graph = .empty) (hr : Run h (ofPrograms r w programs) past m)
    (hfixed : ∀ e ∈ past, e.shared.registry.aliases = r.aliases)
    (hsettle : ∀ e ∈ past, ∀ row ∈ e.shared.registry.disposals.rows, (h.program row.2 .plain).Settles) :
    (∀ t ∈ m.threads, t.Calm h) ∧ m.Agreed r.aliases := by
  refine hr.invariant (fun m => (∀ t ∈ m.threads, t.Calm h) ∧ m.Agreed r.aliases) ⟨?_, ?_⟩ ?_
  · intro t ht
    obtain ⟨p, -, rfl⟩ := List.mem_map.1 ht
    exact ⟨.inl rfl, fun task htask => by cases htask⟩
  · have hshared : (ofPrograms r w programs).shared.registry.graph = .empty := hgraph
    constructor
    · intro p hp
      rw [hshared] at hp
      rcases hp with hp | hp | hp <;> cases hp
    · intro a b hba
      rw [hshared] at hba
      cases hba
  · rintro e he m' ⟨hcalm, hagreed⟩ hs
    refine ⟨fun u hu => ?_, hagreed.step halias.acyclic (hfixed e he) hcalm hs⟩
    obtain ⟨t, s', t', ht, hst, rfl⟩ := step_eq_some_iff.1 hs
    rcases List.mem_or_eq_of_mem_set hu with hu | rfl
    · exact hcalm u hu
    · exact (hcalm t (List.mem_of_getElem? ht)).step (hsettle e he) hst

end Machine

end Singletons
