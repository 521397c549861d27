import Singletons.Proofs.Graph.Agreement
import Singletons.Proofs.Teardown.Crossing

/-
The two directions of a dependency, and parts as dependencies. Outside teardowns a name is a dependent of another
exactly if the other is among its dependencies, and whoever contains a name is among its dependents.

A teardown breaks all this on its way. It takes the dependents of a name out of the graph while their own records
stay until they are purged (`Agreed`), and it purges a name from the dependents of its parts, whose record must be
gone by then: the parts of a name are taken out before its purge (`Tended`). A registration between the two would
be lost, so the second half holds as long as a teardown goes on without others in between (`InTurn`).
-/

namespace Singletons

variable {ω : Type}

namespace Graph

variable {g : Graph}

/-- Whoever is recorded as a dependent has recorded what it depends on. -/
def Mirrored (g : Graph) : Prop := ∀ a b, (a, b) ∈ g.dependents.pairs → (b, a) ∈ g.dependencies.pairs

/-- Whoever contains a part is recorded as a dependent of it. -/
def Encloses (g : Graph) : Prop := ∀ a b, (a, b) ∈ g.parts.pairs → (b, a) ∈ g.dependents.pairs

theorem Mirrored.addDependency (hg : g.Mirrored) (n d : Name) : (g.addDependency n d).value.Mirrored := by
  unfold Graph.addDependency
  split
  · exact hg
  · intro a b hab
    rcases (Relation.mem_pairs_add ..).1 hab with heq | hab
    · cases heq
      exact (Relation.mem_pairs_add ..).2 (.inl rfl)
    · exact (Relation.mem_pairs_add ..).2 (.inr (hg a b hab))

theorem Mirrored.addPart (hg : g.Mirrored) (whole part : Name) : (g.addPart whole part).value.Mirrored := by
  rcases g.addPart_eq whole part with heq | heq <;> rw [heq]
  · exact hg
  · have hwith : ({ g with parts := g.parts.add whole part } : Graph).Mirrored := hg
    exact hwith.addDependency part whole

theorem Encloses.addDependency (hg : g.Encloses) (n d : Name) : (g.addDependency n d).value.Encloses := by
  intro a b hab
  rw [(mem_addDependency (p := (a, b))).2.2] at hab
  exact mem_addDependency.1.2 (.inr (hg a b hab))

/-- A part is recorded together with the dependency of its whole. -/
theorem Encloses.addPart (hg : g.Encloses) (whole part : Name) : (g.addPart whole part).value.Encloses := by
  rcases g.addPart_eq whole part with heq | heq <;> rw [heq]
  · exact hg
  · intro a b hab
    rw [(mem_addDependency (p := (a, b))).2.2] at hab
    rcases (Relation.mem_pairs_add ..).1 hab with hnew | hab
    · cases hnew
      exact mem_addDependency.1.2 (.inl rfl)
    · exact mem_addDependency.1.2 (.inr (hg a b hab))

end Graph

/-- What holds of a graph after every registration, and was so before, holds after every change. -/
theorem Change.graph_of_apply {P : Graph → Prop} {r : Registry} (hsame : P r.graph)
    (hdependency : ∀ n d, P (r.graph.addDependency n d).value) (hpart : ∀ n k, P (r.graph.addPart n k).value)
    (c : Change) : P (c.apply r).registry.graph := by
  cases c with
  | addDependency n d => exact hdependency _ _
  | addPart n k => exact hpart _ _
  | registerAlias n a => simp only [Change.apply]; split <;> exact hsame
  | removeAlias a => simp only [Change.apply]; split <;> exact hsame
  | resolveAliases f => simp only [Change.apply]; split <;> exact hsame
  | registerSingleton n v => simp only [Change.apply]; split <;> exact hsame
  | _ => exact hsame

namespace Task

variable {r r' : Registry} {task : Task} {tasks : List Task} {events : List Event}

/-- Whether a task takes the parts of a name out of the graph, or brings a task along that does. -/
def takesParts (aliases : Aliases) (n : Name) : Task → Bool
  | destroy k => aliases.canonical k == n
  | dependents k _ | parts k => k == n
  | _ => false

/-- Every task leaves the dependents mirrored: a purge takes both records of a dependency. -/
theorem mirrored_of_course (hc : task.course r = .on r' tasks events) (hg : r.graph.Mirrored) : r'.graph.Mirrored := by
  cases task with
  | destroy k => cases hc; exact hg
  | dependents k d => cases hc; exact fun a b hab => hg a b ((Relation.mem_pairs_dropFrom ..).1 hab).1
  | dispose k d => cases hc
  | parts k => cases hc; exact hg
  | purge k =>
    cases hc
    intro a b hab
    obtain ⟨hab, hbk⟩ := (Relation.mem_pairs_dropInto ..).1 hab
    exact (Relation.mem_pairs_dropFrom ..).2 ⟨hg a b hab, hbk⟩
  | empty => cases hc; rintro a b ⟨⟩

end Task

/-- Whether some task is to take the parts of a name out of the graph. -/
def Takes (aliases : Aliases) (tasks : List Task) (n : Name) : Prop := ∃ task ∈ tasks, task.takesParts aliases n = true

/-- How parts stand amid a teardown with some tasks to do: whoever contains a part is among the dependents of the
part or is to lose its parts, and a name that is to be purged has lost its parts or is to lose them. -/
structure Tended (aliases : Aliases) (g : Graph) (tasks : List Task) : Prop where
  enclosed : ∀ a b, (a, b) ∈ g.parts.pairs → (b, a) ∈ g.dependents.pairs ∨ Takes aliases tasks a
  purged : ∀ n, .purge n ∈ tasks → (∀ b, (n, b) ∉ g.parts.pairs) ∨ Takes aliases tasks n

namespace Tended

variable {aliases : Aliases} {g g' : Graph} {tasks tasks' rest : List Task} {n : Name} {r r' : Registry} {task : Task}
  {events : List Event}

theorem of_encloses (hg : g.Encloses) : Tended aliases g [] := ⟨fun a b hab => .inl (hg a b hab), by simp⟩

theorem encloses (ht : Tended aliases g []) : g.Encloses := fun a b hab =>
  (ht.enclosed a b hab).resolve_right (by simp [Takes])

theorem congr (ht : Tended aliases g tasks) (h : ∀ task, task ∈ tasks ↔ task ∈ tasks') : Tended aliases g tasks' := by
  have htakes : ∀ n, Takes aliases tasks n ↔ Takes aliases tasks' n := fun n => by simp only [Takes, h]
  exact ⟨fun a b hab => (ht.enclosed a b hab).imp_right (htakes a).1,
    fun n hn => (ht.purged n ((h _).2 hn)).imp_right (htakes n).1⟩

/-- Parts stay tended if those who were to lose their parts lose them or still are to, and so for the others that
are no dependents of their parts any more. -/
theorem of_le (ht : Tended aliases g tasks) (hparts : ∀ p ∈ g'.parts.pairs, p ∈ g.parts.pairs)
    (hdependents : ∀ a b, (a, b) ∈ g'.parts.pairs → (b, a) ∈ g.dependents.pairs →
      (b, a) ∈ g'.dependents.pairs ∨ Takes aliases tasks' a)
    (htakes : ∀ n, Takes aliases tasks n → (∀ b, (n, b) ∉ g'.parts.pairs) ∨ Takes aliases tasks' n)
    (hpurges : ∀ n, .purge n ∈ tasks' → .purge n ∈ tasks ∨ Takes aliases tasks' n) : Tended aliases g' tasks' where
  enclosed a b hab := by
    rcases ht.enclosed a b (hparts _ hab) with hba | hta
    · exact hdependents a b hab hba
    · exact .inr ((htakes a hta).resolve_left fun hnone => hnone b hab)
  purged n hn := by
    rcases hpurges n hn with hn | htn
    · rcases ht.purged n hn with hnone | htn
      · exact .inl fun b hb => hnone b (hparts _ hb)
      · exact htakes n htn
    · exact .inr htn

theorem takes_cons : Takes aliases (task :: rest) n ↔ task.takesParts aliases n = true ∨ Takes aliases rest n := by
  simp [Takes]

theorem takes_append : Takes aliases (tasks ++ rest) n ↔ Takes aliases tasks n ∨ Takes aliases rest n := by
  simp only [Takes, List.mem_append, or_and_right, exists_or]

/-- A task that is done leaves parts tended. -/
theorem course (ht : Tended aliases r.graph (task :: rest)) (hc : task.course r = .on r' tasks events)
    (haliases : r.aliases = aliases) (hcanon : ∀ a b, (a, b) ∈ r.graph.dependents.pairs → aliases.canonical b = b) :
    Tended aliases r'.graph (tasks ++ rest) := by
  cases task with
  | destroy k =>
    cases hc
    refine ht.of_le (fun _ hp => hp) (fun _ _ _ hba => .inl hba) (fun n hn => .inr ?_) fun n hn => .inl ?_
    · rcases takes_cons.1 hn with hn | hn
      · exact takes_append.2 (.inl (takes_cons.2 (.inl (by rw [← haliases] at hn; exact hn))))
      · exact takes_append.2 (.inr hn)
    · simpa using hn
  | dependents k d =>
    cases hc
    have hk : Takes aliases (((r.graph.takeDependents k).1.map Task.destroy ++ (d.map (Task.dispose k)).toList ++
        [.parts k, .purge k]) ++ rest) k := ⟨.parts k, by simp, by simp [Task.takesParts]⟩
    refine ht.of_le (fun _ hp => hp) (fun a b hab hba => ?_) (fun n hn => .inr ?_) fun n hn => ?_
    · by_cases hbk : b = k
      · -- the whole is about to be destroyed itself
        subst hbk
        refine .inr ⟨.destroy a, ?_, by simp [Task.takesParts, hcanon b a hba]⟩
        have hmem : a ∈ r.graph.dependentsOf b := (Relation.mem_images ..).2 hba
        simp [hmem]
      · exact .inl ((Relation.mem_pairs_dropFrom ..).2 ⟨hba, hbk⟩)
    · rcases takes_cons.1 hn with hn | hn
      · obtain rfl : k = n := by simpa [Task.takesParts] using hn
        exact hk
      · exact takes_append.2 (.inr hn)
    · simp only [List.mem_append, List.mem_map, reduceCtorEq, and_false, exists_false, Option.mem_toList,
        Option.map_eq_some_iff, List.mem_cons, Task.purge.injEq, List.not_mem_nil, or_false, false_or] at hn
      rcases hn with rfl | hn
      · exact .inr hk
      · exact .inl (List.mem_cons_of_mem _ hn)
  | dispose k d => cases hc
  | parts k =>
    cases hc
    refine ht.of_le (fun p hp => ((Relation.mem_pairs_dropFrom ..).1 hp).1) (fun _ _ _ hba => .inl hba)
      (fun n hn => ?_) fun n hn => .inl ?_
    · rcases takes_cons.1 hn with hn | hn
      · obtain rfl : k = n := by simpa [Task.takesParts] using hn
        exact .inl fun b hb => ((Relation.mem_pairs_dropFrom ..).1 hb).2 rfl
      · exact .inr (takes_append.2 (.inr hn))
    · simpa using hn
  | purge k =>
    cases hc
    have hrest : ∀ n, Takes aliases (.purge k :: rest) n → Takes aliases rest n := fun n hn =>
      (takes_cons.1 hn).resolve_left (by simp [Task.takesParts])
    refine ht.of_le (fun p hp => ((Relation.mem_pairs_dropInto ..).1 hp).1) (fun a b hab hba => ?_)
      (fun n hn => .inr (hrest n hn)) fun n hn => .inl (List.mem_cons_of_mem _ hn)
    by_cases hak : a = k
    · -- the name has lost its parts by now, or is to lose them
      subst hak
      rcases ht.purged a (List.mem_cons_self ..) with hnone | hta
      · exact absurd ((Relation.mem_pairs_dropInto ..).1 hab).1 (hnone b)
      · exact .inr (hrest a hta)
    · exact .inl ((Relation.mem_pairs_dropInto ..).2 ⟨hba, hak⟩)
  | empty =>
    cases hc
    exact ⟨by rintro a b ⟨⟩, fun n _ => .inl (by rintro b ⟨⟩)⟩

variable {s s' : Shared ω} {t t' : Thread ω}

/-- A step of a calm thread leaves parts tended, given what the thread has yet to do. -/
theorem move (ht : Tended aliases s.registry.graph t.pending) (hmove : Thread.PendingMove s s' t t')
    (haliases : s.registry.aliases = aliases)
    (hcanon : ∀ a b, (a, b) ∈ s.registry.graph.dependents.pairs → aliases.canonical b = b) :
    Tended aliases s'.registry.graph t'.pending := by
  cases hmove with
  | still graph kept purges =>
    rw [graph]
    refine ht.of_le (fun _ hp => hp) (fun _ _ _ hba => .inl hba) ?_ fun n hn => .inl (purges n hn)
    rintro n ⟨task, htask, htakes⟩
    rcases kept task htask with htask | ⟨k, d, rfl⟩
    · exact .inr ⟨task, htask, htakes⟩
    · cases htakes
  | change c registry before after =>
    rw [before] at ht
    rw [after, registry]
    exact of_encloses (c.graph_of_apply ht.encloses ht.encloses.addDependency ht.encloses.addPart)
  | work task rest tasks events course before after =>
    rw [before] at ht
    rw [after]
    exact ht.course course haliases hcanon

end Tended

namespace Machine

variable {h : Host ω} {aliases : Aliases} {m m' : Machine ω} {id : ThreadId} {t : Thread ω} {past : List (Moment ω)}

/-- The tasks that threads have yet to do. -/
def pending (m : Machine ω) : List Task := m.threads.flatMap (·.pending)

/-- Whether nobody took a step while another thread was amid a teardown. -/
def InTurn (past : List (Moment ω)) : Prop :=
  ∀ e ∈ past, ∀ (j : ThreadId) (u : Thread ω), e.state.threads[j]? = some u → u.pending ≠ [] → j = e.mover

theorem Run.length_threads {start : Machine ω} (hr : Run h start past m) :
    m.threads.length = start.threads.length := by
  induction hr with
  | start => rfl
  | step id hr hs ih =>
    obtain ⟨t, s', t', -, -, rfl⟩ := step_eq_some_iff.1 hs
    rw [← ih, List.length_set]

/-- A thread that is the only one works in turn. -/
theorem Run.inTurn_of_length {start : Machine ω} (hr : Run h start past m) (hone : start.threads.length = 1) :
    InTurn past := by
  intro e he j u hu _
  obtain ⟨later, earlier, rfl⟩ := List.append_of_mem he
  obtain ⟨next, hr, hs, -⟩ := hr.cut_at
  obtain ⟨t, s', t', ht, -, -⟩ := step_eq_some_iff.1 hs
  have hzero : ∀ {k : ThreadId} {v : Thread ω}, e.state.threads[k]? = some v → k = 0 := fun hk => by
    have hlt := (List.getElem?_eq_some_iff.1 hk).1
    rw [hr.length_threads, hone] at hlt
    exact Nat.lt_one_iff.1 hlt
  rw [hzero hu, hzero ht]

theorem mem_pending_iff (ht : m.threads[id]? = some t)
    (hothers : ∀ (j : ThreadId) (u : Thread ω), m.threads[j]? = some u → u.pending ≠ [] → j = id) {task : Task} :
    task ∈ t.pending ↔ task ∈ m.pending := by
  unfold pending
  rw [List.mem_flatMap]
  constructor
  · exact fun htask => ⟨t, List.mem_of_getElem? ht, htask⟩
  · rintro ⟨u, hu, htask⟩
    obtain ⟨j, hj⟩ := List.mem_iff_getElem?.1 hu
    obtain rfl := hothers j u hj (List.ne_nil_of_mem htask)
    cases ht.symm.trans hj
    exact htask

theorem mirrored_step (hcalm : ∀ t ∈ m.threads, t.Calm h) (hm : m.shared.registry.graph.Mirrored)
    (hs : m.step h id = some m') : m'.shared.registry.graph.Mirrored := by
  obtain ⟨t, s', t', ht, hst, rfl⟩ := step_eq_some_iff.1 hs
  show s'.registry.graph.Mirrored
  cases (hcalm t (List.mem_of_getElem? ht)).pendingMove hst with
  | still graph kept purges => exact graph ▸ hm
  | change c registry before after =>
    rw [registry]
    exact c.graph_of_apply hm hm.addDependency hm.addPart
  | work task rest tasks events course before after => exact Task.mirrored_of_course course hm

theorem tended_step (hcalm : ∀ t ∈ m.threads, t.Calm h) (hagreed : m.Agreed aliases)
    (haliases : m.shared.registry.aliases = aliases)
    (hothers : ∀ (j : ThreadId) (u : Thread ω), m.threads[j]? = some u → u.pending ≠ [] → j = id)
    (hm : Tended aliases m.shared.registry.graph m.pending) (hs : m.step h id = some m') :
    Tended aliases m'.shared.registry.graph m'.pending := by
  obtain ⟨t, s', t', ht, hst, rfl⟩ := step_eq_some_iff.1 hs
  -- all that is pending is pending on the thread that moves, before the step and after it
  have hafter : ∀ (j : ThreadId) (u : Thread ω), (m.threads.set id t')[j]? = some u → u.pending ≠ [] → j = id := by
    intro j u hu hne
    rcases threads_set ht hu with ⟨hj, -⟩ | ⟨-, hu⟩
    · exact hj
    · exact hothers j u hu hne
  have hmover := hm.congr fun _ => (mem_pending_iff ht hothers).symm
  have hmoved := hmover.move ((hcalm t (List.mem_of_getElem? ht)).pendingMove hst) haliases fun a b hab =>
    (hagreed.canonical (a, b) (.inl hab)).2
  exact hmoved.congr fun _ => mem_pending_iff (m := ⟨s', m.threads.set id t'⟩) (threads_set_self ht) hafter

section

variable {r : Registry} {w : ω} {programs : List (Program ω)} (halias : r.aliases.Reached) (hgraph : r.graph = .empty)
  (hr : Run h (ofPrograms r w programs) past m) (hfixed : ∀ e ∈ past, e.shared.registry.aliases = r.aliases)
  (hsettle : ∀ e ∈ past, ∀ row ∈ e.shared.registry.disposals.rows, (h.program row.2 .plain).Settles)

include halias hgraph hr hfixed hsettle

/-- Dependents are mirrored at every moment, amid teardowns too. -/
theorem Run.mirrored : m.shared.registry.graph.Mirrored := by
  induction hr with
  | start =>
    have hshared : (ofPrograms r w programs).shared.registry.graph = .empty := hgraph
    rw [hshared]
    rintro a b ⟨⟩
  | step id hr hs ih =>
    have hfixed' := fun e he => hfixed e (List.mem_cons_of_mem _ he)
    have hsettle' := fun e he => hsettle e (List.mem_cons_of_mem _ he)
    exact mirrored_step (hr.agreed halias hgraph hfixed' hsettle').1 (ih hfixed' hsettle') hs

/-- Parts are tended at every moment, if nobody intervenes in a teardown. -/
theorem Run.tended (hturn : InTurn past) : Tended r.aliases m.shared.registry.graph m.pending := by
  induction hr with
  | start =>
    have hshared : (ofPrograms r w programs).shared.registry.graph = .empty := hgraph
    rw [hshared]
    exact ⟨by rintro a b ⟨⟩, fun n _ => .inl (by rintro b ⟨⟩)⟩
  | step id hr hs ih =>
    have hfixed' := fun e he => hfixed e (List.mem_cons_of_mem _ he)
    have hsettle' := fun e he => hsettle e (List.mem_cons_of_mem _ he)
    obtain ⟨hcalm, hagreed⟩ := hr.agreed halias hgraph hfixed' hsettle'
    exact tended_step hcalm hagreed (hfixed _ (List.mem_cons_self ..)) (hturn _ (List.mem_cons_self ..))
      (ih hfixed' hsettle' fun e he => hturn e (List.mem_cons_of_mem _ he)) hs

/-- Under a fixed alias map, with disposal callbacks that settle, the directions of a graph agree that was recorded
from the empty one, whenever nobody is amid a teardown: `b` is a dependent of `a` exactly if `a` is a dependency of
`b`. Whoever contains a name is a dependent of it, if there is one caller, who makes all requests one after the
other, or if at least nobody intervened in a teardown. -/
theorem Run.directions_agree
    (hidle : ∀ (j : ThreadId) (u : Thread ω), m.threads[j]? = some u → u.pending = []) (a b : Name) :
    (b ∈ m.shared.registry.graph.dependentsOf a ↔ a ∈ m.shared.registry.graph.dependenciesOf b) ∧
      (programs.length = 1 ∨ InTurn past →
        b ∈ m.shared.registry.graph.partsOf a → a ∈ m.shared.registry.graph.dependentsOf b) := by
  simp only [Graph.dependentsOf, Graph.dependenciesOf, Graph.partsOf, Relation.mem_images]
  obtain ⟨-, hagreed⟩ := hr.agreed halias hgraph hfixed hsettle
  refine ⟨⟨hr.mirrored halias hgraph hfixed hsettle a b, hagreed.dependents_of_idle hidle⟩, fun hone hab => ?_⟩
  have hturn : InTurn past := hone.elim (fun hone => hr.inTurn_of_length (by simpa [ofPrograms] using hone)) id
  have hnone : m.pending = [] := List.flatMap_eq_nil_iff.2 fun u hu =>
    (List.mem_iff_getElem?.1 hu).elim fun j hj => hidle j u hj
  have htended := hr.tended halias hgraph hfixed hsettle hturn
  rw [hnone] at htended
  exact htended.encloses a b hab

end

/-- A caller that records `a` and `b` as dependents of each other, `c` as a part of `b` and `e` as a part of `d`, and
asks for the destruction of `a`. -/
def dividingCaller : Program Unit :=
  [.change (.addDependency "a" "b"), .change (.addDependency "b" "a"), .change (.addPart "b" "c"),
    .change (.addPart "d" "e"), .change (.registerDisposal "c" 0), .destroy "a"].foldr
    (fun request rest => .request request fun _ => rest) (.finish (.ok .done))

def dividedRun : List (Moment Unit) × Machine Unit :=
  (ofPrograms {} () [dividingCaller]).drive Graph.returningHost (List.replicate 60 0) []

theorem directions_agree_dividedRun :
    dividedRun.2.isOver = true ∧ disposals dividedRun.1 = [("c", 0)] ∧
      dividedRun.2.shared.registry.graph.partsOf "d" = ["e"] ∧
      "d" ∈ dividedRun.2.shared.registry.graph.dependentsOf "e" ∧
      "e" ∈ dividedRun.2.shared.registry.graph.dependenciesOf "d" := by
  have hparts : dividedRun.2.shared.registry.graph.partsOf "d" = ["e"] := by decide
  have hrun : Run Graph.returningHost (ofPrograms {} () [dividingCaller]) dividedRun.1 dividedRun.2 := .drive _ .start
  have hidle : ∀ (j : ThreadId) (u : Thread Unit), dividedRun.2.threads[j]? = some u → u.pending = [] := by
    have hthreads : dividedRun.2.threads = [⟨.reply (.ok .done), []⟩] := rfl
    intro j u hu
    rw [hthreads] at hu
    obtain rfl := List.mem_singleton.1 (List.mem_of_getElem? hu)
    rfl
  have hfixed : ∀ e ∈ dividedRun.1, e.shared.registry.aliases = {} := by decide
  have hagree (a b : Name) :=
    Run.directions_agree (.empty true) rfl hrun hfixed (fun _ _ _ _ => .ok _) hidle a b
  have hde := (hagree "d" "e").2 (.inl rfl) (by rw [hparts]; exact List.mem_singleton_self _)
  exact ⟨by decide, by decide, hparts, hde, (hagree "e" "d").1.1 hde⟩

/-- Of two callers, one asks for the destruction of `a`, and the other records `b` as a part of `a` after the parts
of `a` were taken out of the graph and before the purge of `a`. -/
def interveningRun : List (Moment Unit) × Machine Unit :=
  (ofPrograms {} () ([.destroy "a", .change (.addPart "a" "b")].map fun request =>
    .request request fun _ => .finish (.ok .done))).drive Graph.returningHost
      ([0, 0, 0, 0, 0, 1, 1] ++ List.replicate 5 0 ++ [1, 1]) []

/-- The purge takes the dependency of the new part along, but not the record of the part itself. -/
theorem part_outlives_dependency :
    interveningRun.2.isOver = true ∧ interveningRun.2.shared.registry.graph.partsOf "a" = ["b"] ∧
      interveningRun.2.shared.registry.graph.dependentsOf "b" = [] ∧
      interveningRun.2.shared.registry.graph.dependenciesOf "a" = [] := by decide

end Machine

end Singletons
