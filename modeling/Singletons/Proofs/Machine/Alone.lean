import Singletons.Proofs.Machine.Run

/-
A thread that takes its steps alone, with the disposal callbacks that are called on the way. Such a way
is a run of the machine in which nobody else moves, and there is one such run of each length.
-/

namespace Singletons

variable {ω : Type}

/-- The disposal callback that the next step of a thread calls, with the name that it disposes of. -/
def Thread.disposal? (t : Thread ω) : Option (Name × Callback) :=
  match t.control with
  | .point (.agenda (.dispose n d :: _)) => some (n, d)
  | _ => none

/-- The disposal callbacks that are called along a run, in the order of the calls. -/
def disposals (past : List (Moment ω)) : List (Name × Callback) :=
  past.reverse.filterMap fun e => e.thread?.bind (·.disposal?)

theorem disposals_concat (past : List (Moment ω)) (e : Moment ω) :
    disposals (past ++ [e]) = (e.thread?.bind (·.disposal?)).toList ++ disposals past := by
  unfold disposals
  rw [List.reverse_append, List.reverse_singleton, List.singleton_append, List.filterMap_cons]
  cases e.thread?.bind (·.disposal?) <;> rfl

namespace Program

/-- Programs that issue no request. -/
inductive Quiet : Program ω → Prop where
  | finish (r : Reply) : Quiet (.finish r)
  | access (f : ω → ω) (next : ω → Program ω) (quiet : ∀ w, (next w).Quiet) : Quiet (.access f next)

/-- Programs that issue no request and do not panic. -/
inductive Settles : Program ω → Prop where
  | ok (a : Answer) : Settles (.finish (.ok a))
  | failed (f : Failure) : Settles (.finish (.failed f))
  | access (f : ω → ω) (next : ω → Program ω) (settles : ∀ w, (next w).Settles) : Settles (.access f next)

theorem Settles.quiet {p : Program ω} (hp : p.Settles) : p.Quiet := by
  induction hp with
  | ok a => exact .finish _
  | failed f => exact .finish _
  | access f next _ ih => exact .access f next ih

end Program

namespace Thread

variable {h : Host ω} {id : ThreadId} {s s₁ s₂ : Shared ω} {t t' t₁ t₂ : Thread ω} {log log' : List (Name × Callback)}

/-- The ways of a thread that takes its steps alone, with the disposal callbacks called. -/
inductive Alone (h : Host ω) (id : ThreadId) :
    Shared ω → Thread ω → List (Name × Callback) → Shared ω → Thread ω → Prop where
  | done (s : Shared ω) (t : Thread ω) : Alone h id s t [] s t
  | step {s s₁ s₂ : Shared ω} {t t₁ t₂ : Thread ω} {log : List (Name × Callback)}
      (first : t.step h id s = some (s₁, t₁)) (others : Alone h id s₁ t₁ log s₂ t₂) :
      Alone h id s t (t.disposal?.toList ++ log) s₂ t₂

theorem Alone.trans (h₁ : Alone h id s t log s₁ t₁) (h₂ : Alone h id s₁ t₁ log' s₂ t₂) :
    Alone h id s t (log ++ log') s₂ t₂ := by
  induction h₁ with
  | done => exact h₂
  | step first _ ih => rw [List.append_assoc]; exact .step first (ih h₂)

theorem Alone.quiet (ht : t.disposal? = none) (first : t.step h id s = some (s₁, t₁))
    (others : Alone h id s₁ t₁ log s₂ t₂) : Alone h id s t log s₂ t₂ := by
  have := Alone.step first others
  rwa [ht] at this

/-- A thread alone gets to `t'` and calls the disposal callbacks of a list on the way, unless one of them
panics: then it calls only the first of them, and everything down to `fs` is unwound. -/
def Performs (h : Host ω) (id : ThreadId) (fs : List (Frame ω)) (s : Shared ω) (t : Thread ω)
    (log : List (Name × Callback)) (P : Shared ω → Prop) (t' : Thread ω) : Prop :=
  (∃ s', P s' ∧ Alone h id s t log s' t') ∨
    ((∃ row ∈ log, ¬ (h.program row.2 .plain).Settles) ∧
      ∃ log' s' text, log' <+: log ∧ Alone h id s t log' s' ⟨.reply (.panicked text), fs⟩)

variable {fs : List (Frame ω)} {P Q : Shared ω → Prop}

theorem Performs.done (hs : P s) : Performs h id fs s t [] P t := .inl ⟨s, hs, .done s t⟩

theorem Performs.quiet (ht : t.disposal? = none) (first : t.step h id s = some (s₁, t₁))
    (others : Performs h id fs s₁ t₁ log P t₂) : Performs h id fs s t log P t₂ := by
  rcases others with ⟨s', hs', ha⟩ | ⟨hpanic, log', s', text, hpre, ha⟩
  · exact .inl ⟨s', hs', ha.quiet ht first⟩
  · exact .inr ⟨hpanic, log', s', text, hpre, ha.quiet ht first⟩

theorem Performs.trans (h₁ : Performs h id fs s t log P t₁)
    (h₂ : ∀ s₁, P s₁ → Performs h id fs s₁ t₁ log' Q t₂) : Performs h id fs s t (log ++ log') Q t₂ := by
  rcases h₁ with ⟨s₁, hs₁, ha₁⟩ | ⟨⟨row, hrow, hpanic⟩, pre, s₁, text, hpre, ha₁⟩
  · rcases h₂ s₁ hs₁ with ⟨s₂, hs₂, ha₂⟩ | ⟨⟨row, hrow, hpanic⟩, pre, s₂, text, hpre, ha₂⟩
    · exact .inl ⟨s₂, hs₂, ha₁.trans ha₂⟩
    · exact .inr ⟨⟨row, List.mem_append.2 (.inr hrow), hpanic⟩, log ++ pre, s₂, text,
        (List.prefix_append_right_inj log).2 hpre, ha₁.trans ha₂⟩
  · exact .inr ⟨⟨row, List.mem_append.2 (.inl hrow), hpanic⟩, pre, s₁, text,
      hpre.trans (List.prefix_append log log'), ha₁⟩

/-- If all callbacks settle, all of them are called. -/
theorem Performs.alone (hp : Performs h id fs s t log P t')
    (hsettle : ∀ row ∈ log, (h.program row.2 .plain).Settles) : ∃ s', P s' ∧ Alone h id s t log s' t' := by
  rcases hp with hp | ⟨⟨row, hrow, hpanic⟩, -⟩
  · exact hp
  · exact absurd (hsettle row hrow) hpanic

/-- A disposal callback that issues no request leaves registry and mutex alone, and returns to its teardown
unless it panics. -/
theorem alone_of_quiet {p : Program ω} (hp : p.Quiet) (s : Shared ω) (n : Name) (d : Callback) (rest : List Task)
    (fs : List (Frame ω)) :
    (∃ s', (s'.registry = s.registry ∧ s'.mutex = s.mutex) ∧
        Alone h id s ⟨.program p, .disposing n d rest :: fs⟩ [] s' ⟨.point (.agenda rest), fs⟩) ∨
      (¬ p.Settles ∧ ∃ s' text,
        Alone h id s ⟨.program p, .disposing n d rest :: fs⟩ [] s' ⟨.reply (.panicked text), fs⟩) := by
  induction hp generalizing s with
  | finish r =>
    cases r with
    | ok a => exact .inl ⟨s.report h [.disposed n], ⟨rfl, rfl⟩, .quiet rfl rfl (.quiet rfl rfl (.done ..))⟩
    | failed f =>
      exact .inl ⟨s.report h [.disposalFailed n f], ⟨rfl, rfl⟩, .quiet rfl rfl (.quiet rfl rfl (.done ..))⟩
    | panicked text =>
      refine .inr ⟨?_, s, text, .quiet rfl rfl (.quiet rfl rfl (.done ..))⟩
      rintro ⟨⟩
  | access f next _ ih =>
    rcases ih s.world { s with world := f s.world } with ⟨s', hs', ha⟩ | ⟨hpanic, s', text, ha⟩
    · exact .inl ⟨s', hs', .quiet rfl rfl ha⟩
    · refine .inr ⟨?_, s', text, .quiet rfl rfl ha⟩
      rintro (_ | _ | ⟨_, _, hsettles⟩)
      exact hpanic (hsettles s.world)

end Thread

namespace Machine

variable {h : Host ω} {id : ThreadId} {m m₁ m₂ : Machine ω} {fs : List (Frame ω)} {seg seg' : List (Moment ω)}

theorem run_of_alone {s s' : Shared ω} {t t' : Thread ω} {log : List (Name × Callback)}
    (ha : Thread.Alone h id s t log s' t') : ∀ {m : Machine ω}, m.shared = s → m.threads[id]? = some t →
    ∃ seg, Run h m seg ⟨s', m.threads.set id t'⟩ ∧ (∀ e ∈ seg, e.mover = id) ∧ disposals seg = log := by
  induction ha with
  | done s t =>
    rintro ⟨_, threads⟩ rfl ht
    refine ⟨[], ?_, by simp, rfl⟩
    obtain ⟨hlt, rfl⟩ := List.getElem?_eq_some_iff.1 ht
    rw [List.set_getElem_self]
    exact .start
  | @step s s₁ s₂ t t₁ t₂ log first _ ih =>
    intro m hs ht
    obtain ⟨seg, hr, hm, hd⟩ := ih (m := ⟨s₁, m.threads.set id t₁⟩) rfl (threads_set_self ht)
    have hstep : m.step h id = some ⟨s₁, m.threads.set id t₁⟩ :=
      step_eq_some_iff.2 ⟨t, s₁, t₁, ht, by rw [hs]; exact first, rfl⟩
    refine ⟨seg ++ [⟨m, id⟩], ?_, ?_, ?_⟩
    · rw [List.set_set] at hr
      exact (Run.start.step id hstep).append hr
    · intro e he
      rcases List.mem_append.1 he with he | he
      · exact hm e he
      · rw [List.mem_singleton.1 he]
    · rw [disposals_concat, hd]
      simp only [Moment.thread?, ht, Option.bind_some]

/-- The way of a thread from a request to its reply is a run of the machine. -/
theorem run_to_reply {t : Thread ω} {s' : Shared ω} {log : List (Name × Callback)} {reply : Reply}
    (ht : m.threads[id]? = some t) (ha : Thread.Alone h id m.shared t log s' ⟨.reply reply, fs⟩) :
    ∃ seg m', Run h m seg m' ∧ (∀ e ∈ seg, e.mover = id) ∧ m'.threads[id]? = some ⟨.reply reply, fs⟩ ∧
      m' = ⟨s', m.threads.set id ⟨.reply reply, fs⟩⟩ ∧ disposals seg = log := by
  obtain ⟨seg, hr, hm, hd⟩ := run_of_alone ha rfl ht
  exact ⟨seg, _, hr, hm, threads_set_self ht, rfl, hd⟩

/-- A thread that performs a teardown comes to a reply, and the callbacks called on the way are the first
of the teardown. -/
theorem run_of_performs {t : Thread ω} {log : List (Name × Callback)} {P : Shared ω → Prop} {reply : Reply}
    (ht : m.threads[id]? = some t) (hp : Thread.Performs h id fs m.shared t log P ⟨.reply reply, fs⟩) :
    ∃ seg m' reply, Run h m seg m' ∧ (∀ e ∈ seg, e.mover = id) ∧ m'.threads[id]? = some ⟨.reply reply, fs⟩ ∧
      disposals seg <+: log := by
  rcases hp with ⟨s', -, ha⟩ | ⟨-, log', s', text, hpre, ha⟩
  · obtain ⟨seg, m', hr, hm, hreply, -, rfl⟩ := run_to_reply ht ha
    exact ⟨seg, m', _, hr, hm, hreply, List.prefix_rfl⟩
  · obtain ⟨seg, m', hr, hm, hreply, -, rfl⟩ := run_to_reply ht ha
    exact ⟨seg, m', _, hr, hm, hreply, hpre⟩

/-- A thread that has handed in its last reply has ended. -/
theorem step_eq_none_of_reply {reply : Reply} (ht : m.threads[id]? = some ⟨.reply reply, []⟩) :
    m.step h id = none := by
  unfold Machine.step
  rw [ht]
  rfl

/-- Runs of one thread alone that are equally long are the same. -/
theorem Run.eq_of_length_eq (hr₁ : Run h m seg m₁) (hr₂ : Run h m seg' m₂) (hm₁ : ∀ e ∈ seg, e.mover = id)
    (hm₂ : ∀ e ∈ seg', e.mover = id) (hlen : seg.length = seg'.length) : seg = seg' ∧ m₁ = m₂ := by
  induction hr₁ generalizing seg' m₂ with
  | start =>
    cases hr₂ with
    | start => exact ⟨rfl, rfl⟩
    | step => cases hlen
  | @step past mid mid' id₁ _ hs₁ ih =>
    cases hr₂ with
    | start => cases hlen
    | step id₂ hr₂ hs₂ =>
      obtain ⟨rfl, hm₁⟩ := List.forall_mem_cons.1 hm₁
      obtain ⟨rfl, hm₂⟩ := List.forall_mem_cons.1 hm₂
      obtain ⟨rfl, rfl⟩ := ih hr₂ hm₁ hm₂ (by simpa using hlen)
      rw [hs₁] at hs₂
      cases hs₂
      exact ⟨rfl, rfl⟩

/-- A run of one thread alone is no longer than one to a state where that thread cannot move. -/
theorem Run.length_le_of_stuck (hr₁ : Run h m seg m₁) (hr₂ : Run h m seg' m₂) (hm₁ : ∀ e ∈ seg, e.mover = id)
    (hm₂ : ∀ e ∈ seg', e.mover = id) (hstuck : m₁.step h id = none) : seg'.length ≤ seg.length := by
  rcases Nat.lt_or_ge seg.length seg'.length with hlt | hge
  · exfalso
    -- the longer run takes a step from where the shorter one ends
    obtain ⟨later, e, earlier, rfl, hlen⟩ :
        ∃ later e earlier, seg' = later ++ e :: earlier ∧ earlier.length = seg.length := by
      refine ⟨seg'.take (seg'.length - seg.length - 1), seg'[seg'.length - seg.length - 1],
        seg'.drop (seg'.length - seg.length - 1 + 1), ?_, ?_⟩
      · rw [← List.drop_eq_getElem_cons, List.take_append_drop]
      · rw [List.length_drop]; omega
    obtain ⟨next, h₁, hs, -⟩ := hr₂.cut_at
    obtain ⟨-, rfl⟩ := hr₁.eq_of_length_eq h₁ hm₁ (fun e he => hm₂ e (by simp [he])) hlen.symm
    rw [hm₂ e (by simp), hstuck] at hs
    cases hs
  · exact hge

/-- A thread alone has one run to a state where it cannot move. -/
theorem Run.eq_of_stuck (hr₁ : Run h m seg m₁) (hr₂ : Run h m seg' m₂) (hm₁ : ∀ e ∈ seg, e.mover = id)
    (hm₂ : ∀ e ∈ seg', e.mover = id) (hstuck₁ : m₁.step h id = none) (hstuck₂ : m₂.step h id = none) :
    seg = seg' ∧ m₁ = m₂ :=
  hr₁.eq_of_length_eq hr₂ hm₁ hm₂
    (Nat.le_antisymm (hr₂.length_le_of_stuck hr₁ hm₂ hm₁ hstuck₂) (hr₁.length_le_of_stuck hr₂ hm₁ hm₂ hstuck₁))

end Machine

end Singletons
