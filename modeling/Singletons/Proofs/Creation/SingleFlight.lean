import Singletons.Proofs.Creation.SlotMove
import Mathlib.Algebra.GroupWithZero.Nat

/-
Single flight: along every run in which a name is watched for reentry and never removed, at most one
creation of the name is under way at a time, at most one ever ends with a value, and a request that is
made inside a creation of the name is answered without a callback.

The invariant (`Marked`) ties the creations under way to the slot: whoever creates the name keeps its
slot taken, so that no other creation of it can begin. An early producer that is put back finds the
slot empty (`Vacant`), because the mutex is held from the end of the failed creation until then.
-/

namespace Singletons

variable {ω : Type}

namespace Thread

variable {t : Thread ω} {n : Name}

theorem Seated.guards_pos_of_creations (ht : t.Seated) (hc : 0 < t.creations n) : 0 < t.guards := by
  refine ht.guards_pos (.inr ?_)
  obtain ⟨w, hw, -⟩ := List.countP_pos_iff.1 hc
  obtain ⟨f, hf, hfw⟩ := List.mem_filterMap.1 hw
  refine ⟨f, hf, ?_⟩
  cases f <;> first | rfl | cases hfw

theorem Seated.guards_pos_of_isRestoring (ht : t.Seated) (hr : t.isRestoring n = true) : 0 < t.guards := by
  refine ht.guards_pos (.inl ?_)
  unfold isRestoring at hr
  split at hr
  · rename_i heq; rw [heq]; rfl
  · cases hr

end Thread

namespace Moment

/-- Whether the step from a moment removes `n` from the cache. -/
def removes (e : Moment ω) (n : Name) : Bool := e.thread?.any (·.removes e.shared.registry n)

/-- The value that a creation of `n` ends with in the step from a moment. -/
def yield? (e : Moment ω) (n : Name) : Option Value := e.thread?.bind (·.yield? n)

variable {m : Machine ω} {id : ThreadId} {t : Thread ω}

theorem removes_eq (ht : m.threads[id]? = some t) (n : Name) :
    (⟨m, id⟩ : Moment ω).removes n = t.removes m.shared.registry n := by
  simp only [removes, thread?, ht, Option.any_some, shared]

theorem yield?_eq (ht : m.threads[id]? = some t) (n : Name) : (⟨m, id⟩ : Moment ω).yield? n = t.yield? n := by
  simp only [yield?, thread?, ht, Option.bind_some]

end Moment

namespace Machine

/-- The number of creations of `n` whose callbacks are running, over all threads. -/
def creations (m : Machine ω) (n : Name) : Nat := (m.threads.map (·.creations n)).sum

/-- Whoever is about to put an early producer back finds the slot empty. -/
def Vacant (m : Machine ω) : Prop :=
  ∀ (id : ThreadId) (t : Thread ω) (n : Name), m.threads[id]? = some t → t.isRestoring n = true →
    m.shared.registry.cache.slots.get? n = none

/-- A thread creates `n` once at most, and while it does the slot of `n` is taken. -/
structure Marked (n : Name) (m : Machine ω) : Prop where
  once : ∀ (id : ThreadId) (t : Thread ω), m.threads[id]? = some t → t.creations n ≤ 1
  taken : ∀ (id : ThreadId) (t : Thread ω), m.threads[id]? = some t → 0 < t.creations n →
    ∃ x, m.shared.registry.cache.slots.get? n = some x ∧ x.isTaken = true

variable {h : Host ω} {m m' : Machine ω} {id : ThreadId} {t : Thread ω} {n : Name}

/-- While a thread is in a stretch under the mutex, the others change nothing in the cache but
exemptions. -/
theorem Disciplined.step_cache {j : ThreadId} {u : Thread ω} (hm : m.Disciplined) (hs : m.step h id = some m')
    (hu : m.threads[j]? = some u) (hpos : 0 < u.guards) (hj : j ≠ id) :
    ∃ exempt, m'.shared.registry.cache = { m.shared.registry.cache with exempt } := by
  obtain ⟨t, s', t', ht, hst, rfl⟩ := step_eq_some_iff.1 hs
  rw [hm.times j u hu] at hpos
  exact Thread.step_cache_of_not_admits hst (hm.seated id t ht) (hm.times id t ht)
    (Mutex.not_admits_of_times_pos hpos (Ne.symm hj))

/-- Two threads that create a name would both be in stretches under the mutex. -/
theorem Disciplined.eq_of_creations {j : ThreadId} {u : Thread ω} (hm : m.Disciplined) (ht : m.threads[id]? = some t)
    (hu : m.threads[j]? = some u) (hpos : 0 < t.creations n) (hpos' : 0 < u.creations n) : j = id :=
  hm.unique ht hu ((hm.seated id t ht).guards_pos_of_creations hpos)
    ((hm.seated j u hu).guards_pos_of_creations hpos')

theorem Vacant.step (hv : m.Vacant) (hd : m.Disciplined) (hs : m.step h id = some m') : m'.Vacant := by
  intro j u n hu hr
  obtain ⟨t, s', t', ht, hst, rfl⟩ := step_eq_some_iff.1 hs
  rcases threads_set ht hu with ⟨rfl, rfl⟩ | ⟨hj, hu⟩
  · exact ((Thread.step_deed hst).get?_of_restoring hr).2
  · obtain ⟨exempt, hc⟩ := hd.step_cache hs hu ((hd.seated j u hu).guards_pos_of_isRestoring hr) hj
    rw [hc]
    exact hv j u n hu hr

/-- A complete name stays complete with its value, unless it is removed or a creation of it that is
still under way ends with a value. -/
theorem complete?_step (hv : m.Vacant) (hs : m.step h id = some m') (ht : m.threads[id]? = some t)
    (hk : t.removes m.shared.registry n = false) (hy : t.yield? n = none) {v : Value}
    (hc : m.shared.registry.cache.complete? n = some v) : m'.shared.registry.cache.complete? n = some v := by
  obtain ⟨s', t', hst, rfl⟩ := exists_of_step hs ht
  have hslot := Cache.complete?_eq_some_iff.1 hc
  rw [Cache.complete?_eq_some_iff]
  cases (Thread.step_deed hst).slotMove hk hy with
  | still slot | enter _ slot => rw [slot]; exact hslot
  | register v' incomplete => rw [hc] at incomplete; cases incomplete
  | arm p slot => rw [slot, hslot]; rfl
  | mark e free => exact absurd (free _ hslot) (by simp [Slot.isTaken])
  | abandon slot =>
    rcases slot with slot | ⟨⟨e, he⟩, -⟩
    · rw [slot]; exact hslot
    · rw [hslot] at he; cases he
  | restore p restoring => rw [hv id t n ht restoring] at hslot; cases hslot
  | expose v' pending => obtain ⟨p, hp⟩ := pending; rw [hslot] at hp; cases hp

theorem Marked.step (hm : m.Marked n) (hv : m.Vacant) (hd : m.Disciplined) (hs : m.step h id = some m')
    (ht : m.threads[id]? = some t) (hk : t.removes m.shared.registry n = false)
    (he : m.shared.registry.cache.isExempt n = false) : m'.Marked n := by
  obtain ⟨s', t', hst, rfl⟩ := exists_of_step hs ht
  have hone := hm.once id t ht
  -- what the mover must come to: its own count, and a slot that is taken if anyone creates `n`
  suffices hmine : t'.creations n ≤ 1 ∧
      (∀ (j : ThreadId) (u : Thread ω), ((j = id ∧ u = t') ∨ (j ≠ id ∧ m.threads[j]? = some u)) →
        0 < u.creations n → ∃ x, s'.registry.cache.slots.get? n = some x ∧ x.isTaken = true) by
    refine ⟨fun j u hu => ?_, fun j u hu hpos => hmine.2 j u (threads_set ht hu) hpos⟩
    rcases threads_set ht hu with ⟨-, rfl⟩ | ⟨-, hu⟩
    · exact hmine.1
    · exact hm.once j u hu
  -- whoever creates `n` after a step that begins no creation of it did so before
  have hbefore : t'.creations n ≤ t.creations n → ∀ (j : ThreadId) (u : Thread ω),
      ((j = id ∧ u = t') ∨ (j ≠ id ∧ m.threads[j]? = some u)) → 0 < u.creations n →
      ∃ x, m.shared.registry.cache.slots.get? n = some x ∧ x.isTaken = true := by
    rintro hle j u (⟨rfl, rfl⟩ | ⟨-, hu⟩) hpos
    · exact hm.taken _ t ht (by omega)
    · exact hm.taken j u hu hpos
  cases hy : t.yield? n with
  | some v =>
    obtain ⟨hslot, hcount, -⟩ := Thread.step_of_yield hst hy
    exact ⟨by omega, fun _ _ _ _ => ⟨_, hslot, rfl⟩⟩
  | none =>
    cases (Thread.step_deed hst).slotMove hk hy with
    | still slot count => exact ⟨by omega, by rw [slot]; exact hbefore (by omega)⟩
    | register v incomplete slot count => exact ⟨by omega, fun _ _ _ _ => ⟨_, slot, rfl⟩⟩
    | arm p slot count =>
      refine ⟨by omega, fun j u hu hpos => ⟨_, slot, ?_⟩⟩
      obtain ⟨x, hx, hxt⟩ := hbefore (by omega) j u hu hpos
      rw [hx]
      cases x <;> first | rfl | cases hxt
    | mark e free slot count =>
      refine ⟨?_, fun _ _ _ _ => ⟨_, slot, rfl⟩⟩
      rcases Nat.eq_zero_or_pos (t.creations n) with hz | hpos
      · omega
      · obtain ⟨x, hx, hxt⟩ := hm.taken id t ht hpos
        rw [free x hx] at hxt; cases hxt
    | enter exempt => rw [he] at exempt; cases exempt
    | abandon slot count =>
      refine ⟨by omega, ?_⟩
      rintro j u (⟨rfl, rfl⟩ | ⟨hj, hu⟩) hpos
      · omega
      · exact absurd (hd.eq_of_creations ht hu (by omega) hpos) hj
    | restore p restoring slot count =>
      refine ⟨by omega, fun j u hu hpos => ?_⟩
      obtain ⟨x, hx, -⟩ := hbefore (by omega) j u hu hpos
      rw [hv id t n ht restoring] at hx; cases hx
    | expose v pending slot count => exact ⟨by omega, fun _ _ _ _ => ⟨_, slot, rfl⟩⟩

/-- What holds in every state of every run: the mutex is kept, and early producers are put back into
empty slots. -/
structure Orderly (m : Machine ω) : Prop where
  disciplined : m.Disciplined
  vacant : m.Vacant

theorem ofPrograms_orderly (r : Registry) (w : ω) (programs : List (Program ω)) :
    (ofPrograms r w programs).Orderly := by
  refine ⟨ofPrograms_disciplined r w programs, fun id t n ht hr => ?_⟩
  simp only [ofPrograms, List.getElem?_map, Option.map_eq_some_iff] at ht
  obtain ⟨p, -, rfl⟩ := ht
  cases hr

theorem ofPrograms_marked (r : Registry) (w : ω) (programs : List (Program ω)) (n : Name) :
    (ofPrograms r w programs).Marked n := by
  have hzero : ∀ (id : ThreadId) (t : Thread ω), (ofPrograms r w programs).threads[id]? = some t →
      t.creations n = 0 := by
    intro id t ht
    simp only [ofPrograms, List.getElem?_map, Option.map_eq_some_iff] at ht
    obtain ⟨p, -, rfl⟩ := ht
    rfl
  exact ⟨fun id t ht => by rw [hzero id t ht]; omega, fun id t ht hpos => by rw [hzero id t ht] at hpos; omega⟩

theorem Orderly.step (ho : m.Orderly) (hs : m.step h id = some m') : m'.Orderly :=
  ⟨ho.disciplined.step hs, ho.vacant.step ho.disciplined hs⟩

variable {start : Machine ω} {past : List (Moment ω)}

theorem Orderly.run (ho : start.Orderly) (hr : Run h start past m) : m.Orderly :=
  hr.invariant Orderly ho fun _ _ _ ho hs => ho.step hs

/-- A run that leaves a name watched and does not remove it keeps its creations marked. -/
theorem Marked.run (ho : start.Orderly) (hm : start.Marked n) (hr : Run h start past m)
    (hwatched : ∀ e ∈ past, e.shared.registry.cache.isExempt n = false)
    (hkept : ∀ e ∈ past, e.removes n = false) : m.Marked n := by
  refine (hr.invariant (fun m => m.Orderly ∧ m.Marked n) ⟨ho, hm⟩ fun e he m' hp hs => ?_).2
  obtain ⟨ho, hm⟩ := hp
  obtain ⟨t, s', t', ht, -, -⟩ := step_eq_some_iff.1 hs
  have hk : t.removes e.state.shared.registry n = false := Moment.removes_eq ht n ▸ hkept e he
  exact ⟨ho.step hs, hm.step ho.vacant ho.disciplined hs ht hk (hwatched e he)⟩

/-! ## One creation at a time -/

/-- A sum of numbers is at most one if each is and no two are positive. -/
theorem sum_le_one {α : Type} (f : α → Nat) : ∀ (l : List α), (∀ a ∈ l, f a ≤ 1) →
    (∀ (i j : Nat) (a b : α), l[i]? = some a → l[j]? = some b → 0 < f a → 0 < f b → i = j) → (l.map f).sum ≤ 1
  | [], _, _ => by simp
  | a :: l, hone, huniq => by
    have htail := sum_le_one f l (fun b hb => hone b (List.mem_cons_of_mem _ hb)) fun i j b c hb hc hb' hc' => by
      have := huniq (i + 1) (j + 1) b c (by simpa using hb) (by simpa using hc) hb' hc'
      omega
    rw [List.map_cons, List.sum_cons]
    rcases Nat.eq_zero_or_pos (f a) with hz | hpos
    · omega
    · -- the head is positive, so nothing behind it is
      have hzero : (l.map f).sum = 0 := by
        rw [List.sum_eq_zero_iff_forall_eq_nat]
        intro k hk
        obtain ⟨b, hb, rfl⟩ := List.mem_map.1 hk
        obtain ⟨j, hj⟩ := List.mem_iff_getElem?.1 hb
        rcases Nat.eq_zero_or_pos (f b) with hz | hpos'
        · exact hz
        · have := huniq 0 (j + 1) a b rfl (by simpa using hj) hpos hpos'
          omega
      have := hone a (List.mem_cons_self ..)
      omega

theorem Marked.creations_le_one (hm : m.Marked n) (hd : m.Disciplined) : m.creations n ≤ 1 := by
  refine sum_le_one _ _ (fun t ht => ?_) fun i j t u ht hu hpos hpos' => ?_
  · obtain ⟨id, hid⟩ := List.mem_iff_getElem?.1 ht
    exact hm.once id t hid
  · exact hd.eq_of_creations hu ht hpos' hpos

/-- Once a creation of a name has ended with a value, the name is complete and nobody creates it. -/
def Settled (n : Name) (m : Machine ω) : Prop :=
  (∃ v, m.shared.registry.cache.complete? n = some v) ∧
    ∀ (id : ThreadId) (t : Thread ω), m.threads[id]? = some t → t.creations n = 0

theorem Marked.settled_of_yield (hm : m.Marked n) (hd : m.Disciplined) (hs : m.step h id = some m')
    (ht : m.threads[id]? = some t) {v : Value} (hy : t.yield? n = some v) : m'.Settled n := by
  obtain ⟨s', t', hst, rfl⟩ := exists_of_step hs ht
  obtain ⟨hslot, hcount, -⟩ := Thread.step_of_yield hst hy
  have hone := hm.once id t ht
  refine ⟨⟨v, Cache.complete?_eq_some_iff.2 hslot⟩, fun j u hu => ?_⟩
  rcases threads_set ht hu with ⟨-, rfl⟩ | ⟨hj, hu⟩
  · omega
  · rcases Nat.eq_zero_or_pos (u.creations n) with hz | hpos
    · exact hz
    · exact absurd (hd.eq_of_creations ht hu (by omega) hpos) hj

theorem Settled.step (hz : m.Settled n) (hv : m.Vacant) (hs : m.step h id = some m') (ht : m.threads[id]? = some t)
    (hk : t.removes m.shared.registry n = false) (he : m.shared.registry.cache.isExempt n = false) :
    t.yield? n = none ∧ m'.Settled n := by
  obtain ⟨⟨v, hc⟩, hnone⟩ := hz
  obtain ⟨s', t', hst, rfl⟩ := exists_of_step hs ht
  have hzero := hnone id t ht
  have hy : t.yield? n = none := by
    cases hy : t.yield? n with
    | none => rfl
    | some v' =>
      obtain ⟨-, hcount, -⟩ := Thread.step_of_yield hst hy
      omega
  refine ⟨hy, ⟨v, complete?_step hv hs ht hk hy hc⟩, fun j u hu => ?_⟩
  rcases threads_set ht hu with ⟨-, rfl⟩ | ⟨-, hu⟩
  · cases (Thread.step_deed hst).slotMove hk hy with
    | mark e free =>
      exact absurd (free _ (Cache.complete?_eq_some_iff.1 hc)) (by simp [Slot.isTaken])
    | enter exempt => rw [he] at exempt; cases exempt
    | abandon slot count => omega
    | _ => omega
  · exact hnone j u hu

theorem Run.yields_le_one (ho : start.Orderly) (hm : start.Marked n) (hr : Run h start past m)
    (hwatched : ∀ e ∈ past, e.shared.registry.cache.isExempt n = false)
    (hkept : ∀ e ∈ past, e.removes n = false) :
    past.countP (fun e => (e.yield? n).isSome) ≤ 1 ∧
      (0 < past.countP (fun e => (e.yield? n).isSome) → m.Settled n) := by
  induction hr with
  | start => simp
  | @step past m m' id hr hs ih =>
    have hwatched' := fun e he => hwatched e (List.mem_cons_of_mem _ he)
    have hkept' := fun e he => hkept e (List.mem_cons_of_mem _ he)
    obtain ⟨hle, hset⟩ := ih hwatched' hkept'
    have hom := ho.run hr
    have hmm := hm.run ho hr hwatched' hkept'
    obtain ⟨t, s', t', ht, -, -⟩ := step_eq_some_iff.1 hs
    have hk : t.removes m.shared.registry n = false := Moment.removes_eq ht n ▸ hkept ⟨m, id⟩ (List.mem_cons_self ..)
    have he : m.shared.registry.cache.isExempt n = false := hwatched ⟨m, id⟩ (List.mem_cons_self ..)
    rw [List.countP_cons, Moment.yield?_eq ht]
    cases hy : t.yield? n with
    | none =>
      refine ⟨by simpa using hle, fun hpos => ?_⟩
      exact ((hset (by simpa using hpos)).step hom.vacant hs ht hk he).2
    | some v =>
      refine ⟨?_, fun _ => hmm.settled_of_yield hom.disciplined hs ht hy⟩
      rcases Nat.eq_zero_or_pos (past.countP fun e => (e.yield? n).isSome) with hz | hpos
      · simp [hz]
      · have := ((hset hpos).step hom.vacant hs ht hk he).1
        rw [hy] at this; cases this

/-! ## Requests inside a creation -/

end Machine

/-- The replies to a request for the creation of `n` that is made inside a creation of `n`: the name is
in creation, or the registry is closed, or the name is complete by now and its value is found. -/
def Rebuffs (c : Cache) (n : Name) (r : Reply) : Prop :=
  r = .failed (.currentlyInCreation n .requested) ∨
    (r = .failed (.creationNotAllowed n) ∧ c.inDestruction = true) ∨
    ∃ v, r = .ok (.value v) ∧ c.complete? n = some v

/-- Where a thread stands that has been turned away from the creation of `n`, by the number of steps it
has taken since the request began: before the mutex, inside the stretch, with a reply inside the
stretch, and with the reply outside. No callback is called on the way. -/
def Thread.Rebuffed (n : Name) (create : Callback) (fs : List (Frame ω)) (c : Cache) : Nat → Thread ω → Prop
  | 0, t => t = ⟨.point (.await (.create n create)), fs⟩
  | 1, t => t = ⟨.point (.inside (.create n create)), .guarded :: fs⟩
  | 2, t => ∃ r, Rebuffs c n r ∧ t = ⟨.reply r, .guarded :: fs⟩
  | _, t => ∃ r, Rebuffs c n r ∧ t = ⟨.reply r, fs⟩

namespace Thread

variable {h : Host ω} {id : ThreadId} {s s' : Shared ω} {t t' : Thread ω} {n : Name} {create : Callback}
  {fs : List (Frame ω)} {c c' : Cache} {k : Nat}

theorem Rebuffed.congr (ht : t.Rebuffed n create fs c k) (hd : c'.inDestruction = c.inDestruction)
    (hc : c'.complete? n = c.complete? n) : t.Rebuffed n create fs c' k := by
  have hr : ∀ r, Rebuffs c n r → Rebuffs c' n r := by
    intro r hr
    unfold Rebuffs
    rw [hd, hc]; exact hr
  match k, ht with
  | 0, ht => exact ht
  | 1, ht => exact ht
  | 2, ⟨r, hreb, ht⟩ => exact ⟨r, hr r hreb, ht⟩
  | _ + 3, ⟨r, hreb, ht⟩ => exact ⟨r, hr r hreb, ht⟩

/-- The creation that is under way sits below the place where the thread stands. -/
theorem Rebuffed.creations (ht : t.Rebuffed n create fs c k) :
    t.creations n = (windows fs).countP (·.name == n) := by
  match k, ht with
  | 0, ht => rw [ht]; rfl
  | 1, ht => rw [ht]; rfl
  | 2, ⟨r, _, ht⟩ => rw [ht]; rfl
  | _ + 3, ⟨r, _, ht⟩ => rw [ht]; rfl

/-- Inside the stretch the slot is taken, so the request is answered at once. -/
theorem stepInside_rebuffs (htaken : ∃ x, s.registry.cache.slots.get? n = some x ∧ x.isTaken = true)
    (he : s.registry.cache.isExempt n = false) (hs : stepInside h s fs (.create n create) = (s', t')) :
    s'.registry.cache = s.registry.cache ∧ ∃ r, Rebuffs s.registry.cache n r ∧ t' = ⟨.reply r, fs⟩ := by
  simp only [stepInside] at hs
  split at hs
  · rename_i v hv
    cases hs
    exact ⟨rfl, _, .inr (.inr ⟨v, rfl, hv⟩), rfl⟩
  · rename_i hnone
    split at hs
    · rename_i hd
      cases hs
      exact ⟨rfl, _, .inr (.inl ⟨rfl, hd⟩), rfl⟩
    · -- neither complete nor free, the name is in creation and cannot be marked again
      obtain ⟨x, hx, hxt⟩ := htaken
      have hopen : s.registry.cache.openWindow n = .error (.currentlyInCreation n .requested) := by
        cases x with
        | early p => cases hxt
        | inCreation e => simp [Cache.openWindow, he, Cache.mark, hx]
        | complete v => rw [Cache.complete?_eq_some_iff.2 hx] at hnone; cases hnone
      rw [hopen] at hs
      cases hs
      exact ⟨rfl, _, .inl rfl, rfl⟩

theorem Rebuffed.step (ht : t.Rebuffed n create fs s.registry.cache k) (hk : k ≤ 2)
    (htaken : ∃ x, s.registry.cache.slots.get? n = some x ∧ x.isTaken = true)
    (he : s.registry.cache.isExempt n = false) (hs : t.step h id s = some (s', t')) :
    t'.Rebuffed n create fs s'.registry.cache (k + 1) := by
  rcases k with _ | _ | _ | k
  · cases ht
    simp only [Thread.step, stepPoint] at hs
    split at hs
    · cases hs; rfl
    · cases hs
  · cases ht
    obtain ⟨hc, r, hr, ht'⟩ := stepInside_rebuffs htaken he (Option.some.inj hs)
    rw [hc]
    exact ⟨r, hr, ht'⟩
  · obtain ⟨r, hr, rfl⟩ := ht
    cases hs
    exact ⟨r, hr, rfl⟩
  · omega

theorem Rebuffed.step_isSome (ht : t.Rebuffed n create fs s.registry.cache k)
    (ha : s.mutex.admits id = true) (hpos : 0 < (windows fs).countP (·.name == n)) :
    (t.step h id s).isSome = true := by
  have hreply : ∀ r, ((⟨.reply r, fs⟩ : Thread ω).step h id s).isSome = true := by
    intro r
    cases fs with
    | nil => simp at hpos
    | cons f fs => rfl
  match k, ht with
  | 0, ht => subst ht; simp only [Thread.step, stepPoint, ha, if_true]; rfl
  | 1, ht => subst ht; rfl
  | 2, ⟨r, _, ht⟩ => subst ht; rfl
  | _ + 3, ⟨r, _, ht⟩ => subst ht; exact hreply r

end Thread

namespace Machine

variable {h : Host ω} {start m m' : Machine ω} {id : ThreadId} {t : Thread ω} {n : Name}
  {later : List (Moment ω)} {create : Callback} {fs : List (Frame ω)}

/-- A request for a name from inside its creation passes its stages, whatever other threads do. -/
theorem Run.rebuffed (ho : start.Orderly) (hm : start.Marked n) (hr : Run h start later m)
    (hwatched : ∀ e ∈ later, e.shared.registry.cache.isExempt n = false)
    (hkept : ∀ e ∈ later, e.removes n = false) (hpos : 0 < (windows fs).countP (·.name == n))
    (ht : start.threads[id]? = some t) (hreb : t.Rebuffed n create fs start.shared.registry.cache 0)
    (hle : later.countP (·.mover == id) ≤ 3) :
    ∃ t, m.threads[id]? = some t ∧
      t.Rebuffed n create fs m.shared.registry.cache (later.countP (·.mover == id)) := by
  induction hr with
  | start => exact ⟨t, ht, hreb⟩
  | @step later m m' j hr hs ih =>
    have hwatched' := fun e he => hwatched e (List.mem_cons_of_mem _ he)
    have hkept' := fun e he => hkept e (List.mem_cons_of_mem _ he)
    rw [List.countP_cons] at hle ⊢
    obtain ⟨t, ht, hreb⟩ := ih hwatched' hkept' (by omega)
    have hom := ho.run hr
    have hpos' : 0 < t.creations n := by rw [hreb.creations]; exact hpos
    have hguards := (hom.disciplined.seated id t ht).guards_pos_of_creations hpos'
    obtain ⟨u, s', u', hu, hst, rfl⟩ := step_eq_some_iff.1 hs
    by_cases hj : j = id
    · subst hj
      cases ht.symm.trans hu
      simp only [beq_self_eq_true, if_true] at hle ⊢
      refine ⟨u', threads_set_self ht, hreb.step (by omega) ?_ ?_ hst⟩
      · exact (hm.run ho hr hwatched' hkept').taken j t ht hpos'
      · exact hwatched ⟨m, j⟩ (List.mem_cons_self ..)
    · obtain ⟨exempt, hc⟩ := hom.disciplined.step_cache hs ht hguards (Ne.symm hj)
      have hjb : (j == id) = false := by simpa using hj
      simp only [hjb, Bool.false_eq_true, if_false, Nat.add_zero]
      exact ⟨t, by rw [List.getElem?_set_ne hj]; exact ht, hreb.congr (by rw [hc]) (by rw [hc]; rfl)⟩

/-- Single flight. Along every run in which `n` is never exempt and never removed, at most one creation
of `n` is under way, at most one ends with a value, and a request for `n` made inside a creation of `n`
passes through its stages to a refusal or to the complete value without ever waiting. -/
theorem Run.single_flight {r : Registry} {w : ω} {programs : List (Program ω)} {past : List (Moment ω)}
    (hr : Run h (ofPrograms r w programs) past m)
    (hwatched : ∀ e ∈ past, e.shared.registry.cache.isExempt n = false)
    (hkept : ∀ e ∈ past, e.removes n = false) :
    m.creations n ≤ 1 ∧ past.countP (fun e => (e.yield? n).isSome) ≤ 1 ∧
      ∀ (later earlier : List (Moment ω)) (e : Moment ω) (k : Name) (create : Callback) (fs : List (Frame ω)),
        past = later ++ e :: earlier →
        e.thread? = some ⟨.point (.start (.getOrCreate k create)), fs⟩ → e.shared.registry.canonical k = n →
        0 < (windows fs).countP (·.name == n) → later.countP (·.mover == e.mover) ≤ 3 →
        (m.step h e.mover).isSome = true ∧ ∃ t, m.threads[e.mover]? = some t ∧
          t.Rebuffed n create fs m.shared.registry.cache (later.countP (·.mover == e.mover)) := by
  have ho := ofPrograms_orderly r w programs
  have hm := ofPrograms_marked r w programs n
  refine ⟨(hm.run ho hr hwatched hkept).creations_le_one (ho.run hr).disciplined,
    (hr.yields_le_one ho hm hwatched hkept).1, ?_⟩
  intro later earlier e k create fs hpast he hk hpos hle
  subst hpast
  obtain ⟨next, h1, hs, h2⟩ := hr.cut_at
  have hsub : ∀ e' ∈ earlier, e' ∈ later ++ e :: earlier := fun e' he' => by simp [he']
  have ho1 := ho.run h1
  have hm1 := hm.run ho h1 (fun e' he' => hwatched e' (hsub e' he')) (fun e' he' => hkept e' (hsub e' he'))
  obtain ⟨s', t', hst, hnext⟩ := exists_of_step hs he
  cases hst
  have hmem : e ∈ later ++ e :: earlier := by simp
  have hm2 : next.Marked n :=
    hm1.step ho1.vacant ho1.disciplined hs he rfl (hwatched e hmem)
  have hsub' : ∀ e' ∈ later, e' ∈ later ++ e :: earlier := fun e' he' => by simp [he']
  have hfirst : (⟨.point (.await (.create (e.state.shared.registry.canonical k) create)), fs⟩ : Thread ω).Rebuffed n
      create fs next.shared.registry.cache 0 := by rw [← hk]; rfl
  obtain ⟨t, ht, hreb⟩ := h2.rebuffed (ho1.step hs) hm2 (fun e' he' => hwatched e' (hsub' e' he'))
    (fun e' he' => hkept e' (hsub' e' he')) hpos (by rw [hnext]; exact threads_set_self he) hfirst hle
  refine ⟨?_, t, ht, hreb⟩
  have hd := (ho.run hr).disciplined
  have hguards := (hd.seated e.mover t ht).guards_pos_of_creations (by rw [hreb.creations]; exact hpos)
  rw [hd.times e.mover t ht] at hguards
  have := hreb.step_isSome (h := h) (Mutex.admits_of_times_pos hguards) hpos
  unfold Machine.step
  rw [ht]
  simpa using this

/-- Callers whose creation of `a` asks for `a` again before it yields an instance. -/
def reentrantHost : Host Unit where
  program c _ :=
    if c = 0 then .request (.getOrCreate "a" 1) fun _ => .yield (some ⟨1, .unit⟩) else .yield none
  observe _ w := w

/-- Two such callers, taking their steps in turn. -/
def reentrantRun : List (Moment Unit) × Machine Unit :=
  let caller : Program Unit := .request (.getOrCreate "a" 0) fun _ => .finish (.ok .done)
  (ofPrograms {} () [caller, caller]).drive reentrantHost (List.replicate 24 [0, 1]).flatten []

theorem single_flight_reentrantRun :
    (∀ e ∈ reentrantRun.1, e.shared.registry.cache.isExempt "a" = false) ∧
      (∀ e ∈ reentrantRun.1, e.removes "a" = false) ∧
      reentrantRun.1.countP (fun e => (e.yield? "a").isSome) = 1 ∧
      reentrantRun.2.creations "a" ≤ 1 ∧ reentrantRun.1.countP (fun e => (e.yield? "a").isSome) ≤ 1 := by
  have hwatched : ∀ e ∈ reentrantRun.1, e.shared.registry.cache.isExempt "a" = false := by decide
  have hkept : ∀ e ∈ reentrantRun.1, e.removes "a" = false := by decide
  have h := Run.single_flight (Run.drive _ .start) hwatched hkept
  exact ⟨hwatched, hkept, by decide, h.1, h.2.1⟩

end Machine

end Singletons
