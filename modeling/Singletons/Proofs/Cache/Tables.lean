import Singletons.Proofs.Creation.SingleFlight

/-
The tables of the cache agree along every run: the names listed are those that are complete, in the order in
which they were first completed since they were last removed, and only complete names have a produced object.

A step completes one name at most (`completes?`) or removes some (`removes`), never both. `TableMove` says what
this does to the slots, to the list and to the produced objects; the history of a run (`completedAt?`) is then
compared with the list step by step.
-/

namespace Singletons

variable {ω : Type}

namespace Cache

variable {c c' : Cache} {n k : Name} {w : Window}

theorem contains_iff : c.contains n = true ↔ ∃ v, c.slots.get? n = some (.complete v) := by
  unfold contains
  rw [Option.isSome_iff_exists]
  exact exists_congr fun v => complete?_eq_some_iff

theorem contains_iff_lifecycle : c.contains n = true ↔ c.lifecycle n = .complete := by
  unfold contains complete? lifecycle
  cases c.slots.get? n with
  | none => simp
  | some x => cases x <;> simp [Slot.lifecycle]

theorem contains_congr (h : c'.slots.get? n = c.slots.get? n) : c'.contains n = c.contains n := by
  rw [Bool.eq_iff_iff, contains_iff, contains_iff, h]

/-- A slot that is not complete either before or after holds no singleton either way. -/
theorem contains_eq_of_not_complete (h : ∀ v, c.slots.get? n ≠ some (.complete v))
    (h' : ∀ v, c'.slots.get? n ≠ some (.complete v)) : c'.contains n = c.contains n := by
  rw [Bool.eq_iff_iff, contains_iff, contains_iff]
  exact ⟨fun ⟨v, hv⟩ => absurd hv (h' v), fun ⟨v, hv⟩ => absurd hv (h v)⟩

theorem contains_registerEarly (p : Callback) : (c.registerEarly k p).contains n = c.contains n := by
  rw [Bool.eq_iff_iff, contains_iff, contains_iff, get?_registerEarly]
  split
  · cases c.slots.get? n with
    | none => simp [Slot.withProducer]
    | some x => cases x <;> simp [Slot.withProducer]
  · exact Iff.rfl

theorem contains_openWindow (h : c.openWindow k = .ok (w, c')) : c'.contains n = c.contains n := by
  rcases (get?_openWindow (n := n) h).2 with ⟨-, hfree, hget⟩ | ⟨-, hget⟩
  · by_cases hn : n = k
    · subst hn
      rw [if_pos rfl] at hget
      refine contains_eq_of_not_complete (fun v hv => ?_) (by simp [hget])
      have := hfree _ hv
      cases this
    · rw [if_neg hn] at hget
      exact contains_congr hget
  · exact contains_congr hget

theorem contains_abandon : (c.abandon w).1.contains n = c.contains n := by
  rcases (get?_abandon (c := c) (n := n) (w := w)).1 with hget | ⟨-, ⟨e, he⟩, hget⟩
  · exact contains_congr hget
  · exact contains_eq_of_not_complete (by simp [he]) (by simp [hget])

theorem contains_restore (p : Callback) (h : c.slots.get? k = none) : (c.restore k p).contains n = c.contains n := by
  have hget := get?_restore (c := c) (n := n) (k := k) p
  by_cases hn : n = k
  · subst hn
    rw [if_pos rfl] at hget
    exact contains_eq_of_not_complete (by simp [h]) (by simp [hget])
  · rw [if_neg hn] at hget
    exact contains_congr hget

theorem contains_expose (v : Value) : (c.expose k v).2.contains n = c.contains n := by
  rcases get?_expose (c := c) (n := n) (k := k) v with hget | ⟨-, ⟨p, hp⟩, hget⟩
  · exact contains_congr hget
  · exact contains_eq_of_not_complete (by simp [hp]) (by simp [hget])

/-- The list and the produced objects stay as they are while a creation opens. -/
theorem tables_openWindow (h : c.openWindow k = .ok (w, c')) :
    c'.completed = c.completed ∧ c'.produced = c.produced := by
  rw [(openWindow_eq h).2]
  exact ⟨rfl, rfl⟩

theorem tables_abandon : (c.abandon w).1.completed = c.completed ∧ (c.abandon w).1.produced = c.produced := by
  rw [abandon_eq]
  exact ⟨rfl, rfl⟩

theorem tables_expose (v : Value) :
    (c.expose k v).2.completed = c.completed ∧ (c.expose k v).2.produced = c.produced := by
  unfold expose
  split <;> exact ⟨rfl, rfl⟩

theorem tables_suppress (f : Failure) :
    (c.suppress f).2.completed = c.completed ∧ (c.suppress f).2.produced = c.produced := by
  unfold suppress
  split <;> exact ⟨rfl, rfl⟩

/-- A creation that ends with a value completes its name and leaves the produced objects. -/
theorem tables_closeWith (v : Value) :
    (c.closeWith w v).completed = c.completed.add w.name ∧ (c.closeWith w v).produced = c.produced := by
  unfold closeWith
  dsimp only
  split <;> exact ⟨rfl, rfl⟩

theorem names_add (k : Name) :
    (c.completed.add k).names = c.names ++ (Option.some k).toList.filter (fun n => decide (n ∉ c.names)) := by
  rw [Roster.names_add]
  by_cases hk : k ∈ c.completed.names
  · have hnone : (Option.some k).toList.filter (fun n => decide (n ∉ c.names)) = [] := by simp [Cache.names, hk]
    rw [if_pos hk, hnone, List.append_nil]
    rfl
  · have hone : (Option.some k).toList.filter (fun n => decide (n ∉ c.names)) = [k] := by simp [Cache.names, hk]
    rw [if_neg hk, hone]
    rfl

end Cache

namespace Thread

/-- The name that the next step of a thread completes, given the registry. -/
def completes? (r : Registry) (t : Thread ω) : Option Name :=
  match t with
  | ⟨.point (.start (.change (.registerSingleton n _))), _⟩ =>
    if r.cache.contains (r.canonical n) then none else some (r.canonical n)
  | ⟨.reply (.ok _), .creating w _ :: _⟩ => some w.name
  | _ => none

/-- What a step does to the three tables: a name that it removes leaves all of them, a name that it completes
is listed at the end unless it was listed already, and objects are kept for complete names only. -/
structure TableMove (s s' : Shared ω) (t : Thread ω) : Prop where
  names : s'.registry.cache.names = s.registry.cache.names.filter (fun n => !t.removes s.registry n) ++
    (t.completes? s.registry).toList.filter (fun n => decide (n ∉ s.registry.cache.names))
  complete : ∀ n, s'.registry.cache.contains n = true ↔
    t.completes? s.registry = some n ∨ (s.registry.cache.contains n = true ∧ t.removes s.registry n = false)
  kept : ∀ n, (s'.registry.cache.produced? n).isSome = true → t.removes s.registry n = false ∧
    ((s.registry.cache.produced? n).isSome = true ∨ s.registry.cache.contains n = true)

variable {h : Host ω} {id : ThreadId} {s s' : Shared ω} {t t' : Thread ω} {k : Name} {fs : List (Frame ω)}

theorem filter_kept {r : Registry} (hk : ∀ n, t.removes r n = false) (names : List Name) :
    names.filter (fun n => !t.removes r n) = names :=
  List.filter_eq_self.2 fun n _ => by rw [hk n]; rfl

namespace TableMove

/-- A step that completes and removes nothing. -/
theorem still (hc : t.completes? s.registry = none) (hk : ∀ n, t.removes s.registry n = false)
    (completed : s'.registry.cache.completed = s.registry.cache.completed)
    (complete : ∀ n, s'.registry.cache.contains n = s.registry.cache.contains n)
    (produced : ∀ n, (s'.registry.cache.produced? n).isSome = true →
      (s.registry.cache.produced? n).isSome = true ∨ s.registry.cache.contains n = true) : TableMove s s' t := by
  refine ⟨?_, fun n => ?_, fun n hn => ⟨hk n, produced n hn⟩⟩
  · rw [filter_kept hk, hc, Cache.names, completed]
    exact (List.append_nil _).symm
  · simp [complete, hc, hk]

/-- A step that leaves the three tables. -/
theorem same (hc : t.completes? s.registry = none) (hk : ∀ n, t.removes s.registry n = false)
    (slots : s'.registry.cache.slots = s.registry.cache.slots)
    (tables : s'.registry.cache.completed = s.registry.cache.completed ∧
      s'.registry.cache.produced = s.registry.cache.produced) : TableMove s s' t :=
  .still hc hk tables.1 (fun _ => Cache.contains_congr (by rw [slots])) fun n hn => by
    rw [Cache.produced?, tables.2] at hn
    exact .inl hn

theorem unmoved (hc : t.completes? s.registry = none) (hk : ∀ n, t.removes s.registry n = false)
    (cache : s'.registry.cache = s.registry.cache) : TableMove s s' t :=
  .same hc hk (by rw [cache]) (by rw [cache]; exact ⟨rfl, rfl⟩)

/-- A step that completes a name. -/
theorem complete_ (v : Value) (hc : t.completes? s.registry = some k) (hk : ∀ n, t.removes s.registry n = false)
    (slots : ∀ n, s'.registry.cache.slots.get? n =
      if n = k then some (.complete v) else s.registry.cache.slots.get? n)
    (tables : s'.registry.cache.completed = s.registry.cache.completed.add k ∧
      s'.registry.cache.produced = s.registry.cache.produced) : TableMove s s' t := by
  refine ⟨?_, fun n => ?_, fun n hn => ⟨hk n, .inl ?_⟩⟩
  · rw [Cache.names, tables.1, Cache.names_add, hc, filter_kept hk]
  · rw [Cache.contains_iff, slots, hc, hk]
    by_cases hn : n = k
    · simp [hn]
    · simp [hn, Ne.symm hn, Cache.contains_iff]
  · rw [Cache.produced?, tables.2] at hn
    exact hn

theorem remove (hc : t.completes? s.registry = none) (hk : ∀ n, t.removes s.registry n = (k == n))
    (cache : s'.registry.cache = s.registry.cache.remove k) : TableMove s s' t := by
  have hne : ∀ n, t.removes s.registry n = false ↔ n ≠ k := fun n => by
    rw [hk, beq_eq_false_iff_ne, ne_comm]
  refine ⟨?_, fun n => ?_, fun n hn => ?_⟩
  · rw [cache, hc, Option.toList_none, List.filter_nil, List.append_nil]
    refine List.filter_congr fun n _ => ?_
    rw [Bool.eq_iff_iff, Bool.not_eq_true', hne, decide_eq_true_iff]
  · rw [cache, Cache.contains_iff, Cache.get?_remove, hc, hne]
    by_cases hn : n = k
    · simp [hn]
    · simp [hn, Cache.contains_iff]
  · rw [cache] at hn
    have hn : ((s.registry.cache.produced.erase k).get? n).isSome = true := hn
    rw [Table.get?_erase] at hn
    rw [hne]
    by_cases hnk : n = k
    · rw [if_pos hnk] at hn; cases hn
    · rw [if_neg hnk] at hn; exact ⟨hnk, .inl hn⟩

theorem clear (reset : Bool) (hc : t.completes? s.registry = none) (hk : ∀ n, t.removes s.registry n = true)
    (cache : s'.registry.cache = s.registry.cache.clear reset) : TableMove s s' t := by
  refine ⟨?_, fun n => ?_, fun n hn => ?_⟩
  · simp [cache, hc, hk, Cache.clear, Cache.names]
  · rw [cache, hc, hk, Cache.contains_iff]
    simp [Cache.clear]
  · rw [cache] at hn
    cases hn

end TableMove

theorem tableMove_change {c : Change} (registry : s'.registry = (c.apply s.registry).registry) :
    TableMove s s' ⟨.point (.start (.change c)), fs⟩ := by
  cases c with
  | registerSingleton k v =>
    cases hr : s.registry.cache.register (s.registry.canonical k) v with
    | error f =>
      have hbound : s.registry.cache.contains (s.registry.canonical k) = true := by
        unfold Cache.register at hr
        split at hr
        · assumption
        · cases hr
      have hcache : s'.registry.cache = s.registry.cache := by simp only [registry, Change.apply, hr]
      exact .unmoved (by simp [completes?, hbound]) (fun _ => rfl) hcache
    | ok cache =>
      have hcache : s'.registry.cache = cache := by simp only [registry, Change.apply, hr]
      have hfree : s.registry.cache.contains (s.registry.canonical k) = false := by
        simp [Cache.contains, (Cache.get?_register (n := k) hr).1]
      refine .complete_ (k := s.registry.canonical k) v (by simp [completes?, hfree]) (fun _ => rfl)
        (fun n => by rw [hcache]; exact (Cache.get?_register hr).2) ?_
      unfold Cache.register at hr
      rw [hfree] at hr
      cases hr
      rw [hcache]
      exact ⟨rfl, rfl⟩
  | registerEarly k p =>
    refine .still rfl (fun _ => rfl) (by rw [registry]; rfl) (fun n => ?_) fun n hn => .inl ?_
    · rw [registry]; exact Cache.contains_registerEarly p
    · rw [registry] at hn; exact hn
  | removeSingleton k => exact .remove rfl (fun _ => rfl) (by rw [registry]; rfl)
  | evict k => exact .remove rfl (fun _ => rfl) (by rw [registry]; rfl)
  | clear reset => exact .clear reset rfl (fun _ => rfl) (by rw [registry]; rfl)
  | suppress f =>
    refine .same rfl (fun _ => rfl) ?_ ?_
    · rw [registry]; exact Cache.slots_suppress f
    · rw [registry]; exact Cache.tables_suppress f
  | registerAlias k a =>
    have hcache : s'.registry.cache = s.registry.cache := by rw [registry]; simp only [Change.apply]; split <;> rfl
    exact .unmoved rfl (fun _ => rfl) hcache
  | removeAlias a =>
    have hcache : s'.registry.cache = s.registry.cache := by rw [registry]; simp only [Change.apply]; split <;> rfl
    exact .unmoved rfl (fun _ => rfl) hcache
  | resolveAliases f =>
    have hcache : s'.registry.cache = s.registry.cache := by rw [registry]; simp only [Change.apply]; split <;> rfl
    exact .unmoved rfl (fun _ => rfl) hcache
  | _ => exact .same rfl (fun _ => rfl) (by rw [registry]; rfl) (by rw [registry]; exact ⟨rfl, rfl⟩)

theorem tableMove_task {task : Task} {rest tasks : List Task} {events : List Event}
    (course : task.course s.registry = .on s'.registry tasks events) :
    TableMove s s' ⟨.point (.agenda (task :: rest)), fs⟩ := by
  cases task with
  | destroy k =>
    injection course with hr
    exact .remove rfl (fun _ => rfl) (by rw [← hr])
  | empty =>
    injection course with hr
    exact .clear s.registry.reopen rfl (fun _ => rfl) (by rw [← hr])
  | dispose k d => cases course
  | _ =>
    injection course with hr
    exact .unmoved rfl (fun _ => rfl) (by rw [← hr])

theorem tableMove_created {w : Cache.Window} {c : Callback} {a : Answer}
    (cache : s'.registry.cache = s.registry.cache.closeWith w a.toValue) :
    TableMove s s' ⟨.reply (.ok a), .creating w c :: fs⟩ :=
  .complete_ a.toValue rfl (fun _ => rfl) (fun n => by rw [cache]; exact Cache.get?_closeWith)
    (by rw [cache]; exact Cache.tables_closeWith _)

/-- A step that is neither a change nor the end of a creation with a value completes and removes nothing,
unless it is a task of a teardown. -/
theorem tableMove_of_deed (hd : Deed h id s t s' t')
    (hvacant : ∀ n, t.isRestoring n = true → s.registry.cache.slots.get? n = none)
    (hchange : ∀ c fs, t ≠ ⟨.point (.start (.change c)), fs⟩)
    (hcreated : ∀ a w c fs, t ≠ ⟨.reply (.ok a), .creating w c :: fs⟩) : TableMove s s' t := by
  have hc : t.completes? s.registry = none := by
    unfold completes?
    split
    · exact absurd rfl (hchange _ _)
    · exact absurd rfl (hcreated _ _ _ _)
    · rfl
  have hk : (∀ tasks, t.control ≠ .point (.agenda tasks)) → ∀ n, t.removes s.registry n = false := by
    intro hagenda n
    obtain ⟨control, frames⟩ := t
    unfold removes
    dsimp only at hagenda ⊢
    split <;> first | rfl | exact absurd rfl (hchange _ _) | exact absurd rfl (hagenda _)
  cases hd with
  | idle registry before after open_ torn =>
    obtain ⟨b, hb⟩ := registry
    refine .unmoved hc (hk fun tasks heq => ?_) (by rw [hb])
    rw [heq] at before
    cases before
  | change c fs admitted registry => exact absurd rfl (hchange c fs)
  | created w c a fs registry => exact absurd rfl (hcreated a w c fs)
  | task task rest tasks events fs admitted course => exact tableMove_task course
  | close fs admitted registry =>
    exact .same hc (hk (by simp)) (by rw [registry]; rfl) (by rw [registry]; exact ⟨rfl, rfl⟩)
  | plan tasks fs registry origin =>
    refine .unmoved hc (hk ?_) (by rw [registry])
    rcases origin with ⟨n, rfl, -⟩ | ⟨rfl, -⟩ <;> simp
  | dispose k d rest fs registry => exact .unmoved hc (fun _ => rfl) (by rw [registry])
  | ended fs registry => exact .unmoved hc (fun _ => rfl) (by rw [registry])
  | disposed r k d rest fs registry => exact .unmoved hc (hk (by simp)) (by rw [registry])
  | dropped text k d rest fs registry => exact .unmoved hc (hk (by simp)) (by rw [registry])
  | create k c w cache fs incomplete accepting opens registry =>
    have hcache : s'.registry.cache = cache := by rw [registry]
    obtain ⟨hcompleted, hproduced⟩ := Cache.tables_openWindow opens
    refine .still hc (hk (by simp)) (by rw [hcache, hcompleted]) (fun n => ?_) fun n hn => .inl ?_
    · rw [hcache]; exact Cache.contains_openWindow opens
    · rwa [hcache, Cache.produced?, hproduced] at hn
  | abandoned w c r fs failed registry reply =>
    have hcache : s'.registry.cache = (s.registry.cache.abandon w).1 := by rw [registry]
    refine .still hc (hk (by simp)) (by rw [hcache, Cache.tables_abandon.1]) (fun n => ?_) fun n hn => .inl ?_
    · rw [hcache]; exact Cache.contains_abandon
    · rwa [hcache, Cache.produced?, Cache.tables_abandon.2] at hn
  | restore k p r fs registry =>
    have hcache : s'.registry.cache = s.registry.cache.restore k p := by rw [registry]
    refine .still hc (hk (by simp)) (by rw [hcache]; rfl) (fun n => ?_) fun n hn => .inl ?_
    · rw [hcache]; exact Cache.contains_restore p (hvacant k (by simp [isRestoring]))
    · rw [hcache] at hn; exact hn
  | expose k p a fs registry =>
    have hcache : s'.registry.cache = (s.registry.cache.expose k a.toValue).2 := by rw [registry]
    refine .still hc (hk (by simp)) (by rw [hcache, (Cache.tables_expose _).1]) (fun n => ?_) fun n hn => .inl ?_
    · rw [hcache]; exact Cache.contains_expose _
    · rwa [hcache, Cache.produced?, (Cache.tables_expose _).2] at hn
  | keep r f fs produced inHook inner other registry after open_ torn table =>
    refine .still hc (hk (by simp)) (by rw [registry]) (fun n => Cache.contains_congr (by rw [registry])) fun n hn => ?_
    have hn : (produced.get? n).isSome = true := by rw [registry] at hn; exact hn
    rcases table with rfl | ⟨k, v, hcontains, rfl⟩
    · exact .inl hn
    · rw [Table.get?_insert] at hn
      split at hn
      · rename_i hnk; exact .inr (hnk ▸ hcontains)
      · exact .inl hn

theorem step_tableMove (hs : t.step h id s = some (s', t'))
    (hvacant : ∀ n, t.isRestoring n = true → s.registry.cache.slots.get? n = none) : TableMove s s' t := by
  by_cases hchange : ∃ c fs, t = ⟨.point (.start (.change c)), fs⟩
  · obtain ⟨c, fs, rfl⟩ := hchange
    exact tableMove_change (registry_of_change hs)
  · by_cases hcreated : ∃ a w c fs, t = ⟨.reply (.ok a), .creating w c :: fs⟩
    · obtain ⟨a, w, c, fs, rfl⟩ := hcreated
      cases hs
      exact tableMove_created rfl
    · exact tableMove_of_deed (step_deed hs) hvacant (fun c fs heq => hchange ⟨c, fs, heq⟩)
        fun a w c fs heq => hcreated ⟨a, w, c, fs, heq⟩

end Thread

namespace Moment

/-- The name that the step from a moment completes. -/
def completes? (e : Moment ω) : Option Name := e.thread?.bind (·.completes? e.shared.registry)

/-- When a name was first completed since it was last removed: the number of steps before, for a run whose
moments are given, the latest first. -/
def completedAt? (n : Name) : List (Moment ω) → Option Nat
  | [] => none
  | e :: past =>
    if e.removes n then none
    else (completedAt? n past).or (if e.completes? = some n then some past.length else none)

/-- Whether `a` was completed before `b` was, where only what follows their last removal counts. -/
def CompletedBefore (past : List (Moment ω)) (a b : Name) : Prop :=
  ∃ i j, completedAt? a past = some i ∧ completedAt? b past = some j ∧ i < j

variable {e : Moment ω} {past : List (Moment ω)} {n a b : Name} {i : Nat}

theorem completes?_eq {m : Machine ω} {id : ThreadId} {t : Thread ω} (ht : m.threads[id]? = some t) :
    (⟨m, id⟩ : Moment ω).completes? = t.completes? m.shared.registry := by
  simp only [completes?, thread?, ht, Option.bind_some, shared]

theorem lt_length_of_completedAt? : ∀ {past : List (Moment ω)}, completedAt? n past = some i → i < past.length
  | [], h => by cases h
  | e :: past, h => by
    unfold completedAt? at h
    split at h
    · cases h
    · rcases Option.or_eq_some_iff.1 h with h | ⟨-, h⟩
      · have := lt_length_of_completedAt? h
        rw [List.length_cons]
        omega
      · split at h
        · cases h
          rw [List.length_cons]
          omega
        · cases h

theorem completedAt?_cons (hk : e.removes n = false) (h : completedAt? n past = some i) :
    completedAt? n (e :: past) = some i := by
  unfold completedAt?
  rw [hk, h]
  rfl

theorem isSome_completedAt?_cons : (completedAt? n (e :: past)).isSome = true ↔
    e.removes n = false ∧ ((completedAt? n past).isSome = true ∨ e.completes? = some n) := by
  rw [completedAt?]
  cases e.removes n with
  | true => simp
  | false => by_cases hc : e.completes? = some n <;> simp [hc]

end Moment

namespace Thread

/-- A step that completes a name removes none. -/
theorem removes_of_completes? {r : Registry} {t : Thread ω} {n k : Name} (hc : t.completes? r = some k) :
    t.removes r n = false := by
  unfold completes? at hc
  split at hc
  · rfl
  · rfl
  · cases hc

theorem TableMove.mem_names {s s' : Shared ω} {t : Thread ω} (hm : TableMove s s' t) (n : Name) :
    n ∈ s'.registry.cache.names ↔
      t.removes s.registry n = false ∧ (n ∈ s.registry.cache.names ∨ t.completes? s.registry = some n) := by
  rw [hm.names, List.mem_append, List.mem_filter, List.mem_filter, Option.mem_toList,
    Bool.not_eq_true', decide_eq_true_iff]
  constructor
  · rintro (⟨hn, hk⟩ | ⟨hc, -⟩)
    · exact ⟨hk, .inl hn⟩
    · exact ⟨removes_of_completes? hc, .inr hc⟩
  · rintro ⟨hk, hn | hc⟩
    · exact .inl ⟨hn, hk⟩
    · by_cases hn : n ∈ s.registry.cache.names
      · exact .inl ⟨hn, hk⟩
      · exact .inr ⟨hc, hn⟩

end Thread

namespace Machine

open Moment (completedAt? CompletedBefore)

/-- The tables of the cache agree with one another and with the past. -/
structure Tabled (past : List (Moment ω)) (m : Machine ω) : Prop where
  listed : ∀ n, n ∈ m.shared.registry.cache.names ↔ m.shared.registry.cache.contains n = true
  timed : ∀ n, n ∈ m.shared.registry.cache.names ↔ (completedAt? n past).isSome = true
  ordered : m.shared.registry.cache.names.Pairwise (CompletedBefore past)
  kept : ∀ n, (m.shared.registry.cache.produced? n).isSome = true → m.shared.registry.cache.contains n = true

variable {h : Host ω} {start m m' : Machine ω} {id : ThreadId} {past : List (Moment ω)}

/-- Names that stay keep their order, and a name that is completed for the first time comes last. -/
theorem pairwise_completedBefore {stay new : List Name} {e : Moment ω} (ordered : stay.Pairwise (CompletedBefore past))
    (hstay : ∀ n ∈ stay, e.removes n = false ∧ (completedAt? n past).isSome = true)
    (hnew : ∀ n ∈ new, e.removes n = false ∧ e.completes? = some n ∧ completedAt? n past = none)
    (hone : new.length ≤ 1) : (stay ++ new).Pairwise (CompletedBefore (e :: past)) := by
  rw [List.pairwise_append]
  refine ⟨ordered.imp_of_mem fun {a b} ha hb hab => ?_, ?_, fun a ha b hb => ?_⟩
  · obtain ⟨i, j, hi, hj, hij⟩ := hab
    exact ⟨i, j, Moment.completedAt?_cons (hstay a ha).1 hi, Moment.completedAt?_cons (hstay b hb).1 hj, hij⟩
  · match new, hone with
    | [], _ => exact .nil
    | [n], _ => exact List.pairwise_singleton ..
  · obtain ⟨hkept, htimed⟩ := hstay a ha
    obtain ⟨i, hi⟩ := Option.isSome_iff_exists.1 htimed
    obtain ⟨hk, hc, hfresh⟩ := hnew b hb
    refine ⟨i, past.length, Moment.completedAt?_cons hkept hi, ?_, Moment.lt_length_of_completedAt? hi⟩
    simp [completedAt?, hk, hc, hfresh]

theorem Tabled.step (ht : m.Tabled past) (ho : m.Orderly) (hs : m.step h id = some m') :
    m'.Tabled (⟨m, id⟩ :: past) := by
  obtain ⟨t, s', t', hid, hst, rfl⟩ := step_eq_some_iff.1 hs
  have hm := Thread.step_tableMove hst fun n => ho.vacant id t n hid
  have hk := Moment.removes_eq hid
  have hc := Moment.completes?_eq hid
  refine ⟨fun n => ?_, fun n => ?_, ?_, fun n hn => ?_⟩
  · rw [hm.mem_names, hm.complete, ht.listed]
    constructor
    · rintro ⟨hk, hn | hc⟩
      · exact .inr ⟨hn, hk⟩
      · exact .inl hc
    · rintro (hc | ⟨hn, hk⟩)
      · exact ⟨Thread.removes_of_completes? hc, .inr hc⟩
      · exact ⟨hk, .inl hn⟩
  · rw [hm.mem_names, Moment.isSome_completedAt?_cons, hk, hc, ht.timed]
  · show s'.registry.cache.names.Pairwise _
    rw [hm.names]
    refine pairwise_completedBefore (ht.ordered.sublist List.filter_sublist) (fun n hn => ?_) (fun n hn => ?_) ?_
    · rw [List.mem_filter, Bool.not_eq_true'] at hn
      exact ⟨by rw [hk]; exact hn.2, (ht.timed n).1 hn.1⟩
    · rw [List.mem_filter, Option.mem_toList, decide_eq_true_iff, ht.timed, Option.not_isSome_iff_eq_none] at hn
      exact ⟨by rw [hk]; exact Thread.removes_of_completes? hn.1, by rw [hc]; exact hn.1, hn.2⟩
    · refine Nat.le_trans (List.length_filter_le ..) ?_
      cases t.completes? m.shared.registry <;> simp
  · obtain ⟨hk, hn⟩ := hm.kept n hn
    exact (hm.complete n).2 (.inr ⟨hn.elim (ht.kept n) fun hn => hn, hk⟩)

theorem ofPrograms_tabled (r : Registry) (w : ω) (programs : List (Program ω)) :
    (ofPrograms { r with cache := {} } w programs).Tabled [] := by
  refine ⟨fun n => ⟨fun hn => ?_, fun hn => ?_⟩, fun n => ⟨fun hn => ?_, fun hn => ?_⟩, .nil, fun n hn => ?_⟩ <;>
    cases hn

theorem Tabled.run {r : Registry} {w : ω} {programs : List (Program ω)}
    (hr : Run h (ofPrograms { r with cache := {} } w programs) past m) : m.Tabled past := by
  induction hr with
  | start => exact ofPrograms_tabled ..
  | step id hr hs ih => exact ih.step ((ofPrograms_orderly ..).run hr) hs

/-- The tables of the cache agree in every state that requests lead to from a registry without singletons.
The names listed are the complete ones, each once, and they are those that have been completed since they
were last removed, in the order in which that first happened; there are as many as the count says; and a
produced object is kept for complete names only. Queries for the names and for their number are answered from
these tables. -/
theorem Run.tables_agree {r : Registry} {w : ω} {programs : List (Program ω)}
    (hr : Run h (ofPrograms { r with cache := {} } w programs) past m) :
    (∀ n, n ∈ m.shared.registry.cache.names ↔ m.shared.registry.cache.lifecycle n = .complete) ∧
      m.shared.registry.cache.names.Nodup ∧
      (∀ n, n ∈ m.shared.registry.cache.names ↔ (completedAt? n past).isSome = true) ∧
      m.shared.registry.cache.names.Pairwise (CompletedBefore past) ∧
      m.shared.registry.cache.count = m.shared.registry.cache.names.length ∧
      (∀ n v, m.shared.registry.cache.produced? n = some v → m.shared.registry.cache.lifecycle n = .complete) ∧
      Query.names.answer m.shared.registry = .names m.shared.registry.cache.names ∧
      Query.count.answer m.shared.registry = .number m.shared.registry.cache.names.length := by
  have ht := Tabled.run hr
  refine ⟨fun n => ?_, m.shared.registry.cache.completed.nodup, ht.timed, ht.ordered, rfl, fun n v hv => ?_, rfl, rfl⟩
  · rw [ht.listed, Cache.contains_iff_lifecycle]
  · rw [← Cache.contains_iff_lifecycle]
    exact ht.kept n (by rw [hv]; rfl)

/-- Callbacks: one registers `c` and removes `a` before it yields an instance, the other one yields none. -/
def reorderingHost : Host Unit where
  program c _ :=
    if c = 0 then
      .request (.change (.registerSingleton "c" none)) fun _ =>
        .request (.change (.removeSingleton "a")) fun _ => .yield (some ⟨1, .unit⟩)
    else .yield none
  observe _ w := w

/-- A caller that registers `a` and `b`, has `c` made, registers `a` again and asks for what a producer yields
under `b`. -/
def reorderingCaller : Program Unit :=
  [.change (.registerSingleton "a" none), .change (.registerSingleton "b" none), .getOrCreate "c" 0,
    .change (.registerSingleton "a" none), .yielded ⟨1, true, none⟩ "b" true false].foldr
    (fun request rest => .request request fun _ => rest) (.finish (.ok .done))

def reorderedRun : List (Moment Unit) × Machine Unit :=
  (ofPrograms {} () [reorderingCaller]).drive reorderingHost (List.replicate 40 0) []

/-- The name `a` has lost its place at the head of the list, and `c` is listed where it was when its creation
had not yet ended. -/
theorem tables_agree_reorderedRun :
    reorderedRun.2.isOver = true ∧ reorderedRun.2.shared.registry.cache.names = ["b", "c", "a"] ∧
      ["b", "c", "a"].Pairwise (CompletedBefore reorderedRun.1) ∧
      (reorderedRun.2.shared.registry.cache.produced? "b").isSome = true ∧
      reorderedRun.2.shared.registry.cache.lifecycle "b" = .complete ∧
      Query.names.answer reorderedRun.2.shared.registry = .names ["b", "c", "a"] ∧
      Query.count.answer reorderedRun.2.shared.registry = .number 3 := by
  have hrun : Run reorderingHost (ofPrograms {} () [reorderingCaller]) reorderedRun.1 reorderedRun.2 := .drive _ .start
  have hnames : reorderedRun.2.shared.registry.cache.names = ["b", "c", "a"] := by decide
  have hkept : (reorderedRun.2.shared.registry.cache.produced? "b").isSome = true := by decide
  obtain ⟨v, hv⟩ := Option.isSome_iff_exists.1 hkept
  obtain ⟨-, -, -, hordered, -, hproduced, hlisted, hcounted⟩ := Run.tables_agree (r := {}) hrun
  rw [hnames] at hordered hlisted hcounted
  exact ⟨by decide, hnames, hordered, hkept, hproduced "b" v hv, hlisted, hcounted⟩

end Machine

end Singletons
