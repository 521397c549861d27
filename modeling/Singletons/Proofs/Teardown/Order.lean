import Singletons.Proofs.Teardown.Closure

/-
The order of a teardown. While the dependents of a name are destroyed, the name waits with its disposal
callback still to be called. If its own dependents lead, over dependents and parts, to a name that it
depends on, that name is disposed of too early (`Crossed`). Otherwise every callback is called after those
of all dependents (`Destroys.paced`), wherever the teardown begins.

The invariant (`Paced`) tells the names seen so far from those among them that wait: a seen name that does
not wait has no dependent, direct or not, whose callback is still to come.
-/

namespace Singletons

namespace Graph

variable {g : Graph} {a b : Name}

/-- Whether `b` is recorded to depend on `a`. -/
def HasDependent (g : Graph) (a b : Name) : Prop := (a, b) ∈ g.dependents.pairs

/-- Whether `b` depends on `a`, directly or through others. -/
def Depends (g : Graph) (b a : Name) : Prop := Relation.TransGen g.HasDependent a b

/-- A name depends on another that its own dependents lead to. -/
def Crossed (g : Graph) : Prop := ∃ a b x, g.Depends b a ∧ g.HasDependent b x ∧ g.Reaches x a

/-- Whether the callbacks of a list come in order: those of dependents before those of what they depend
on. -/
def InOrder (g : Graph) (log : List (Name × Callback)) : Prop :=
  ∀ (i j : Nat) (b a : Name) (d d' : Callback), log[i]? = some (b, d) → log[j]? = some (a, d') → g.Depends b a → i < j

/-- Without crossings nothing depends on itself. -/
theorem not_depends_self (hg : ¬ g.Crossed) : ¬ g.Depends a a := by
  intro ha
  obtain ⟨x, hax, hxa⟩ := Relation.TransGen.head'_iff.1 ha
  exact hg ⟨a, a, x, ha, hax, Relation.ReflTransGen.mono (fun _ _ h => .inl h) _ _ hxa⟩

theorem inOrder_of_pairwise (hg : ¬ g.Crossed) {log : List (Name × Callback)}
    (hlog : log.Pairwise fun e e' => ¬ g.Depends e'.1 e.1) : g.InOrder log := by
  intro i j b a d d' hi hj hba
  obtain ⟨hilt, hi⟩ := List.getElem?_eq_some_iff.1 hi
  obtain ⟨hjlt, hj⟩ := List.getElem?_eq_some_iff.1 hj
  rcases Nat.lt_trichotomy i j with hlt | rfl | hlt
  · exact hlt
  · rw [hi] at hj
    cases hj
    exact absurd hba (not_depends_self hg)
  · have := List.pairwise_iff_getElem.1 hlog j i hjlt hilt hlt
    rw [hi, hj] at this
    exact absurd hba this

end Graph

/-- What holds between the stages of a teardown of `g`: some names were seen, and of these some wait for
their dependents. -/
structure Paced (g : Graph) (waiting seen : List Name) (r : Registry) : Prop where
  leads : ∀ a b, r.graph.Leads a b → g.Leads a b
  dependents : ∀ a b, r.graph.HasDependent a b → g.HasDependent a b
  seen_of_waiting : ∀ a ∈ waiting, a ∈ seen
  disposed : ∀ a ∈ seen, r.disposals.get? a = none
  /-- An edge to a dependent was taken out with one of its ends. -/
  taken : ∀ a b, g.HasDependent a b → r.graph.HasDependent a b ∨ a ∈ seen ∨ b ∈ seen
  /-- A name that does not wait has only dependents that were seen and do not wait either. -/
  settled : ∀ a ∈ seen, a ∈ waiting ∨
    ∀ b, Relation.ReflTransGen g.HasDependent a b → b ∈ seen ∧ b ∉ waiting

/-- What the destruction of some names adds: more names seen, and callbacks in order, each of a name that
is seen for the first time and does not wait any more. -/
structure Adds (g : Graph) (waiting seen seen' : List Name) (log : List (Name × Callback)) : Prop where
  grows : ∀ a ∈ seen, a ∈ seen'
  fresh : ∀ e ∈ log, e.1 ∉ seen ∧ e.1 ∈ seen' ∧ e.1 ∉ waiting
  ordered : log.Pairwise fun e e' => ¬ g.Depends e'.1 e.1

namespace Paced

variable {g : Graph} {waiting seen seen₁ seen₂ : List Name} {r r' : Registry} {c : Name}
  {log₁ log₂ : List (Name × Callback)}

/-- Nothing that is not seen yet depends on a name that was seen and does not wait. -/
theorem not_depends (hp : Paced g waiting seen r) {a b : Name} (ha : a ∈ seen) (hw : a ∉ waiting) (hb : b ∉ seen) :
    ¬ g.Depends b a := by
  intro hba
  rcases hp.settled a ha with h | h
  · exact hw h
  · exact hb (h b hba.to_reflTransGen).1

/-- The callbacks of one stage and of the next are in order. -/
theorem adds_append (hp : Paced g waiting seen₁ r) (h₁ : Adds g waiting seen seen₁ log₁)
    (h₂ : Adds g waiting seen₁ seen₂ log₂) : Adds g waiting seen seen₂ (log₁ ++ log₂) where
  grows a ha := h₂.grows a (h₁.grows a ha)
  fresh e he := by
    rcases List.mem_append.1 he with he | he
    · obtain ⟨hn, hs, hw⟩ := h₁.fresh e he
      exact ⟨hn, h₂.grows _ hs, hw⟩
    · obtain ⟨hn, hs, hw⟩ := h₂.fresh e he
      exact ⟨fun h => hn (h₁.grows _ h), hs, hw⟩
  ordered := by
    rw [List.pairwise_append]
    refine ⟨h₁.ordered, h₂.ordered, fun e he e' he' => ?_⟩
    obtain ⟨-, hs, hw⟩ := h₁.fresh e he
    exact hp.not_depends hs hw (h₂.fresh e' he').1

/-- Taking out edges from a name that was seen, or into it, changes nothing. -/
theorem of_graph (hp : Paced g waiting seen r) (hle : ∀ a b, r'.graph.Leads a b → r.graph.Leads a b)
    (hdependents : ∀ a b, r'.graph.HasDependent a b → r.graph.HasDependent a b)
    (hkept : ∀ a b, r.graph.HasDependent a b → r'.graph.HasDependent a b ∨ a ∈ seen ∨ b ∈ seen)
    (hdisposals : ∀ a ∈ seen, r.disposals.get? a = none → r'.disposals.get? a = none) :
    Paced g waiting seen r' where
  leads a b h := hp.leads a b (hle a b h)
  dependents a b h := hp.dependents a b (hdependents a b h)
  seen_of_waiting := hp.seen_of_waiting
  disposed a ha := hdisposals a ha (hp.disposed a ha)
  taken a b hab := by
    rcases hp.taken a b hab with h | h
    · exact hkept a b h
    · exact .inr h
  settled := hp.settled

/-- A name that is seen for the first time waits for its dependents. -/
theorem wait (hp : Paced g waiting seen r) (hc : c ∉ seen) :
    Paced g (c :: waiting) (c :: seen) ((r.forget c).withoutDependents c) where
  leads a b h := hp.leads a b (Destroys.leads_of_withoutDependents h)
  dependents a b h := hp.dependents a b ((Relation.mem_pairs_dropFrom ..).1 h).1
  seen_of_waiting := by
    intro a ha
    rcases List.mem_cons.1 ha with rfl | ha
    · exact List.mem_cons_self ..
    · exact List.mem_cons_of_mem _ (hp.seen_of_waiting a ha)
  disposed := by
    intro a ha
    show (r.disposals.erase c).get? a = none
    rw [Table.get?_erase]
    split
    · rfl
    · rename_i hac
      exact hp.disposed a ((List.mem_cons.1 ha).resolve_left hac)
  taken := by
    intro a b hab
    by_cases hac : a = c
    · exact .inr (.inl (by rw [hac]; exact List.mem_cons_self ..))
    · rcases hp.taken a b hab with h | h | h
      · exact .inl ((Relation.mem_pairs_dropFrom ..).2 ⟨h, hac⟩)
      · exact .inr (.inl (List.mem_cons_of_mem _ h))
      · exact .inr (.inr (List.mem_cons_of_mem _ h))
  settled := by
    intro a ha
    rcases List.mem_cons.1 ha with rfl | ha
    · exact .inl (List.mem_cons_self ..)
    · rcases hp.settled a ha with h | h
      · exact .inl (List.mem_cons_of_mem _ h)
      · refine .inr fun b hab => ?_
        obtain ⟨hb, hw⟩ := h b hab
        refine ⟨List.mem_cons_of_mem _ hb, ?_⟩
        rw [List.mem_cons]
        rintro (rfl | hbw)
        · exact hc hb
        · exact hw hbw

/-- A name that was seen before does not wait again. -/
theorem revisit (hp : Paced g waiting seen r) (hc : c ∈ seen) :
    Paced g waiting seen ((r.forget c).withoutDependents c) := by
  refine hp.of_graph (fun a b => Destroys.leads_of_withoutDependents)
    (fun a b h => ((Relation.mem_pairs_dropFrom ..).1 h).1) (fun a b h => ?_) fun a _ h => ?_
  · by_cases hac : a = c
    · exact .inr (.inl (hac ▸ hc))
    · exact .inl ((Relation.mem_pairs_dropFrom ..).2 ⟨h, hac⟩)
  · show (r.disposals.erase c).get? a = none
    rw [Table.get?_erase, h, ite_self]

theorem withoutParts (hp : Paced g waiting seen r) : Paced g waiting seen (r.withoutParts c) :=
  hp.of_graph (fun _ _ => Destroys.leads_of_withoutParts) (fun _ _ h => h) (fun _ _ h => .inl h) fun _ _ h => h

theorem purge (hp : Paced g waiting seen r) (hc : c ∈ seen) : Paced g waiting seen (r.purge c) := by
  refine hp.of_graph (fun _ _ => Destroys.leads_of_purge) (fun a b h => ((Relation.mem_pairs_dropInto ..).1 h).1)
    (fun a b h => ?_) fun _ _ h => h
  by_cases hbc : b = c
  · exact .inr (.inr (hbc ▸ hc))
  · exact .inl ((Relation.mem_pairs_dropInto ..).2 ⟨h, hbc⟩)

/-- Once its dependents were seen, a name that waited is settled: none of them waits, for a dependent that
waits would lead to the name and so cross it. -/
theorem settled_of_dependents (hp : Paced g (c :: waiting) seen₁ r) (hg : ¬ g.Crossed) (hc : c ∉ waiting)
    (hup : ∀ w ∈ waiting, ∃ x, g.HasDependent w x ∧ g.Reaches x c)
    (hseen : ∀ b, g.HasDependent c b → b ∈ seen₁) :
    ∀ b, Relation.ReflTransGen g.HasDependent c b → b ∈ seen₁ ∧ b ∉ waiting := by
  intro b hcb
  rcases Relation.ReflTransGen.cases_head hcb with rfl | ⟨x, hcx, hxb⟩
  · exact ⟨hp.seen_of_waiting c (List.mem_cons_self ..), hc⟩
  · rcases hp.settled x (hseen x hcx) with hx | hx
    · exfalso
      rcases List.mem_cons.1 hx with rfl | hx
      · exact hg ⟨x, x, x, .single hcx, hcx, .refl⟩
      · obtain ⟨y, hxy, hyc⟩ := hup x hx
        exact hg ⟨c, x, y, .single hcx, hxy, hyc⟩
    · obtain ⟨hb, hw⟩ := hx b hxb
      exact ⟨hb, fun h => hw (List.mem_cons_of_mem _ h)⟩

/-- The name stops waiting. -/
theorem proceed (hp : Paced g (c :: waiting) seen₁ r)
    (hc : ∀ b, Relation.ReflTransGen g.HasDependent c b → b ∈ seen₁ ∧ b ∉ waiting) :
    Paced g waiting seen₁ r where
  leads := hp.leads
  dependents := hp.dependents
  seen_of_waiting a ha := hp.seen_of_waiting a (List.mem_cons_of_mem _ ha)
  disposed := hp.disposed
  taken := hp.taken
  settled := by
    intro a ha
    rcases hp.settled a ha with h | h
    · rcases List.mem_cons.1 h with rfl | h
      · exact .inr hc
      · exact .inl h
    · refine .inr fun b hab => ?_
      obtain ⟨hb, hw⟩ := h b hab
      exact ⟨hb, fun h => hw (List.mem_cons_of_mem _ h)⟩

/-- The callback of a name comes after those of its dependents. -/
theorem adds_disposal (hp : Paced g (c :: waiting) seen₁ r) (hc : c ∉ seen) (hcw : c ∉ waiting)
    (h₁ : Adds g (c :: waiting) (c :: seen) seen₁ log₁) (d : Option Callback) :
    Adds g waiting seen seen₁ (log₁ ++ (d.map (c, ·)).toList) where
  grows a ha := h₁.grows a (List.mem_cons_of_mem _ ha)
  fresh e he := by
    rcases List.mem_append.1 he with he | he
    · obtain ⟨hn, hs, hw⟩ := h₁.fresh e he
      exact ⟨fun h => hn (List.mem_cons_of_mem _ h), hs, fun h => hw (List.mem_cons_of_mem _ h)⟩
    · obtain ⟨d, -, rfl⟩ := Option.map_eq_some_iff.1 (Option.mem_toList.1 he)
      exact ⟨hc, h₁.grows c (List.mem_cons_self ..), hcw⟩
  ordered := by
    rw [List.pairwise_append]
    refine ⟨h₁.ordered, by cases d <;> simp, fun e he e' he' hdep => ?_⟩
    obtain ⟨d, -, rfl⟩ := Option.map_eq_some_iff.1 (Option.mem_toList.1 he')
    obtain ⟨-, hs, hw⟩ := h₁.fresh e he
    rcases hp.settled e.1 hs with h | h
    · exact hw h
    · exact (h c hdep.to_reflTransGen).2 (List.mem_cons_self ..)

end Paced

theorem Adds.refl (g : Graph) (waiting seen : List Name) : Adds g waiting seen seen [] :=
  ⟨fun _ h => h, by simp, .nil⟩

namespace Destroys

variable {g : Graph} {waiting seen ns : List Name} {r r' : Registry} {log : List (Name × Callback)} {c : Name}

theorem aliases_eq (hd : Destroys r ns log r') : r'.aliases = r.aliases := by
  induction hd with
  | nil => rfl
  | cons _ _ _ _ ih₁ ih₂ ih₃ => rw [ih₃]; exact ih₂.trans ih₁

theorem canonical_eq (hd : Destroys r ns log r') (n : Name) : r'.canonical n = r.canonical n := by
  unfold Registry.canonical
  rw [hd.aliases_eq]

/-- Every name that waits leads, by way of one of its dependents, to the names to be destroyed next. -/
def LedTo (g : Graph) (r : Registry) (waiting ns : List Name) : Prop :=
  ∀ n ∈ ns, ∀ w ∈ waiting, ∃ x, g.HasDependent w x ∧ g.Reaches x (r.canonical n)

/-- Whoever leads to a name leads to its dependents and parts. -/
theorem LedTo.of_leads (hcanon : ∀ a b, g.Leads a b → r.canonical b = b)
    (hup : ∀ w ∈ waiting, ∃ x, g.HasDependent w x ∧ g.Reaches x c) {names : List Name}
    (hnames : ∀ b ∈ names, g.Leads c b) : LedTo g r waiting names := by
  intro b hb w hw
  obtain ⟨x, hwx, hxc⟩ := hup w hw
  have hcb := hnames b hb
  rw [hcanon c b hcb]
  exact ⟨x, hwx, hxc.tail hcb⟩

/-- The dependents of a name and its own callback keep the pace, if its dependents do by themselves. A name
that was seen before has no callback any more, and one that is seen for the first time waits for them. -/
theorem paced_disposal (hg : ¬ g.Crossed) (hcanon : ∀ a b, g.Leads a b → r.canonical b = b)
    (hp : Paced g waiting seen r) (hup : ∀ w ∈ waiting, ∃ x, g.HasDependent w x ∧ g.Reaches x c)
    (hdependents : ∀ {waiting seen : List Name}, Paced g waiting seen ((r.forget c).withoutDependents c) →
      LedTo g r waiting (r.graph.dependentsOf c) →
      ∃ seen₁, Paced g waiting seen₁ r' ∧ Adds g waiting seen seen₁ log ∧
        ∀ b ∈ r.graph.dependentsOf c, r.canonical b ∈ seen₁) :
    ∃ seen₁, Paced g waiting seen₁ r' ∧ Adds g waiting seen seen₁ (log ++ r.disposalOf c) ∧ c ∈ seen₁ := by
  have hleads : ∀ b ∈ r.graph.dependentsOf c, g.HasDependent c b := fun b hb =>
    hp.dependents c b ((Relation.mem_images ..).1 hb)
  have hbelow := LedTo.of_leads hcanon hup fun b hb => .inl (hleads b hb)
  by_cases hc : c ∈ seen
  · obtain ⟨seen₁, hp₁, hadds₁, -⟩ := hdependents (hp.revisit hc) hbelow
    have hnone : r.disposalOf c = [] := by
      unfold Registry.disposalOf
      rw [hp.disposed c hc]
      rfl
    rw [hnone, List.append_nil]
    exact ⟨seen₁, hp₁, hadds₁, hadds₁.grows c hc⟩
  · have hcw : c ∉ waiting := fun h => hc (hp.seen_of_waiting c h)
    have hbelow' : LedTo g r (c :: waiting) (r.graph.dependentsOf c) := by
      intro b hb w hw
      rcases List.mem_cons.1 hw with rfl | hw
      · refine ⟨b, hleads b hb, ?_⟩
        rw [hcanon w b (.inl (hleads b hb))]
        exact .refl
      · exact hbelow b hb w hw
    obtain ⟨seen₁, hp₁, hadds₁, hseen⟩ := hdependents (hp.wait hc) hbelow'
    have hall : ∀ b, g.HasDependent c b → b ∈ seen₁ := by
      intro b hcb
      rcases hp.taken c b hcb with h | h | h
      · have hb := hseen b ((Relation.mem_images ..).2 h)
        rwa [hcanon c b (.inl hcb)] at hb
      · exact absurd h hc
      · exact hadds₁.grows b (List.mem_cons_of_mem _ h)
    have hsettled := hp₁.settled_of_dependents hg hcw hup hall
    exact ⟨seen₁, hp₁.proceed hsettled, hp₁.adds_disposal hc hcw hadds₁ (r.disposals.get? c),
      hadds₁.grows c (List.mem_cons_self ..)⟩

/-- A destruction keeps the pace, provided that every name that waits leads to the names asked for. -/
theorem paced (hd : Destroys r ns log r') (hg : ¬ g.Crossed) (hcanon : ∀ a b, g.Leads a b → r.canonical b = b)
    (hp : Paced g waiting seen r) (hup : LedTo g r waiting ns) :
    ∃ seen', Paced g waiting seen' r' ∧ Adds g waiting seen seen' log ∧ ∀ n ∈ ns, r.canonical n ∈ seen' := by
  induction hd generalizing waiting seen with
  | nil => exact ⟨seen, hp, .refl g waiting seen, by simp⟩
  | @cons r r₁ r₂ r₃ n c ns log₁ log₂ log₃ canonical hd₁ hd₂ _ ih₁ ih₂ ih₃ =>
    have hupc : ∀ w ∈ waiting, ∃ x, g.HasDependent w x ∧ g.Reaches x c := by
      rw [← canonical]; exact hup n (List.mem_cons_self ..)
    -- the dependents and the disposal of `c`
    obtain ⟨seen₁, hp₁, hadds₁, hc₁⟩ := paced_disposal hg hcanon hp hupc (ih₁ hcanon)
    -- its parts, and the other names
    have halias₁ : ∀ k, (r₁.withoutParts c).canonical k = r.canonical k := fun k => hd₁.canonical_eq k
    have hcanon₁ : ∀ a b, g.Leads a b → (r₁.withoutParts c).canonical b = b := fun a b hab => by
      rw [halias₁, hcanon a b hab]
    obtain ⟨seen₂, hp₂, hadds₂, -⟩ := ih₂ hcanon₁ hp₁.withoutParts
      (.of_leads hcanon₁ hupc fun b hb => hp₁.leads c b (.inr ((Relation.mem_images ..).1 hb)))
    have halias₂ : ∀ k, (r₂.purge c).canonical k = r.canonical k := fun k => (hd₂.canonical_eq k).trans (halias₁ k)
    have hc₂ : c ∈ seen₂ := hadds₂.grows c hc₁
    obtain ⟨seen₃, hp₃, hadds₃, hns⟩ := ih₃ (fun a b hab => by rw [halias₂, hcanon a b hab]) (hp₂.purge hc₂)
      fun k hk => by
        rw [halias₂]
        exact hup k (List.mem_cons_of_mem _ hk)
    refine ⟨seen₃, hp₃, hp₂.adds_append (hp₁.adds_append hadds₁ hadds₂) hadds₃, fun k hk => ?_⟩
    rcases List.mem_cons.1 hk with rfl | hk
    · rw [canonical]; exact hadds₃.grows c hc₂
    · rw [← halias₂]; exact hns k hk

/-- Without crossings the callbacks of a destruction come in order. -/
theorem inOrder (hd : Destroys r ns log r') (hg : ¬ r.graph.Crossed)
    (hcanon : ∀ a b, r.graph.Leads a b → r.canonical b = b) : r.graph.InOrder log := by
  have hp : Paced r.graph [] [] r :=
    { leads := fun _ _ h => h
      dependents := fun _ _ h => h
      seen_of_waiting := by simp
      disposed := by simp
      taken := fun _ _ h => .inl h
      settled := by simp }
  obtain ⟨seen, -, hadds, -⟩ := hd.paced hg hcanon hp (by simp [LedTo])
  exact Graph.inOrder_of_pairwise hg hadds.ordered

end Destroys

end Singletons
