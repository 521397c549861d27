import Singletons.Toml.Document

/-
Drafts of documents that are written section by section, every table under a header of its own. The path of
the last header leads to the table that takes the pairs below it (`Leads`), so a header adds an empty table at
the end of the one above, and a pair adds a row to the table that was added last.
-/

namespace Singletons.Toml

variable {α : Type} {k : String}

theorem lookup_concat {rows : List (String × α)} (hk : rows.lookup k = none) (a : α) :
    (rows ++ [(k, a)]).lookup k = some a := by
  rw [List.lookup_append, hk, Option.none_or, List.lookup_cons, beq_self_eq_true]

theorem lookup_concat_of_ne {rows : List (String × α)} {j : String} (hk : rows.lookup k = none) (hne : k ≠ j)
    (a : α) : (rows ++ [(j, a)]).lookup k = none := by
  rw [List.lookup_append, hk, Option.none_or, List.lookup_cons, beq_eq_false_iff_ne.2 hne]
  rfl

namespace Node

variable {rows : List (String × Node)}

theorem put_concat (n m : Node) : ∀ {rows : List (String × Node)}, rows.lookup k = none →
    put k n (rows ++ [(k, m)]) = rows ++ [(k, n)]
  | [], _ => by rw [List.nil_append, put, if_pos rfl]; rfl
  | (j, l) :: rows, hk => by
    rw [List.lookup_cons] at hk
    split at hk
    · cases hk
    · rename_i hne
      have hne : ¬ j = k := fun heq => by
        rw [heq, beq_self_eq_true] at hne
        cases hne
      rw [List.cons_append, put, if_neg hne, put_concat n m hk]
      rfl

/-- A change along one path after another is a change along both. -/
theorem update_append (dotted : Bool) (f : Node → Option Node) (q : List String) : ∀ (p : List String) (n : Node),
    update dotted f (p ++ q) n = update dotted (update dotted f q) p n
  | [], n => by rw [List.nil_append, update]
  | k :: p, n => by
    cases n with
    | value v => rfl
    | series tables => rfl
    | table implied byDots rows =>
      rw [List.cons_append, update, update]
      split
      · rw [update_append dotted f q p]
      · rw [update_append dotted f q p]
      · split
        · rfl
        · rw [update_append dotted f q p]
      · rfl

theorem rowsToValues_eq (rows : List (String × Node)) : rowsToValues rows = rows.map fun r => (r.1, r.2.toValue) := by
  induction rows with
  | nil => rfl
  | cons r rows ih => rw [rowsToValues, ih]; rfl

theorem tablesToValues_eq (tables : List Node) : tablesToValues tables = tables.map toValue := by
  induction tables with
  | nil => rfl
  | cons n tables ih => rw [tablesToValues, ih]; rfl

/-- The rows that keys and values under one header become. -/
def pairRows (pairs : List (String × Value)) : List (String × Node) := pairs.map fun p => (p.1, value p.2)

/-- The table that they build. -/
def ofPairs (pairs : List (String × Value)) : Node := table false false (pairRows pairs)

theorem rowsToValues_append (a b : List (String × Node)) :
    rowsToValues (a ++ b) = rowsToValues a ++ rowsToValues b := by
  rw [rowsToValues_eq, rowsToValues_eq, rowsToValues_eq, List.map_append]

theorem rowsToValues_pairRows (pairs : List (String × Value)) : rowsToValues (pairRows pairs) = pairs := by
  rw [pairRows, rowsToValues_eq, List.map_map]
  exact List.map_id'' (fun p => rfl) pairs

theorem toValue_ofPairs (pairs : List (String × Value)) : (ofPairs pairs).toValue = .table pairs := by
  rw [ofPairs, toValue, rowsToValues_pairRows]

/-- The row of a series: none before its first table. -/
def seriesRow (k : String) : List Node → List (String × Node)
  | [] => []
  | n :: tables => [(k, series (n :: tables))]

theorem rowsToValues_seriesRow (k : String) {tables : List Node} (h : tables ≠ []) :
    rowsToValues (seriesRow k tables) = [(k, .list (tables.map toValue))] := by
  obtain ⟨n, tables, rfl⟩ := List.exists_cons_of_ne_nil h
  rw [seriesRow, rowsToValues, toValue, tablesToValues_eq]
  rfl

end Node

/-- The statements of a section: its header, and a line for each key. -/
def Statement.section (path : List String) (pairs : List (String × Value)) : List Statement :=
  .header path :: pairs.map fun p => .pair [p.1] p.2

/-- The statements of one table in a series. -/
def Statement.entry (path : List String) (pairs : List (String × Value)) : List Statement :=
  .seriesHeader path :: pairs.map fun p => .pair [p.1] p.2

/-- Whether a path leads to the place where `plug` puts a table. -/
def Leads (path : List String) (plug : Node → Node) : Prop :=
  ∀ rows f, Node.update false f path (plug (.table false false rows)) = (f (.table false false rows)).map plug

theorem leads_nil : Leads [] id := fun rows f => by
  rw [Node.update, Option.map_id]
  rfl

variable {path : List String} {plug : Node → Node} {rows : List (String × Node)}

namespace Leads

theorem down (h : Leads path plug) (hk : rows.lookup k = none) :
    Leads (path ++ [k]) fun n => plug (.table false false (rows ++ [(k, n)])) := fun below f => by
  rw [Node.update_append, h, Node.update, lookup_concat hk]
  dsimp only
  rw [if_neg (by decide), Node.update, Option.map_map]
  congr 1
  funext n
  simp only [Function.comp_apply, Node.put_concat _ _ hk]

theorem downSeries (h : Leads path plug) (hk : rows.lookup k = none) (tables : List Node) :
    Leads (path ++ [k]) fun n => plug (.table false false (rows ++ Node.seriesRow k (tables ++ [n]))) :=
  fun below f => by
  have hrow : ∀ n, Node.seriesRow k (tables ++ [n]) = [(k, .series (tables ++ [n]))] := fun n => by
    cases tables <;> rfl
  rw [Node.update_append, h, Node.update, hrow, lookup_concat hk]
  dsimp only
  rw [List.reverse_concat]
  dsimp only
  rw [Node.update, Option.map_map]
  congr 1
  funext n
  simp only [Function.comp_apply, Node.put_concat _ _ hk, hrow, List.reverse_cons, List.reverse_reverse]

theorem add?_pair (h : Leads path plug) (hk : rows.lookup k = none) (v : Value) :
    Draft.add? ⟨plug (.table false false rows), path⟩ (.pair [k] v) =
      some ⟨plug (.table false false (rows ++ [(k, .value v)])), path⟩ := by
  have hwrite : Node.writeAt [k] v (.table false false rows) =
      some (.table false false (rows ++ [(k, .value v)])) := by
    show Node.update true (Node.write false k v) [] (.table false false rows) = _
    rw [Node.update, Node.write, hk]
    rfl
  rw [Draft.add?, h, hwrite]
  rfl

/-- Lines under the last header become its rows. -/
theorem foldlM_pairs (h : Leads path plug) : ∀ (pairs : List (String × Value)) (rows : List (String × Node)),
    (pairs.map Prod.fst).Nodup → (∀ p ∈ pairs, rows.lookup p.1 = none) →
    (pairs.map fun p => Statement.pair [p.1] p.2).foldlM Draft.add? ⟨plug (.table false false rows), path⟩ =
      some ⟨plug (.table false false (rows ++ Node.pairRows pairs)), path⟩
  | [], rows, _, _ => by rw [Node.pairRows, List.map_nil, List.map_nil, List.append_nil]; rfl
  | (k, v) :: pairs, rows, hdistinct, hnew => by
    rw [List.map_cons, List.nodup_cons] at hdistinct
    have hlater : ∀ p ∈ pairs, (rows ++ [(k, Node.value v)]).lookup p.1 = none := fun p hp =>
      lookup_concat_of_ne (hnew p (List.mem_cons_of_mem _ hp))
        (fun heq => hdistinct.1 (List.mem_map.2 ⟨p, hp, heq⟩)) _
    rw [List.map_cons, List.foldlM_cons, h.add?_pair (hnew (k, v) (List.mem_cons_self ..)), Option.bind_eq_bind,
      Option.bind_some, foldlM_pairs h pairs _ hdistinct.2 hlater, List.append_assoc]
    rfl

theorem foldlM_ofPairs (h : Leads path plug) {pairs : List (String × Value)}
    (hdistinct : (pairs.map Prod.fst).Nodup) :
    (pairs.map fun p => Statement.pair [p.1] p.2).foldlM Draft.add? ⟨plug (.table false false []), path⟩ =
      some ⟨plug (Node.ofPairs pairs), path⟩ :=
  h.foldlM_pairs pairs [] hdistinct fun _ _ => rfl

/-- A section adds a table. -/
theorem foldlM_section (h : Leads path plug) (hk : rows.lookup k = none) {pairs : List (String × Value)}
    (hdistinct : (pairs.map Prod.fst).Nodup) (before : List String) :
    (Statement.section (path ++ [k]) pairs).foldlM Draft.add? ⟨plug (.table false false rows), before⟩ =
      some ⟨plug (.table false false (rows ++ [(k, Node.ofPairs pairs)])), path ++ [k]⟩ := by
  have hheader : Draft.add? ⟨plug (.table false false rows), before⟩ (.header (path ++ [k])) =
      some ⟨plug (.table false false (rows ++ [(k, .table false false [])])), path ++ [k]⟩ := by
    rw [Draft.add?, List.reverse_concat]
    dsimp only
    rw [List.reverse_reverse, h, Node.openTable, hk]
    rfl
  rw [Statement.section, List.foldlM_cons, hheader]
  exact (h.down hk).foldlM_ofPairs hdistinct

/-- An entry adds a table to a series. -/
theorem foldlM_entry (h : Leads path plug) (hk : rows.lookup k = none) {pairs : List (String × Value)}
    (hdistinct : (pairs.map Prod.fst).Nodup) (tables : List Node) (before : List String) :
    (Statement.entry (path ++ [k]) pairs).foldlM Draft.add?
        ⟨plug (.table false false (rows ++ Node.seriesRow k tables)), before⟩ =
      some ⟨plug (.table false false (rows ++ Node.seriesRow k (tables ++ [Node.ofPairs pairs]))), path ++ [k]⟩ := by
  have hopen : Node.openInSeries k (.table false false (rows ++ Node.seriesRow k tables)) =
      some (.table false false (rows ++ Node.seriesRow k (tables ++ [.table false false []]))) := by
    cases tables with
    | nil =>
      rw [Node.seriesRow, List.append_nil, Node.openInSeries, hk]
      rfl
    | cons n tables =>
      rw [Node.seriesRow, Node.openInSeries, lookup_concat hk]
      dsimp only
      rw [Node.put_concat _ _ hk]
      rfl
  have hheader : Draft.add? ⟨plug (.table false false (rows ++ Node.seriesRow k tables)), before⟩
      (.seriesHeader (path ++ [k])) =
      some ⟨plug (.table false false (rows ++ Node.seriesRow k (tables ++ [.table false false []]))),
        path ++ [k]⟩ := by
    rw [Draft.add?, List.reverse_concat]
    dsimp only
    rw [List.reverse_reverse, h, hopen]
    rfl
  rw [Statement.entry, List.foldlM_cons, hheader]
  exact (h.downSeries hk tables).foldlM_ofPairs hdistinct

/-- Entries one after the other become one series. -/
theorem foldlM_entries (h : Leads path plug) (hk : rows.lookup k = none) :
    ∀ (entries : List (List (String × Value))) (tables : List Node) (before : List String),
    (∀ pairs ∈ entries, (pairs.map Prod.fst).Nodup) →
    ((entries.flatMap (Statement.entry (path ++ [k]))).foldlM Draft.add?
        ⟨plug (.table false false (rows ++ Node.seriesRow k tables)), before⟩).map Draft.node =
      some (plug (.table false false (rows ++ Node.seriesRow k (tables ++ entries.map Node.ofPairs))))
  | [], tables, before, _ => by rw [List.map_nil, List.append_nil]; rfl
  | pairs :: entries, tables, before, hdistinct => by
    rw [List.flatMap_cons, List.foldlM_append, h.foldlM_entry hk (hdistinct pairs (List.mem_cons_self ..)),
      Option.bind_eq_bind, Option.bind_some,
      foldlM_entries h hk entries _ _ fun p hp => hdistinct p (List.mem_cons_of_mem _ hp), List.append_assoc]
    rfl

end Leads

end Singletons.Toml
