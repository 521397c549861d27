import Singletons.Proofs.Toml.Drafts
import Singletons.Proofs.Toml.Lines

/-
The document that spells out settings, read back. Its statements are a section for each part of the settings
(`statements`), and what they build is the table of these sections (`toTable`). The one number in it is read
back only if it fits in 64 bits with a sign.
-/

namespace Singletons.Settings

open Toml

/-- A key with its text, if there is one. -/
def textPair (key : String) (t : Option String) : List (String × Toml.Value) := t.toList.map fun s => (key, .text s)

def registryPairs (s : Settings) : List (String × Toml.Value) :=
  [("allow_alias_overriding", .flag s.policy.overrideAliases), ("reset_after_destroy", .flag s.policy.reopen)]

def loggingPairs (s : Settings) : List (String × Toml.Value) :=
  [("level", .text s.logging.level), ("json_format", .flag s.logging.json)] ++
    textPair "file_output" s.logging.file ++ [("max_files", .whole s.logging.maxFiles.toNat)]

def placeholderPairs (s : Settings) : List (String × Toml.Value) :=
  [("prefix", .text s.placeholders.opening), ("suffix", .text s.placeholders.closing)] ++
    textPair "value_separator" s.placeholders.separator ++ [("ignore_unresolvable", .flag s.placeholders.lenient)]

def propertyPairs (s : Settings) : List (String × Toml.Value) :=
  s.placeholders.properties.rows.map fun r => (r.1, .text r.2)

def aliasPairs (d : Declaration) : List (String × Toml.Value) := [("name", .text d.name), ("alias", .text d.byname)]

/-! ## Statements -/

/-- The statements of the document, the number of log files left as it is. -/
def statements (s : Settings) : List Statement :=
  (if s.aliases.isEmpty then [.pair ["aliases"] (.list [])] else []) ++
    (Statement.section ["registry"] s.registryPairs ++ Statement.section ["logging"] s.loggingPairs ++
      Statement.section ["placeholders"] s.placeholderPairs ++
      Statement.section ["placeholders", "properties"] s.propertyPairs) ++
    s.aliases.flatMap fun d => Statement.entry ["aliases"] (aliasPairs d)

variable (s : Settings)

theorem spells_registry :
    Spells (block "[registry]" [line "allow_alias_overriding" (toString s.policy.overrideAliases),
      line "reset_after_destroy" (toString s.policy.reopen)])
      (some (Statement.section ["registry"] s.registryPairs)) :=
  spells_block (spells_header rfl fun _ => rfl)
    (.cons (spells_line _ (writes_flag _)) (.cons (spells_line _ (writes_flag _)) .nil))

theorem spells_logging :
    Spells (block "[logging]" [line "level" (encodeText s.logging.level),
        line "json_format" (toString s.logging.json), textLine "file_output" s.logging.file,
        line "max_files" (toString s.logging.maxFiles.toNat)])
      ((fit64 s.logging.maxFiles.toNat).map fun _ => Statement.section ["logging"] s.loggingPairs) := by
  have hheader : Spells ("[logging]" ++ "\n") (some [.header ["logging"]]) := spells_header rfl fun _ => rfl
  have hblock := spells_block hheader
    (.cons (spells_line "level" (writes_text s.logging.level))
      (.cons (spells_line "json_format" (writes_flag s.logging.json))
        (.cons (spells_textLine "file_output" s.logging.file)
          (.cons (spells_line "max_files" (writes_whole s.logging.maxFiles.toNat)) .nil))))
  convert hblock using 1
  unfold fit64 loggingPairs
  split
  · cases s.logging.file <;> rfl
  · rfl

theorem spells_placeholders :
    Spells (block "[placeholders]" [line "prefix" (encodeText s.placeholders.opening),
        line "suffix" (encodeText s.placeholders.closing), textLine "value_separator" s.placeholders.separator,
        line "ignore_unresolvable" (toString s.placeholders.lenient)])
      (some (Statement.section ["placeholders"] s.placeholderPairs)) := by
  have hheader : Spells ("[placeholders]" ++ "\n") (some [.header ["placeholders"]]) := spells_header rfl fun _ => rfl
  have hblock := spells_block hheader
    (.cons (spells_line "prefix" (writes_text s.placeholders.opening))
      (.cons (spells_line "suffix" (writes_text s.placeholders.closing))
        (.cons (spells_textLine "value_separator" s.placeholders.separator)
          (.cons (spells_line "ignore_unresolvable" (writes_flag s.placeholders.lenient)) .nil))))
  convert hblock using 1
  unfold placeholderPairs
  cases s.placeholders.separator <;> rfl

theorem spells_properties :
    Spells (block "[placeholders.properties]" (s.placeholders.properties.rows.map fun r => line r.1 (encodeText r.2)))
      (some (Statement.section ["placeholders", "properties"] s.propertyPairs)) := by
  have hlines : List.Forall₂ Spells (s.placeholders.properties.rows.map fun r => line r.1 (encodeText r.2))
      (s.placeholders.properties.rows.map fun r => some [.pair [r.1] (.text r.2)]) := by
    rw [List.forall₂_map_left_iff, List.forall₂_map_right_iff, List.forall₂_same]
    exact fun r _ => spells_line r.1 (writes_text r.2)
  have hheader : Spells ("[placeholders.properties]" ++ "\n") (some [.header ["placeholders", "properties"]]) :=
    spells_header rfl fun _ => rfl
  have hblock := spells_block hheader hlines
  rw [inRow_some, ← List.map_eq_flatMap] at hblock
  rw [Statement.section, propertyPairs, List.map_map]
  exact hblock

theorem spells_alias (d : Declaration) :
    Spells (block "[[aliases]]" [line "name" (encodeText d.name), line "alias" (encodeText d.byname)])
      (some (Statement.entry ["aliases"] (aliasPairs d))) :=
  spells_block (spells_header rfl fun _ => rfl)
    (.cons (spells_line _ (writes_text _)) (.cons (spells_line _ (writes_text _)) .nil))

/-- The document spells its statements, if the number of log files can be read at all. -/
theorem spells_toDocument : Spells s.toDocument ((fit64 s.logging.maxFiles.toNat).map fun _ => s.statements) := by
  have hstart : List.Forall₂ Spells (if s.aliases.isEmpty then [line "aliases" "[]"] else [])
      (if s.aliases.isEmpty then [some [Statement.pair ["aliases"] (.list [])]] else []) := by
    split
    · exact .cons (spells_line _ writes_empty) .nil
    · exact .nil
  have hsections := List.Forall₂.cons s.spells_registry
    (.cons s.spells_logging (.cons s.spells_placeholders (.cons s.spells_properties .nil)))
  have haliases : List.Forall₂ Spells
      (s.aliases.map fun d =>
        block "[[aliases]]" [line "name" (encodeText d.name), line "alias" (encodeText d.byname)])
      (s.aliases.map fun d => some (Statement.entry ["aliases"] (aliasPairs d))) := by
    rw [List.forall₂_map_left_iff, List.forall₂_map_right_iff, List.forall₂_same]
    exact fun d _ => spells_alias d
  have hdocument : Spells s.toDocument _ :=
    spells_intercalate (List.rel_append (List.rel_append hstart hsections) haliases)
  rw [inRow_append, inRow_append, inRow_some] at hdocument
  convert hdocument using 1
  unfold statements
  cases fit64 s.logging.maxFiles.toNat with
  | none => split <;> rfl
  | some n => split <;> simp [inRow]

/-! ## What the statements build -/

/-- The rows of the document but for the aliases. -/
def sectionRows (s : Settings) : List (String × Node) :=
  [("registry", .ofPairs s.registryPairs), ("logging", .ofPairs s.loggingPairs),
    ("placeholders", .table false false
      (Node.pairRows s.placeholderPairs ++ [("properties", .ofPairs s.propertyPairs)]))]

theorem nodup_registryPairs : (s.registryPairs.map Prod.fst).Nodup := by
  show ["allow_alias_overriding", "reset_after_destroy"].Nodup
  decide

theorem nodup_loggingPairs : (s.loggingPairs.map Prod.fst).Nodup := by
  unfold loggingPairs
  cases s.logging.file <;> simp [textPair]

theorem nodup_placeholderPairs : (s.placeholderPairs.map Prod.fst).Nodup := by
  unfold placeholderPairs
  cases s.placeholders.separator <;> simp [textPair]

theorem nodup_propertyPairs : (s.propertyPairs.map Prod.fst).Nodup := by
  rw [propertyPairs, List.map_map]
  exact s.placeholders.properties.keys_nodup

theorem nodup_aliasPairs (d : Declaration) : ((aliasPairs d).map Prod.fst).Nodup := by
  show ["name", "alias"].Nodup
  decide

theorem lookup_properties : (Node.pairRows s.placeholderPairs).lookup "properties" = none := by
  unfold placeholderPairs
  cases s.placeholders.separator <;> rfl

theorem foldlM_sections {rows : List (String × Node)} (hregistry : rows.lookup "registry" = none)
    (hlogging : rows.lookup "logging" = none) (hplaceholders : rows.lookup "placeholders" = none)
    (before : List String) :
    (Statement.section ["registry"] s.registryPairs ++ Statement.section ["logging"] s.loggingPairs ++
      Statement.section ["placeholders"] s.placeholderPairs ++
      Statement.section ["placeholders", "properties"] s.propertyPairs).foldlM Draft.add?
        ⟨.table false false rows, before⟩ =
      some ⟨.table false false (rows ++ s.sectionRows), ["placeholders", "properties"]⟩ := by
  have hlogging := lookup_concat_of_ne hlogging (show "logging" ≠ "registry" by decide) (.ofPairs s.registryPairs)
  have hplaceholders := lookup_concat_of_ne
    (lookup_concat_of_ne hplaceholders (show "placeholders" ≠ "registry" by decide) (.ofPairs s.registryPairs))
    (show "placeholders" ≠ "logging" by decide) (.ofPairs s.loggingPairs)
  have hfirst := leads_nil.foldlM_section hregistry s.nodup_registryPairs before
  have hsecond := leads_nil.foldlM_section hlogging s.nodup_loggingPairs ["registry"]
  have hthird := leads_nil.foldlM_section hplaceholders s.nodup_placeholderPairs ["logging"]
  have hfourth :=
    (leads_nil.down hplaceholders).foldlM_section s.lookup_properties s.nodup_propertyPairs ["placeholders"]
  simp only [List.append_assoc, List.nil_append, List.cons_append, id, Node.ofPairs] at hfirst hsecond hthird hfourth
  simp only [List.foldlM_append, hfirst, hsecond, hthird, hfourth, Option.bind_eq_bind, Option.bind_some, sectionRows,
    Node.ofPairs]

/-- The table that the document is. -/
def toTable (s : Settings) : List (String × Toml.Value) :=
  (if s.aliases.isEmpty then [("aliases", .list [])] else []) ++
    [("registry", .table s.registryPairs), ("logging", .table s.loggingPairs),
      ("placeholders", .table (s.placeholderPairs ++ [("properties", .table s.propertyPairs)]))] ++
    (if s.aliases.isEmpty then [] else [("aliases", .list (s.aliases.map fun d => .table (aliasPairs d)))])

theorem rowsToValues_sectionRows : Node.rowsToValues s.sectionRows =
    [("registry", .table s.registryPairs), ("logging", .table s.loggingPairs),
      ("placeholders", .table (s.placeholderPairs ++ [("properties", .table s.propertyPairs)]))] := by
  have hplaceholders : (Node.table false false (Node.pairRows s.placeholderPairs ++
      [("properties", Node.ofPairs s.propertyPairs)])).toValue =
      .table (s.placeholderPairs ++ [("properties", .table s.propertyPairs)]) := by
    rw [Node.toValue, Node.rowsToValues_append, Node.rowsToValues_pairRows, Node.rowsToValues, Node.rowsToValues,
      Node.toValue_ofPairs]
  simp only [sectionRows, Node.rowsToValues, Node.toValue_ofPairs, hplaceholders]

-- An empty list of aliases comes before the sections, a series of them after; so the two build in another order.
theorem foldlM_statements_nil (h : s.aliases = []) :
    (s.statements.foldlM Draft.add? {}).map (fun d => d.node.toValue) = some (.table s.toTable) := by
  have hstart : Draft.add? {} (.pair ["aliases"] (.list [])) =
      some ⟨.table false false [("aliases", .value (.list []))], []⟩ := rfl
  have hsections := s.foldlM_sections
    (show [("aliases", Node.value (.list []))].lookup "registry" = none from rfl) rfl rfl []
  rw [statements, h, toTable, h]
  simp only [List.isEmpty_nil, if_true, List.flatMap_nil, List.append_nil, List.singleton_append, List.foldlM_cons,
    hstart, Option.bind_eq_bind, Option.bind_some, hsections, Option.map_some, Node.toValue, Node.rowsToValues,
    rowsToValues_sectionRows]

theorem foldlM_statements_of_ne_nil (h : s.aliases ≠ []) :
    (s.statements.foldlM Draft.add? {}).map (fun d => d.node.toValue) = some (.table s.toTable) := by
  have hempty : s.aliases.isEmpty = false := List.isEmpty_eq_false_iff.2 h
  have hsections : s.statements.foldlM Draft.add? {} =
      ((s.aliases.map aliasPairs).flatMap (Statement.entry ["aliases"])).foldlM Draft.add?
        ⟨.table false false s.sectionRows, ["placeholders", "properties"]⟩ := by
    rw [statements, hempty, List.foldlM_append, if_neg (by decide), List.nil_append, List.flatMap_map]
    exact congrArg (· >>= _) (s.foldlM_sections (show [].lookup "registry" = none from rfl) rfl rfl [])
  have hdistinct : ∀ pairs ∈ s.aliases.map aliasPairs, (pairs.map Prod.fst).Nodup := by
    intro pairs hpairs
    obtain ⟨d, -, rfl⟩ := List.mem_map.1 hpairs
    exact nodup_aliasPairs d
  have hentries := leads_nil.foldlM_entries (show s.sectionRows.lookup "aliases" = none from rfl)
    (s.aliases.map aliasPairs) [] ["placeholders", "properties"] hdistinct
  have hvalue := congrArg (Option.map Node.toValue) hentries
  rw [Option.map_map, Node.seriesRow, List.append_nil] at hvalue
  rw [hsections]
  refine hvalue.trans (congrArg some ?_)
  show (Node.table false false
    (s.sectionRows ++ Node.seriesRow "aliases" ((s.aliases.map aliasPairs).map Node.ofPairs))).toValue =
      .table s.toTable
  rw [Node.toValue, Node.rowsToValues_append, rowsToValues_sectionRows, Node.rowsToValues_seriesRow, List.map_map,
    List.map_map, toTable, hempty, if_neg (by decide), if_neg (by decide), List.nil_append]
  · simp only [Function.comp_def, Node.toValue_ofPairs]
  · simpa using h

theorem foldlM_statements :
    (s.statements.foldlM Draft.add? {}).map (fun d => d.node.toValue) = some (.table s.toTable) := by
  by_cases h : s.aliases = []
  · exact s.foldlM_statements_nil h
  · exact s.foldlM_statements_of_ne_nil h

/-- The document is read back as its table, if the number of log files can be read at all. -/
theorem parse?_toDocument : parse? s.toDocument = (fit64 s.logging.maxFiles.toNat).map fun _ => .table s.toTable := by
  have hmark : s.toDocument.toList.head? ≠ some '\ufeff' := by
    unfold toDocument
    dsimp only
    split
    · rw [List.cons_append, List.nil_append, List.cons_append, List.cons_append, String.intercalate_cons_cons,
        String.append_assoc, String.toList_append, toList_line, show (encodeKey "aliases").toList = 'a' :: _ from rfl]
      simp
    · rw [List.nil_append, List.cons_append, List.cons_append, String.intercalate_cons_cons, String.append_assoc,
        String.toList_append, block]
      simp
  rw [s.spells_toDocument.parse? hmark]
  cases fit64 s.logging.maxFiles.toNat with
  | none => rfl
  | some n => exact s.foldlM_statements

end Singletons.Settings
