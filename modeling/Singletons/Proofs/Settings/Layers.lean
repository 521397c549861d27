import Singletons.Proofs.Settings.Document

/-
The layer of a document over that of the defaults. Every section names all of its fields but the texts that are
left out, so the defaults show only there (`restored`). Properties merge with none. A table of properties that
holds the key of a stand-in or of an origin is no section of properties.
-/

namespace Singletons.Settings

open Toml Layer

/-! ## Settings as a layer, read back -/

theorem word?_toNat (w : UInt64) : word? (.whole w.toNat) = some w := by
  have hadmits : (Text.Numeral.Bounds.unsigned 64).admits w.toNat = true := by
    have hlt := w.toNat_lt
    rw [Text.Numeral.Bounds.admits, Bool.and_eq_true, decide_eq_true_iff, decide_eq_true_iff]
    show (0 : Int) ≤ w.toNat ∧ (w.toNat : Int) ≤ 18446744073709551615
    omega
  rw [word?, if_pos hadmits]
  exact congrArg some UInt64.ofNat_toNat

theorem optionalText?_optional (t : Option String) : optionalText? (optional t) = some t := by
  cases t <;> rfl

/-- Texts by key, as rows of a layer. -/
def texts (rows : List (String × String)) : List (String × Layer) := rows.map fun r => (r.1, .text r.2)

theorem properties?_texts (d : Directory String) : properties? (.fields (texts d.rows)) = some d := by
  have hfold : ∀ (rows : List (String × String)) (d : Directory String),
      (texts rows).foldlM (fun d r => (text? r.2).map fun v => d.insert r.1 v) d =
        some (rows.foldl (fun d r => d.insert r.1 r.2) d) := by
    intro rows
    induction rows with
    | nil => exact fun d => rfl
    | cons r rows ih => exact fun d => ih (d.insert r.1 r.2)
  have hrows : d.rows = Directory.empty.rows ++ d.rows := rfl
  rw [properties?, hfold, Directory.foldl_insert d.rows hrows]

/-- Declarations as parts of a layer. -/
def declarationLayers (l : List Declaration) : List Layer :=
  l.map fun d => .fields [("name", .text d.name), ("alias", .text d.byname)]

theorem declarations?_layers (l : List Declaration) : declarations? (.list (declarationLayers l)) = some l := by
  rw [declarations?, declarationLayers, List.mapM_map]
  exact List.mapM_pure.trans (congrArg some (List.map_id' l))

def registryLayer (p : Policy) : Layer :=
  .fields [("allow_alias_overriding", .flag p.overrideAliases), ("reset_after_destroy", .flag p.reopen)]

def loggingLayer (l : Logging) : Layer :=
  .fields [("level", .text l.level), ("json_format", .flag l.json), ("file_output", optional l.file),
    ("max_files", .whole l.maxFiles.toNat)]

theorem logging?_layer (l : Logging) : (loggingLayer l).logging? = some l := by
  have hread : (loggingLayer l).logging? = (optionalText? (optional l.file)).bind fun file =>
      (word? (.whole l.maxFiles.toNat)).bind fun n => some ⟨l.level, l.json, file, n⟩ := rfl
  rw [hread, optionalText?_optional, word?_toNat]
  rfl

def placeholderLayer (p : Placeholders) (properties : Layer) : Layer :=
  .fields [("prefix", .text p.opening), ("suffix", .text p.closing), ("value_separator", optional p.separator),
    ("ignore_unresolvable", .flag p.lenient), ("properties", properties)]

theorem placeholders?_layer (p : Placeholders) (properties : Layer) : (placeholderLayer p properties).placeholders? =
    (properties? properties).map fun d => { p with properties := d } := by
  have hread : (placeholderLayer p properties).placeholders? = (optionalText? (optional p.separator)).bind fun t =>
      (properties? properties).bind fun d => some ⟨p.opening, p.closing, t, p.lenient, d⟩ := rfl
  rw [hread, optionalText?_optional]
  cases properties? properties <;> rfl

/-- The layer that spells out settings, with another part in the place of the properties. -/
def toLayerWith (s : Settings) (properties : Layer) : Layer :=
  .fields
    [("registry", registryLayer s.policy), ("logging", loggingLayer s.logging),
      ("placeholders", placeholderLayer s.placeholders properties), ("aliases", .list (declarationLayers s.aliases))]

variable (s : Settings)

theorem settings?_toLayerWith (properties : Layer) : (s.toLayerWith properties).settings? =
    (properties? properties).map fun d => { s with placeholders := { s.placeholders with properties := d } } := by
  have hread : (s.toLayerWith properties).settings? = (loggingLayer s.logging).logging?.bind fun logging =>
      (placeholderLayer s.placeholders properties).placeholders?.bind fun placeholders =>
        (declarations? (.list (declarationLayers s.aliases))).bind fun aliases =>
          some ⟨s.policy, logging, placeholders, aliases⟩ := rfl
  rw [hread, logging?_layer, placeholders?_layer, declarations?_layers]
  cases properties? properties <;> rfl

/-! ## The layer of a document -/

theorem ofTomlRows?_texts (rows : List (String × String)) :
    ofTomlRows? (rows.map fun r => (r.1, .text r.2)) = some (texts rows) := by
  induction rows with
  | nil => rfl
  | cons r rows ih =>
    rw [List.map_cons, ofTomlRows?, ih]
    rfl

theorem ofTomlRows?_append (below : List (String × Toml.Value)) : ∀ rows : List (String × Toml.Value),
    ofTomlRows? (rows ++ below) = (ofTomlRows? rows).bind fun ls => (ofTomlRows? below).map (ls ++ ·)
  | [] => by
    rw [List.nil_append, ofTomlRows?]
    exact Option.map_id'.symm
  | (j, w) :: rows => by
    rw [List.cons_append, ofTomlRows?, ofTomlRows?, ofTomlRows?_append below rows]
    cases ofToml? w with
    | none => rfl
    | some m =>
      cases ofTomlRows? rows with
      | none => rfl
      | some ls => cases ofTomlRows? below <;> rfl

theorem ofTomlItems?_aliases (l : List Declaration) :
    ofTomlItems? (l.map fun d => .table (aliasPairs d)) = some (declarationLayers l) := by
  induction l with
  | nil => rfl
  | cons d l ih =>
    rw [List.map_cons, ofTomlItems?, ih]
    rfl

/-- A key with its text, if there is one, as rows of a layer. -/
def optionalRow (key : String) (t : Option String) : List (String × Layer) := t.toList.map fun s => (key, .text s)

def loggingSection (l : Logging) : Layer :=
  .fields ([("level", .text l.level), ("json_format", .flag l.json)] ++ optionalRow "file_output" l.file ++
    [("max_files", .whole l.maxFiles.toNat)])

def placeholderSection (p : Placeholders) (properties : Layer) : Layer :=
  .fields ([("prefix", .text p.opening), ("suffix", .text p.closing)] ++ optionalRow "value_separator" p.separator ++
    [("ignore_unresolvable", .flag p.lenient), ("properties", properties)])

/-- The layer of the document, with another part in the place of the properties. -/
def documentLayer (s : Settings) (properties : Layer) : Layer :=
  .fields
    ((if s.aliases.isEmpty then [("aliases", .list [])] else []) ++
      [("registry", registryLayer s.policy), ("logging", loggingSection s.logging),
        ("placeholders", placeholderSection s.placeholders properties)] ++
      (if s.aliases.isEmpty then [] else [("aliases", .list (declarationLayers s.aliases))]))

/-- The part of a layer that the properties become. -/
def propertyLayer? (s : Settings) : Option Layer := ofTable? (texts s.placeholders.properties.rows)

theorem ofToml?_loggingPairs : ofToml? (.table s.loggingPairs) = some (loggingSection s.logging) := by
  unfold loggingPairs loggingSection
  cases s.logging.file <;> rfl

theorem ofToml?_placeholderPairs :
    ofToml? (.table (s.placeholderPairs ++ [("properties", .table s.propertyPairs)])) =
      s.propertyLayer?.map (placeholderSection s.placeholders) := by
  have hproperties : ofToml? (.table s.propertyPairs) = s.propertyLayer? := by
    rw [propertyPairs, ofToml?, ofTomlRows?_texts]
    rfl
  have hrows : ofTomlRows? s.placeholderPairs =
      some ([("prefix", .text s.placeholders.opening), ("suffix", .text s.placeholders.closing)] ++
        optionalRow "value_separator" s.placeholders.separator ++
        [("ignore_unresolvable", .flag s.placeholders.lenient)]) := by
    unfold placeholderPairs
    cases s.placeholders.separator <;> rfl
  rw [ofToml?, ofTomlRows?_append, hrows, ofTomlRows?, ofTomlRows?, hproperties]
  cases s.propertyLayer? with
  | none => rfl
  | some p =>
    unfold placeholderSection
    cases s.placeholders.separator <;> rfl

theorem ofDocument?_toTable : ofDocument? (.table s.toTable) = s.propertyLayer?.map s.documentLayer := by
  have hstart : ofTomlRows? (if s.aliases.isEmpty then [("aliases", .list [])] else []) =
      some (if s.aliases.isEmpty then [("aliases", .list [])] else []) := by
    split <;> rfl
  have haliases : ofTomlRows?
      (if s.aliases.isEmpty then [] else [("aliases", .list (s.aliases.map fun d => .table (aliasPairs d)))]) =
      some (if s.aliases.isEmpty then [] else [("aliases", .list (declarationLayers s.aliases))]) := by
    split
    · rfl
    · rw [ofTomlRows?, ofToml?, ofTomlItems?_aliases]
      rfl
  rw [ofDocument?, toTable, ofTomlRows?_append, ofTomlRows?_append, hstart, haliases, ofTomlRows?, ofTomlRows?,
    ofTomlRows?, ofToml?_loggingPairs, ofToml?_placeholderPairs]
  cases s.propertyLayer? <;> rfl

/-! ## The document over the defaults -/

/-- Placeholders with the default in the place of a separator that is left out. -/
def separated (p : Placeholders) : Placeholders :=
  { p with separator := p.separator.or ({} : Placeholders).separator }

/-- The settings with the default in the place of a separator that is left out. -/
def restored (s : Settings) : Settings := { s with placeholders := separated s.placeholders }

theorem onto_loggingSection (l : Logging) : (loggingSection l).onto (loggingLayer {}) = loggingLayer l := by
  obtain ⟨level, json, file, maxFiles⟩ := l
  cases file <;> rfl

theorem onto_placeholderSection (p : Placeholders) (properties : Layer) :
    (placeholderSection p properties).onto (placeholderLayer {} (.fields [])) =
      placeholderLayer (separated p) (properties.onto (.fields [])) := by
  obtain ⟨opening, closing, separator, lenient, d⟩ := p
  cases separator <;> rfl

/-- The layer of the document over that of the defaults. -/
theorem onto_documentLayer (properties : Layer) :
    (s.documentLayer properties).onto (toLayer {}) = s.restored.toLayerWith (properties.onto (.fields [])) := by
  have hlogging := onto_loggingSection s.logging
  have hplaceholders := onto_placeholderSection s.placeholders properties
  obtain ⟨policy, logging, placeholders, aliases⟩ := s
  dsimp only at hlogging hplaceholders
  unfold restored toLayerWith
  dsimp only
  rw [← hlogging, ← hplaceholders]
  cases aliases <;> rfl

/-! ## Properties -/

theorem put_new {k : String} (l : Layer) : ∀ {rows : List (String × Layer)}, rows.lookup k = none →
    put k l rows = rows ++ [(k, l)]
  | [], _ => rfl
  | (j, m) :: rows, hk => by
    rw [List.lookup_cons] at hk
    split at hk
    · cases hk
    · rename_i hne
      have hne : ¬ j = k := fun heq => beq_eq_false_iff_ne.1 hne heq.symm
      rw [List.cons_append, put, if_neg hne, put_new l hk]

theorem ontoRows_new : ∀ {rows base : List (String × Layer)}, (rows.map Prod.fst).Nodup →
    (∀ r ∈ rows, base.lookup r.1 = none) → ontoRows rows base = base ++ rows
  | [], base, _, _ => by rw [ontoRows, List.append_nil]
  | (k, l) :: rows, base, hdistinct, hnew => by
    rw [List.map_cons, List.nodup_cons] at hdistinct
    have hk : base.lookup k = none := hnew (k, l) (List.mem_cons_self ..)
    have hlater : ∀ r ∈ rows, (base ++ [(k, l)]).lookup r.1 = none := fun r hr =>
      lookup_concat_of_ne (hnew r (List.mem_cons_of_mem _ hr))
        (fun heq => hdistinct.1 (List.mem_map.2 ⟨r, hr, heq⟩)) l
    rw [ontoRows, hk, put_new l hk, ontoRows_new hdistinct.2 hlater, List.append_assoc]
    rfl

theorem onto_texts (d : Directory String) : (fields (texts d.rows)).onto (.fields []) = .fields (texts d.rows) := by
  have hdistinct : ((texts d.rows).map Prod.fst).Nodup := by
    rw [texts, List.map_map]
    exact d.keys_nodup
  rw [onto, ontoRows_new hdistinct fun _ _ => rfl, List.nil_append]

theorem lookup_texts (d : Directory String) (k : String) : (texts d.rows).lookup k = (d.get? k).map .text :=
  Directory.get?_map Layer.text d k

theorem propertyLayer?_eq : s.propertyLayer? =
    if (s.placeholders.properties.get? originKey).isSome then none
    else some (((s.placeholders.properties.get? standInKey).map .text).getD
      (.fields (texts s.placeholders.properties.rows))) := by
  rw [propertyLayer?, ofTable?, lookup_texts, lookup_texts, Option.isSome_map]

/-! ## Documents -/

/-- The settings that a document alone makes of the defaults. -/
def read? (text : String) : Option Settings :=
  ((parse? text).bind ofDocument?).bind fun l => ((fields []).onto (l.onto (toLayer {}))).settings?

/-- Whether the document of some settings can be read back. -/
structure Readable (s : Settings) : Prop where
  fits : s.logging.maxFiles.toNat < Nat.pow 2 63
  noOrigin : s.placeholders.properties.get? originKey = none
  noStandIn : s.placeholders.properties.get? standInKey = none

theorem fit64_natCast (n : Nat) : fit64 n = if n < Nat.pow 2 63 then some (n : Int) else none := by
  have hadmits : (Text.Numeral.Bounds.signed 64).admits n = true ↔ n < Nat.pow 2 63 := by
    rw [Text.Numeral.Bounds.admits, Bool.and_eq_true, decide_eq_true_iff, decide_eq_true_iff]
    show (-9223372036854775808 : Int) ≤ n ∧ (n : Int) ≤ 9223372036854775807 ↔ n < 9223372036854775808
    omega
  unfold fit64
  split
  · rw [if_pos (hadmits.1 ‹_›)]
  · rw [if_neg fun h => absurd (hadmits.2 h) ‹_›]

theorem read?_toDocument : read? s.toDocument =
    (fit64 s.logging.maxFiles.toNat).bind fun _ => s.propertyLayer?.bind fun p =>
      (properties? (p.onto (.fields []))).map fun d =>
        { s.restored with placeholders := { s.restored.placeholders with properties := d } } := by
  rw [read?, parse?_toDocument]
  cases fit64 s.logging.maxFiles.toNat with
  | none => rfl
  | some n =>
    rw [Option.map_some, Option.bind_some, ofDocument?_toTable]
    cases s.propertyLayer? with
    | none => rfl
    | some p =>
      rw [Option.map_some, Option.bind_some, onto_documentLayer]
      exact s.restored.settings?_toLayerWith (p.onto (.fields []))

/-- A document that can be read back is read as the settings it was written for. -/
theorem Readable.read? (h : s.Readable) : read? s.toDocument = some s.restored := by
  rw [read?_toDocument, fit64_natCast, if_pos h.fits, propertyLayer?_eq, h.noOrigin, h.noStandIn]
  show (properties? ((fields (texts s.placeholders.properties.rows)).onto (.fields []))).map _ = _
  rw [onto_texts, properties?_texts]
  rfl

theorem read?_of_not_readable (h : ¬ s.Readable) : Settings.read? s.toDocument = none := by
  rw [read?_toDocument, fit64_natCast, propertyLayer?_eq]
  split
  · rename_i hfits
    cases horigin : s.placeholders.properties.get? originKey with
    | some v => rfl
    | none =>
      cases hstandIn : s.placeholders.properties.get? standInKey with
      | some v => rfl
      | none => exact absurd ⟨hfits, horigin, hstandIn⟩ h
  · rfl

end Singletons.Settings
