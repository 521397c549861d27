import Singletons.Settings.Basic
import Singletons.Text.Numeral
import Singletons.Toml.Node

/-
Layers of settings. Each source of settings is a layer; laying one over another merges sections key
by key and replaces everything else. Settings are then read from the result: a section takes its
fields by name, or, when a list stands in its place, by their order; a field that is missing has its
default; and a field of the wrong kind spoils the whole.
-/

namespace Singletons.Settings

/-- A part of a layer. -/
inductive Layer where
  | text (s : String)
  | flag (b : Bool)
  | whole (n : Int)
  /-- A number with a fraction, which no setting is. -/
  | fraction
  /-- A setting that is left out on purpose. -/
  | absent
  | list (items : List Layer)
  | fields (rows : List (String × Layer))

namespace Layer

/-- The rows with another part under a key. -/
def put (k : String) (l : Layer) : List (String × Layer) → List (String × Layer)
  | [] => [(k, l)]
  | (j, m) :: rest => if j = k then (k, l) :: rest else (j, m) :: put k l rest

/-- The section of some rows; of two rows under one key the later one counts. -/
def ofRows (rows : List (String × Layer)) : Layer :=
  .fields (rows.foldl (fun kept r => put r.1 r.2 kept) [])

mutual

/-- A layer over another one. -/
def onto (upper lower : Layer) : Layer :=
  match upper with
  | fields rows =>
    match lower with
    | fields base => fields (ontoRows rows base)
    | _ => fields rows
  | _ => upper

/-- Rows over other rows. -/
def ontoRows (rows base : List (String × Layer)) : List (String × Layer) :=
  match rows with
  | [] => base
  | (k, l) :: rest =>
    match base.lookup k with
    | some b => ontoRows rest (put k (onto l b) base)
    | none => ontoRows rest (put k l base)

end

/-- The key of a value that stands for the whole table it is in. -/
def standInKey : String := "___figment_value_value"

/-- A key that is kept for the origin of a value, and that no table of a document may hold. -/
def originKey : String := "___figment_value_id"

/-- The layer that a table within a document is, from those of its rows: the one that stands in for the
table, if there is one, or else the section of them all. -/
def ofTable? (rows : List (String × Layer)) : Option Layer :=
  if (rows.lookup originKey).isSome then none
  else some ((rows.lookup standInKey).getD (fields rows))

mutual

/-- The layer that a value of a document is. A date-time is a section of its own with the text in
it. -/
def ofToml? : Toml.Value → Option Layer
  | .text s => some (text s)
  | .whole n => some (whole n)
  | .fraction _ => some fraction
  | .flag b => some (flag b)
  | .moment s => some (fields [("$__toml_private_datetime", text s)])
  | .list items => (ofTomlItems? items).map list
  | .table rows => (ofTomlRows? rows).bind ofTable?

def ofTomlItems? : List Toml.Value → Option (List Layer)
  | [] => some []
  | v :: rest => (ofToml? v).bind fun l => (ofTomlItems? rest).map (l :: ·)

def ofTomlRows? : List (String × Toml.Value) → Option (List (String × Layer))
  | [] => some []
  | (k, v) :: rest => (ofToml? v).bind fun l => (ofTomlRows? rest).map ((k, l) :: ·)

end

/-- The layer that a whole document is. Its own keys mean nothing but themselves. -/
def ofDocument? : Toml.Value → Option Layer
  | .table rows => (ofTomlRows? rows).map fields
  | v => ofToml? v

/-! ## Reading -/

/-- A field of a section, by name or by its place. `none` means that there are no fields here at all,
and `some none` that this one is missing. -/
def field? (l : Layer) (name : String) (place : Nat) : Option (Option Layer) :=
  match l with
  | fields rows => some (rows.lookup name)
  | list items => some items[place]?
  | _ => none

def text? : Layer → Option String
  | text s => some s
  | _ => none

def flag? : Layer → Option Bool
  | flag b => some b
  | _ => none

/-- A number of 64 bits without a sign. -/
def word? : Layer → Option UInt64
  | whole n => if (Text.Numeral.Bounds.unsigned 64).admits n then some n.toNat.toUInt64 else none
  | _ => none

/-- A text that may be left out. -/
def optionalText? : Layer → Option (Option String)
  | absent => some none
  | l => (text? l).map some

/-- A field read by `read`, or its default where it is missing. -/
def fieldOr {α : Type} (l : Layer) (name : String) (place : Nat) (read : Layer → Option α) (default : α) :
    Option α :=
  (l.field? name place).bind fun
    | none => some default
    | some part => read part

/-- A field that must not be missing. -/
def required {α : Type} (l : Layer) (name : String) (place : Nat) (read : Layer → Option α) : Option α :=
  (l.field? name place).bind fun part => part.bind read

def policy? (l : Layer) : Option Policy := do
  let d : Policy := {}
  let overrideAliases ← l.fieldOr "allow_alias_overriding" 0 flag? d.overrideAliases
  let reopen ← l.fieldOr "reset_after_destroy" 1 flag? d.reopen
  return { overrideAliases, reopen }

def logging? (l : Layer) : Option Logging := do
  let d : Logging := {}
  let level ← l.fieldOr "level" 0 text? d.level
  let json ← l.fieldOr "json_format" 1 flag? d.json
  let file ← l.fieldOr "file_output" 2 optionalText? d.file
  let maxFiles ← l.fieldOr "max_files" 3 word? d.maxFiles
  return { level, json, file, maxFiles }

/-- Texts by key. -/
def properties? : Layer → Option (Directory String)
  | fields rows => rows.foldlM (fun d r => (text? r.2).map fun v => d.insert r.1 v) .empty
  | _ => none

def placeholders? (l : Layer) : Option Placeholders := do
  let d : Placeholders := {}
  let opening ← l.fieldOr "prefix" 0 text? d.opening
  let closing ← l.fieldOr "suffix" 1 text? d.closing
  let separator ← l.fieldOr "value_separator" 2 optionalText? d.separator
  let lenient ← l.fieldOr "ignore_unresolvable" 3 flag? d.lenient
  let properties ← l.fieldOr "properties" 4 properties? d.properties
  return { opening, closing, separator, lenient, properties }

def declaration? (l : Layer) : Option Declaration := do
  let name ← l.required "name" 0 text?
  let byname ← l.required "alias" 1 text?
  return { name, byname }

def declarations? : Layer → Option (List Declaration)
  | list items => items.mapM declaration?
  | _ => none

/-- The settings that a layer spells out. -/
def settings? (l : Layer) : Option Settings := do
  let d : Settings := {}
  let policy ← l.fieldOr "registry" 0 policy? d.policy
  let logging ← l.fieldOr "logging" 1 logging? d.logging
  let placeholders ← l.fieldOr "placeholders" 2 placeholders? d.placeholders
  let aliases ← l.fieldOr "aliases" 3 declarations? d.aliases
  return { policy, logging, placeholders, aliases }

end Layer

/-! ## Settings as a layer -/

/-- A text that may be left out, as a part of a layer. -/
def optional : Option String → Layer
  | some s => .text s
  | none => .absent

/-- The layer that spells out settings in full. -/
def toLayer (s : Settings) : Layer :=
  .fields
    [("registry", .fields
        [("allow_alias_overriding", .flag s.policy.overrideAliases), ("reset_after_destroy", .flag s.policy.reopen)]),
      ("logging", .fields
        [("level", .text s.logging.level), ("json_format", .flag s.logging.json),
          ("file_output", optional s.logging.file), ("max_files", .whole s.logging.maxFiles.toNat)]),
      ("placeholders", .fields
        [("prefix", .text s.placeholders.opening), ("suffix", .text s.placeholders.closing),
          ("value_separator", optional s.placeholders.separator),
          ("ignore_unresolvable", .flag s.placeholders.lenient),
          ("properties", .fields (s.placeholders.properties.rows.map fun r => (r.1, .text r.2)))]),
      ("aliases", .list (s.aliases.map fun d => .fields [("name", .text d.name), ("alias", .text d.byname)]))]

end Singletons.Settings
