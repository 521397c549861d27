import Singletons.Settings.Load
import Singletons.Failure.Context

/-
Saving settings as a TOML document. Every section is written in full; a text that is left out has no
line. Aliases are a series of tables at the end, or an empty list at the start.
-/

namespace Singletons.Settings

/-- A line with a key and a value that is written already. -/
def line (key value : String) : String := s!"{Toml.encodeKey key} = {value}\n"

/-- A line with a text, or none. -/
def textLine (key : String) : Option String → String
  | some t => line key (Toml.encodeText t)
  | none => ""

/-- A header and the lines below it. -/
def block (header : String) (lines : List String) : String := header ++ "\n" ++ String.join lines

/-- The document that spells out settings. -/
def toDocument (s : Settings) : String :=
  let start := if s.aliases.isEmpty then [line "aliases" "[]"] else []
  let sections :=
    [block "[registry]"
        [line "allow_alias_overriding" (toString s.policy.overrideAliases),
          line "reset_after_destroy" (toString s.policy.reopen)],
      block "[logging]"
        [line "level" (Toml.encodeText s.logging.level), line "json_format" (toString s.logging.json),
          textLine "file_output" s.logging.file, line "max_files" (toString s.logging.maxFiles.toNat)],
      block "[placeholders]"
        [line "prefix" (Toml.encodeText s.placeholders.opening),
          line "suffix" (Toml.encodeText s.placeholders.closing),
          textLine "value_separator" s.placeholders.separator,
          line "ignore_unresolvable" (toString s.placeholders.lenient)],
      block "[placeholders.properties]"
        (s.placeholders.properties.rows.map fun r => line r.1 (Toml.encodeText r.2))]
  let declared := s.aliases.map fun d =>
    block "[[aliases]]" [line "name" (Toml.encodeText d.name), line "alias" (Toml.encodeText d.byname)]
  "\n".intercalate (start ++ sections ++ declared)

/-- Writes settings to a file. -/
def save (s : Settings) (f : Files) (path : String) : Except Failure Files :=
  match f.write path s.toDocument with
  | .ok f => .ok f
  | .error e => .error (Source.asIo (.foreign e.message) "Failed to write config file")

end Singletons.Settings
