import Singletons.Failure

/-
Levels of reports, from errors to the finest traces, and how settings name them. Level names are
read without regard to case, and `warning` is another name for `warn`.
-/

namespace Singletons

/-- How much a report matters. -/
inductive Level where
  | error | warn | info | debug | trace
deriving DecidableEq

namespace Level

/-- The place of a level, the most urgent first. -/
def rank : Level → Nat
  | error => 1
  | warn => 2
  | info => 3
  | debug => 4
  | trace => 5

/-- The name that a report is shown with. -/
def label : Level → String
  | error => "ERROR"
  | warn => "WARN"
  | info => "INFO"
  | debug => "DEBUG"
  | trace => "TRACE"

/-- Whether reports of level `l` are shown when everything up to `limit` is. -/
def shownUpTo (l limit : Level) : Bool := l.rank ≤ limit.rank

/-- The level that a lower-case word names. -/
def ofWord : String → Option Level
  | "trace" => some trace
  | "debug" => some debug
  | "info" => some info
  | "warn" | "warning" => some warn
  | "error" => some error
  | _ => none

/-- Reads the name of a level. Only ASCII letters have another case among the names' letters, so
lowering those is enough. -/
def parse (t : String) : Except Failure Level :=
  match ofWord (String.ofList (t.toList.map Char.toLower)) with
  | some l => .ok l
  | none => .error (.configuration (.unknownLevel t) none)

end Level

end Singletons
