import Singletons.Placeholder.Resolve
import Singletons.Registry.Basic

/-
Settings: the policy of the registry, logging, placeholders, and the aliases to declare. Every part
has a default, and valid settings are those that a registry can be built from.
-/

namespace Singletons

/-- How the program logs. -/
structure Logging where
  level : String := "info"
  json : Bool := false
  /-- The file to log to besides the standard output. -/
  file : Option String := none
  /-- How many daily log files are kept. -/
  maxFiles : UInt64 := 5
deriving DecidableEq

/-- An alias to declare for a name; placeholders may stand on both sides. -/
structure Declaration where
  name : Name
  /-- The alias that is to stand for the name. -/
  byname : Name
deriving DecidableEq

structure Settings where
  policy : Policy := {}
  logging : Logging := {}
  placeholders : Placeholders := {}
  aliases : List Declaration := []
deriving DecidableEq

namespace Logging

/-- Checks the level, and that a log file is not to be kept zero times. -/
def validate (l : Logging) : Except Failure Unit :=
  match Level.parse l.level with
  | .error f => .error f
  | .ok _ =>
    if l.file.isSome && l.maxFiles == 0 then .error (.configuration .noLogFiles none) else .ok ()

end Logging

namespace Placeholders

/-- Checks that the delimiters, and the separator if there is one, have characters. -/
def validate (p : Placeholders) : Except Failure Unit :=
  if p.opening.isEmpty || p.closing.isEmpty then .error (.configuration .emptyDelimiter none)
  else if p.separator == some "" then .error (.configuration .emptySeparator none)
  else .ok ()

end Placeholders

namespace Declaration

/-- Checks that neither side is blank. -/
def validate (d : Declaration) : Except Failure Unit :=
  if Text.isBlank d.name || Text.isBlank d.byname then .error (.configuration (.blankAlias d.byname d.name) none)
  else .ok ()

end Declaration

namespace Settings

/-- Checks declarations one after the other. -/
def validateAliases : List Declaration → Except Failure Unit
  | [] => .ok ()
  | d :: rest =>
    match d.validate with
    | .error f => .error f
    | .ok () => validateAliases rest

/-- Checks settings: logging first, then placeholders, then aliases. -/
def validate (s : Settings) : Except Failure Unit :=
  match s.logging.validate with
  | .error f => .error f
  | .ok () =>
    match s.placeholders.validate with
    | .error f => .error f
    | .ok () => validateAliases s.aliases

/-! ## Building -/

/-- The settings with one more alias declared. -/
def withAlias (s : Settings) (name a : Name) : Settings := { s with aliases := s.aliases ++ [⟨name, a⟩] }

/-- The settings with one more property for placeholders. -/
def withProperty (s : Settings) (key value : String) : Settings :=
  { s with placeholders := s.placeholders.withProperty key value }

def withPolicy (s : Settings) (policy : Policy) : Settings := { s with policy }

def withLogging (s : Settings) (logging : Logging) : Settings := { s with logging }

def withPlaceholders (s : Settings) (placeholders : Placeholders) : Settings := { s with placeholders }

end Settings

end Singletons
