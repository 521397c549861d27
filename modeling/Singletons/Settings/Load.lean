import Singletons.Settings.Environment
import Singletons.Toml.Document
import Singletons.Files

/-
Loading settings. The defaults come first, a settings file lies over them, and the environment lies
over both; the result must be readable and valid. The file is the one that was asked for, or the
first of a few usual places that holds something.
-/

namespace Singletons.Settings

/-- What settings are loaded from. -/
structure Surroundings where
  files : Files := {}
  /-- The environment variables, in the order in which they count. -/
  environment : List (String × String) := []
  /-- How the working directory is written in reports. -/
  workingDirectory : String := "."
  /-- Where the user's settings are, seen from the working directory. -/
  userDirectory : Option String := none

/-- Which sources to load from. -/
structure Loader where
  path : Option String := none
  envPrefix : String := "IOC"

namespace Loader

/-- The usual places of a settings file, the first one first. -/
def usualPlaces (s : Surroundings) : List String :=
  ["ioc.toml", "ioc/ioc.toml"] ++ (s.userDirectory.map (· ++ "/ioc/ioc.toml")).toList

/-- The layer of the file at a path: empty if there is no file, and none if its text is no document
that can be a layer. -/
def fileLayer? (f : Files) (path : String) : Option Layer :=
  match f.textAt? path with
  | none => some (.fields [])
  | some text => (Toml.parse? text).bind Layer.ofDocument?

/-- The layer of the settings file, and the report on it. -/
def chosenLayer? (l : Loader) (s : Surroundings) : Option Layer × List Event :=
  match l.path with
  | some path =>
    if s.files.holds path then (fileLayer? s.files path, [.settingsLoaded path])
    else (some (.fields []), [.settingsMissing path])
  | none =>
    match (usualPlaces s).find? s.files.holds with
    | some path => (fileLayer? s.files path, [.settingsLoaded s!"{s.workingDirectory}/{path}"])
    | none => (some (.fields []), [])

/-- The settings that a file layer and the environment make of the defaults. -/
def combine (l : Loader) (file : Layer) (environment : List (String × String)) : Except Failure Settings :=
  -- the environment lies over the file, and the file over the defaults
  let whole := (ofEnvironment (l.envPrefix ++ "__") environment).onto (file.onto (toLayer {}))
  match whole.settings? with
  | none => .error (.configuration .unreadable none)
  | some settings =>
    match settings.validate with
    | .error f => .error f
    | .ok () => .ok settings

/-- Loads the settings. -/
def load (l : Loader) (s : Surroundings) : Logged (Except Failure Settings) :=
  let (file, events) := l.chosenLayer? s
  match file with
  | none => ⟨.error (.configuration .unreadable none), events⟩
  | some file => ⟨l.combine file s.environment, events⟩

end Loader

end Singletons.Settings
