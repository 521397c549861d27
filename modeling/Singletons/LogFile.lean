import Singletons.Settings.Basic
import Singletons.Files
import Singletons.Failure.Context

/-
Log files. One file is kept per day; the date stands between the stem and the extension of the
configured name. Missing directories are made.
-/

namespace Singletons

/-- A path taken apart: the directory, empty if none is given, and the name if the path ends with
one. -/
structure PathParts where
  directory : String
  name : Option String
deriving DecidableEq

namespace PathParts

/-- Whether a part of a path leads nowhere else. -/
def isIdle (part : String) : Bool := part == "" || part == "."

/-- Takes a path apart. Idle parts at an end count for nothing, except at the very front, where they say
how the path begins. -/
def ofPath (path : String) : PathParts :=
  let parts := path.splitOn "/"
  let front := (parts.head?.filter isIdle).toList
  match (parts.drop front.length).reverse.dropWhile isIdle with
  | [] => ⟨"", none⟩
  | last :: before =>
    let before := front ++ (before.dropWhile isIdle).reverse
    ⟨if before == [""] then "/" else "/".intercalate before, if last == ".." then none else some last⟩

/-- The stem of a file name and its extension, which the last dot begins unless it comes first. -/
def splitName (name : String) : String × Option String :=
  let cs := name.toList.reverse
  let ext := cs.takeWhile (· != '.')
  match cs.dropWhile (· != '.') with
  | [] | [_] => (name, none)
  | _ :: stem => (String.ofList stem.reverse, some (String.ofList ext.reverse))

end PathParts

namespace Logging

/-- The path of the log file of a day, for a configured path. -/
def dailyPath (path date : String) : String :=
  let parts := PathParts.ofPath path
  let (stem, extension) := (parts.name.map PathParts.splitName).getD ("ioc", none)
  let extension := extension.getD "log"
  let name := stem ++ "." ++ date ++ (if extension.isEmpty then "" else "." ++ extension)
  (if parts.directory.isEmpty then "." else parts.directory) ++ "/" ++ name

/-- The directory of the log files for a configured path. -/
def directory (path : String) : String :=
  let d := (PathParts.ofPath path).directory
  if d.isEmpty then "." else d

/-- Opens the log file of a day, if one is configured, and tells whether one is. -/
def openFile (l : Logging) (f : Files) (date : String) : Except Failure (Bool × Files) :=
  match l.file with
  | none => .ok (false, f)
  | some path =>
    let refuse (text : String) : Except Failure (Bool × Files) :=
      .error (.io s!"Failed to open log file {path}" (some (.foreign text)))
    match f.openToAppend (dailyPath path date) with
    | .ok f => .ok (true, f)
    | .error _ =>
      -- the first attempt may have failed only because directories are missing
      match f.makeDirectories (directory path) with
      | .error _ => refuse "failed to create log directory"
      | .ok f =>
        match f.openToAppend (dailyPath path date) with
        | .ok f => .ok (true, f)
        | .error _ => refuse "failed to create initial log file"

/-- Starts logging: the level is checked, then the log file is opened, then the program's one place
for a log is taken, unless it `isTaken`. -/
def start (l : Logging) (f : Files) (date : String) (isTaken : Bool) : Except Failure (Level × Files) :=
  match Level.parse l.level with
  | .error e => .error e
  | .ok level =>
    match l.openFile f date with
    | .error e => .error e
    | .ok (_, f) =>
      if isTaken then
        .error (.infrastructure "Failed to install the global tracing subscriber"
          (some (.foreign "a global default trace dispatcher has already been set")))
      else .ok (level, f)

end Logging

end Singletons
