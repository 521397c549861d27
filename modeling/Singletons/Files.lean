/-
A tree of files around one working directory. Paths are texts with slashes; a slash at the front
leads to the root, empty and single-dot parts stay where they are, and double-dot parts go up. The
directories above the working directory are there, the root among them, and at first nothing else is
known of them. Each operation refuses a path for the reason that a file system would give first.
-/

namespace Singletons

/-- The names on the way from the working directory to a place; a way up begins with double dots, and
a way from the root with a slash. -/
abbrev Route := List String

namespace Route

/-- The way to the root. -/
def root : Route := ["/"]

/-- Whether a route leads up only. -/
def isUpward (r : Route) : Bool := r.all (· == "..")

/-- The route to the directory above; the root is above itself. -/
def up (r : Route) : Route :=
  if r == root then root else if isUpward r then r ++ [".."] else r.dropLast

/-- Where a path begins. -/
def start (path : String) : Route := if path.startsWith "/" then root else []

end Route

/-- The directories that were made, and the files with their texts. -/
structure Files where
  directories : List Route := []
  texts : List (Route × String) := []

namespace Files

/-- Why a path cannot be used. -/
inductive Fault where
  | notFound
  | notADirectory
  | isADirectory
  | nameTooLong
  | nulInPath
deriving DecidableEq

def Fault.message : Fault → String
  | notFound => "No such file or directory (os error 2)"
  | notADirectory => "Not a directory (os error 20)"
  | isADirectory => "Is a directory (os error 21)"
  | nameTooLong => "File name too long (os error 36)"
  | nulInPath => "file name contained an unexpected NUL byte"

/-- What a path leads to. -/
inductive Place where
  | directory (r : Route)
  | file (r : Route) (text : String)
  /-- Nothing yet, in a directory that is there. -/
  | vacant (r : Route)

def isDirectory (f : Files) (r : Route) : Bool :=
  r == Route.root || Route.isUpward r || f.directories.contains r

def text? (f : Files) (r : Route) : Option String := f.texts.lookup r

/-- The greatest number of bytes of a path. -/
def pathLimit : Nat := 4095

/-- The greatest number of bytes of a name in a path. -/
def nameLimit : Nat := 255

/-- Why a path is followed. -/
inductive Purpose where
  | toLook
  /-- To open a file for writing, which is made if it is not there. -/
  | toWrite
deriving DecidableEq

/-- Follows the parts of a path from a directory. A name with a slash after it is that of a directory,
so nothing is written there, whatever its length and whatever is there. -/
def walk (f : Files) (purpose : Purpose) (here : Route) : List String → Except Fault Place
  | [] => .ok (.directory here)
  | part :: rest =>
    if part == "" || part == "." then walk f purpose here rest
    else if part == ".." then walk f purpose (Route.up here) rest
    else if purpose = .toWrite && !rest.isEmpty && rest.all (· == "") then .error .isADirectory
    else if part.utf8ByteSize > nameLimit then .error .nameTooLong
    else
      let there := here ++ [part]
      if f.isDirectory there then walk f purpose there rest
      else
        match f.text? there with
        | some t => if rest.isEmpty then .ok (.file there t) else .error .notADirectory
        | none => if rest.isEmpty then .ok (.vacant there) else .error .notFound

/-- What a path leads to, or why it leads nowhere. -/
def find (f : Files) (purpose : Purpose) (path : String) : Except Fault Place :=
  if path.toList.contains '\x00' then .error .nulInPath
  else if path.isEmpty then .error .notFound
  else if path.utf8ByteSize > pathLimit then .error .nameTooLong
  else f.walk purpose (Route.start path) (path.splitOn "/")

/-- Whether something is at a path. -/
def holds (f : Files) (path : String) : Bool :=
  match f.find .toLook path with
  | .ok (.directory _) | .ok (.file ..) => true
  | _ => false

/-- The text of the file at a path. -/
def textAt? (f : Files) (path : String) : Option String :=
  match f.find .toLook path with
  | .ok (.file _ t) => some t
  | _ => none

def putText (f : Files) (r : Route) (t : String) : Files :=
  { f with texts := (r, t) :: f.texts.filter fun x => x.1 ≠ r }

/-- Writes the file at a path. -/
def write (f : Files) (path text : String) : Except Fault Files :=
  match f.find .toWrite path with
  | .error e => .error e
  | .ok (.directory _) => .error .isADirectory
  | .ok (.file r _) | .ok (.vacant r) => .ok (f.putText r text)

/-- Opens the file at a path for appending, and makes it if it is not there. -/
def openToAppend (f : Files) (path : String) : Except Fault Files :=
  match f.find .toWrite path with
  | .error e => .error e
  | .ok (.directory _) => .error .isADirectory
  | .ok (.file ..) => .ok f
  | .ok (.vacant r) => .ok (f.putText r "")

/-- Makes the directories on a route that are missing. -/
def makeRoute (f : Files) (here : Route) : List String → Except Fault Files
  | [] => .ok f
  | part :: rest =>
    if part == "" || part == "." then makeRoute f here rest
    else if part == ".." then makeRoute f (Route.up here) rest
    else if part.utf8ByteSize > nameLimit then .error .nameTooLong
    else
      let there := here ++ [part]
      if f.isDirectory there then makeRoute f there rest
      else if (f.text? there).isSome then .error .notADirectory
      else makeRoute { f with directories := there :: f.directories } there rest

/-- Makes the directories of a path that are missing. -/
def makeDirectories (f : Files) (path : String) : Except Fault Files :=
  if path.toList.contains '\x00' then .error .nulInPath
  else if path.utf8ByteSize > pathLimit then .error .nameTooLong
  else f.makeRoute (Route.start path) (path.splitOn "/")

/-- The paths of all files below the working directory. -/
def paths (f : Files) : List String :=
  (f.texts.filter fun x => x.1.head? != some ".." && x.1.head? != some "/").map fun x => "/".intercalate x.1

end Files

end Singletons
