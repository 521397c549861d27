import Singletons.Teardown
import Singletons.Program

/-
Threads of callers and the mutex they share. A thread stands at one place and has frames below it,
the innermost first: the programs that wait for a request, and the requests that wait for a
callback. One reentrant mutex guards the long requests; a thread that holds it may take it again.
-/

namespace Singletons

abbrev ThreadId := Nat

/-- A reentrant mutex: free, or held by a thread that took it `times` times. -/
inductive Mutex where
  | free
  | held (holder : ThreadId) (times : Nat)
deriving DecidableEq

namespace Mutex

/-- Whether a thread may take the mutex. -/
def admits (m : Mutex) (t : ThreadId) : Bool :=
  match m with
  | free => true
  | held u _ => u == t

/-- The mutex after a thread took it that it admits. -/
def acquire (m : Mutex) (t : ThreadId) : Mutex :=
  match m with
  | free => held t 1
  | held _ k => held t (k + 1)

/-- The mutex after its holder gave it back once. -/
def release : Mutex → Mutex
  | held t (k + 2) => held t (k + 1)
  | _ => free

/-- Whether a thread holds the mutex. -/
def isHeldBy (m : Mutex) (t : ThreadId) : Bool :=
  match m with
  | free => false
  | held u _ => u == t

end Mutex

/-- A stretch of a request that runs under the mutex and may call back. -/
inductive Section where
  /-- Look again for a name in creation, and ask its early producer if that is allowed. -/
  | look (n : Name) (early : Bool)
  /-- Find or create the value of a name. -/
  | create (n : Name) (create : Callback)
  /-- Find the object kept for the producer of `n`, or have it produced. -/
  | produceShared (producer : Producer) (n : Name) (hooked : Bool)
  /-- Run a callback of a caller. -/
  | body (callback : Callback)
deriving DecidableEq

/-- A place between two steps of a request. -/
inductive Point where
  | start (r : Request)
  /-- Before the first look at a slot, without the mutex. -/
  | glance (n : Name) (early : Bool)
  /-- Before the second look at a slot, without the mutex. -/
  | glanceAgain (n : Name) (early : Bool)
  /-- Waiting for the mutex. -/
  | await (s : Section)
  /-- Holding the mutex. -/
  | inside (s : Section)
  /-- Before an early producer is put back, which a failed creation left behind. -/
  | restore (n : Name) (producer : Callback) (r : Reply)
  /-- Before it is decided whether the object of a producer is a shared one. -/
  | produce (producer : Producer) (n : Name) (shared hooked : Bool)
  /-- Before the names with disposal callbacks are gathered. -/
  | gather
  /-- Before the next task of a teardown. -/
  | agenda (tasks : List Task)

/-- What waits for the reply of the request or callback above it. -/
inductive Frame (ω : Type) where
  /-- A program that waits for a request. -/
  | caller (next : Except Failure Answer → Program ω)
  /-- A stretch under the mutex, which is given back at its end. -/
  | guarded
  /-- A look-up for an instance of one type. -/
  | typed (n : Name) (type : TypeTag)
  /-- A creation whose callback runs. -/
  | creating (w : Cache.Window) (create : Callback)
  /-- A look-up whose early producer runs. -/
  | exposing (n : Name) (producer : Callback)
  /-- A request for an object whose producer runs. -/
  | producing (producer : Producer) (n : Name) (shared hooked : Bool)
  /-- A request for an object whose hook runs on `object`. -/
  | hooking (n : Name) (shared : Bool) (object : Instance)
  /-- A teardown whose disposal callback for `n` runs. -/
  | disposing (n : Name) (disposal : Callback) (rest : List Task)

/-- What a thread does next. -/
inductive Control (ω : Type) where
  /-- It runs a program. -/
  | program (p : Program ω)
  /-- It goes on with a request. -/
  | point (p : Point)
  /-- It hands a reply to the innermost frame. -/
  | reply (r : Reply)

/-- A thread: what it does next, and what waits below, innermost first. -/
structure Thread (ω : Type) where
  control : Control ω
  frames : List (Frame ω) := []

namespace Thread

variable {ω : Type}

/-- The thread that is about to run a program. -/
def ofProgram (p : Program ω) : Thread ω := { control := .program p }

/-- The reply of a thread that has ended. -/
def reply? (t : Thread ω) : Option Reply :=
  match t.control, t.frames with
  | .reply r, [] => some r
  | _, _ => none

end Thread

/-- What threads share: the registry, the mutex and the world of the callers. -/
structure Shared (ω : Type) where
  registry : Registry
  mutex : Mutex := .free
  world : ω

end Singletons
