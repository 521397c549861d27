import Singletons.Registry.Change

/-
Programs of callers. A program issues requests to the registry and reads and writes a world of its
own; the registry knows nothing of that world. Callbacks are programs as well: the registry calls
them by number, and a `Host` says what they do. A program ends with a reply, which may be a failure
or a panic.
-/

namespace Singletons

/-- A request to a registry. Requests that run callbacks take several steps, the others one. -/
inductive Request where
  | query (q : Query)
  | change (c : Change)
  /-- Look a name up; with `early`, an early producer of it may be asked. -/
  | get (n : Name) (early : Bool)
  /-- Look a name up that is taken as it is. -/
  | getExact (key : Name) (early : Bool)
  /-- Look a name up for an instance of one type. -/
  | getTyped (n : Name) (type : TypeTag)
  /-- Find the value of a name, or have the callback make it. -/
  | getOrCreate (n : Name) (create : Callback)
  /-- The object that the producer under `n` yields, or the producer if `n` is marked. -/
  | produced (n : Name) (shared hooked : Bool)
  /-- The object that `producer` yields on behalf of `n`, which is taken as it is. -/
  | yielded (producer : Producer) (n : Name) (shared hooked : Bool)
  | destroy (n : Name)
  | destroyAll
  | shutDown
  /-- Run a callback while holding the singleton mutex. -/
  | synchronized (body : Callback)

/-- The end of a request or of a program. -/
inductive Reply where
  | ok (a : Answer)
  | failed (f : Failure)
  /-- A panic unwinds every program on the way to the outermost one. -/
  | panicked (text : String)

/-- A program that works on a world `ω`. -/
inductive Program (ω : Type) where
  | finish (r : Reply)
  /-- Issue a request and go on with what it comes to. -/
  | request (r : Request) (next : Except Failure Answer → Program ω)
  /-- Change the world, and go on with what it was before. -/
  | access (f : ω → ω) (next : ω → Program ω)

namespace Program

variable {ω : Type}

/-- The program that yields a value. -/
def yield (v : Value) : Program ω := .finish (.ok (.value v))

end Program

/-- What a callback is given when it is called. -/
inductive Occasion where
  /-- A creation, an early reference, a produced object, a disposal or a guarded section. -/
  | plain
  /-- An object to be hooked, and the name of its producer. -/
  | object (i : Instance) (n : Name)
deriving DecidableEq

/-- The caller's side of a registry: what its callbacks do, and what becomes of the reported
events. -/
structure Host (ω : Type) where
  program : Callback → Occasion → Program ω
  observe : Event → ω → ω

/-- The world after a list of events is observed. -/
def Host.observeAll {ω : Type} (h : Host ω) (events : List Event) (w : ω) : ω :=
  events.foldl (fun w e => h.observe e w) w

end Singletons
