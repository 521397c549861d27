import Singletons.Machine.Step

/-
The machine: any number of threads that take their steps in any order. `Reachable` describes every
state that some order of steps leads to.
-/

namespace Singletons

variable {ω : Type}

/-- Threads and what they share; a thread is known by its place in the list. -/
structure Machine (ω : Type) where
  shared : Shared ω
  threads : List (Thread ω)

namespace Machine

/-- The machine whose threads are about to run the given programs. -/
def ofPrograms (r : Registry) (w : ω) (programs : List (Program ω)) : Machine ω where
  shared := { registry := r, world := w }
  threads := programs.map .ofProgram

/-- The machine after a step of one thread, if that thread can take one. -/
def step (h : Host ω) (m : Machine ω) (id : ThreadId) : Option (Machine ω) :=
  match m.threads[id]? with
  | none => none
  | some t => (t.step h id m.shared).map fun taken => ⟨taken.1, m.threads.set id taken.2⟩

/-- The states that some order of steps leads to from `start`. -/
inductive Reachable (h : Host ω) (start : Machine ω) : Machine ω → Prop where
  | refl : Reachable h start start
  | step {m m' : Machine ω} (id : ThreadId) : Reachable h start m → m.step h id = some m' → Reachable h start m'

/-- Gives one step to each thread of a list in turn; threads that cannot take one are passed over. -/
def round (h : Host ω) (m : Machine ω) (ids : List ThreadId) : Machine ω :=
  ids.foldl (fun m id => (m.step h id).getD m) m

/-- At most `limit` steps of one thread, until the world is as wanted or the thread cannot take a
step. -/
def runUntil (h : Host ω) (m : Machine ω) (id : ThreadId) (wanted : ω → Bool) : (limit : Nat) → Machine ω
  | 0 => m
  | limit + 1 =>
    if wanted m.shared.world then m
    else
      match m.step h id with
      | none => m
      | some m' => runUntil h m' id wanted limit

/-- Whether every thread has ended. -/
def isOver (m : Machine ω) : Bool := m.threads.all fun t => t.reply?.isSome

/-- At most `limit` rounds over all threads, until every thread has ended. -/
def rounds (h : Host ω) : (limit : Nat) → Machine ω → Machine ω
  | 0, m => m
  | limit + 1, m =>
    if m.isOver then m else rounds h limit (m.round h (List.range m.threads.length))

/-- A property that holds at the start and is kept by every step holds in every reachable state. -/
theorem Reachable.invariant {h : Host ω} {start m : Machine ω} (P : Machine ω → Prop) (hs : P start)
    (hstep : ∀ m m' id, P m → m.step h id = some m' → P m') (hm : Reachable h start m) : P m := by
  induction hm with
  | refl => exact hs
  | step id _ hst ih => exact hstep _ _ id ih hst

end Machine

end Singletons
