import Singletons.Name

/-
Rosters: sets of names in the order of first entry. Adding a name that is listed changes nothing,
so a name keeps the place of its first entry until it is struck off.
-/

namespace Singletons

/-- Names without repetition, in the order in which they were first added. -/
structure Roster where
  names : List Name
  nodup : names.Nodup
deriving DecidableEq

namespace Roster

/-- The roster without names. -/
def empty : Roster := ⟨[], List.nodup_nil⟩

/-- Whether a name is listed. -/
def contains (r : Roster) (n : Name) : Bool := r.names.contains n

/-- The number of names listed. -/
def size (r : Roster) : Nat := r.names.length

/-- Lists a name, at the end if it is new. -/
def add (r : Roster) (n : Name) : Roster :=
  if h : n ∈ r.names then r
  else ⟨r.names ++ [n], by
    rw [List.nodup_append]
    refine ⟨r.nodup, by simp, fun x hx y hy => ?_⟩
    simp only [List.mem_singleton] at hy
    subst hy
    rintro rfl
    exact h hx⟩

/-- Strikes a name off. -/
def remove (r : Roster) (n : Name) : Roster :=
  ⟨r.names.filter (· ≠ n), List.filter_sublist.nodup r.nodup⟩

theorem contains_iff (r : Roster) (n : Name) : r.contains n = true ↔ n ∈ r.names := by
  simp [contains]

theorem names_add (r : Roster) (n : Name) :
    (r.add n).names = if n ∈ r.names then r.names else r.names ++ [n] := by
  unfold add; split <;> simp_all

theorem mem_add (r : Roster) (n m : Name) : m ∈ (r.add n).names ↔ m = n ∨ m ∈ r.names := by
  rw [names_add]
  split
  · rename_i h
    constructor
    · exact .inr
    · rintro (rfl | h')
      · exact h
      · exact h'
  · simp [or_comm]

theorem mem_remove (r : Roster) (n m : Name) : m ∈ (r.remove n).names ↔ m ≠ n ∧ m ∈ r.names := by
  simp [remove, and_comm]

@[simp] theorem names_empty : empty.names = [] := rfl

end Roster

end Singletons
