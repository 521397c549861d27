import Singletons.Text.Blank

/-
Names of singletons. A name is any text; a leading `&` asks for the producer registered under the
rest of the name instead of the object that this producer yields.
-/

namespace Singletons

/-- The name of a singleton, or an alias for one. -/
abbrev Name := String

namespace Name

/-- The mark that asks for a producer itself. -/
def producerMark : Char := '&'

/-- Whether a name asks for the producer itself rather than for its product. -/
def asksForProducer (n : Name) : Bool := n.toList.head? == some producerMark

/-- A name without any of its leading marks. -/
def unmarked (n : Name) : Name := String.ofList (n.toList.dropWhile (· == producerMark))

theorem unmarked_of_not_asksForProducer {n : Name} (h : n.asksForProducer = false) :
    n.unmarked = n := by
  unfold unmarked asksForProducer at *
  rcases hl : n.toList with _ | ⟨c, cs⟩
  · simp only [List.dropWhile_nil]; rw [← hl, String.ofList_toList]
  · rw [hl] at h
    simp only [List.head?_cons] at h
    have hc : (c == producerMark) = false := by
      simpa [beq_iff_eq] using h
    rw [List.dropWhile_cons, if_neg (by simp [hc]), ← hl, String.ofList_toList]

end Name

end Singletons
