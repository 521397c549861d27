import Singletons.Files

/-
A file that was written is found again. Writing follows a path the way looking does, through directories that
writing leaves alone, and refuses paths that looking would follow, but none the other way round.
-/

namespace Singletons.Files

variable {f f' : Files} {path text : String}

/-- Where a place is to be written to, if it can be. -/
def Place.route? : Place → Option Route
  | .directory _ => none
  | .file r _ | .vacant r => some r

theorem text?_putText (f : Files) (r : Route) (t : String) : (f.putText r t).text? r = some t := by
  rw [text?, putText, List.lookup_cons, beq_self_eq_true]

theorem isDirectory_putText (f : Files) (r s : Route) (t : String) :
    (f.putText r t).isDirectory s = f.isDirectory s := rfl

/-- A way that leads to a place for writing leads to what was written there. -/
theorem walk_putText {r : Route} (text : String) : ∀ {parts : List String} {here : Route} {place : Place},
    f.walk .toWrite here parts = .ok place → place.route? = some r →
    (f.putText r text).walk .toLook here parts = .ok (.file r text)
  | [], here, place, h, hr => by
    cases h
    cases hr
  | part :: rest, here, place, h, hr => by
    -- both walks take the same turns; the extra reason to refuse a place for writing does not apply here
    rw [walk] at h ⊢
    split at h
    · rw [if_pos ‹_›]
      exact walk_putText text h hr
    rw [if_neg ‹_›]
    split at h
    · rw [if_pos ‹_›]
      exact walk_putText text h hr
    rw [if_neg ‹_›, if_neg (show ¬ (decide (Purpose.toLook = .toWrite) && _ && _) = true from Bool.false_ne_true)]
    split at h
    · cases h
    split at h
    · cases h
    rw [if_neg ‹_›]
    dsimp only at h ⊢
    rw [isDirectory_putText]
    split at h
    · rw [if_pos ‹_›]
      exact walk_putText text h hr
    rw [if_neg ‹_›]
    have hend : rest.isEmpty = true ∧ here ++ [part] = r := by
      split at h <;> split at h <;> cases h <;> cases hr <;> exact ⟨‹_›, rfl⟩
    rw [hend.2, text?_putText]
    dsimp only
    rw [if_pos hend.1]

/-- What is found at a path after writing there. -/
theorem find_of_write (h : f.write path text = .ok f') : ∃ r, f'.find .toLook path = .ok (.file r text) := by
  have hplace : ∃ place r, f.find .toWrite path = .ok place ∧ place.route? = some r ∧ f' = f.putText r text := by
    unfold write at h
    split at h
    · cases h
    · cases h
    · rename_i r t heq
      cases h
      exact ⟨_, r, heq, rfl, rfl⟩
    · rename_i r heq
      cases h
      exact ⟨_, r, heq, rfl, rfl⟩
  obtain ⟨place, r, hfind, hr, rfl⟩ := hplace
  refine ⟨r, ?_⟩
  unfold find at hfind ⊢
  split at hfind
  · cases hfind
  rw [if_neg ‹_›]
  split at hfind
  · cases hfind
  rw [if_neg ‹_›]
  split at hfind
  · cases hfind
  rw [if_neg ‹_›]
  exact walk_putText text hfind hr

theorem textAt?_of_write (h : f.write path text = .ok f') : f'.textAt? path = some text := by
  obtain ⟨r, hr⟩ := find_of_write h
  rw [textAt?, hr]

theorem holds_of_write (h : f.write path text = .ok f') : f'.holds path = true := by
  obtain ⟨r, hr⟩ := find_of_write h
  rw [holds, hr]

end Singletons.Files
