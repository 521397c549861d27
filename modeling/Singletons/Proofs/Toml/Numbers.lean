import Mathlib.Data.List.TakeWhile
import Singletons.Toml.Scalar

/-
Numbers and truth values are read back as they were written. The digits of a number have no zero at their
front and nothing that a date-time or a fraction needs, so they are read as a whole number, if it fits.
-/

namespace Singletons.Toml

open Text

variable {cs rest : List Char}

/-! ## Digits -/

theorem isDigit_of_mem_toDigits {c : Char} {n : Nat} (h : c ∈ Nat.toDigits 10 n) : c.isDigit = true :=
  Nat.isDigit_of_mem_toDigits (by decide) (by decide) h

/-- Only zero is written with a zero at the front. -/
theorem toDigits_eq_zero_cons {n : Nat} {ds : List Char} (h : Nat.toDigits 10 n = '0' :: ds) : ds = [] := by
  induction n using Nat.strongRecOn generalizing ds with
  | _ n ih =>
    rcases Nat.lt_or_ge n 10 with hlt | hge
    · rw [Nat.toDigits_of_lt_base hlt] at h
      exact (List.cons_eq_cons.1 h).2.symm
    · rw [Nat.toDigits_of_base_le (by decide) hge] at h
      obtain ⟨d, ds', hd⟩ := List.exists_cons_of_ne_nil (Nat.toDigits_ne_nil (n := n / 10) (b := 10))
      rw [hd, List.cons_append, List.cons_eq_cons] at h
      obtain ⟨rfl, -⟩ := h
      have hnil := ih (n / 10) (by omega) hd
      subst hnil
      have hzero := Nat.ofDigitChars_ten_toDigits (n := n / 10)
      rw [hd] at hzero
      have : n / 10 = 0 := hzero.symm
      omega

theorem ofDigits_toDigits (n : Nat) : ofDigits 10 (Nat.toDigits 10 n) = n := by
  have hfold : ∀ (ds : List Char) (k : Nat), (∀ c ∈ ds, c.isDigit = true) →
      ds.foldl (fun n c => n * 10 + digitValue c) k = Nat.ofDigitChars 10 ds k := by
    intro ds
    induction ds with
    | nil => intro k _; rfl
    | cons d ds ih =>
      intro k hds
      have hd : digitValue d = d.toNat - '0'.toNat := if_pos (hds d (List.mem_cons_self ..))
      rw [List.foldl_cons, ih _ fun c hc => hds c (List.mem_cons_of_mem _ hc), Nat.ofDigitChars_cons, hd,
        Nat.mul_comm]
  unfold ofDigits
  rw [hfold _ _ fun c hc => isDigit_of_mem_toDigits hc, Nat.ofDigitChars_ten_toDigits]

theorem ungroupedTail_eq (h : ∀ c ∈ cs, c.isDigit = true) : ungroupedTail Char.isDigit cs = some cs := by
  induction cs with
  | nil => rfl
  | cons c cs ih =>
    have hc := h c (List.mem_cons_self ..)
    rw [ungroupedTail, if_pos hc, ih fun d hd => h d (List.mem_cons_of_mem _ hd)]
    · rfl
    · intro d r heq; subst heq; cases hc

theorem decimalDigits_toDigits (n : Nat) : decimalDigits (Nat.toDigits 10 n) = some (Nat.toDigits 10 n) := by
  have hungrouped : ungrouped Char.isDigit (Nat.toDigits 10 n) = some (Nat.toDigits 10 n) := by
    obtain ⟨d, ds, hd⟩ := List.exists_cons_of_ne_nil (Nat.toDigits_ne_nil (n := n) (b := 10))
    have hdigit : ∀ c ∈ d :: ds, c.isDigit = true := fun c hc => isDigit_of_mem_toDigits (hd ▸ hc)
    rw [hd, ungrouped, if_pos (hdigit d (List.mem_cons_self ..)),
      ungroupedTail_eq fun c hc => hdigit c (List.mem_cons_of_mem _ hc)]
    rfl
  unfold decimalDigits
  rw [hungrouped]
  split
  · rename_i heq
    have := toDigits_eq_zero_cons (Option.some.inj heq)
    cases this
  · rfl

/-! ## Numbers -/

theorem not_mem_of_digits {c : Char} {n : Nat} (h : c.isDigit = false) : c ∉ Nat.toDigits 10 n := fun hmem => by
  rw [isDigit_of_mem_toDigits hmem] at h
  cases h

theorem toDigits_ne_cons {c : Char} (h : c.isDigit = false) (n : Nat) (r : List Char) : Nat.toDigits 10 n ≠ c :: r :=
  fun heq => not_mem_of_digits h (heq ▸ List.mem_cons_self ..)

theorem date?_eq_none (h : '-' ∉ cs) : date? cs = none := by
  unfold date?
  split
  · exact absurd (by simp) h
  · rfl

theorem time?_eq_none (h : ':' ∉ cs) : time? cs = none := by
  unfold time?
  split
  · exact absurd (by simp) h
  · rfl

theorem splitSign_toDigits (n : Nat) : splitSign (Nat.toDigits 10 n) = (false, Nat.toDigits 10 n) := by
  unfold splitSign
  split
  · rename_i heq; exact absurd heq (toDigits_ne_cons rfl n _)
  · rename_i heq; exact absurd heq (toDigits_ne_cons rfl n _)
  · rfl

theorem whole?_toDigits (n : Nat) : whole? (Nat.toDigits 10 n) = fit64 n := by
  have hletter : ∀ c, c.isDigit = false → ∀ r, Nat.toDigits 10 n ≠ '0' :: c :: r := by
    intro c hc r heq
    exact not_mem_of_digits hc (heq ▸ List.mem_cons_of_mem _ (List.mem_cons_self ..))
  unfold whole?
  split
  · rename_i heq; exact absurd heq (hletter _ rfl _)
  · rename_i heq; exact absurd heq (hletter _ rfl _)
  · rename_i heq; exact absurd heq (hletter _ rfl _)
  · rw [splitSign_toDigits]
    dsimp only
    rw [decimalDigits_toDigits, Option.bind_some, ofDigits_toDigits]
    rfl

theorem isFraction_toDigits (n : Nat) : isFraction (Nat.toDigits 10 n) = false := by
  have hkeep : ∀ p : Char → Bool, (∀ c, c.isDigit = true → p c = true) →
      (Nat.toDigits 10 n).takeWhile p = Nat.toDigits 10 n ∧ (Nat.toDigits 10 n).dropWhile p = [] := by
    intro p hp
    have hall : ∀ c ∈ Nat.toDigits 10 n, p c = true := fun c hc => hp c (isDigit_of_mem_toDigits hc)
    exact ⟨List.takeWhile_eq_self_iff.2 hall, List.dropWhile_eq_nil_iff.2 hall⟩
  have hexponent := hkeep (fun c => !(c == 'e' || c == 'E')) (by
    intro c hc
    rw [Bool.not_eq_true', Bool.or_eq_false_iff, beq_eq_false_iff_ne, beq_eq_false_iff_ne]
    constructor <;> rintro rfl <;> cases hc)
  have hpoint := hkeep (· != '.') (by
    intro c hc
    rw [bne_iff_ne]
    rintro rfl
    cases hc)
  unfold isFraction
  rw [splitSign_toDigits]
  dsimp only
  rw [if_neg, hexponent.1, hexponent.2, hpoint.1, hpoint.2, decimalDigits_toDigits]
  · rfl
  · rw [Bool.or_eq_true, beq_iff_eq, beq_iff_eq, not_or]
    exact ⟨toDigits_ne_cons rfl n _, toDigits_ne_cons rfl n _⟩

theorem moment?_toDigits (n : Nat) : moment? (Nat.toDigits 10 n) = none := by
  unfold moment?
  rw [date?_eq_none (not_mem_of_digits rfl), time?_eq_none (not_mem_of_digits rfl)]

theorem scalarOf?_toDigits (n : Nat) : scalarOf? (Nat.toDigits 10 n) = (fit64 n).map .whole := by
  unfold scalarOf?
  rw [if_neg, if_neg, moment?_toDigits]
  · dsimp only
    rw [isFraction_toDigits, if_neg (by decide), whole?_toDigits]
  · rw [beq_iff_eq]; exact toDigits_ne_cons rfl n _
  · rw [beq_iff_eq]; exact toDigits_ne_cons rfl n _

/-- A word is read up to the end of the line, if it is no date. -/
theorem scalar?_word {word : List Char} (hword : ∀ c ∈ word, isScalarChar c = true) (hdate : date? word = none)
    (rest : List Char) : scalar? (word ++ '\n' :: rest) = (scalarOf? word).map (·, '\n' :: rest) := by
  have htake : (word ++ '\n' :: rest).takeWhile isScalarChar = word := by
    rw [List.takeWhile_append_of_pos hword, List.takeWhile_cons_of_neg (by decide), List.append_nil]
  have hdrop : (word ++ '\n' :: rest).dropWhile isScalarChar = '\n' :: rest := by
    rw [List.dropWhile_append_of_pos hword, List.dropWhile_cons_of_neg (by decide)]
  unfold scalar?
  dsimp only
  rw [htake, hdrop, hdate]

/-- A number is read back, if it fits. -/
theorem scalar?_repr (n : Nat) (rest : List Char) :
    scalar? (n.repr.toList ++ '\n' :: rest) = (fit64 n).map fun n => (.whole n, '\n' :: rest) := by
  rw [Nat.toList_repr, scalar?_word, scalarOf?_toDigits, Option.map_map]
  · rfl
  · intro c hc
    have := isDigit_of_mem_toDigits hc
    simp [isScalarChar, Char.isAlphanum, this]
  · exact date?_eq_none (not_mem_of_digits rfl)

theorem scalar?_flag (b : Bool) (rest : List Char) :
    scalar? ((toString b).toList ++ '\n' :: rest) = some (.flag b, '\n' :: rest) := by
  have hword : (toString b).toList.all isScalarChar = true := by cases b <;> rfl
  rw [scalar?_word (List.all_eq_true.1 hword)]
  · cases b <;> rfl
  · cases b <;> rfl

end Singletons.Toml
