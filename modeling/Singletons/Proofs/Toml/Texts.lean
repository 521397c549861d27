import Singletons.Toml.Quoted

/-
Texts are read back as they were written, whatever characters they have and whichever of the four forms was
chosen for them. Each reader is described on the characters that the writer gives it, with anything that
begins a line after them; a reader with a limit needs no more than it is given, one step for a character.
-/

namespace Singletons.Toml

variable {c : Char} {cs rest : List Char} {s : String}

/-! ## Single characters -/

theorem isPlain_of_not_needsEscape (h : needsEscape c = false) (hbreak : c ≠ '\n') : isPlain c = true := by
  simp only [needsEscape, isPlain, Bool.or_eq_false_iff, Bool.and_eq_false_iff, bne_eq_false_iff_eq, beq_iff_eq,
    decide_eq_false_iff_not, beq_eq_false_iff_ne, Bool.or_eq_true, Bool.and_eq_true, decide_eq_true_iff, bne_iff_ne]
    at h ⊢
  obtain ⟨(hlow | htab) | hnewline, hdelete⟩ := h
  · exact .inr ⟨by omega, hdelete⟩
  · exact .inl htab
  · exact absurd hnewline hbreak

/-- The codes that stand for characters are read back. -/
theorem charOfHex?_hex4 (h : needsEscape c = true) :
    (hex4 c.toNat).toList.length = 4 ∧ charOfHex? (hex4 c.toNat).toList = some c := by
  have hall : ∀ n < 128, n < 0x20 ∨ n = 0x7F →
      (hex4 n).toList.length = 4 ∧ charOfHex? (hex4 n).toList = some (Char.ofNat n) := by decide +kernel
  have hcode : c.toNat < 0x20 ∨ c.toNat = 0x7F := by
    simp only [needsEscape, Bool.or_eq_true, Bool.and_eq_true, decide_eq_true_iff, beq_iff_eq] at h
    exact h.imp_left fun h => h.1.1
  have hread := hall c.toNat (by omega) hcode
  rwa [Char.ofNat_toNat] at hread

theorem escape?_hex4 (h : needsEscape c = true) :
    escape? ('u' :: ((hex4 c.toNat).toList ++ rest)) = some (c, rest) := by
  obtain ⟨hlength, hread⟩ := charOfHex?_hex4 h
  match (hex4 c.toNat).toList, hlength, hread with
  | [d₁, d₂, d₃, d₄], _, hread =>
    show (charOfHex? [d₁, d₂, d₃, d₄]).map (·, rest) = _
    rw [hread]
    rfl

/-- A way to write `c` by a backslash and what follows it, which is no end of a line. -/
structure Code (c : Char) (code : List Char) : Prop where
  reads : ∀ rest, escape? (code ++ rest) = some (c, rest)
  solid : ∃ d ds, code = d :: ds ∧ isGap d = false ∧ d ≠ '\n' ∧ d ≠ '\r'

/-- How a character between double quotes is written: as it is, or by a code. -/
theorem encodeChar_cases (multiline : Bool) (c : Char) :
    ((encodeChar multiline c).toList = [c] ∧ c ≠ '"' ∧ c ≠ '\\' ∧ c ≠ '\r' ∧
        (isPlain c = true ∨ (multiline = true ∧ c = '\n'))) ∨
      ∃ code, (encodeChar multiline c).toList = '\\' :: code ∧ Code c code := by
  have hcode : ∀ d, isGap d = false → d ≠ '\n' → d ≠ '\r' → (∀ rest, escape? (d :: rest) = some (c, rest)) →
      (encodeChar multiline c).toList = ['\\', d] →
      ∃ code, (encodeChar multiline c).toList = '\\' :: code ∧ Code c code :=
    fun d hgap hbreak hreturn hreads hwritten => ⟨[d], hwritten, hreads, d, [], rfl, hgap, hbreak, hreturn⟩
  by_cases hb : c = '\x08'
  · subst hb; exact .inr (hcode 'b' rfl (by decide) (by decide) (fun _ => rfl) (by cases multiline <;> rfl))
  by_cases ht : c = '\t'
  · subst ht; exact .inr (hcode 't' rfl (by decide) (by decide) (fun _ => rfl) (by cases multiline <;> rfl))
  by_cases hn : c = '\n'
  · subst hn
    cases multiline with
    | true => exact .inl ⟨rfl, by decide, by decide, by decide, .inr ⟨rfl, rfl⟩⟩
    | false => exact .inr (hcode 'n' rfl (by decide) (by decide) (fun _ => rfl) rfl)
  by_cases hf : c = '\x0c'
  · subst hf; exact .inr (hcode 'f' rfl (by decide) (by decide) (fun _ => rfl) (by cases multiline <;> rfl))
  by_cases hr : c = '\r'
  · subst hr; exact .inr (hcode 'r' rfl (by decide) (by decide) (fun _ => rfl) (by cases multiline <;> rfl))
  by_cases hq : c = '"'
  · subst hq; exact .inr (hcode '"' rfl (by decide) (by decide) (fun _ => rfl) (by cases multiline <;> rfl))
  by_cases hs : c = '\\'
  · subst hs; exact .inr (hcode '\\' rfl (by decide) (by decide) (fun _ => rfl) (by cases multiline <;> rfl))
  unfold encodeChar
  simp only [beq_iff_eq, hb, ht, hn, hf, hr, hq, hs, if_false]
  cases hescape : needsEscape c with
  | true =>
    exact .inr ⟨'u' :: (hex4 c.toNat).toList, by simp, fun _ => escape?_hex4 hescape, 'u', _, rfl, rfl, by decide,
      by decide⟩
  | false => exact .inl ⟨by simp, hq, hs, hr, .inl (isPlain_of_not_needsEscape hescape hn)⟩

/-! ## Texts on one line -/

theorem basic?_encode : ∀ {cs : List Char} {limit : Nat}, cs.length < limit →
    basic? limit ((cs.flatMap fun c => (encodeChar false c).toList) ++ '"' :: rest) = some (cs, rest)
  | [], limit, h => by
    obtain ⟨limit, rfl⟩ : ∃ k, limit = k + 1 := ⟨limit - 1, by omega⟩
    rfl
  | c :: cs, limit, h => by
    obtain ⟨limit, rfl⟩ : ∃ k, limit = k + 1 := ⟨limit - 1, by omega⟩
    have ih : basic? limit ((cs.flatMap fun c => (encodeChar false c).toList) ++ '"' :: rest) = some (cs, rest) :=
      basic?_encode (by rw [List.length_cons] at h; omega)
    rw [List.flatMap_cons, List.append_assoc]
    rcases encodeChar_cases false c with ⟨hc, hquote, hslash, -, hplain⟩ | ⟨code, hc, hcode⟩
    · have hplain : isPlain c = true := hplain.resolve_right fun h => Bool.false_ne_true h.1
      rw [hc, List.singleton_append, basic?]
      · rw [if_pos hplain, ih]
        rfl
      · exact hquote
      · exact hslash
    · rw [hc, List.cons_append, basic?, hcode.reads, Option.bind_some]
      dsimp only
      rw [ih]
      rfl

theorem literal?_append (hplain : ∀ c ∈ cs, isPlain c = true) (hquote : '\'' ∉ cs) :
    literal? (cs ++ '\'' :: rest) = some (cs, rest) := by
  induction cs with
  | nil => rfl
  | cons c cs ih =>
    rw [List.mem_cons, not_or] at hquote
    have ih := ih (fun c hc => hplain c (List.mem_cons_of_mem _ hc)) hquote.2
    rw [List.cons_append, literal?]
    · rw [if_pos (hplain c (List.mem_cons_self ..)), ih]
      rfl
    · exact Ne.symm hquote.1

/-! ## Texts on several lines -/

/-- The number of quotes that a text begins with. -/
def leading (q : Char) (cs : List Char) : Nat := (cs.takeWhile (· == q)).length

variable {q : Char}

theorem leading_cons_self : leading q (q :: cs) = leading q cs + 1 := by
  simp [leading]

theorem leading_cons_of_ne (h : c ≠ q) : leading q (c :: cs) = 0 := by
  simp [leading, h]

theorem leading_replicate (k : Nat) (h : rest.head? ≠ some q) : leading q (List.replicate k q ++ rest) = k := by
  induction k with
  | zero =>
    cases rest with
    | nil => rfl
    | cons c rest => exact leading_cons_of_ne fun hc => h (by rw [hc]; rfl)
  | succ k ih => rw [List.replicate_succ, List.cons_append, leading_cons_self, ih]

theorem lineBreak?_of_ne (hbreak : c ≠ '\n') (hreturn : c ≠ '\r') : lineBreak? (c :: cs) = none := by
  unfold lineBreak?
  split
  · rename_i heq; cases heq; exact absurd rfl hbreak
  · rename_i heq; cases heq; exact absurd rfl hreturn
  · rfl

section

variable {limit : Nat} (hbreak : q ≠ '\n') (hreturn : q ≠ '\r')
include hbreak hreturn

/-- Up to two quotes before the closing ones belong to a text. -/
theorem multiline?_closing {k : Nat} (hk : k ≤ 2) (h : rest.head? ≠ some q) :
    multiline? q (limit + 1) (List.replicate (k + 3) q ++ rest) = some (List.replicate k q, rest) := by
  have hquotes := leading_replicate (k + 3) h
  rw [List.replicate_succ, List.cons_append] at hquotes ⊢
  rw [multiline?, lineBreak?_of_ne hbreak hreturn]
  dsimp only
  rw [if_pos (beq_self_eq_true q)]
  unfold leading at hquotes
  rw [hquotes, if_neg (by omega)]
  have hkept : min (k + 3 - 3) 2 = k := by omega
  rw [hkept, ← List.cons_append, ← List.replicate_succ, List.drop_left' (by simp; omega)]

theorem multiline?_quote (h : leading q (q :: cs) < 3) :
    multiline? q (limit + 1) (q :: cs) = (multiline? q limit cs).map fun (t, r) => (q :: t, r) := by
  rw [multiline?, lineBreak?_of_ne hbreak hreturn]
  dsimp only
  unfold leading at h
  rw [if_pos (beq_self_eq_true q), if_pos h]

end

theorem multiline?_break {limit : Nat} : multiline? q (limit + 1) ('\n' :: cs) =
    (multiline? q limit cs).map fun (t, r) => ('\n' :: t, r) := rfl

theorem multiline?_plain {limit : Nat} (hplain : isPlain c = true) (hquote : c ≠ q) (hslash : c = '\\' → q ≠ '"') :
    multiline? q (limit + 1) (c :: cs) = (multiline? q limit cs).map fun (t, r) => (c :: t, r) := by
  have hbreak : c ≠ '\n' := by rintro rfl; cases hplain
  have hreturn : c ≠ '\r' := by rintro rfl; cases hplain
  rw [multiline?, lineBreak?_of_ne hbreak hreturn]
  dsimp only
  rw [if_neg (by simpa using hquote), if_neg (by simpa using hslash), if_pos hplain]

theorem multiline?_code {limit : Nat} {code : List Char} (h : Code c code) :
    multiline? '"' (limit + 1) ('\\' :: (code ++ cs)) = (multiline? '"' limit cs).map fun (t, r) => (c :: t, r) := by
  obtain ⟨d, ds, hcode, hgap, hbreak, hreturn⟩ := h.solid
  have hreads := h.reads cs
  have hline : lineBreak? ((code ++ cs).dropWhile isGap) = none := by
    rw [hcode, List.cons_append, List.dropWhile_cons_of_neg (by simp [hgap])]
    exact lineBreak?_of_ne hbreak hreturn
  rw [multiline?, lineBreak?_of_ne (by decide) (by decide)]
  dsimp only
  rw [if_neg (by decide), if_pos (by decide), hline, if_neg (by decide), hreads]
  rfl

/-- A text of quotes alone goes on with those after it; any other one has its leading quotes to itself. -/
theorem leading_append (q : Char) (cs : List Char) :
    cs = List.replicate cs.length q ∨ ∀ tail, leading q (cs ++ tail) = leading q cs := by
  induction cs with
  | nil => exact .inl rfl
  | cons c cs ih =>
    by_cases hc : c = q
    · subst hc
      rcases ih with h | h
      · exact .inl (by rw [List.length_cons, List.replicate_succ, ← h])
      · exact .inr fun tail => by rw [List.cons_append, leading_cons_self, leading_cons_self, h]
    · exact .inr fun tail => by rw [List.cons_append, leading_cons_of_ne hc, leading_cons_of_ne hc]

/-- Between single quotes a text stands as it is, if it has no three of them in a row. -/
theorem multiline?_literal (h : rest.head? ≠ some '\'') : ∀ {cs : List Char} {limit : Nat}, cs.length < limit →
    (∀ c ∈ cs, needsEscape c = false) → (∀ a b, cs = a ++ b → leading '\'' b ≤ 2) →
    multiline? '\'' limit (cs ++ (List.replicate 3 '\'' ++ rest)) = some (cs, rest)
  | [], limit, hlimit, _, _ => by
    obtain ⟨limit, rfl⟩ : ∃ k, limit = k + 1 := ⟨limit - 1, by omega⟩
    exact multiline?_closing (by decide) (by decide) (Nat.zero_le _) h
  | c :: cs, limit, hlimit, hcodes, hsparse => by
    obtain ⟨limit, rfl⟩ : ∃ k, limit = k + 1 := ⟨limit - 1, by omega⟩
    have ih : multiline? '\'' limit (cs ++ (List.replicate 3 '\'' ++ rest)) = some (cs, rest) :=
      multiline?_literal h (by rw [List.length_cons] at hlimit; omega)
        (fun c hc => hcodes c (List.mem_cons_of_mem _ hc)) fun a b hab => hsparse (c :: a) b (by rw [hab]; rfl)
    have hhead := hsparse [] (c :: cs) rfl
    rcases leading_append '\'' (c :: cs) with hall | hown
    · rw [hall] at hhead ⊢
      have hk : leading '\'' (List.replicate (c :: cs).length '\'' ++ []) = _ := leading_replicate _ (by decide)
      rw [List.append_nil] at hk
      rw [hk] at hhead
      rw [← List.append_assoc, List.replicate_append_replicate]
      exact multiline?_closing (by decide) (by decide) hhead h
    · rw [List.cons_append]
      by_cases hquote : c = '\''
      · subst hquote
        rw [multiline?_quote (by decide) (by decide), ih]
        · rfl
        · have := hown (List.replicate 3 '\'' ++ rest)
          rw [List.cons_append] at this
          omega
      · by_cases hbreak : c = '\n'
        · subst hbreak
          rw [multiline?_break, ih]
          rfl
        · have hplain := isPlain_of_not_needsEscape (hcodes c (List.mem_cons_self ..)) hbreak
          rw [multiline?_plain hplain hquote (fun _ => by decide), ih]
          rfl

theorem encodeMultiline_quote {run : Nat} (h : run < 2) :
    (encodeMultiline ('"' :: cs) run).toList = '"' :: (encodeMultiline cs (run + 1)).toList := by
  rw [encodeMultiline, if_pos (beq_self_eq_true _), if_pos h, String.toList_append]
  rfl

/-- Every third quote in a row is written by a code. -/
theorem encodeMultiline_third {run : Nat} (h : ¬ run < 2) :
    (encodeMultiline ('"' :: cs) run).toList = '\\' :: '"' :: (encodeMultiline cs 0).toList := by
  rw [encodeMultiline, if_pos (beq_self_eq_true _), if_neg h, String.toList_append]
  rfl

theorem encodeMultiline_other {run : Nat} (h : c ≠ '"') :
    (encodeMultiline (c :: cs) run).toList = (encodeChar true c).toList ++ (encodeMultiline cs 0).toList := by
  rw [encodeMultiline, if_neg (by simpa using h), String.toList_append]

/-- The leading quotes of a text between double quotes, two at most: they are all of it, or others follow that
are no quotes. -/
theorem leading_encodeMultiline : ∀ (cs : List Char) (run : Nat), run ≤ 2 →
    (∃ k, k + run ≤ 2 ∧ cs = List.replicate k '"' ∧ (encodeMultiline cs run).toList = List.replicate k '"') ∨
      ∀ tail, leading '"' ((encodeMultiline cs run).toList ++ tail) + run < 3
  | [], run, hrun => .inl ⟨0, by omega, rfl, rfl⟩
  | c :: cs, run, hrun => by
    by_cases hc : c = '"'
    · subst hc
      by_cases hlt : run < 2
      · rw [encodeMultiline_quote hlt]
        rcases leading_encodeMultiline cs (run + 1) (by omega) with ⟨k, hk, hcs, hall⟩ | hlead
        · exact .inl ⟨k + 1, by omega, by rw [hcs, List.replicate_succ], by rw [hall, List.replicate_succ]⟩
        · refine .inr fun tail => ?_
          have := hlead tail
          rw [List.cons_append, leading_cons_self]
          omega
      · refine .inr fun tail => ?_
        rw [encodeMultiline_third hlt, List.cons_append, leading_cons_of_ne (by decide)]
        omega
    · refine .inr fun tail => ?_
      rw [encodeMultiline_other hc, List.append_assoc]
      rcases encodeChar_cases true c with ⟨hwritten, -⟩ | ⟨code, hwritten, -⟩
      · rw [hwritten, List.singleton_append, leading_cons_of_ne hc]
        omega
      · rw [hwritten, List.cons_append, leading_cons_of_ne (by decide)]
        omega

theorem multiline?_encode (h : rest.head? ≠ some '"') : ∀ {cs : List Char} {run limit : Nat}, run ≤ 2 →
    cs.length < limit →
    multiline? '"' limit ((encodeMultiline cs run).toList ++ (List.replicate 3 '"' ++ rest)) = some (cs, rest)
  | [], run, limit, _, hlimit => by
    obtain ⟨limit, rfl⟩ : ∃ k, limit = k + 1 := ⟨limit - 1, by omega⟩
    exact multiline?_closing (by decide) (by decide) (Nat.zero_le _) h
  | c :: cs, run, limit, hrun, hlimit => by
    obtain ⟨limit, rfl⟩ : ∃ k, limit = k + 1 := ⟨limit - 1, by omega⟩
    have ih : ∀ run ≤ 2, multiline? '"' limit ((encodeMultiline cs run).toList ++ (List.replicate 3 '"' ++ rest)) =
        some (cs, rest) := fun run hrun => multiline?_encode h hrun (by rw [List.length_cons] at hlimit; omega)
    rcases leading_encodeMultiline (c :: cs) run hrun with ⟨k, hk, hcs, hall⟩ | hlead
    · rw [hall, ← List.append_assoc, List.replicate_append_replicate, hcs]
      exact multiline?_closing (by decide) (by decide) (by omega) h
    have hlead := hlead (List.replicate 3 '"' ++ rest)
    by_cases hc : c = '"'
    · subst hc
      by_cases hlt : run < 2
      · rw [encodeMultiline_quote hlt, List.cons_append] at hlead ⊢
        rw [multiline?_quote (by decide) (by decide) (by omega), ih (run + 1) (by omega)]
        rfl
      · have hcode : Code '"' ['"'] := ⟨fun _ => rfl, '"', [], rfl, rfl, by decide, by decide⟩
        rw [encodeMultiline_third hlt]
        exact (multiline?_code hcode).trans (congrArg _ (ih 0 (by omega)))
    · have ih := ih 0 (by omega)
      rw [encodeMultiline_other hc, List.append_assoc]
      rcases encodeChar_cases true c with ⟨hwritten, -, hslash, -, hplain | ⟨-, hbreak⟩⟩ | ⟨code, hwritten, hcode⟩
      · rw [hwritten, List.singleton_append, multiline?_plain hplain hc (fun h => absurd h hslash), ih]
        rfl
      · subst hbreak
        rw [hwritten, List.singleton_append, multiline?_break, ih]
        rfl
      · rw [hwritten, List.cons_append, multiline?_code hcode, ih]
        rfl

/-! ## The four forms -/

/-- The longest run so far and the one at hand, after one more character. -/
def runStep (q : Char) : Nat × Nat → Char → Nat × Nat :=
  fun (best, run) c => if c == q then (max best (run + 1), run + 1) else (best, 0)

theorem runStep_self (best run : Nat) : runStep q (best, run) q = (max best (run + 1), run + 1) :=
  if_pos (beq_self_eq_true q)

theorem runStep_of_ne (best run : Nat) (h : c ≠ q) : runStep q (best, run) c = (best, 0) :=
  if_neg (by simpa using h)

/-- No run is longer than the longest one, neither the one at hand with the leading quotes nor a later one. -/
theorem le_foldl_runStep (q : Char) : ∀ (cs : List Char) (best run : Nat), run ≤ best →
    best ≤ (cs.foldl (runStep q) (best, run)).1 ∧ run + leading q cs ≤ (cs.foldl (runStep q) (best, run)).1 ∧
      ∀ a b, cs = a ++ b → leading q b ≤ (cs.foldl (runStep q) (best, run)).1
  | [], best, run, hle => by
    refine ⟨Nat.le_refl _, hle, fun a b hab => ?_⟩
    rw [(List.append_eq_nil_iff.1 hab.symm).2]
    exact Nat.zero_le _
  | c :: cs, best, run, hle => by
    rw [List.foldl_cons]
    by_cases hc : c = q
    · subst hc
      rw [runStep_self, leading_cons_self]
      obtain ⟨hbest, hrun, hsuffix⟩ := le_foldl_runStep c cs (max best (run + 1)) (run + 1) (by omega)
      refine ⟨by omega, by omega, fun a b hab => ?_⟩
      cases a with
      | nil => cases hab; rw [leading_cons_self]; omega
      | cons d a => exact hsuffix a b (List.cons_eq_cons.1 hab).2
    · rw [runStep_of_ne _ _ hc, leading_cons_of_ne hc]
      obtain ⟨hbest, hrun, hsuffix⟩ := le_foldl_runStep q cs best 0 (Nat.zero_le _)
      refine ⟨hbest, by omega, fun a b hab => ?_⟩
      cases a with
      | nil => cases hab; rw [leading_cons_of_ne hc]; exact Nat.zero_le _
      | cons d a => exact hsuffix a b (List.cons_eq_cons.1 hab).2

theorem leading_le_longestRun (q : Char) (a b : List Char) : leading q b ≤ longestRun q (a ++ b) :=
  (le_foldl_runStep q (a ++ b) 0 0 (Nat.le_refl _)).2.2 a b rfl

theorem not_mem_of_longestRun (h : longestRun q cs = 0) : q ∉ cs := by
  intro hmem
  obtain ⟨a, b, rfl⟩ := List.append_of_mem hmem
  have := leading_le_longestRun q a (q :: b)
  rw [leading_cons_self] at this
  omega

theorem length_encodeChar_pos (multiline : Bool) (c : Char) : 0 < (encodeChar multiline c).toList.length := by
  rcases encodeChar_cases multiline c with ⟨hc, -⟩ | ⟨code, hc, -⟩ <;> simp [hc]

theorem length_le_encode : ∀ cs : List Char, cs.length ≤ (cs.flatMap fun c => (encodeChar false c).toList).length
  | [] => Nat.le_refl _
  | c :: cs => by
    have := length_encodeChar_pos false c
    have := length_le_encode cs
    rw [List.flatMap_cons, List.length_append, List.length_cons]
    omega

theorem length_le_encodeMultiline : ∀ (cs : List Char) (run : Nat), cs.length ≤ (encodeMultiline cs run).toList.length
  | [], _ => Nat.zero_le _
  | c :: cs, run => by
    by_cases hc : c = '"'
    · subst hc
      by_cases hlt : run < 2
      · have := length_le_encodeMultiline cs (run + 1)
        rw [encodeMultiline_quote hlt, List.length_cons, List.length_cons]
        omega
      · have := length_le_encodeMultiline cs 0
        rw [encodeMultiline_third hlt, List.length_cons, List.length_cons, List.length_cons]
        omega
    · have := length_encodeChar_pos true c
      have := length_le_encodeMultiline cs 0
      rw [encodeMultiline_other hc, List.length_append, List.length_cons]
      omega

theorem text?_basic (cs rest : List Char) :
    text? ('"' :: ((cs.flatMap fun c => (encodeChar false c).toList) ++ '"' :: '\n' :: rest)) =
      some (String.ofList cs, '\n' :: rest) := by
  -- the text is not taken for one between tripled quotes
  have hopen : ∀ r, (cs.flatMap fun c => (encodeChar false c).toList) ++ '"' :: '\n' :: rest ≠ '"' :: '"' :: r := by
    intro r
    cases cs with
    | nil => simp
    | cons c cs =>
      rcases encodeChar_cases false c with ⟨hc, hquote, -⟩ | ⟨code, hc, -⟩
      · simp [hc, hquote]
      · simp [hc]
  unfold text?
  split
  · rename_i heq; exact absurd (List.cons_eq_cons.1 heq).2 (hopen _)
  · rename_i heq; cases heq
  · rename_i heq
    cases heq
    have := length_le_encode cs
    rw [basic?_encode (by simp only [List.length_cons, List.length_append]; omega)]
    rfl
  · rename_i heq; cases heq
  · rename_i hno _; exact absurd rfl (hno _)

theorem text?_literal (hplain : ∀ c ∈ cs, isPlain c = true) (hquote : '\'' ∉ cs) (rest : List Char) :
    text? ('\'' :: (cs ++ '\'' :: '\n' :: rest)) = some (String.ofList cs, '\n' :: rest) := by
  have hopen : ∀ r, cs ++ '\'' :: '\n' :: rest ≠ '\'' :: '\'' :: r := by
    rintro r heq
    cases cs with
    | nil => cases heq
    | cons c cs => exact hquote (List.mem_cons.2 (.inl (List.cons_eq_cons.1 heq).1.symm))
  unfold text?
  split
  · rename_i heq; cases heq
  · rename_i heq; exact absurd (List.cons_eq_cons.1 heq).2 (hopen _)
  · rename_i heq; cases heq
  · rename_i heq
    cases heq
    rw [literal?_append hplain hquote]
    rfl
  · rename_i hno; exact absurd rfl (hno _)

/-- The line break that is put before a text with line breaks. -/
def openingBreak (cs : List Char) : List Char := if cs.contains '\n' then ['\n'] else []

/-- The break before a text is no part of it, and nothing else is taken for it. -/
theorem lineBreak?_openingBreak {written : List Char} (h : '\n' ∉ cs → lineBreak? written = none) :
    (lineBreak? (openingBreak cs ++ written)).getD (openingBreak cs ++ written) = written := by
  unfold openingBreak
  split
  · rfl
  · rename_i hbreaks
    rw [List.nil_append, h (by simpa using hbreaks)]
    rfl

theorem text?_multiline (cs rest : List Char) :
    text? ('"' :: '"' :: '"' :: (openingBreak cs ++
      ((encodeMultiline cs 0).toList ++ (List.replicate 3 '"' ++ '\n' :: rest)))) =
      some (String.ofList cs, '\n' :: rest) := by
  have hlength := length_le_encodeMultiline cs 0
  have hbreak : '\n' ∉ cs →
      lineBreak? ((encodeMultiline cs 0).toList ++ (List.replicate 3 '"' ++ '\n' :: rest)) = none := by
    intro hno
    cases cs with
    | nil => rfl
    | cons c cs =>
      rw [List.mem_cons, not_or] at hno
      by_cases hc : c = '"'
      · subst hc
        rw [encodeMultiline_quote (by decide)]
        rfl
      · rw [encodeMultiline_other hc]
        rcases encodeChar_cases true c with ⟨hwritten, -, -, hreturn, -⟩ | ⟨code, hwritten, -⟩
        · rw [hwritten]
          exact lineBreak?_of_ne (Ne.symm hno.1) hreturn
        · rw [hwritten]
          rfl
  rw [text?]
  dsimp only
  rw [lineBreak?_openingBreak hbreak, multiline?_encode (by simp) (Nat.zero_le _)]
  · rfl
  · simp only [List.length_cons, List.length_append]
    omega

theorem text?_multilineLiteral (hcodes : ∀ c ∈ cs, needsEscape c = false) (hsparse : longestRun '\'' cs ≤ 2)
    (rest : List Char) :
    text? ('\'' :: '\'' :: '\'' :: (openingBreak cs ++ (cs ++ (List.replicate 3 '\'' ++ '\n' :: rest)))) =
      some (String.ofList cs, '\n' :: rest) := by
  have hbreak : '\n' ∉ cs → lineBreak? (cs ++ (List.replicate 3 '\'' ++ '\n' :: rest)) = none := by
    intro hno
    cases cs with
    | nil => rfl
    | cons c cs =>
      rw [List.mem_cons, not_or] at hno
      refine lineBreak?_of_ne (Ne.symm hno.1) ?_
      rintro rfl
      cases hcodes _ (List.mem_cons_self ..)
  rw [text?]
  dsimp only
  rw [lineBreak?_openingBreak hbreak, multiline?_literal (by simp) _ hcodes]
  · rfl
  · rintro a b rfl
    exact Nat.le_trans (leading_le_longestRun _ a b) hsparse
  · simp only [List.length_cons, List.length_append]
    omega

/-- A text is read back from what is written for it, up to the end of the line. -/
theorem text?_encodeText (s : String) (rest : List Char) :
    text? ((encodeText s).toList ++ '\n' :: rest) = some (s, '\n' :: rest) := by
  have hback : String.ofList s.toList = s := String.ofList_toList
  have hbasic : text? (("\"" ++ String.join (s.toList.map (encodeChar false)) ++ "\"").toList ++ '\n' :: rest) =
      some (s, '\n' :: rest) := by
    have hwritten := text?_basic s.toList rest
    rw [hback] at hwritten
    simpa [List.flatMap_map] using hwritten
  have hopening : (if s.toList.contains '\n' then "\n" else "").toList = openingBreak s.toList := by
    unfold openingBreak
    split <;> rfl
  have hmultiline (opening : String) (h : opening.toList = openingBreak s.toList) :
      text? (("\"\"\"" ++ opening ++ encodeMultiline s.toList 0 ++ "\"\"\"").toList ++ '\n' :: rest) =
        some (s, '\n' :: rest) := by
    have hwritten := text?_multiline s.toList rest
    rw [hback, ← h] at hwritten
    simpa using hwritten
  unfold encodeText
  dsimp only
  generalize (if s.toList.contains '\n' then "\n" else "") = opening at hopening ⊢
  split
  · exact hbasic
  split
  · rename_i hcase
    simp only [Bool.and_eq_true, Bool.not_eq_true', beq_iff_eq, List.any_eq_false, List.contains_eq_mem,
      decide_eq_false_iff_not] at hcase
    obtain ⟨⟨hcodes, hquote⟩, hbreak⟩ := hcase
    have hplain : ∀ c ∈ s.toList, isPlain c = true := fun c hc =>
      isPlain_of_not_needsEscape (by simpa using hcodes c hc) fun heq => hbreak (heq ▸ hc)
    have hwritten := text?_literal hplain (not_mem_of_longestRun hquote) rest
    rw [hback] at hwritten
    simpa using hwritten
  split
  · exact hmultiline _ hopening
  split
  · rename_i hcase
    simp only [Bool.and_eq_true, Bool.not_eq_true', decide_eq_true_iff, List.any_eq_false] at hcase
    have hwritten := text?_multilineLiteral (fun c hc => by simpa using hcase.1 c hc) hcase.2 rest
    rw [hback, ← hopening] at hwritten
    simpa using hwritten
  split
  · exact hmultiline _ hopening
  · exact hbasic

/-! ## Keys -/

theorem not_quote_of_isBare (h : isBare c = true) : c ≠ '"' ∧ c ≠ '\'' := by
  constructor <;> rintro rfl <;> cases h

theorem keyPart?_bare (hne : cs ≠ []) (hbare : ∀ c ∈ cs, isBare c = true) :
    keyPart? (cs ++ ' ' :: rest) = some (String.ofList cs, ' ' :: rest) := by
  have hhead : ∀ c r, cs ++ ' ' :: rest = c :: r → isBare c = true := by
    intro c r heq
    cases cs with
    | nil => exact absurd rfl hne
    | cons d cs => exact hbare c (by rw [← (List.cons_eq_cons.1 heq).1]; exact List.mem_cons_self ..)
  unfold keyPart?
  split
  · rename_i heq; exact absurd rfl (not_quote_of_isBare (hhead _ _ heq)).1
  · rename_i heq; exact absurd rfl (not_quote_of_isBare (hhead _ _ heq)).2
  · have htake : (cs ++ ' ' :: rest).takeWhile isBare = cs := by
      rw [List.takeWhile_append_of_pos hbare, List.takeWhile_cons_of_neg (by decide), List.append_nil]
    have hdrop : (cs ++ ' ' :: rest).dropWhile isBare = ' ' :: rest := by
      rw [List.dropWhile_append_of_pos hbare, List.dropWhile_cons_of_neg (by decide)]
    dsimp only
    rw [htake, hdrop, if_neg (by simpa using hne)]

theorem keyPart?_basic (cs rest : List Char) :
    keyPart? ('"' :: ((cs.flatMap fun c => (encodeChar false c).toList) ++ '"' :: ' ' :: rest)) =
      some (String.ofList cs, ' ' :: rest) := by
  have hlength := length_le_encode cs
  rw [keyPart?, basic?_encode (by simp only [List.length_cons, List.length_append]; omega)]
  rfl

theorem keyPart?_literal (hplain : ∀ c ∈ cs, isPlain c = true) (hquote : '\'' ∉ cs) (rest : List Char) :
    keyPart? ('\'' :: (cs ++ '\'' :: ' ' :: rest)) = some (String.ofList cs, ' ' :: rest) := by
  rw [keyPart?, literal?_append hplain hquote]
  rfl

/-- A part of a key is read back from what is written for it. -/
theorem keyPart?_encodeKey (s : String) (rest : List Char) :
    keyPart? ((encodeKey s).toList ++ ' ' :: rest) = some (s, ' ' :: rest) := by
  have hback : String.ofList s.toList = s := String.ofList_toList
  have hbasic : keyPart? (("\"" ++ String.join (s.toList.map (encodeChar false)) ++ "\"").toList ++ ' ' :: rest) =
      some (s, ' ' :: rest) := by
    have hwritten := keyPart?_basic s.toList rest
    rw [hback] at hwritten
    simpa [List.flatMap_map] using hwritten
  unfold encodeKey
  dsimp only
  split
  · rename_i hcase
    simp only [Bool.and_eq_true, Bool.not_eq_true', List.isEmpty_eq_false_iff, List.all_eq_true] at hcase
    rw [keyPart?_bare hcase.1 hcase.2, hback]
  split
  · exact hbasic
  split
  · rename_i hcase
    simp only [Bool.and_eq_true, Bool.not_eq_true', Bool.or_eq_false_iff, List.any_eq_false, List.contains_eq_mem,
      decide_eq_false_iff_not] at hcase
    obtain ⟨⟨hcodes, hbreak⟩, hquote⟩ := hcase
    have hplain : ∀ c ∈ s.toList, isPlain c = true := fun c hc =>
      isPlain_of_not_needsEscape (by simpa using hcodes c hc) fun heq => hbreak (heq ▸ hc)
    have hwritten := keyPart?_literal hplain hquote rest
    rw [hback] at hwritten
    simpa using hwritten
  · exact hbasic

/-- The character that a key begins with. -/
theorem encodeKey_cons (s : String) :
    ∃ c cs, (encodeKey s).toList = c :: cs ∧ (c = '"' ∨ c = '\'' ∨ isBare c = true) := by
  have hbasic : ∃ c cs, ("\"" ++ String.join (s.toList.map (encodeChar false)) ++ "\"").toList = c :: cs ∧
      (c = '"' ∨ c = '\'' ∨ isBare c = true) := ⟨'"', _, by simp; rfl, .inl rfl⟩
  unfold encodeKey
  dsimp only
  split
  · rename_i hcase
    simp only [Bool.and_eq_true, Bool.not_eq_true', List.isEmpty_eq_false_iff, List.all_eq_true] at hcase
    obtain ⟨c, cs, hcs⟩ := List.exists_cons_of_ne_nil hcase.1
    exact ⟨c, cs, hcs, .inr (.inr (hcase.2 c (by rw [hcs]; exact List.mem_cons_self ..)))⟩
  split
  · exact hbasic
  split
  · exact ⟨'\'', s.toList ++ ['\''], by simp, .inr (.inl rfl)⟩
  · exact hbasic

theorem key?_encodeKey (s : String) (rest : List Char) :
    key? ((encodeKey s).toList ++ ' ' :: '=' :: rest) = some ([s], '=' :: rest) := by
  have hgap : ((encodeKey s).toList ++ ' ' :: '=' :: rest).dropWhile isGap =
      (encodeKey s).toList ++ ' ' :: '=' :: rest := by
    obtain ⟨c, cs, hcs, hc⟩ := encodeKey_cons s
    rw [hcs, List.cons_append, List.dropWhile_cons_of_neg]
    rcases hc with rfl | rfl | hc
    · decide
    · decide
    · intro hgap
      simp only [isGap, Bool.or_eq_true, beq_iff_eq] at hgap
      rcases hgap with rfl | rfl <;> cases hc
  show keyParts? (78 + 1) _ = _
  rw [keyParts?, hgap, keyPart?_encodeKey]
  rfl

end Singletons.Toml
