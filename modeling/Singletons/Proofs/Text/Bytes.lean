import Singletons.Text.Bytes

/-
The bytes of texts. A text is cut between characters wherever it was put together from texts, because the
first byte of a character never goes on with an earlier one; and a byte below 128 is a character by itself,
so a search for such a character may go byte by byte. More generally a text occurs in another one only between
cuts of the other (`isCut_of_occurs`), so a search for any text that is not empty may go byte by byte.
-/

namespace Singletons.Text

variable {s t : String} {c d : Char} {b : UInt8}

theorem toBytes_eq (s : String) : toBytes s = s.toList.flatMap String.utf8EncodeChar := by
  unfold toBytes
  rw [← String.utf8Encode_toList]
  simp [List.utf8Encode]

@[simp] theorem toBytes_empty : toBytes "" = [] := rfl

@[simp] theorem toBytes_append (s t : String) : toBytes (s ++ t) = toBytes s ++ toBytes t := by
  simp [toBytes]

@[simp] theorem ofBytes_toBytes (s : String) : ofBytes (toBytes s) = s := by
  have harray : (⟨(toBytes s).toArray⟩ : ByteArray) = s.toByteArray := rfl
  unfold ofBytes ofBytes?
  rw [harray, String.fromUTF8?, dif_pos s.isValidUTF8]
  rfl

theorem toBytes_inj : toBytes s = toBytes t ↔ s = t := by
  constructor
  · intro h
    rw [← ofBytes_toBytes s, h, ofBytes_toBytes]
  · exact congrArg toBytes

theorem toBytes_ne_nil (h : s ≠ "") : toBytes s ≠ [] := fun hnil => h (toBytes_inj.1 hnil)

/-! ## Single bytes -/

/-- The bytes of a character are its code point, if that is below 128, and bytes above otherwise. -/
theorem toNat_of_mem_utf8EncodeChar (h : b ∈ String.utf8EncodeChar c) : b.toNat = c.toNat ∨ 128 ≤ b.toNat := by
  have hval : c.toNat = c.val.toNat := rfl
  unfold String.utf8EncodeChar at h
  dsimp only at h
  split at h
  · rw [List.mem_singleton.1 h, UInt8.toNat_ofNat']
    omega
  · right
    repeat' split at h
    all_goals simp only [List.mem_cons, List.not_mem_nil, or_false] at h
    · rcases h with rfl | rfl <;> rw [UInt8.toNat_ofNat'] <;> omega
    · rcases h with rfl | rfl | rfl <;> rw [UInt8.toNat_ofNat'] <;> omega
    · rcases h with rfl | rfl | rfl | rfl <;> rw [UInt8.toNat_ofNat'] <;> omega

/-- A character below 128 that is not in a text is not among its bytes. -/
theorem not_mem_toBytes (hd : d.toNat < 128) (h : d ∉ s.toList) : d.toUInt8 ∉ toBytes s := by
  rw [toBytes_eq]
  intro hmem
  obtain ⟨c, hc, hb⟩ := List.mem_flatMap.1 hmem
  have hbyte : d.toUInt8.toNat = d.toNat := by
    show d.val.toNat % 256 = d.val.toNat
    exact Nat.mod_eq_of_lt (Nat.lt_trans hd (by decide))
  rcases toNat_of_mem_utf8EncodeChar hb with heq | hge
  · rw [hbyte] at heq
    exact h (Char.toNat_inj.1 heq ▸ hc)
  · omega

theorem isContinuation_eq (b : UInt8) : Bytes.isContinuation b = decide (128 ≤ b.toNat ∧ b.toNat < 192) := by
  have hall : ∀ n < 256, Bytes.isContinuation (UInt8.ofNat n) = decide (128 ≤ n ∧ n < 192) := by decide +kernel
  have hb := hall b.toNat b.toNat_lt
  rwa [UInt8.ofNat_toNat] at hb

/-- A character begins with a byte that does not go on with another. -/
theorem exists_utf8EncodeChar (c : Char) : ∃ b rest, String.utf8EncodeChar c = b :: rest ∧
    Bytes.isContinuation b = false := by
  simp only [isContinuation_eq, decide_eq_false_iff_not]
  unfold String.utf8EncodeChar
  dsimp only
  repeat' split
  all_goals
    refine ⟨_, _, rfl, ?_⟩
    rw [UInt8.toNat_ofNat']
    omega

namespace Bytes

/-- Where a text was appended, a cut divides no character. -/
theorem isBoundary_append (before : Bytes) (s : String) : isBoundary (before ++ toBytes s) before.length = true := by
  rw [toBytes_eq]
  cases s.toList with
  | nil => simp [isBoundary]
  | cons c cs =>
    obtain ⟨b, rest, hc, hb⟩ := exists_utf8EncodeChar c
    simp [isBoundary, hc, hb]

theorem isBoundary_append_append (before : Bytes) (s t : String) :
    isBoundary (before ++ toBytes s ++ toBytes t) before.length = true := by
  rw [List.append_assoc, ← toBytes_append]
  exact isBoundary_append ..

theorem slice?_append (before : Bytes) (s t : String) :
    slice? (before ++ toBytes s ++ toBytes t) before.length (before ++ toBytes s).length = some (toBytes s) := by
  unfold slice?
  rw [isBoundary_append_append, isBoundary_append, List.take_left, List.drop_left]
  simp

theorem replace?_append (before replacement : Bytes) (s t : String) :
    replace? (before ++ toBytes s ++ toBytes t) before.length (before ++ toBytes s).length replacement =
      some (before ++ replacement ++ toBytes t) := by
  unfold replace?
  rw [isBoundary_append_append, isBoundary_append, List.append_assoc before, List.take_left, ← List.append_assoc,
    List.drop_left]
  simp

theorem le_of_isBoundary {t : Bytes} {i : Nat} (h : isBoundary t i = true) : i ≤ t.length := by
  simp only [isBoundary, Bool.or_eq_true, beq_iff_eq] at h
  rcases h with (rfl | rfl) | h
  · exact Nat.zero_le _
  · exact Nat.le_refl _
  · cases hget : t[i]? with
    | none => simp [hget] at h
    | some b => exact Nat.le_of_lt (List.getElem?_eq_some_iff.1 hget).1

theorem slice?_eq_some {t s : Bytes} {i j : Nat} (h : slice? t i j = some s) : i + s.length = j ∧ j ≤ t.length := by
  simp only [slice?, Option.ite_none_right_eq_some, Bool.and_eq_true, decide_eq_true_eq] at h
  obtain ⟨⟨⟨hle, -⟩, hj⟩, hs⟩ := h
  have hj := le_of_isBoundary hj
  have hs := congrArg List.length (Option.some.inj hs)
  rw [List.length_drop, List.length_take] at hs
  omega

theorem replace?_eq_some {t r t' : Bytes} {i j : Nat} (h : replace? t i j r = some t') :
    j ≤ t.length ∧ t'.length - (i + r.length) = t.length - j := by
  simp only [replace?, Option.ite_none_right_eq_some, Bool.and_eq_true] at h
  obtain ⟨⟨⟨-, hi⟩, hj⟩, ht⟩ := h
  have hi := le_of_isBoundary hi
  have hj := le_of_isBoundary hj
  have ht := congrArg List.length (Option.some.inj ht)
  rw [List.length_append, List.length_append, List.length_take, List.length_drop] at ht
  omega

/-! ## Searching -/

theorem find?_self (b : UInt8) (pattern t : Bytes) : find? (b :: pattern) (b :: pattern ++ t) = some 0 := by
  rw [List.cons_append, find?, if_pos]
  simp

/-- Before the first byte of a pattern there is no occurrence. -/
theorem find?_append {b : UInt8} (pattern : Bytes) {before : Bytes} (t : Bytes) (h : b ∉ before) :
    find? (b :: pattern) (before ++ t) = (find? (b :: pattern) t).map (before.length + ·) := by
  induction before with
  | nil => simp
  | cons a before ih =>
    rw [List.mem_cons, not_or] at h
    rw [List.cons_append, find?, if_neg (by simp [h.1]), ih h.2, Option.map_map]
    congr 1
    funext i
    simp only [Function.comp_apply, List.length_cons]
    omega

theorem find?_eq_none {b : UInt8} (pattern : Bytes) {t : Bytes} (h : b ∉ t) : find? (b :: pattern) t = none := by
  have := find?_append pattern [] h
  rwa [List.append_nil] at this

theorem splitOnce?_append {b : UInt8} {before : Bytes} (after : Bytes) (h : b ∉ before) :
    splitOnce? [b] (before ++ b :: after) = some (before, after) := by
  have hself : find? [b] (b :: after) = some 0 := find?_self b [] after
  unfold splitOnce?
  rw [find?_append [] _ h, hself]
  simp

theorem splitOnce?_eq_none {b : UInt8} {t : Bytes} (h : b ∉ t) : splitOnce? [b] t = none := by
  rw [splitOnce?, find?_eq_none [] h, Option.map_none]

theorem prefix_of_find? {pattern t : Bytes} {i : Nat} (h : find? pattern t = some i) : pattern <+: t.drop i := by
  induction t generalizing i with
  | nil =>
    rw [find?, Option.ite_none_right_eq_some, List.isEmpty_iff] at h
    rw [h.1]
    exact List.nil_prefix
  | cons b t ih =>
    rw [find?] at h
    split at h
    · rename_i hhere
      cases h
      exact List.isPrefixOf_iff_prefix.1 hhere
    · obtain ⟨k, hk, rfl⟩ := Option.map_eq_some_iff.1 h
      exact ih hk

/-! ## Cuts -/

/-- Whether a text can be cut at an offset into two texts. -/
def IsCut (s : String) (i : Nat) : Prop := (⟨i⟩ : String.Pos.Raw).IsValid s

variable {pattern : String} {i j : Nat}

theorem isCut_iff : IsCut s i ↔ ∃ s₁ s₂, s = s₁ ++ s₂ ∧ (toBytes s₁).length = i := by
  unfold IsCut
  rw [String.Pos.Raw.isValid_iff_exists_append]
  simp only [String.Pos.Raw.ext_iff, eq_comm (a := i)]
  rfl

theorem IsCut.isBoundary (h : IsCut s i) : isBoundary (toBytes s) i = true := by
  obtain ⟨s₁, s₂, rfl, rfl⟩ := isCut_iff.1 h
  rw [toBytes_append]
  exact isBoundary_append ..

theorem IsCut.le (h : IsCut s i) : i ≤ (toBytes s).length := le_of_isBoundary h.isBoundary

theorem IsCut.drop (h : IsCut s i) : ∃ t, toBytes t = (toBytes s).drop i := by
  obtain ⟨s₁, s₂, rfl, rfl⟩ := isCut_iff.1 h
  exact ⟨s₂, by rw [toBytes_append, List.drop_left]⟩

/-- A range of a text that begins and ends between characters. -/
structure IsRange (t : Bytes) (i j : Nat) : Prop where
  le : i ≤ j
  inside : j ≤ t.length
  first : isBoundary t i = true
  last : isBoundary t j = true

theorem IsCut.isRange (hij : i ≤ j) (hi : IsCut s i) (hj : IsCut s j) : IsRange (toBytes s) i j :=
  ⟨hij, hj.le, hi.isBoundary, hj.isBoundary⟩

/-- The bytes between two offsets are a text exactly if both offsets are cuts. -/
theorem drop_take_eq_toBytes_iff (hij : i < j) (hj : j ≤ (toBytes s).length) :
    (∃ t, toBytes t = ((toBytes s).take j).drop i) ↔ IsCut s i ∧ IsCut s j := by
  have hextract : (s.toByteArray.extract i j).data.toList = ((toBytes s).take j).drop i := by
    rw [ByteArray.data_extract, Array.toList_extract, List.extract_eq_take_drop, ← List.drop_take]
    rfl
  have hne : (⟨i⟩ : String.Pos.Raw) ≠ ⟨j⟩ := fun heq => Nat.ne_of_lt hij (congrArg String.Pos.Raw.byteIdx heq)
  have hvalid : (s.toByteArray.extract i j).IsValidUTF8 ↔ IsCut s i ∧ IsCut s j :=
    (String.Pos.Raw.isValidUTF8_extract_iff ⟨i⟩ ⟨j⟩ (Nat.le_of_lt hij) hj).trans (or_iff_right hne)
  rw [← hvalid, ← hextract]
  constructor
  · rintro ⟨t, ht⟩
    have heq : t.toByteArray = s.toByteArray.extract i j := ByteArray.ext (Array.toList_inj.1 ht)
    exact heq ▸ t.isValidUTF8
  · intro h
    exact ⟨⟨_, h⟩, rfl⟩

/-- Where a text occurs among the bytes of another one, no character of the other is divided. -/
theorem isCut_of_occurs (hne : pattern ≠ "") (h : toBytes pattern <+: (toBytes s).drop i) :
    IsCut s i ∧ IsCut s (i + (toBytes pattern).length) := by
  have hpos : 0 < (toBytes pattern).length := List.length_pos_iff.2 (toBytes_ne_nil hne)
  have hle := h.length_le
  rw [List.length_drop] at hle
  refine (drop_take_eq_toBytes_iff (by omega) (by omega)).1 ⟨pattern, ?_⟩
  rw [List.drop_take, Nat.add_sub_cancel_left]
  exact List.prefix_iff_eq_take.1 h

/-- What comes after a separator is a text, also if the separator is empty. -/
theorem splitOnce?_toBytes {separator : String} {before after : Bytes}
    (h : splitOnce? (toBytes separator) (toBytes s) = some (before, after)) : ∃ t, toBytes t = after := by
  obtain ⟨i, hfind, hsplit⟩ := Option.map_eq_some_iff.1 h
  cases hsplit
  by_cases hne : separator = ""
  · subst hne
    have hzero : i = 0 := by
      cases hs : toBytes s <;> rw [hs] at hfind <;> simpa [find?] using hfind.symm
    exact ⟨s, by rw [hzero]; rfl⟩
  · exact (isCut_of_occurs hne (prefix_of_find? hfind)).2.drop

theorem slice?_toBytes (hij : i ≤ j) (hi : IsCut s i) (hj : IsCut s j) :
    ∃ t, slice? (toBytes s) i j = some (toBytes t) := by
  have hslice : slice? (toBytes s) i j = some (((toBytes s).take j).drop i) := by
    rw [slice?, hi.isBoundary, hj.isBoundary, if_pos (by simpa using hij)]
  rw [hslice]
  rcases Nat.eq_or_lt_of_le hij with rfl | hlt
  · exact ⟨"", by simp⟩
  · obtain ⟨t, ht⟩ := (drop_take_eq_toBytes_iff hlt hj.le).2 ⟨hi, hj⟩
    exact ⟨t, by rw [ht]⟩

theorem replace?_toBytes (hij : i ≤ j) (hi : IsCut s i) (hj : IsCut s j) (r : String) :
    ∃ t, replace? (toBytes s) i j (toBytes r) = some (toBytes t) ∧ IsCut t (i + (toBytes r).length) := by
  obtain ⟨before, rest, hs, rfl⟩ := isCut_iff.1 hi
  obtain ⟨upto, after, hs', rfl⟩ := isCut_iff.1 hj
  refine ⟨before ++ r ++ after, ?_, isCut_iff.2 ⟨before ++ r, after, rfl, by simp⟩⟩
  rw [replace?, hi.isBoundary, hj.isBoundary, if_pos (by simpa using hij)]
  congr 1
  have htake : (toBytes s).take (toBytes before).length = toBytes before := by
    rw [hs, toBytes_append, List.take_left]
  have hdrop : (toBytes s).drop (toBytes upto).length = toBytes after := by
    rw [hs', toBytes_append, List.drop_left]
  rw [htake, hdrop, toBytes_append, toBytes_append]

end Bytes

end Singletons.Text
