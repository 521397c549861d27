import Singletons.Proofs.Toml.Numbers
import Singletons.Proofs.Toml.Texts
import Singletons.Settings.Save
import Mathlib.Data.List.Forall2

/-
Documents are read line by line. A piece of a document spells statements if reading it, whatever follows,
comes to these statements and goes on with what follows, or fails if there is none to come to (`Spells`).
Pieces that stand one after the other spell their statements one after the other, so what a document spells
is put together from its lines.
-/

namespace Singletons.Toml

open Settings (line textLine block)

variable {c : Char} {cs rest : List Char} {a b : String} {x y : Option (List Statement)}

/-! ## The start and the end of a line -/

/-- Whether a statement can begin with a character. -/
structure Solid (c : Char) : Prop where
  gap : isGap c = false
  comment : c ≠ '#'
  break_ : c ≠ '\n'
  return_ : c ≠ '\r'

theorem Solid.skipLines (h : Solid c) (limit : Nat) : skipLines (limit + 1) (c :: cs) = c :: cs := by
  have hspace : (c :: cs).dropWhile isGap = c :: cs := List.dropWhile_cons_of_neg (by simp [h.gap])
  have hcomment : skipComment (c :: cs) = c :: cs := by
    unfold skipComment
    split
    · rename_i heq; cases heq; exact absurd rfl h.comment
    · rfl
  rw [Toml.skipLines, hspace, hcomment, lineBreak?_of_ne h.break_ h.return_]

theorem statements?_cons {limit : Nat} {x : Option Statement} (h : Solid c)
    (hread : statement? (c :: cs) = x.map (·, '\n' :: rest)) :
    statements? (limit + 1) (c :: cs) = x.bind fun s => (statements? limit rest).map (s :: ·) := by
  rw [statements?, h.skipLines]
  dsimp only
  rw [hread]
  cases x <;> rfl

theorem statements?_break (limit : Nat) (rest : List Char) :
    statements? limit ('\n' :: rest) = statements? limit rest := by
  cases limit with
  | zero => rfl
  | succ limit => rfl

/-! ## Pieces -/

/-- Whether reading a piece comes to the statements `x`, or fails if that is none. -/
def Spells (text : String) (x : Option (List Statement)) : Prop :=
  ∃ n ≤ text.toList.length, ∀ limit rest,
    statements? (limit + n) (text.toList ++ rest) = x.bind fun s => (statements? limit rest).map (s ++ ·)

theorem spells_empty : Spells "" (some []) :=
  ⟨0, Nat.le_refl _, fun limit rest => by
    show statements? limit rest = (statements? limit rest).map fun s => s
    rw [Option.map_id']⟩

theorem spells_break : Spells "\n" (some []) :=
  ⟨0, Nat.zero_le _, fun limit rest => by
    show statements? limit ('\n' :: rest) = (statements? limit rest).map fun s => s
    rw [Option.map_id', statements?_break]⟩

theorem Spells.append (ha : Spells a x) (hb : Spells b y) :
    Spells (a ++ b) (x.bind fun s => y.map (s ++ ·)) := by
  obtain ⟨n, hn, ha⟩ := ha
  obtain ⟨k, hk, hb⟩ := hb
  refine ⟨k + n, ?_, fun limit rest => ?_⟩
  · rw [String.toList_append, List.length_append]
    omega
  · rw [String.toList_append, List.append_assoc, ← Nat.add_assoc, ha, hb]
    cases x with
    | none => rfl
    | some s =>
      cases y with
      | none => rfl
      | some t =>
        simp only [Option.bind_some, Option.map_some, Option.map_map]
        congr 1
        funext u
        exact (List.append_assoc ..).symm

/-- The statements of pieces one after the other. -/
def inRow : List (Option (List Statement)) → Option (List Statement)
  | [] => some []
  | x :: xs => x.bind fun s => (inRow xs).map (s ++ ·)

theorem inRow_append (xs ys : List (Option (List Statement))) :
    inRow (xs ++ ys) = (inRow xs).bind fun s => (inRow ys).map (s ++ ·) := by
  induction xs with
  | nil =>
    show inRow ys = (inRow ys).map fun s => s
    rw [Option.map_id']
  | cons x xs ih =>
    rw [List.cons_append, inRow, inRow, ih]
    cases x with
    | none => rfl
    | some s =>
      cases inRow xs with
      | none => rfl
      | some t =>
        simp only [Option.bind_some, Option.map_some, Option.map_map]
        congr 1
        funext u
        exact (List.append_assoc ..).symm

theorem inRow_some {α : Type} (f : α → List Statement) (l : List α) :
    inRow (l.map fun a => some (f a)) = some (l.flatMap f) := by
  induction l with
  | nil => rfl
  | cons a l ih =>
    rw [List.map_cons, inRow, ih]
    rfl

theorem spells_join {pieces : List String} {xs : List (Option (List Statement))} (h : List.Forall₂ Spells pieces xs) :
    Spells (String.join pieces) (inRow xs) := by
  induction h with
  | nil => exact spells_empty
  | cons hpiece _ ih =>
    rw [String.join_cons]
    exact hpiece.append ih

/-- Blank lines between pieces spell nothing. -/
theorem spells_intercalate {pieces : List String} {xs : List (Option (List Statement))}
    (h : List.Forall₂ Spells pieces xs) : Spells ("\n".intercalate pieces) (inRow xs) := by
  induction h with
  | nil => exact spells_empty
  | @cons p x pieces xs hpiece hpieces ih =>
    cases hpieces with
    | nil =>
      have hone := hpiece.append spells_empty
      rwa [String.append_empty] at hone
    | cons _ _ =>
      have hspaced := hpiece.append spells_break
      have hsame : (x.bind fun s => (some []).map (s ++ ·)) = x := by
        cases x with
        | none => rfl
        | some s => exact congrArg some (List.append_nil s)
      rw [hsame] at hspaced
      rw [String.intercalate_cons_cons]
      exact hspaced.append ih

/-! ## Lines of a document -/

theorem Solid.of_isBare (h : c = '"' ∨ c = '\'' ∨ isBare c = true) : Solid c := by
  have hne : ∀ d, isBare d = false → d ≠ '"' → d ≠ '\'' → c ≠ d := by
    rintro d hbare hdouble hsingle rfl
    rcases h with h | h | h
    · exact hdouble h
    · exact hsingle h
    · exact absurd (hbare.symm.trans h) (by decide)
  have hgap : isGap c = false := by
    rw [isGap, Bool.or_eq_false_iff, beq_eq_false_iff_ne, beq_eq_false_iff_ne]
    exact ⟨hne ' ' rfl (by decide) (by decide), hne '\t' rfl (by decide) (by decide)⟩
  exact ⟨hgap, hne '#' rfl (by decide) (by decide), hne '\n' rfl (by decide) (by decide),
    hne '\r' rfl (by decide) (by decide)⟩

/-- One line is one statement. -/
theorem spells_of_statement? {text : String} {x : Option Statement} (htext : text.toList = c :: cs) (hsolid : Solid c)
    (hread : ∀ rest, statement? (text.toList ++ rest) = x.map (·, '\n' :: rest)) : Spells text (x.map ([·])) := by
  refine ⟨1, ?_, fun limit rest => ?_⟩
  · rw [htext, List.length_cons]
    omega
  · have hread := hread rest
    rw [htext, List.cons_append] at hread ⊢
    rw [statements?_cons hsolid hread]
    cases x <;> rfl

/-- Whether what is written after a key is read as the value `v`, or fails to be read. -/
def Writes (value : String) (v : Option Value) : Prop :=
  ∀ limit rest, value? depthLimit (limit + 1) ((value.toList ++ '\n' :: rest).dropWhile isGap) =
    v.map (·, '\n' :: rest)

theorem toList_line (key value : String) :
    (line key value).toList = (encodeKey key).toList ++ ' ' :: '=' :: ' ' :: (value.toList ++ ['\n']) := by
  simp only [line, String.toList_append, toString, List.append_assoc]
  rfl

theorem statement?_line {value : String} {v : Option Value} (key : String) (h : Writes value v) (rest : List Char) :
    statement? ((line key value).toList ++ rest) = (v.map (Statement.pair [key])).map (·, '\n' :: rest) := by
  have htext : (line key value).toList ++ rest =
      (encodeKey key).toList ++ ' ' :: '=' :: (' ' :: (value.toList ++ '\n' :: rest)) := by
    rw [toList_line]
    simp
  have hkey := key?_encodeKey key (' ' :: (value.toList ++ '\n' :: rest))
  rw [htext]
  obtain ⟨c, cs, hcs, hc⟩ := encodeKey_cons key
  rw [hcs, List.cons_append] at hkey ⊢
  have hopen : c ≠ '[' := by
    rintro rfl
    rcases hc with h | h | h <;> cases h
  unfold statement?
  split
  · rename_i heq; exact absurd (List.cons.inj heq).1 hopen
  · rename_i heq; exact absurd (List.cons.inj heq).1 hopen
  · rw [hkey, Option.bind_some]
    show (value? depthLimit (_ + 1) (List.dropWhile isGap (' ' :: (value.toList ++ '\n' :: rest)))).map _ = _
    rw [List.dropWhile_cons_of_pos (by rfl), h]
    cases v <;> rfl

theorem spells_line {value : String} {v : Option Value} (key : String) (h : Writes value v) :
    Spells (line key value) (v.map fun v => [.pair [key] v]) := by
  obtain ⟨c, cs, hcs, hc⟩ := encodeKey_cons key
  have hline := spells_of_statement? (by rw [toList_line, hcs, List.cons_append]) (Solid.of_isBare hc)
    (statement?_line key h)
  rwa [Option.map_map] at hline

/-! ## Values -/

theorem encodeText_cons (s : String) : ∃ c cs, (encodeText s).toList = c :: cs ∧ (c = '"' ∨ c = '\'') := by
  unfold encodeText
  dsimp only
  split
  · exact ⟨'"', _, by simp; rfl, .inl rfl⟩
  split
  · exact ⟨'\'', _, by simp; rfl, .inr rfl⟩
  split
  · exact ⟨'"', _, by simp; rfl, .inl rfl⟩
  split
  · exact ⟨'\'', _, by simp; rfl, .inr rfl⟩
  split
  · exact ⟨'"', _, by simp; rfl, .inl rfl⟩
  · exact ⟨'"', _, by simp; rfl, .inl rfl⟩

theorem writes_text (s : String) : Writes (encodeText s) (some (.text s)) := fun limit rest => by
  have hread := text?_encodeText s rest
  obtain ⟨c, cs, hcs, hc⟩ := encodeText_cons s
  rw [hcs, List.cons_append] at hread ⊢
  rw [List.dropWhile_cons_of_neg (by rcases hc with rfl | rfl <;> decide)]
  rcases hc with rfl | rfl <;> rw [value?, hread] <;> rfl

/-- A value that begins with a letter or a digit is a scalar. -/
theorem writes_scalar {value : String} {v : Option Value} (htext : value.toList = c :: cs)
    (hletter : c.isAlphanum = true)
    (hread : ∀ rest, scalar? (value.toList ++ '\n' :: rest) = v.map (·, '\n' :: rest)) : Writes value v :=
  fun limit rest => by
  have hne : ∀ d, d.isAlphanum = false → c ≠ d := by
    rintro d hd rfl
    exact absurd (hd.symm.trans hletter) (by decide)
  have hread := hread rest
  rw [htext, List.cons_append] at hread ⊢
  rw [List.dropWhile_cons_of_neg]
  · rw [value?, hread]
    · exact fun _ heq => hne _ rfl (List.cons.inj heq).1
    · exact fun _ heq => hne _ rfl (List.cons.inj heq).1
    · exact fun _ heq => hne _ rfl (List.cons.inj heq).1
    · exact fun _ heq => hne _ rfl (List.cons.inj heq).1
  · rw [isGap, Bool.or_eq_true, beq_iff_eq, beq_iff_eq, not_or]
    exact ⟨hne _ rfl, hne _ rfl⟩

theorem writes_flag (b : Bool) : Writes (toString b) (some (.flag b)) := by
  have hread := scalar?_flag b
  cases b
  · exact writes_scalar (show "false".toList = ['f', 'a', 'l', 's', 'e'] from rfl) rfl hread
  · exact writes_scalar (show "true".toList = ['t', 'r', 'u', 'e'] from rfl) rfl hread

theorem writes_whole (n : Nat) : Writes (toString n) ((fit64 n).map .whole) := by
  obtain ⟨d, ds, hds⟩ := List.exists_cons_of_ne_nil (Nat.toDigits_ne_nil (n := n) (b := 10))
  have hdigit : d.isDigit = true := isDigit_of_mem_toDigits (by rw [hds]; exact List.mem_cons_self ..)
  refine writes_scalar (show n.repr.toList = d :: ds by rw [Nat.toList_repr, hds]) ?_ fun rest => ?_
  · rw [Char.isAlphanum, hdigit, Bool.or_true]
  · rw [Option.map_map]
    exact scalar?_repr n rest

theorem writes_empty : Writes "[]" (some (.list [])) := fun limit rest => by
  show value? (78 + 1) (limit + 1) ('[' :: ']' :: '\n' :: rest) = some (.list [], '\n' :: rest)
  have hitems : items? 78 (limit + 1) (limit + 1) (']' :: '\n' :: rest) = some ([], '\n' :: rest) := by
    rw [items?]
    rfl
  unfold value?
  simp only [hitems]
  rfl

/-! ## Blocks and documents -/

theorem spells_textLine (key : String) (t : Option String) :
    Spells (textLine key t) (some (t.toList.map fun s => .pair [key] (.text s))) := by
  cases t with
  | none => exact spells_empty
  | some s => exact spells_line key (writes_text s)

theorem spells_header {header : String} {s : Statement} (htext : header.toList = '[' :: cs)
    (hread : ∀ rest, statement? ('[' :: (cs ++ '\n' :: rest)) = some (s, '\n' :: rest)) :
    Spells (header ++ "\n") (some [s]) := by
  have hline : (header ++ "\n").toList = '[' :: (cs ++ ['\n']) := by
    rw [String.toList_append, htext]
    rfl
  have hwhole : ∀ rest, statement? ((header ++ "\n").toList ++ rest) = (some s).map (·, '\n' :: rest) := by
    intro rest
    rw [hline, List.cons_append, List.append_assoc]
    exact hread rest
  exact spells_of_statement? hline ⟨rfl, by decide, by decide, by decide⟩ hwhole

theorem spells_block {header : String} {s : Statement} {lines : List String} {xs : List (Option (List Statement))}
    (hheader : Spells (header ++ "\n") (some [s])) (hlines : List.Forall₂ Spells lines xs) :
    Spells (block header lines) ((inRow xs).map (s :: ·)) :=
  hheader.append (spells_join hlines)

/-- A document is the tree that the statements it spells build. -/
theorem Spells.parse? {text : String} (h : Spells text x) (hmark : text.toList.head? ≠ some '\ufeff') :
    parse? text = x.bind fun s => (s.foldlM Draft.add? {}).map fun d => d.node.toValue := by
  obtain ⟨n, hn, hread⟩ := h
  have hstatements : statements? (text.toList.length + 1) text.toList = x := by
    have hlimit : text.toList.length + 1 = text.toList.length - n + 1 + n := by omega
    have hend : statements? (text.toList.length - n + 1) [] = some [] := rfl
    have hwhole := hread (text.toList.length - n + 1) []
    rw [List.append_nil, hend] at hwhole
    rw [hlimit, hwhole]
    cases x with
    | none => rfl
    | some s => exact congrArg some (List.append_nil s)
  unfold Toml.parse?
  dsimp only
  split
  · rename_i heq; rw [heq] at hmark; exact absurd rfl hmark
  · rw [hstatements]

end Singletons.Toml
