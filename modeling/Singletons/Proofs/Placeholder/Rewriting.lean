import Singletons.Proofs.Placeholder.Template
import Singletons.Placeholder.Resolve
import Singletons.Proofs.Text.Bytes

/-
The resolution of a text part by part, where placeholders are written with `${` and `}`. What was passed or
replaced stands before the place that the resolution has come to, and is not looked at again; so the
resolution of the rest (`resolveAfter`) goes over text without an opening, and over one placeholder after
the other.
-/

namespace Singletons.Placeholders

open Text

/-- Whether placeholders are written with the default delimiters. -/
structure Braced (p : Placeholders) : Prop where
  opening : p.opening = "$\x7b"
  closing : p.closing = "\x7d"

/-- The text of a placeholder. -/
def enclose (body : String) : String := "$\x7b" ++ body ++ "\x7d"

theorem toBytes_enclose (body : String) : toBytes (enclose body) = 0x24 :: 0x7B :: toBytes body ++ [0x7D] := by
  unfold enclose
  rw [toBytes_append, toBytes_append]
  rfl

/-! ## The search for the closing delimiter -/

/-- Bytes that are no braces are passed over. -/
theorem closingIn_append {before : Bytes} (hopen : 0x7B ∉ before) (hclose : 0x7D ∉ before) (tail : Bytes)
    (offset nested : Nat) :
    closingIn [0x7D] [0x7B] (before ++ tail) offset nested =
      closingIn [0x7D] [0x7B] tail (offset + before.length) nested := by
  induction before generalizing offset with
  | nil => rfl
  | cons b before ih =>
    rw [List.mem_cons, not_or] at hopen hclose
    rw [List.cons_append, closingIn.eq_def]
    dsimp only
    rw [if_neg (by simp [hclose.1]), if_neg (by simp [hopen.1]), ih hopen.2 hclose.2, List.length_cons,
      Nat.add_assoc, Nat.add_comm 1]

theorem closingIn_open (tail : Bytes) (offset nested : Nat) :
    closingIn [0x7D] [0x7B] (0x7B :: tail) offset nested =
      closingIn [0x7D] [0x7B] tail (offset + 1) (nested + 1) := by
  rw [closingIn.eq_def]
  simp

theorem closingIn_close (tail : Bytes) (offset nested : Nat) :
    closingIn [0x7D] [0x7B] (0x7D :: tail) offset (nested + 1) = closingIn [0x7D] [0x7B] tail (offset + 1) nested := by
  rw [closingIn.eq_def]
  simp

theorem closingIn_closed (tail : Bytes) (offset : Nat) :
    closingIn [0x7D] [0x7B] (0x7D :: tail) offset 0 = .closed offset := by
  rw [closingIn.eq_def]
  simp

/-- The text of a template is passed over: each hole that opens in it closes in it. -/
theorem closingIn_render (t : Template) (tail : Bytes) (offset nested : Nat) :
    closingIn [0x7D] [0x7B] (toBytes t.render ++ tail) offset nested =
      closingIn [0x7D] [0x7B] tail (offset + (toBytes t.render).length) nested := by
  induction t generalizing offset nested tail with
  | done => rfl
  | literal l rest ih =>
    have hopen : (0x7B : UInt8) ∉ toBytes l.text := not_mem_toBytes (d := '{') (by decide) l.plain.2.1
    have hclose : (0x7D : UInt8) ∉ toBytes l.text := not_mem_toBytes (d := '}') (by decide) l.plain.2.2
    rw [Template.render, toBytes_append, List.append_assoc, closingIn_append hopen hclose, ih, List.length_append,
      Nat.add_assoc]
  | hole body rest ihbody ihrest =>
    have hrender : toBytes (Template.hole body rest).render =
        [0x24] ++ (0x7B :: (toBytes body.render ++ (0x7D :: toBytes rest.render))) := by
      show toBytes (enclose body.render ++ rest.render) = _
      rw [toBytes_append, toBytes_enclose]
      simp
    rw [hrender, List.append_assoc, closingIn_append (by decide) (by decide), List.cons_append, closingIn_open,
      List.append_assoc, ihbody, List.cons_append, closingIn_close, ihrest]
    congr 1
    simp only [List.length_append, List.length_cons, List.length_nil]
    omega

/-! ## The placeholder at hand -/

variable {p : Placeholders} {value before key found replacement : Bytes} {visiting : List Bytes} {rest s : String}
  {body : Template} {fault : Fault}

theorem Braced.closingAt (hp : p.Braced) (text : Bytes) (start : Nat) :
    p.closingAt text start = closingIn [0x7D] [0x7B] (text.drop (start + 2)) (start + 2) 0 := by
  unfold Placeholders.closingAt
  rw [hp.opening, hp.closing]
  rfl

/-- The placeholder at hand is found with its whole body. -/
theorem Braced.openedAt (hp : p.Braced) (before : Bytes) (body : Template) (rest : String) (visiting : List Bytes) :
    p.openedAt (before ++ toBytes (enclose body.render ++ rest)) before.length visiting =
    if visiting.contains (toBytes body.render) then .finished (.error (.circular body.render))
    else .placeholder (toBytes body.render) (before ++ toBytes (enclose body.render)).length := by
  have htext : before ++ toBytes (enclose body.render ++ rest) =
      (before ++ [0x24, 0x7B]) ++ toBytes body.render ++ toBytes ("\x7d" ++ rest) := by
    rw [toBytes_append, toBytes_append, toBytes_enclose]
    show _ = _ ++ ([0x7D] ++ toBytes rest)
    simp
  have hclosing : p.closingAt (before ++ toBytes (enclose body.render ++ rest)) before.length =
      .closed ((before ++ [0x24, 0x7B]) ++ toBytes body.render).length := by
    rw [hp.closingAt, htext, List.append_assoc (before ++ _), List.drop_left' (by simp), closingIn_render]
    show closingIn _ _ (0x7D :: toBytes rest) _ _ = _
    rw [closingIn_closed]
    simp only [List.length_append, List.length_cons, List.length_nil]
  have hbody : before.length + (toBytes "$\x7b").length = (before ++ [0x24, 0x7B]).length := by
    rw [List.length_append]
    rfl
  have hpast : (before ++ [0x24, 0x7B] ++ toBytes body.render).length + (toBytes "\x7d").length =
      (before ++ toBytes (enclose body.render)).length := by
    rw [toBytes_enclose]
    show _ + 1 = _
    simp only [List.length_append, List.length_cons, List.length_nil]
    omega
  unfold Placeholders.openedAt
  rw [hclosing, hp.opening, hp.closing]
  dsimp only
  rw [hpast, htext, hbody, Bytes.slice?_append]
  dsimp only
  rw [ofBytes_toBytes]

theorem Braced.openedAt_unclosed (hp : p.Braced) (body : Template) :
    p.openedAt (toBytes ("$\x7b" ++ body.render)) 0 visiting = .finished (.ok (toBytes ("$\x7b" ++ body.render))) := by
  have hclosing : p.closingAt (toBytes ("$\x7b" ++ body.render)) 0 = .unclosed := by
    rw [hp.closingAt, toBytes_append]
    show closingIn _ _ (toBytes body.render) _ _ = _
    rw [← List.append_nil (toBytes body.render), closingIn_render, closingIn]
  unfold Placeholders.openedAt
  rw [hclosing]

/-! ## The rest of a text -/

/-- The resolution of `rest`, which stands after the bytes `before` that are dealt with already. -/
def resolveAfter (p : Placeholders) (value before : Bytes) (rest : String) (visiting : List Bytes) :
    Option (Except Fault Bytes) :=
  p.resolveFrom value (before ++ toBytes rest) (p.nextOpening? (before ++ toBytes rest) before.length) visiting

theorem resolveBytes_toBytes (s : String) :
    p.resolveBytes (toBytes s) visiting = p.resolveAfter (toBytes s) [] s visiting := rfl

theorem Braced.nextOpening? (hp : p.Braced) (before : Bytes) (rest : String) :
    p.nextOpening? (before ++ toBytes rest) before.length =
      (Bytes.find? [0x24, 0x7B] (toBytes rest)).map (before.length + ·) := by
  unfold Placeholders.nextOpening?
  rw [Bytes.isBoundary_append, if_pos (by simp), List.drop_left, hp.opening]
  rfl

theorem Braced.nextOpening?_append (hp : p.Braced) (before : Bytes) (rest : String) :
    p.nextOpening? (before ++ toBytes ("$\x7b" ++ rest)) before.length = some before.length := by
  rw [hp.nextOpening?, toBytes_append]
  show (Bytes.find? [0x24, 0x7B] ([0x24, 0x7B] ++ toBytes rest)).map _ = _
  rw [Bytes.find?_self]
  rfl

/-- A placeholder that is not closed is left as it is, with all that follows. -/
theorem Braced.resolveBytes_unclosed (hp : p.Braced) (body : Template) :
    p.resolveBytes (toBytes ("$\x7b" ++ body.render)) visiting = some (.ok (toBytes ("$\x7b" ++ body.render))) := by
  have hopens : p.nextOpening? (toBytes ("$\x7b" ++ body.render)) 0 = some 0 := hp.nextOpening?_append [] body.render
  unfold resolveBytes
  rw [hopens, resolveFrom, hp.openedAt_unclosed]

theorem Braced.resolveAfter_of_find?_none (hp : p.Braced) (h : Bytes.find? [0x24, 0x7B] (toBytes s) = none) :
    p.resolveAfter value before s visiting = some (.ok (before ++ toBytes s)) := by
  unfold resolveAfter
  rw [hp.nextOpening?, h, Option.map_none, resolveFrom]

theorem dollar_not_mem (h : '$' ∉ s.toList) : 0x24 ∉ toBytes s :=
  not_mem_toBytes (d := '$') (by decide) h

theorem Braced.resolveAfter_plain (hp : p.Braced) (h : '$' ∉ s.toList) :
    p.resolveAfter value before s visiting = some (.ok (before ++ toBytes s)) :=
  hp.resolveAfter_of_find?_none (Bytes.find?_eq_none _ (dollar_not_mem h))

theorem Braced.resolveAfter_append (hp : p.Braced) (h : '$' ∉ s.toList) :
    p.resolveAfter value before (s ++ rest) visiting = p.resolveAfter value (before ++ toBytes s) rest visiting := by
  unfold resolveAfter
  rw [hp.nextOpening?, hp.nextOpening?, toBytes_append, Bytes.find?_append _ _ (dollar_not_mem h), Option.map_map,
    List.append_assoc, List.length_append]
  congr 2
  funext i
  exact (Nat.add_assoc ..).symm

/-- One step of a resolution: the placeholder at hand is replaced, and the rest is resolved after it. -/
theorem Braced.resolveAfter_enclose (hp : p.Braced) (value before : Bytes) (body : Template) (rest : String)
    (visiting : List Bytes) : p.resolveAfter value before (enclose body.render ++ rest) visiting =
      if visiting.contains (toBytes body.render) then some (.error (.circular body.render))
      else (do
        match ← p.resolveBytes (toBytes body.render) (toBytes body.render :: visiting) with
        | .error e => some (.error e)
        | .ok key =>
          match p.lookup? key with
          | none =>
            if p.lenient then p.resolveAfter value (before ++ toBytes (enclose body.render)) rest visiting
            else some (.error (.unresolved (ofBytes key) (ofBytes value)))
          | some found =>
            match ← p.resolveBytes found (toBytes body.render :: visiting) with
            | .error e => some (.error e)
            | .ok replacement => p.resolveAfter value (before ++ replacement) rest visiting) := by
  have hrest : toBytes (enclose body.render ++ rest) = toBytes (enclose body.render) ++ toBytes rest :=
    toBytes_append ..
  have hopens : p.nextOpening? (before ++ toBytes (enclose body.render ++ rest)) before.length =
      some before.length := by
    rw [enclose, String.append_assoc, String.append_assoc]
    exact hp.nextOpening?_append ..
  unfold resolveAfter
  rw [hopens, resolveFrom.eq_2, hp.openedAt]
  cases visiting.contains (toBytes body.render) with
  | true => rfl
  | false =>
    rw [if_neg (by simp), if_neg (by simp)]
    dsimp only
    congr 1
    funext r
    cases r with
    | error e => rfl
    | ok key =>
      dsimp only
      cases p.lookup? key with
      | none =>
        dsimp only
        rw [hrest, ← List.append_assoc]
      | some found =>
        dsimp only
        congr 1
        funext r
        cases r with
        | error e => rfl
        | ok replacement =>
          dsimp only
          rw [hrest, ← List.append_assoc, Bytes.replace?_append]
          dsimp only
          rw [← List.length_append]

/-- A placeholder whose body has none is the key itself. -/
theorem Braced.resolveAfter_key (hp : p.Braced) (value before : Bytes) (l : Literal) (rest : String)
    (hfresh : toBytes l.text ∉ visiting) : p.resolveAfter value before (enclose l.text ++ rest) visiting =
      match p.lookup? (toBytes l.text) with
      | none =>
        if p.lenient then p.resolveAfter value (before ++ toBytes (enclose l.text)) rest visiting
        else some (.error (.unresolved l.text (ofBytes value)))
      | some found => (do
        match ← p.resolveBytes found (toBytes l.text :: visiting) with
        | .error e => some (.error e)
        | .ok replacement => p.resolveAfter value (before ++ replacement) rest visiting) := by
  have hname : (Template.literal l .done).render = l.text := String.append_empty
  have hkey : p.resolveBytes (toBytes l.text) (toBytes l.text :: visiting) = some (.ok (toBytes l.text)) := by
    rw [resolveBytes_toBytes, hp.resolveAfter_plain l.plain.1, List.nil_append]
  have henclose := hp.resolveAfter_enclose value before (.literal l .done) rest visiting
  rw [hname, if_neg (by simpa using hfresh), hkey, Option.bind_eq_bind, Option.bind_some] at henclose
  dsimp only at henclose
  rw [ofBytes_toBytes] at henclose
  exact henclose

theorem Braced.resolveAfter_name (hp : p.Braced) (l : Literal) {text : String} (hfresh : toBytes l.text ∉ visiting)
    (hget : p.properties.get? l.text = some text)
    (htext : p.resolveBytes (toBytes text) (toBytes l.text :: visiting) = some (.ok replacement)) :
    p.resolveAfter value before (enclose l.text ++ rest) visiting =
      p.resolveAfter value (before ++ replacement) rest visiting := by
  have hlookup : p.lookup? (toBytes l.text) = some (toBytes text) := by
    rw [lookup?, ofBytes_toBytes, hget]
  rw [hp.resolveAfter_key _ _ l _ hfresh, hlookup]
  dsimp only
  rw [htext, Option.bind_eq_bind, Option.bind_some]

end Singletons.Placeholders
