/-
Values of TOML, and documents of TOML while they are built. Fractions are kept as they are written
and date-times in their normal form, because nothing here computes with them. A table remembers
whether only longer keys have spoken of it so far, and whether dotted keys made it; this decides who
may still add to it. A table is written once; one that only longer headers spoke of may get its own
header later; one made by dotted keys takes further dotted keys only.
-/

namespace Singletons.Toml

inductive Value where
  | text (s : String)
  | whole (n : Int)
  | fraction (written : String)
  | flag (b : Bool)
  | moment (written : String)
  | list (items : List Value)
  | table (rows : List (String × Value))

/-- A part of a document under construction. -/
inductive Node where
  | value (v : Value)
  /-- A table: whether it is only implied so far, whether dotted keys made it, and its rows. -/
  | table (implied dotted : Bool) (rows : List (String × Node))
  /-- Tables in a row under one key, the first first. -/
  | series (tables : List Node)

namespace Node

/-- The document without rows. -/
def root : Node := table false false []

/-- The rows with another node under a key. -/
def put (k : String) (n : Node) : List (String × Node) → List (String × Node)
  | [] => [(k, n)]
  | (j, m) :: rest => if j = k then (k, n) :: rest else (j, m) :: put k n rest

/-- Changes the table at a path, with `dotted` if the path is a dotted key. Tables that are missing
on the way are implied; in a series the way leads through the last table. -/
def update (dotted : Bool) (f : Node → Option Node) : List String → Node → Option Node
  | [], n => f n
  | k :: path, table implied byDots rows =>
    match rows.lookup k with
    | none => (update dotted f path (table true dotted [])).map fun n => table implied byDots (rows ++ [(k, n)])
    | some (table i d below) =>
      -- a dotted key may not add to a table that has a header or an inline form of its own
      if dotted && !i then none
      else (update dotted f path (table i d below)).map fun n => table implied byDots (put k n rows)
    | some (series tables) =>
      match tables.reverse with
      | [] => none
      -- headers below a series speak of its latest table
      | last :: before =>
        (update dotted f path last).map fun n => table implied byDots (put k (series (n :: before).reverse) rows)
    | some (value _) => none
  | _ :: _, _ => none

/-- Opens the table under a key of a table for a header of its own. -/
def openTable (k : String) : Node → Option Node
  | table implied dotted rows =>
    match rows.lookup k with
    | none => some (table implied dotted (rows ++ [(k, table false false [])]))
    | some (table true false below) => some (table implied dotted (put k (table false false below) rows))
    | _ => none
  | _ => none

/-- Opens one more table in the series under a key. -/
def openInSeries (k : String) : Node → Option Node
  | table implied dotted rows =>
    match rows.lookup k with
    | none => some (table implied dotted (rows ++ [(k, series [table false false []])]))
    | some (series tables) => some (table implied dotted (put k (series (tables ++ [table false false []])) rows))
    | _ => none
  | _ => none

/-- Writes a value under a new key. Tables made by dotted keys take dotted keys, others plain ones. -/
def write (byDots : Bool) (k : String) (v : Value) : Node → Option Node
  | table implied dotted rows =>
    if dotted != byDots then none
    else
      match rows.lookup k with
      | none => some (table implied dotted (rows ++ [(k, value v)]))
      | some _ => none
  | _ => none

/-- Writes a value under a key, dotted or not, of a table. -/
def writeAt (key : List String) (v : Value) (n : Node) : Option Node :=
  match key.reverse with
  | [] => none
  | last :: before => update true (write (!before.isEmpty) last v) before.reverse n

/-- The inline table of some keys and values. -/
def ofPairs? (pairs : List (List String × Value)) : Option Node :=
  pairs.foldlM (fun n p => writeAt p.1 p.2 n) root

mutual

/-- The value that a finished part of a document is. -/
def toValue : Node → Value
  | value v => v
  | table _ _ rows => .table (rowsToValues rows)
  | series tables => .list (tablesToValues tables)

def rowsToValues : List (String × Node) → List (String × Value)
  | [] => []
  | (k, n) :: rest => (k, toValue n) :: rowsToValues rest

def tablesToValues : List Node → List Value
  | [] => []
  | n :: rest => toValue n :: tablesToValues rest

end

end Node

end Singletons.Toml
