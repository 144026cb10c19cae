/-!
# Tables of a configuration document

Values and tables, and the two ways in which a document adds to them: a header opens a table,
a line defines a key in it. A table that has been written out once is not added to from
elsewhere.
-/

namespace Elocution.Config.Toml

/-- A key, without its quotes. -/
abbrev Key := List Char

/-- How a table came about. -/
inductive TableKind where
  /-- Opened by a header of its own. -/
  | header
  /-- On the way to a table that a header opened. -/
  | implied
  /-- On the way to a dotted key. -/
  | dotted
  /-- Written between braces. -/
  | inline
deriving DecidableEq, Repr

inductive Value where
  | text (s : List Char)
  | integer (n : Int)
  /-- A truth value, a number with a fraction or an exponent, a date or a time. Nothing is
  configured by one, so that what it is is not kept. -/
  | other
  | list (items : List Value)
  | table (kind : TableKind) (entries : List (Key × Value))

/-- The keys of a table and what they stand for, each key once. -/
abbrev Entries := List (Key × Value)

namespace Entries

def put (k : Key) (v : Value) (e : Entries) : Entries :=
  e.map fun p => if p.1 = k then (k, v) else p

/-- Defines a new key behind a path of dotted keys. The tables on the way must have come about
by dotted keys or by headers below them, the last one by dotted keys. -/
def define : (path : List Key) → Key → Value → Entries → Option Entries
  | [], k, v, e => if (e.lookup k).isSome then none else some (e ++ [(k, v)])
  | p :: path, k, v, e =>
    match e.lookup p with
    | none => (define path k v []).map fun sub => e ++ [(p, .table .dotted sub)]
    | some (.table kind sub) =>
      if kind = .dotted ∨ kind = .implied ∧ path ≠ [] then
        (define path k v sub).map fun sub => e.put p (.table kind sub)
      else none
    | some _ => none

/-- Changes the entries of a table that a header has opened. -/
def within (change : Entries → Option Entries) : (path : List Key) → Entries → Option Entries
  | [], e => change e
  | p :: path, e =>
    match e.lookup p with
    | some (.table kind sub) => (within change path sub).map fun sub => e.put p (.table kind sub)
    | _ => none

/-- Opens a table by a header. It may only be new, or on the way to tables opened before. -/
def openTable : (path : List Key) → Entries → Option Entries
  | [], _ => none
  | [p], e =>
    match e.lookup p with
    | none => some (e ++ [(p, .table .header [])])
    | some (.table .implied sub) => some (e.put p (.table .header sub))
    | some _ => none
  | p :: path, e =>
    match e.lookup p with
    | none => (openTable path []).map fun sub => e ++ [(p, .table .implied sub)]
    | some (.table kind sub) =>
      if kind = .inline then none
      else (openTable path sub).map fun sub => e.put p (.table kind sub)
    | some _ => none

end Entries

end Elocution.Config.Toml
