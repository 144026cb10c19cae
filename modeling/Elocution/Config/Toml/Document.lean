import Elocution.Config.Toml.Number

/-!
# Documents

A document is a sequence of lines: headers, definitions of keys, comments and blank lines.
Values are text, numbers, lists, and tables between braces. Headers for lists of tables are
refused, because nothing is configured by a list of tables.
-/

namespace Elocution.Config.Toml

mutual

/-- A value; brackets may be nested `depth` deep in it. -/
def value : (fuel depth : Nat) → Reader Value
  | 0, _, _ => none
  | fuel + 1, depth, cs =>
    match cs with
    | [] => none
    | '"' :: _ | '\'' :: _ => (quotedText cs).map fun (s, rest) => (.text s, rest)
    | '[' :: rest =>
      if depth = 0 then none
      else (items fuel (depth - 1) rest).map fun (vs, rest) => (.list vs, rest)
    | '{' :: rest =>
      if depth = 0 then none
      else
        match dropSpaces rest with
        | '}' :: rest => some (.table .inline [], rest)
        | rest => (pairs fuel (depth - 1) [] rest).map fun (e, rest) => (.table .inline e, rest)
    | 't' :: 'r' :: 'u' :: 'e' :: rest => some (.other, rest)
    | 'f' :: 'a' :: 'l' :: 's' :: 'e' :: rest => some (.other, rest)
    | '+' :: rest => signedNumber false rest
    | '-' :: rest => signedNumber true rest
    | c :: _ => if c.isDigit then digitValue? cs else specialNumber cs

/-- The rest of a list; a comma may stand before its end. -/
def items : (fuel depth : Nat) → Reader (List Value)
  | 0, _, _ => none
  | fuel + 1, depth, cs =>
    match dropGaps false cs with
    | ']' :: rest => some ([], rest)
    | cs => do
      let (v, rest) ← value fuel depth cs
      match dropGaps false rest with
      | ',' :: rest =>
        let (vs, rest) ← items fuel depth rest
        return (v :: vs, rest)
      | ']' :: rest => return ([v], rest)
      | _ => none

/-- The rest of a table between braces, of which `e` has been read. -/
def pairs : (fuel depth : Nat) → Entries → Reader Entries
  | 0, _, _, _ => none
  | fuel + 1, depth, e, cs => do
    let (path, rest) ← keyPath cs
    match rest with
    | '=' :: rest =>
      let (v, rest) ← value fuel depth (dropSpaces rest)
      let e ← e.define path.dropLast (path.getLastD []) v
      match dropSpaces rest with
      | ',' :: rest => pairs fuel depth e rest
      | '}' :: rest => return (e, rest)
      | _ => none
    | _ => none

end

/-- A line that defines a key. -/
def definition (cs : List Char) : Option ((List Key × Value) × List Char) := do
  let (path, rest) ← keyPath cs
  match rest with
  | '=' :: rest =>
    let (v, rest) ← value (2 * rest.length + 1) (nestingLimit - 1) (dropSpaces rest)
    let rest ← restOfLine? rest
    return ((path, v), rest)
  | _ => none

/-- A line that opens a table, behind its first bracket. -/
def header (cs : List Char) : Option (List Key × List Char) := do
  let (path, rest) ← keyPath cs
  match rest with
  | ']' :: rest =>
    let rest ← restOfLine? rest
    return (path, rest)
  | _ => none

/-- The lines of a document below the header `path`, above which stands `root`. -/
def lines : (fuel : Nat) → (path : List Key) → Entries → List Char → Option Entries
  | 0, _, _, _ => none
  | fuel + 1, path, root, cs =>
    match dropSpaces cs with
    | [] => some root
    | '#' :: rest => do lines fuel path root (← lineEnd? (rest.dropWhile isPrintable))
    | '[' :: rest => do
      let (path, rest) ← header rest
      lines fuel path (← root.openTable path) rest
    | cs =>
      match newline? cs with
      | some rest => lines fuel path root rest
      | none => do
        let ((keys, v), rest) ← definition cs
        let root ← root.within (·.define keys.dropLast (keys.getLastD []) v) path
        lines fuel path root rest

/-- The tables of a document; a byte order mark may stand before it. -/
def parse? (cs : List Char) : Option Entries :=
  let cs := if cs.head? = some '\ufeff' then cs.tail else cs
  lines (cs.length + 1) [] [] cs

end Elocution.Config.Toml
