/-!
# Arguments

The forms that an argument of a command line can have, told apart by its leading hyphens. A
single hyphen is a plain argument.
-/

namespace Elocution.CommandLine

inductive Argument where
  /-- Two hyphens: whatever follows is plain. -/
  | separator
  /-- A name after two hyphens, with what follows the first equals sign. -/
  | long (name : List Char) (value : Option (List Char))
  /-- Letters after one hyphen, the value of the last one among them if it takes one. -/
  | cluster (letters : List Char)
  | plain (text : List Char)
deriving DecidableEq, Repr

namespace Argument

/-- Cuts at the first equals sign. -/
def splitValue (s : List Char) : List Char × Option (List Char) :=
  (s.takeWhile (· != '='), (s.dropWhile (· != '=')).tail?)

def ofText : List Char → Argument
  | ['-', '-'] => .separator
  | '-' :: '-' :: rest =>
    let (name, value) := splitValue rest
    .long name value
  | '-' :: c :: rest => .cluster (c :: rest)
  | text => .plain text

end Argument

end Elocution.CommandLine
