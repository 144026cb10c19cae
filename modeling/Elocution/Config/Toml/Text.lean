import Elocution.Config.Toml.Table

/-!
# Blanks, keys and quoted text

A reader takes what it reads off the front of the characters and gives the rest, or refuses.
-/

namespace Elocution.Config.Toml

abbrev Reader (α : Type) := List Char → Option (α × List Char)

/-- Characters that comments and text in single quotes may hold: all but control characters,
and the tab. -/
def isPrintable (c : Char) : Bool := c = '\t' || (' ' ≤ c && c ≤ '~') || '\x80' ≤ c

def isSpace (c : Char) : Bool := c = ' ' || c = '\t'

def dropSpaces (cs : List Char) : List Char := cs.dropWhile isSpace

/-- A line feed, or one behind a carriage return. -/
def newline? : List Char → Option (List Char)
  | '\n' :: rest | '\r' :: '\n' :: rest => some rest
  | _ => none

/-- The end of a line, or of the document. -/
def lineEnd? : List Char → Option (List Char)
  | [] => some []
  | cs => newline? cs

/-- What may follow on a line: a comment. -/
def restOfLine? (cs : List Char) : Option (List Char) :=
  match dropSpaces cs with
  | '#' :: rest => lineEnd? (rest.dropWhile isPrintable)
  | rest => lineEnd? rest

/-- Blanks, line ends and comments, as they may stand in a list; `comment` says that one has
begun. -/
def dropGaps (comment : Bool) : List Char → List Char
  | [] => []
  | c :: rest =>
    if comment && isPrintable c then dropGaps true rest
    else if isSpace c || c = '\n' then dropGaps false rest
    else if c = '\r' && rest.head? = some '\n' then dropGaps false rest
    else if c = '#' then dropGaps true rest
    else c :: rest

def digitValue (c : Char) : Nat :=
  if c.isDigit then c.toNat - '0'.toNat
  else if 'a' ≤ c ∧ c ≤ 'f' then c.toNat - 'a'.toNat + 10
  else c.toNat - 'A'.toNat + 10

/-- The number that digits stand for. -/
def ofDigits (base : Nat) (digits : List Char) : Nat :=
  digits.foldl (fun n c => n * base + digitValue c) 0

def isHexDigit (c : Char) : Bool :=
  c.isDigit || ('a' ≤ c && c ≤ 'f') || ('A' ≤ c && c ≤ 'F')

/-- The character of that many hexadecimal digits. -/
def codePoint (width : Nat) : Reader Char := fun cs =>
  let digits := cs.take width
  let n := ofDigits 16 digits
  if digits.length = width ∧ digits.all isHexDigit ∧ n.isValidChar then
    some (Char.ofNat n, cs.drop width)
  else none

/-- The character that is written behind a backslash. -/
def escaped : Reader Char
  | 'b' :: rest => some ('\x08', rest)
  | 't' :: rest => some ('\t', rest)
  | 'n' :: rest => some ('\n', rest)
  | 'f' :: rest => some ('\x0c', rest)
  | 'r' :: rest => some ('\r', rest)
  | '"' :: rest => some ('"', rest)
  | '\\' :: rest => some ('\\', rest)
  | 'u' :: rest => codePoint 4 rest
  | 'U' :: rest => codePoint 8 rest
  | _ => none

/-- Text up to a double quote, on one line. -/
def basicText : (fuel : Nat) → Reader (List Char)
  | 0, _ => none
  | _ + 1, '"' :: rest => some ([], rest)
  | fuel + 1, '\\' :: rest => do
    let (c, rest) ← escaped rest
    let (s, rest) ← basicText fuel rest
    return (c :: s, rest)
  | fuel + 1, c :: rest =>
    if isPrintable c then do
      let (s, rest) ← basicText fuel rest
      return (c :: s, rest)
    else none
  | _, [] => none

/-- Text up to a single quote, on one line and without escapes. -/
def literalText (cs : List Char) : Option (List Char × List Char) :=
  let isPart (c : Char) : Bool := isPrintable c && c != '\''
  match cs.dropWhile isPart with
  | '\'' :: rest => some (cs.takeWhile isPart, rest)
  | _ => none

/-- What follows a backslash at the end of a line: the line ends and blanks up to the next
other character are left out. -/
def joinedLines? (cs : List Char) : Option (List Char) :=
  (newline? (dropSpaces cs)).map skip
where
  skip : List Char → List Char
    | [] => []
    | c :: rest =>
      if isSpace c || c = '\n' || (c = '\r' && rest.head? = some '\n') then skip rest
      else c :: rest

/-- Text up to three quotes `q`, over any number of lines. Two quotes more may stand before
them; fewer than three are part of the text. -/
def longText (q : Char) (escapes : Bool) : (fuel : Nat) → Reader (List Char)
  | 0, _ => none
  | fuel + 1, cs =>
    match cs with
    | [] => none
    | c :: rest =>
      if c = q then
        let quotes := 1 + (rest.takeWhile (· = q)).length
        if 3 ≤ quotes then
          let extra := min (quotes - 3) 2
          some (List.replicate extra q, cs.drop (extra + 3))
        else do
          let (s, rest) ← longText q escapes fuel rest
          return (c :: s, rest)
      else if escapes && c = '\\' then
        match joinedLines? rest with
        | some rest => longText q escapes fuel rest
        | none => do
          let (e, rest) ← escaped rest
          let (s, rest) ← longText q escapes fuel rest
          return (e :: s, rest)
      else
        match newline? cs with
        | some rest => do
          let (s, rest) ← longText q escapes fuel rest
          return ('\n' :: s, rest)
        | none =>
          if isPrintable c then do
            let (s, rest) ← longText q escapes fuel rest
            return (c :: s, rest)
          else none

/-- Text in quotes. A line end right behind three quotes is left out. -/
def quotedText (cs : List Char) : Option (List Char × List Char) :=
  match cs with
  | '"' :: '"' :: '"' :: rest => longText '"' true (cs.length) ((newline? rest).getD rest)
  | '\'' :: '\'' :: '\'' :: rest => longText '\'' false (cs.length) ((newline? rest).getD rest)
  | '"' :: rest => basicText cs.length rest
  | '\'' :: rest => literalText rest
  | _ => none

def isBareKeyChar (c : Char) : Bool := c.isAlphanum || c = '-' || c = '_'

/-- A key, bare or in quotes. -/
def simpleKey (cs : List Char) : Option (Key × List Char) :=
  match cs with
  | '"' :: rest => basicText cs.length rest
  | '\'' :: rest => literalText rest
  | _ =>
    match cs.takeWhile isBareKeyChar with
    | [] => none
    | k => some (k, cs.dropWhile isBareKeyChar)

/-- Keys with dots between them; blanks may stand around each. -/
def dottedKey : (fuel : Nat) → Reader (List Key)
  | 0, _ => none
  | fuel + 1, cs => do
    let (k, rest) ← simpleKey (dropSpaces cs)
    match dropSpaces rest with
    | '.' :: rest =>
      let (path, rest) ← dottedKey fuel rest
      return (k :: path, rest)
    | rest => return ([k], rest)

/-- The number of keys or of brackets at which a document is nested too deeply. -/
def nestingLimit : Nat := 80

/-- A key with the path before it. -/
def keyPath (cs : List Char) : Option (List Key × List Char) :=
  (dottedKey (cs.length + 1) cs).filter fun (path, _) => path.length < nestingLimit

end Elocution.Config.Toml
