import Elocution.Config.Toml.Text

/-!
# Numbers, dates and times

Whole numbers are read in four bases and must fit in 64 bits with a sign. All other numbers,
and dates and times, are only checked.
-/

namespace Elocution.Config.Toml

/-- The digits that follow a digit; an underscore may stand between two digits. -/
def moreDigits (isDigit : Char → Bool) : Reader (List Char)
  | '_' :: c :: rest =>
    if isDigit c then (moreDigits isDigit rest).map fun (ds, rest) => (c :: ds, rest) else none
  | ['_'] => none
  | c :: rest =>
    if isDigit c then (moreDigits isDigit rest).map fun (ds, rest) => (c :: ds, rest)
    else some ([], c :: rest)
  | [] => some ([], [])

/-- One digit or more. -/
def digits (isDigit : Char → Bool) : Reader (List Char)
  | [] => none
  | c :: rest =>
    if isDigit c then (moreDigits isDigit rest).map fun (ds, rest) => (c :: ds, rest) else none

/-- Decimal digits of which the first is not zero, or a single zero. -/
def wholeDigits : Reader (List Char)
  | '0' :: rest => some (['0'], rest)
  | cs => digits Char.isDigit cs

/-- A number in base 16, 8 or 2, behind its mark. -/
def basedNumber (base : Nat) (isDigit : Char → Bool) : Reader Value := fun cs => do
  let (ds, rest) ← digits isDigit cs
  let n := ofDigits base ds
  if n < 1 <<< 63 then return (.integer n, rest) else none

/-- Whether a decimal number lies so far out that no double is near it: half a unit above the
greatest one, or farther. The digits are those before and after the point. -/
def isHuge (whole fraction : List Char) (exponent : Int) : Bool :=
  let ds := (whole ++ fraction).dropWhile (· = '0')
  let place := ds.length + exponent - fraction.length
  if ds.isEmpty then false
  else if place = 309 then
    1 <<< 1024 - 1 <<< 970 ≤
      ofDigits 10 ds * Nat.pow 10 (309 - ds.length) / Nat.pow 10 (ds.length - 309)
  else 309 < place

/-- The exponent of a number, if there is one: its digits and sign. -/
def exponent? : Reader (Option Int)
  | c :: rest =>
    if c = 'e' || c = 'E' then
      match rest with
      | '+' :: rest =>
        (digits Char.isDigit rest).map fun (ds, rest) => (some (ofDigits 10 ds : Int), rest)
      | '-' :: rest =>
        (digits Char.isDigit rest).map fun (ds, rest) => (some (-(ofDigits 10 ds : Int)), rest)
      | _ => (digits Char.isDigit rest).map fun (ds, rest) => (some (ofDigits 10 ds), rest)
    else some (none, c :: rest)
  | [] => some (none, [])

/-- The fraction of a number, if there is one. -/
def fraction? : Reader (Option (List Char))
  | '.' :: rest => (digits Char.isDigit rest).map fun (ds, rest) => (some ds, rest)
  | cs => some (none, cs)

/-- A decimal number behind its sign. -/
def decimal (negative : Bool) : Reader Value := fun cs => do
  let (whole, rest) ← wholeDigits cs
  let (fraction, rest) ← fraction? rest
  let (exponent, rest) ← exponent? rest
  if fraction.isNone && exponent.isNone then
    let n := ofDigits 10 whole
    if negative then
      if n ≤ 1 <<< 63 then return (.integer (-(n : Int)), rest) else none
    else
      if n < 1 <<< 63 then return (.integer n, rest) else none
  else if !negative && isHuge whole (fraction.getD []) (exponent.getD 0) then none
  else return (.other, rest)

/-- An unbounded number, or none at all. -/
def specialNumber : Reader Value
  | 'i' :: 'n' :: 'f' :: rest | 'n' :: 'a' :: 'n' :: rest => some (.other, rest)
  | _ => none

def signedNumber (negative : Bool) : Reader Value
  | 'i' :: rest => specialNumber ('i' :: rest)
  | 'n' :: rest => specialNumber ('n' :: rest)
  | cs => decimal negative cs

/-- Two digits. -/
def pair : Reader Nat
  | a :: b :: rest => if a.isDigit && b.isDigit then some (ofDigits 10 [a, b], rest) else none
  | _ => none

/-- Two digits that stand for at most `limit`. -/
def pairUpTo (limit : Nat) : Reader Nat := fun cs => (pair cs).filter fun (n, _) => n ≤ limit

/-- Behind the hour of a time: the minute, the second, and parts of it. -/
def minuteAndSecond (cs : List Char) : Option (List Char) := do
  let (_, rest) ← pairUpTo 59 cs
  match rest with
  | ':' :: rest =>
    let (_, rest) ← pairUpTo 60 rest
    match rest with
    | '.' :: c :: more => if c.isDigit then some (more.dropWhile Char.isDigit) else some rest
    | _ => some rest
  | _ => none

/-- Behind a time: the offset from universal time, if there is one. -/
def offset? : List Char → Option (List Char)
  | c :: rest =>
    if c = 'Z' || c = 'z' then some rest
    else if c = '+' || c = '-' then do
      let (_, rest) ← pairUpTo 23 rest
      match rest with
      | ':' :: rest => (pairUpTo 59 rest).map (·.2)
      | _ => none
    else some (c :: rest)
  | [] => some []

def daysIn (year month : Nat) : Nat :=
  if month = 2 then
    if year % 4 = 0 ∧ (year % 100 ≠ 0 ∨ year % 400 = 0) then 29 else 28
  else if [4, 6, 9, 11].contains month then 30
  else 31

/-- Behind the year of a date: month and day, and the time if one follows. -/
def monthAndDay (year : Nat) (cs : List Char) : Option (List Char) := do
  let (month, rest) ← pair cs
  match rest with
  | '-' :: rest =>
    let (day, rest) ← pair rest
    if month = 0 ∨ 12 < month ∨ day = 0 ∨ daysIn year month < day then none
    else
      match rest with
      | c :: more =>
        if c = 'T' || c = 't' || c = ' ' then
          match pairUpTo 23 more with
          | some (_, ':' :: more) => minuteAndSecond more >>= offset?
          | _ => some rest
        else some rest
      | [] => some rest
  | _ => none

/-- A value that starts with a digit. -/
def digitValue? (cs : List Char) : Option (Value × List Char) :=
  let number (cs : List Char) : Option (Value × List Char) :=
    match cs with
    | '0' :: 'x' :: rest => basedNumber 16 isHexDigit rest
    | '0' :: 'o' :: rest => basedNumber 8 (fun c => '0' ≤ c && c ≤ '7') rest
    | '0' :: 'b' :: rest => basedNumber 2 (fun c => c = '0' || c = '1') rest
    | _ => decimal false cs
  match pair cs with
  | some (hour, ':' :: rest) =>
    if hour ≤ 23 then (minuteAndSecond rest).map (.other, ·) else none
  | some (century, more) =>
    match pair more with
    | some (year, '-' :: rest) => (monthAndDay (100 * century + year) rest).map (.other, ·)
    | _ => number cs
  | none => number cs

end Elocution.Config.Toml
