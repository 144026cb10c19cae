/-!
# Numerals

Unsigned decimal numerals with an optional leading plus sign, read from left to right, so
that the first offence decides the fault.
-/

namespace Elocution.Text

inductive NumeralFault where
  | empty
  | invalidDigit
  | tooLarge
deriving DecidableEq, Repr

def NumeralFault.message : NumeralFault → String
  | .empty => "cannot parse integer from empty string"
  | .invalidDigit => "invalid digit found in string"
  | .tooLarge => "number too large to fit in target type"

def digitValue? (c : Char) : Option Nat :=
  if '0' ≤ c ∧ c ≤ '9' then some (c.toNat - '0'.toNat) else none

/-- Continues the numeral whose value so far is `value`; no value may exceed `limit`. -/
def readDigits (limit : Nat) (value : Nat) : List Char → Except NumeralFault Nat
  | [] => .ok value
  | c :: rest =>
    match digitValue? c with
    | none => .error .invalidDigit
    | some d =>
      if value * 10 + d ≤ limit then readDigits limit (value * 10 + d) rest
      else .error .tooLarge

/-- A sign alone is an invalid digit, not an empty numeral. -/
def readNumeral (limit : Nat) : List Char → Except NumeralFault Nat
  | [] => .error .empty
  | ['+'] => .error .invalidDigit
  | '+' :: digits => readDigits limit 0 digits
  | digits => readDigits limit 0 digits

end Elocution.Text
