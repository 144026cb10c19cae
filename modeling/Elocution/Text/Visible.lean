/-!
# Terminal controls made visible

A reported text must not act on the terminal that shows it. The characters that steer one are
written as escapes; line breaks, tabs and all other characters stay as they are.
-/

namespace Elocution.Text

/-- Bell, backspace, form feed, escape and delete. -/
def isShortControl (c : Char) : Bool := ['\x07', '\x08', '\x0c', '\x1b', '\x7f'].contains c

/-- The controls of eight bits, 80 to 9f. -/
def isLongControl (c : Char) : Bool := 0x80 ≤ c.toNat && c.toNat ≤ 0x9f

/-- The two lower-case hexadecimal digits of a number below 256. -/
def hexPair (n : Nat) : List Char := [Nat.digitChar (n / 16), Nat.digitChar (n % 16)]

/-- A short control is shown as `\x1b`, a long one as `\u` with its digits in braces. -/
def visible (c : Char) : List Char :=
  if isShortControl c then '\\' :: 'x' :: hexPair c.toNat
  else if isLongControl c then '\\' :: 'u' :: '\x7b' :: hexPair c.toNat ++ ['\x7d']
  else [c]

def visibleText (s : List Char) : List Char := s.flatMap visible

end Elocution.Text
