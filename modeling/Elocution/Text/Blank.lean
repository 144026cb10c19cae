/-!
# Blank characters

White space by the Unicode property White_Space, trimming, and the canonical form in which
every run of blanks is one space.
-/

namespace Elocution.Text

/-- The twenty-five characters with the property White_Space. -/
def isBlank (c : Char) : Bool :=
  let n := c.toNat
  (0x9 ≤ n && n ≤ 0xd) || n == 0x20 || n == 0x85 || n == 0xa0 || n == 0x1680 ||
    (0x2000 ≤ n && n ≤ 0x200a) || n == 0x2028 || n == 0x2029 || n == 0x202f ||
    n == 0x205f || n == 0x3000

/-- A text in which nothing can be spoken. -/
def allBlank (s : List Char) : Bool := s.all isBlank

/-- The text without the longest tail whose characters all satisfy `p`. -/
def dropEndWhile (p : Char → Bool) (s : List Char) : List Char := (s.reverse.dropWhile p).reverse

def trimEnd (s : List Char) : List Char := dropEndWhile isBlank s

def trim (s : List Char) : List Char := trimEnd (s.dropWhile isBlank)

/-- One space for each run of blanks; `inRun` says that a run has already been written. -/
def squeezeFrom (inRun : Bool) : List Char → List Char
  | [] => []
  | c :: rest =>
    if isBlank c then
      if inRun then squeezeFrom true rest else ' ' :: squeezeFrom true rest
    else
      c :: squeezeFrom false rest

/-- The canonical form of a text: its words, with one space for each run of blanks. -/
def squeeze (s : List Char) : List Char := squeezeFrom false s

/-- The maximal runs of characters that are not blank; `word` is the run being read. -/
def wordsFrom (word : List Char) : List Char → List (List Char)
  | [] => if word.isEmpty then [] else [word.reverse]
  | c :: rest =>
    if isBlank c then
      if word.isEmpty then wordsFrom [] rest else word.reverse :: wordsFrom [] rest
    else
      wordsFrom (c :: word) rest

def words (s : List Char) : List (List Char) := wordsFrom [] s

@[simp] theorem squeezeFrom_nil (inRun : Bool) : squeezeFrom inRun [] = [] := rfl

theorem allBlank_append (s t : List Char) : allBlank (s ++ t) = (allBlank s && allBlank t) := by
  simp [allBlank]

end Elocution.Text
