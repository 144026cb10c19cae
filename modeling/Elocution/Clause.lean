import Elocution.Pause
import Elocution.Text.Punctuation

/-!
# Clauses

A text is cut after each clause mark, with the closers that follow it, where a blank or the
end of the text comes next. The pieces between the cuts, trimmed, are its clauses.
-/

namespace Elocution

/-- A stretch of text spoken with one contour, and the pause after it. -/
structure Clause where
  text : List Char
  intonation : Intonation
  pause : Option Float32
deriving DecidableEq

namespace Clause

/-- Whether a text that has just been extended by `c` ends in a clause mark and closers. -/
def arms (armed : Bool) (c : Char) : Bool :=
  Text.isClauseBreak c || (armed && Text.isCloser c)

/-- The piece up to the first cut and the pieces after it; `armed` says that the text so far
ends in a clause mark and closers, so that a blank now makes a cut. -/
def piecesFrom (armed : Bool) : List Char → List Char × List (List Char)
  | [] => ([], [])
  | c :: rest =>
    if armed && Text.isBlank c then
      let (piece, others) := piecesFrom false rest
      ([], (c :: piece) :: others)
    else
      let (piece, others) := piecesFrom (arms armed c) rest
      (c :: piece, others)

/-- The text cut up; the pieces put together again are the text. -/
def pieces (s : List Char) : List (List Char) :=
  let (piece, others) := piecesFrom false s
  piece :: others

/-- The intonation that the last character before the closers calls for, and whether that
character is a clause mark at all. -/
def classify (s : List Char) : Intonation × Bool :=
  match Text.lastBeforeClosers s with
  | some '?' => (.question, true)
  | some '!' => (.exclamation, true)
  | some '.' | some '\u2026' => (.statement, true)
  | some ',' | some ';' | some ':' => (.continuation, true)
  | _ => (.statement, false)

/-- The clause that a piece makes; a blank piece makes none. -/
def ofPiece? (mode : PauseMode) (piece : List Char) : Option Clause :=
  match Text.trim piece with
  | [] => none
  | text =>
    let (intonation, marked) := classify text
    some ⟨text, intonation, if marked then mode.pause? intonation else none⟩

/-- The clauses of a text. -/
def split (mode : PauseMode) (s : List Char) : List Clause := (pieces s).filterMap (ofPiece? mode)

end Clause

end Elocution
