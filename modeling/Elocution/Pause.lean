import Elocution.Text.Blank

/-!
# Intonation and pauses

How a clause is intoned, and how long the pause after it is at normal speed.
-/

namespace Elocution

inductive Intonation where
  /-- A final fall. -/
  | statement
  /-- A rise. -/
  | question
  /-- An emphatic fall. -/
  | exclamation
  /-- A slight rise: more of the sentence follows. -/
  | continuation
deriving DecidableEq, Repr, Inhabited

/-- All intonations but the continuation close a sentence. -/
def Intonation.endsSentence : Intonation → Bool
  | .continuation => false
  | _ => true

inductive PauseMode where
  | off
  | short
  | long
deriving DecidableEq, Repr, Inhabited

namespace PauseMode

/-- The modes in the order in which they are listed. -/
def all : List PauseMode := [.off, .short, .long]

def name : PauseMode → String
  | .off => "off"
  | .short => "short"
  | .long => "long"

/-- The pause after a clause in milliseconds, longer where a sentence ends. -/
def pause? : PauseMode → Intonation → Option Float32
  | .off, _ => none
  | .short, i => some (if i.endsSentence then 140 else 60)
  | .long, i => some (if i.endsSentence then 300 else 120)

/-- The mode of that name, whatever the case of its letters and the blanks around it. -/
def ofName? (s : List Char) : Option PauseMode :=
  all.find? fun mode => mode.name.toList == (Text.trim s).map Char.toLower

end PauseMode

end Elocution
