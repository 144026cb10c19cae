/-!
# Voices

Tables of voices by name, in the order of their names, with one voice as the default.
-/

namespace Elocution

/-- How a voice sounds at normal settings: its pitch and the swing of its pitch in hertz, and
the durations of vowels and of other letters in milliseconds. -/
structure Voice where
  basePitch : Float32
  pitchRange : Float32
  vowel : Float32
  consonant : Float32
deriving DecidableEq

structure VoiceTable where
  /-- In increasing order of the names, each name once. -/
  entries : List (String × Voice)
  defaultName : String

namespace VoiceTable

/-- Adds a voice in its place; a voice of the same name is replaced. -/
def insertEntry (name : String) (voice : Voice) :
    List (String × Voice) → List (String × Voice)
  | [] => [(name, voice)]
  | (other, v) :: rest =>
    if name < other then (name, voice) :: (other, v) :: rest
    else if name = other then (name, voice) :: rest
    else (other, v) :: insertEntry name voice rest

def single (name : String) (voice : Voice) : VoiceTable := ⟨[(name, voice)], name⟩

def insert (name : String) (voice : Voice) (t : VoiceTable) : VoiceTable :=
  { t with entries := insertEntry name voice t.entries }

def get? (t : VoiceTable) (name : String) : Option Voice := t.entries.lookup name

def names (t : VoiceTable) : List String := t.entries.map (·.1)

/-- The voices that are always there. -/
def builtin : VoiceTable :=
  single "adam" ⟨110, 40, 85, 45⟩
    |>.insert "benjamin" ⟨125, 30, 80, 40⟩
    |>.insert "caleb" ⟨95, 25, 95, 50⟩
    |>.insert "david" ⟨150, 55, 75, 40⟩

end VoiceTable

end Elocution
