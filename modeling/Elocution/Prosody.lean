import Elocution.Pause

/-!
# Prosody

What a synthesis engine is asked for: a clause of text, a voice, and how to speak it.
-/

namespace Elocution

structure Prosody where
  /-- A factor, one for normal speed. -/
  speed : Float32 := 1
  /-- Fifty for the natural pitch of the voice. -/
  pitch : Float32 := 50
  /-- The depth of the intonation, from zero to one. -/
  inflection : Float32 := 0.5
  /-- From zero to one. -/
  volume : Float32 := 1
deriving DecidableEq

def Prosody.offsetPitch (offset : Float32) (p : Prosody) : Prosody :=
  { p with pitch := p.pitch + offset }

/-- A clause for an engine. -/
structure Request where
  text : List Char
  voice : String
  prosody : Prosody
  intonation : Intonation
deriving DecidableEq

end Elocution
