import Elocution.Prosody
import Elocution.Single.PowerOfTwo

/-!
# Voice settings

The voice that speaks and how it speaks, as a caller sets it: percentages and names.
-/

namespace Elocution

structure VoiceSettings where
  voice : String := "adam"
  /-- Fifty for normal speed. -/
  rate : Nat := 50
  /-- Fifty for the natural pitch of the voice. -/
  pitch : Nat := 50
  inflection : Nat := 60
  volume : Nat := 100
  pauseMode : PauseMode := .short
deriving DecidableEq, Repr, Inhabited

namespace VoiceSettings

/-- Half speed at rate 0, normal at 50, double at 100. -/
def speed (s : VoiceSettings) : Float32 :=
  Single.powerOfTwo ((Single.ofCount s.rate - 50) / 50)

def prosody (s : VoiceSettings) : Prosody where
  speed := s.speed
  pitch := Single.ofCount s.pitch
  inflection := Single.ofCount s.inflection / 100
  volume := Single.ofCount s.volume / 100

end VoiceSettings

end Elocution
