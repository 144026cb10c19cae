import Elocution.Command

/-!
# Frames

The unit of audio between synthesis and rendering: a voice or silence, for a while.
-/

namespace Elocution

/-- The pitch in hertz and the amplitude of a voice. -/
structure Tone where
  pitch : Float32
  amplitude : Float32
deriving DecidableEq

structure Frame where
  /-- The voice, none for silence. -/
  tone : Option Tone := none
  /-- In milliseconds. -/
  duration : Float32 := 0
  /-- The time in milliseconds to glide from the frame before. -/
  fade : Float32 := 0
  /-- Reported when the frame starts to play. -/
  marker : Option Marker := none
  endsUtterance : Bool := false
deriving DecidableEq

namespace Frame

def silence (duration fade : Float32) : Frame := { duration, fade }

def voiced (tone : Tone) (duration fade : Float32) : Frame := { tone := some tone, duration, fade }

def withMarker (m : Marker) (f : Frame) : Frame := { f with marker := some m }

def ending (f : Frame) : Frame := { f with endsUtterance := true }

def isVoiced (f : Frame) : Bool := f.tone.isSome

/-- Whether the frame takes any time to play. -/
def isTimed (f : Frame) : Bool := 0 < f.duration

theorem filterMap_marker_cons (f : Frame) (frames : List Frame) :
    (f :: frames).filterMap marker = f.marker.toList ++ frames.filterMap marker := by
  cases hm : f.marker <;> simp [hm]

end Frame

end Elocution
