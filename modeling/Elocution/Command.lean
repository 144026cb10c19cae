/-!
# Commands

What a caller asks to be spoken: text, position markers, and changes of pitch.
-/

namespace Elocution

/-- The caller's name for a position. -/
abbrev Marker := Nat

inductive Command where
  | text (run : List Char)
  /-- Reported once the audio before it has been played. -/
  | marker (id : Marker)
  /-- Shifts the pitch of all text that follows. -/
  | offset (pitch : Float32)
deriving DecidableEq

end Elocution
