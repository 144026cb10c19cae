import Elocution.Block
import Elocution.Frame.Basic
import Elocution.Output.FadeIn
import Elocution.Output.Slot
import Elocution.Prosody

/-!
# The rig

What a session works with and has no say in: the engine that synthesizes, and the output
devices, which may fail to open, to take audio or to play it out.
-/

namespace Elocution.Speech

/-- The frames of a clause; the answer may depend on the requests made before. -/
abbrev Engine := List Request → Request → Except SynthesisFault (List Frame)

structure Rig where
  engine : Engine
  phonemize : List Char → List Char := id
  limits : CoalesceLimits := {}
  /-- Samples per second, of the frames and of the devices. -/
  rate : Nat
  /-- The length in milliseconds of the audio handed over at once. -/
  chunkMs : Nat := 20
  /-- Opens a device, given how many times one has been opened or tried before. -/
  factory : Nat → Output.Factory Unit
  /-- Whether feed number `n` of the session fails. -/
  feedFails : Nat → Bool := fun _ => false
  /-- Whether idle number `n` of the session fails. -/
  idleFails : Nat → Bool := fun _ => false
  /-- Devices make the calls they hold also when they are asked for room. -/
  callsOnRoom : Bool := false
  /-- Devices hold on to their calls when they are stopped. -/
  sticky : Bool := false

namespace Rig

/-- The number of samples in a span of milliseconds, rounded down. -/
def span (rig : Rig) (ms : Nat) : Nat := rig.rate * ms / 1000

/-- The number of samples handed over at once. -/
def chunk (rig : Rig) : Nat := max (rig.span rig.chunkMs) 1

/-- The number of samples over which audio is ramped up from silence. -/
def ramp (rig : Rig) : Nat := rig.span Output.fadeInMs

theorem chunk_pos (rig : Rig) : 0 < rig.chunk := by
  unfold chunk
  omega

end Rig

end Elocution.Speech
