/-!
# Capture

An output that keeps what it is fed. Audio counts as played when the output is idled: the
calls that came with it are then made, in order.
-/

namespace Elocution.Output

structure Capture (κ : Type) where
  rate : Nat
  samples : List Int16 := []
  /-- Calls to make once the audio before them has been played. -/
  waiting : List κ := []
  paused : Bool := false

namespace Capture

variable {κ : Type}

def feed (samples : List Int16) (call : Option κ) (c : Capture κ) : Capture κ :=
  { c with samples := c.samples ++ samples, waiting := c.waiting ++ call.toList }

/-- The calls that are due, and the capture without them. -/
def idle (c : Capture κ) : List κ × Capture κ := (c.waiting, { c with waiting := [] })

/-- Drops the calls; the audio stays. -/
def stop (c : Capture κ) : Capture κ := { c with waiting := [] }

def pause (paused : Bool) (c : Capture κ) : Capture κ := { c with paused }

/-- The audio captured so far, and the capture without it. -/
def take (c : Capture κ) : List Int16 × Capture κ := (c.samples, { c with samples := [] })

end Capture

end Elocution.Output
