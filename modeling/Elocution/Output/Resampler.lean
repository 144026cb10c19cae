import Elocution.Error

/-!
# Resampling

Audio for a device that runs at another rate is converted in passes of 256 source samples.
What is kept here is the length of the audio and the calls that wait for it: the values of
converted samples belong to the filter and are left aside.

With `g` the greatest common divisor of the rates, the filter works on blocks of `k * from / g`
source samples, where `k` is the least that makes a block at least 128 long, and gives
`k * to / g` samples for each. Half a block of its output is delay and is skipped.
-/

namespace Elocution.Output

/-- Source samples in a pass. -/
def passLength : Nat := 256

/-- The lengths of a block before and after conversion. -/
structure BlockLengths where
  source : Nat
  target : Nat
deriving DecidableEq, Repr

def BlockLengths.ofRates (source target : Nat) : BlockLengths :=
  let g := Nat.gcd source target
  let unit := source / g
  let k := (passLength / 2 + unit - 1) / unit
  ⟨k * source / g, k * target / g⟩

def BlockLengths.delay (b : BlockLengths) : Nat := b.target / 2

structure Resampler (κ : Type) where
  blocks : BlockLengths
  /-- Source samples inside the filter that do not fill a block. -/
  saved : Nat := 0
  /-- Source samples that wait for a full pass. -/
  pending : Nat := 0
  /-- Calls, each with the number of pending samples it waits behind. -/
  waiting : List (Nat × κ) := []
  /-- Converted samples still to be skipped. -/
  skip : Nat
  /-- Whether a pass has been made. -/
  primed : Bool := false

/-- A stretch of converted audio and the calls whose audio it completes. -/
structure Converted (κ : Type) where
  length : Nat := 0
  done : List κ := []

namespace Resampler

variable {κ : Type}

def ofBlocks (blocks : BlockLengths) : Resampler κ := { blocks, skip := blocks.delay }

/-- A resampler between two rates, neither of which may be zero. -/
def make (source target : Nat) : Except OutputFault (Resampler κ) :=
  if source = 0 ∨ target = 0 then .error (.zeroRate source target)
  else .ok (ofBlocks (.ofRates source target))

/-- One pass through the filter: the number of converted samples that leave it. -/
def pass (r : Resampler κ) : Nat × Resampler κ :=
  let held := r.saved + passLength
  let made := held / r.blocks.source * r.blocks.target
  let skipped := min r.skip made
  (made - skipped,
    { r with saved := held % r.blocks.source, skip := r.skip - skipped, primed := true })

def passes : Nat → Resampler κ → Nat × Resampler κ
  | 0, r => (0, r)
  | n + 1, r =>
    let (first, r) := r.pass
    let (others, r) := passes n r
    (first + others, r)

/-- Adds `count` source samples and makes the passes that are now full. A call is released
once all samples up to its own have been in a pass. -/
def push (count : Nat) (call : Option κ) (r : Resampler κ) : Converted κ × Resampler κ :=
  let total := r.pending + count
  let waiting := r.waiting ++ call.toList.map (total, ·)
  let consumed := total / passLength * passLength
  let (length, r) := passes (total / passLength) r
  ({ length, done := (waiting.filter (·.1 ≤ consumed)).map (·.2) },
    { r with pending := total - consumed
             waiting := (waiting.filter (consumed < ·.1)).map fun (p, k) => (p - consumed, k) })

/-- Drops what is pending and starts anew. -/
def reset (r : Resampler κ) : Resampler κ := ofBlocks r.blocks

/-- Converts what is pending, padded to a pass, and one more pass of padding if any pass has
been made; releases all calls and starts anew. -/
def flush (r : Resampler κ) : Converted κ × Resampler κ :=
  let done := r.waiting.map (·.2)
  let (tail, r) := if r.pending = 0 then (0, r) else r.pass
  let (last, r) := if r.primed then r.pass else (0, r)
  ({ length := tail + last, done }, r.reset)

end Resampler

end Elocution.Output
