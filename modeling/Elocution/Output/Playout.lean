/-!
# The playout queue

Audio that waits to be pulled by a sound card, sample by sample, with the calls to hand on once
it has been played.
-/

namespace Elocution.Output

structure Segment (κ : Type) where
  /-- What has not been pulled yet. -/
  samples : List Int16
  /-- Handed on once the samples are gone. -/
  calls : List κ

structure Playout (κ : Type) where
  segments : List (Segment κ) := []
  /-- The number of queued samples above which there is no room. -/
  limit : Nat

namespace Playout

variable {κ : Type}

def append (s : Segment κ) (p : Playout κ) : Playout κ :=
  { p with segments := p.segments ++ [s] }

def queued (p : Playout κ) : Nat := p.segments.foldl (fun n s => n + s.samples.length) 0

def hasRoom (p : Playout κ) : Bool := p.queued ≤ p.limit

/-- The next sample, the calls of the segments that were found played out before it, and the
segments left. No sample means silence. -/
def pullFrom : List (Segment κ) → Option Int16 × List κ × List (Segment κ)
  | [] => (none, [], [])
  | ⟨s :: samples, calls⟩ :: rest => (some s, [], ⟨samples, calls⟩ :: rest)
  | ⟨[], calls⟩ :: rest =>
    let (sample, others, left) := pullFrom rest
    (sample, calls ++ others, left)

def pull (p : Playout κ) : Option Int16 × List κ × Playout κ :=
  let (sample, calls, segments) := pullFrom p.segments
  (sample, calls, { p with segments })

/-- Pulls `n` samples one after the other, silence where there are none. -/
def pullMany : Nat → Playout κ → List Int16 × List κ × Playout κ
  | 0, p => ([], [], p)
  | n + 1, p =>
    let (sample, calls, p) := p.pull
    let (samples, others, p) := pullMany n p
    (sample.getD 0 :: samples, calls ++ others, p)

end Playout

end Elocution.Output
