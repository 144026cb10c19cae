import Elocution.Output.Stream
import Elocution.Single.Basic

/-!
# Filters

The samples that a resampler makes. The filter is not part of this library: it takes passes of
source samples, gives the converted samples that are ready, and can be reset. Around it samples
wait for a full pass, its delay is skipped, and what leaves it is queued for the card.
-/

namespace Elocution.Output

structure Filter (σ : Type) where
  /-- The state of a new filter. -/
  fresh : σ
  /-- Takes a full pass of source samples. -/
  pass : List Float32 → σ → List Float32 × σ
  reset : σ → σ
  /-- The number of converted samples ahead of the audio. -/
  delay : Nat

/-- A resampler with a filter in it: what a `Resampler` tells by numbers, in full. -/
structure FilteredResampler (σ κ : Type) where
  inner : σ
  pending : List Float32 := []
  waiting : List (Nat × κ) := []
  skip : Nat
  primed : Bool := false

namespace FilteredResampler

variable {σ κ : Type}

def start (φ : Filter σ) : FilteredResampler σ κ := { inner := φ.fresh, skip := φ.delay }

/-- A converted sample at full scale, held in range. -/
def toSample (x : Float32) : Int16 := Single.toSample (Single.clamp (-1) 1 x * 32767)

/-- One pass through the filter, its input filled up with silence. -/
def pass (φ : Filter σ) (input : List Float32) (r : FilteredResampler σ κ) :
    List Int16 × FilteredResampler σ κ :=
  let (frames, inner) := φ.pass (input ++ List.replicate (passLength - input.length) 0) r.inner
  let skipped := min r.skip frames.length
  ((frames.drop skipped).map toSample,
    { r with inner, skip := r.skip - skipped, primed := true })

def passes (φ : Filter σ) :
    Nat → List Float32 → FilteredResampler σ κ → List Int16 × FilteredResampler σ κ
  | 0, _, r => ([], r)
  | n + 1, input, r =>
    let (first, r) := r.pass φ (input.take passLength)
    let (others, r) := passes φ n (input.drop passLength) r
    (first ++ others, r)

def push (φ : Filter σ) (samples : List Int16) (call : Option κ) (r : FilteredResampler σ κ) :
    List Int16 × List κ × FilteredResampler σ κ :=
  let input := r.pending ++ samples.map fun s => Single.ofSample s / 32768
  let waiting := r.waiting ++ call.toList.map (input.length, ·)
  let consumed := input.length / passLength * passLength
  let (audio, r) := r.passes φ (input.length / passLength) input
  (audio, (waiting.filter (·.1 ≤ consumed)).map (·.2),
    { r with pending := input.drop consumed
             waiting := (waiting.filter (consumed < ·.1)).map fun (p, k) => (p - consumed, k) })

def reset (φ : Filter σ) (r : FilteredResampler σ κ) : FilteredResampler σ κ :=
  { inner := φ.reset r.inner, skip := φ.delay }

def flush (φ : Filter σ) (r : FilteredResampler σ κ) :
    List Int16 × List κ × FilteredResampler σ κ :=
  let calls := r.waiting.map (·.2)
  let (tail, r) := if r.pending.isEmpty then ([], r) else r.pass φ r.pending
  let (last, r) := if r.primed then r.pass φ [] else ([], r)
  (tail ++ last, calls, r.reset φ)

end FilteredResampler

/-- A stream with a filter in its resampler: `stream` is what comes after the resampler. -/
structure FilteredStream (σ κ : Type) where
  stream : Stream κ
  resampler : Option (FilteredResampler σ κ) := none

namespace FilteredStream

variable {σ κ : Type}

/-- Puts a filter into the resampler of a new stream. -/
def ofStream (φ : Filter σ) (s : Stream κ) : FilteredStream σ κ :=
  { stream := { s with resampler := none }, resampler := s.resampler.map fun _ => .start φ }

/-- A change of what comes after the resampler. -/
def after (change : List Control × Stream κ) (f : FilteredStream σ κ) :
    List Control × FilteredStream σ κ :=
  (change.1, { f with stream := change.2 })

def feed (φ : Filter σ) (samples : List Int16) (call : Option κ) (f : FilteredStream σ κ) :
    List Control × FilteredStream σ κ :=
  match f.resampler with
  | none => f.after (f.stream.enqueue samples call.toList)
  | some r =>
    let (audio, calls, r) := r.push φ samples call
    { f with resampler := some r }.after (f.stream.enqueue audio calls)

def flush (φ : Filter σ) (f : FilteredStream σ κ) : List Control × FilteredStream σ κ :=
  match f.resampler with
  | none => ([], f)
  | some r =>
    let (audio, calls, r) := r.flush φ
    { f with resampler := some r }.after (f.stream.enqueue audio calls)

def stop (φ : Filter σ) (f : FilteredStream σ κ) : List Control × FilteredStream σ κ :=
  { f with resampler := f.resampler.map (.reset φ) }.after f.stream.stop

end FilteredStream

end Elocution.Output
