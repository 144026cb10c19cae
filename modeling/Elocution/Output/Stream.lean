import Elocution.Output.Playout
import Elocution.Output.Resampler

/-!
# Output streams

Audio on its way to a card, converted first if the card runs at another rate. The card is told
to play as soon as there is something to play and the stream is not paused, and to pause when
the stream is stopped or paused or has been played out.
-/

namespace Elocution.Output

/-- What the card is told. -/
inductive Control where
  | play
  | pause
deriving DecidableEq, Repr

structure Stream (κ : Type) where
  playout : Playout κ
  /-- None if the card runs at the rate of the audio. -/
  resampler : Option (Resampler κ) := none
  /-- Whether the card was last told to play. -/
  running : Bool := false
  paused : Bool := false

/-- The queue has room for this much audio, in milliseconds. -/
def roomMs : Nat := 300

namespace Stream

variable {κ : Type}

/-- A stream for audio at one rate and a card at another. -/
def make (source target : Nat) : Except OutputFault (Stream κ) := do
  let resampler ← if source = target then pure none else some <$> Resampler.make source target
  return { playout := { limit := target * roomMs / 1000 }, resampler }

def ensureRunning (s : Stream κ) : List Control × Stream κ :=
  if s.paused || s.running then ([], s) else ([.play], { s with running := true })

def halt (s : Stream κ) : List Control × Stream κ :=
  if s.running then ([.pause], { s with running := false }) else ([], s)

/-- Queues audio for the card; nothing at all is not queued. -/
def enqueue (samples : List Int16) (calls : List κ) (s : Stream κ) : List Control × Stream κ :=
  if samples.isEmpty && calls.isEmpty then ([], s)
  else { s with playout := s.playout.append ⟨samples, calls⟩ }.ensureRunning

/-- Queues what leaves the resampler, as silence of its length. -/
def enqueueConverted (c : Converted κ) (s : Stream κ) : List Control × Stream κ :=
  s.enqueue (List.replicate c.length 0) c.done

def feed (samples : List Int16) (call : Option κ) (s : Stream κ) : List Control × Stream κ :=
  match s.resampler with
  | none => s.enqueue samples call.toList
  | some r =>
    let (converted, r) := r.push samples.length call
    { s with resampler := some r }.enqueueConverted converted

/-- The first part of idling: what is still in the resampler is queued. -/
def flush (s : Stream κ) : List Control × Stream κ :=
  match s.resampler with
  | none => ([], s)
  | some r =>
    let (converted, r) := r.flush
    { s with resampler := some r }.enqueueConverted converted

/-- Whether everything has been played out, the calls included. -/
def isDrained (s : Stream κ) : Bool := s.playout.segments.isEmpty

/-- The second part of idling, if everything has been played out. -/
def settle? (s : Stream κ) : Option (List Control × Stream κ) :=
  if s.isDrained then some s.halt else none

/-- The second part of idling, if the card has ceased to pull: what is queued is dropped. -/
def abandon (s : Stream κ) : List Control × Stream κ :=
  halt { s with playout := { s.playout with segments := [] } }

/-- Drops all audio with its calls. -/
def stop (s : Stream κ) : List Control × Stream κ :=
  halt { s with playout := { s.playout with segments := [] }
                resampler := s.resampler.map Resampler.reset }

def pause (on : Bool) (s : Stream κ) : List Control × Stream κ :=
  let s := { s with paused := on }
  if on then s.halt
  else if s.isDrained then ([], s)
  else s.ensureRunning

/-- Pulls `n` samples for the card, with the calls that are due. -/
def pull (n : Nat) (s : Stream κ) : List Int16 × List κ × Stream κ :=
  let (samples, calls, playout) := s.playout.pullMany n
  (samples, calls, { s with playout })

end Stream

end Elocution.Output
