import Elocution.Frame.Basic
import Elocution.Single.Basic

/-!
# Rendering queued frames

Frames are queued and played out as 16-bit samples of a small additive voice source. Pitch and
amplitude glide from the frame before over the fade of each frame, and the phase runs on from
frame to frame.
-/

namespace Elocution.Frame

/-- Full scale of the output. -/
def outputGain : Float32 := 0.8

/-- The pitch assumed before any voice has played. -/
def restingPitch : Float32 := 100

/-- A frame in play, or about to be: `total` samples that glide from one tone to another over
the first `fade` of them. -/
structure Glide where
  start : Tone
  target : Tone
  total : Nat
  fade : Nat
  endsUtterance : Bool
deriving DecidableEq

/-- The tone of sample number `i`. -/
def Glide.tone (g : Glide) (i : Nat) : Tone :=
  if g.fade = 0 ∨ g.fade ≤ i then g.target
  else
    let t := Single.ofCount i / Single.ofCount g.fade
    { pitch := g.start.pitch + (g.target.pitch - g.start.pitch) * t
      amplitude := g.start.amplitude + (g.target.amplitude - g.start.amplitude) * t }

/-- The voice source: the tone that it sounded last, and its phase. -/
structure Oscillator where
  tone : Tone := ⟨restingPitch, 0⟩
  phase : Float32 := 0
deriving DecidableEq

namespace Oscillator

/-- One sample of a tone: three harmonics, scaled and held in range. -/
def sound (rate : Nat) (tone : Tone) (o : Oscillator) : Int16 × Oscillator :=
  let phase :=
    Single.rem (o.phase + Single.tau * tone.pitch / Single.ofCount rate) Single.tau
  let source := phase.sin + 0.5 * (2 * phase).sin + 0.25 * (3 * phase).sin
  let value := source / 1.75 * tone.amplitude * outputGain
  (Single.toSample (Single.clamp (-1) 1 value * 32767), { tone, phase })

/-- The `n` samples of a frame from sample number `i` on. -/
def play (rate : Nat) (g : Glide) : (i n : Nat) → Oscillator → List Int16 × Oscillator
  | _, 0, o => ([], o)
  | i, n + 1, o =>
    let (sample, o) := o.sound rate (g.tone i)
    let (samples, o) := play rate g (i + 1) n o
    (sample :: samples, o)

end Oscillator

/-- Audio from the queue, the markers of the frames that started within it, and whether a
frame that ends an utterance ended with it. -/
structure Chunk where
  samples : List Int16 := []
  markers : List Marker := []
  finished : Bool := false
deriving DecidableEq

/-- A chunk with neither audio nor markers. -/
def Chunk.isEmpty (c : Chunk) : Bool := c.samples.isEmpty && c.markers.isEmpty

/-- The frames that wait, the frame in play with the number of its samples that have been
played, and the state of the voice source. -/
structure Queue where
  rate : Nat := 24000
  pending : List Frame := []
  playing : Option (Glide × Nat) := none
  voice : Oscillator := {}
  lastMarker : Option Marker := none
deriving DecidableEq

namespace Queue

/-- A duration in samples, rounded. -/
def samplesFor (rate : Nat) (ms : Float32) : Nat :=
  if ms ≤ 0 then 0 else Single.roundCount (ms * Single.ofCount rate / 1000)

/-- Silence keeps the pitch that sounded last. -/
def glide (rate : Nat) (voice : Oscillator) (f : Frame) : Glide where
  start := voice.tone
  target := f.tone.getD ⟨voice.tone.pitch, 0⟩
  total := samplesFor rate f.duration
  fade := samplesFor rate f.fade
  endsUtterance := f.endsUtterance

def enqueue (f : Frame) (q : Queue) : Queue := { q with pending := q.pending ++ [f] }

/-- Forgets all frames and the last marker; the voice falls silent at once. -/
def purge (q : Queue) : Queue :=
  { q with pending := [], playing := none, lastMarker := none
           voice := { q.voice with tone := { q.voice.tone with amplitude := 0 } } }

/-- Renders at most `room` samples of the frames `pending`, none being in play. A frame of no
samples takes no room; the end of an utterance ends the chunk. -/
def renderPending (rate room : Nat) (voice : Oscillator) (last : Option Marker) :
    List Frame → Chunk × Queue
  | [] => ({}, { rate, voice, lastMarker := last })
  | f :: rest =>
    if room = 0 then ({}, { rate, pending := f :: rest, voice, lastMarker := last })
    else
      let g := glide rate voice f
      let n := min room g.total
      let last := f.marker <|> last
      let (samples, voice) := voice.play rate g 0 n
      if n < g.total then
        ({ samples, markers := f.marker.toList },
          { rate, pending := rest, playing := some (g, n), voice, lastMarker := last })
      else if f.endsUtterance then
        ({ samples, markers := f.marker.toList, finished := true },
          { rate, pending := rest, voice, lastMarker := last })
      else
        let (chunk, q) := renderPending rate (room - n) voice last rest
        ({ chunk with samples := samples ++ chunk.samples
                      markers := f.marker.toList ++ chunk.markers }, q)

/-- Renders at most `room` samples. A chunk is shorter only where an utterance ends or the
queue runs dry. -/
def render (room : Nat) (q : Queue) : Chunk × Queue :=
  match q.playing with
  | none => renderPending q.rate room q.voice q.lastMarker q.pending
  | some (g, i) =>
    let n := min room (g.total - i)
    let (samples, voice) := q.voice.play q.rate g i n
    if i + n < g.total then
      ({ samples }, { q with playing := some (g, i + n), voice })
    else if g.endsUtterance then
      ({ samples, finished := true }, { q with playing := none, voice })
    else
      let (chunk, q) := renderPending q.rate (room - n) voice q.lastMarker q.pending
      ({ chunk with samples := samples ++ chunk.samples }, q)

end Queue

end Elocution.Frame
