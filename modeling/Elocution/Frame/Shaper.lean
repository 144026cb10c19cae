import Elocution.Frame.Basic
import Elocution.Single.Basic

/-!
# Shaping the frames of a clause

The frames of one synthesis call are smoothed before they are queued: the silence that leads
them is capped once audio is flowing, voice starts and ends with a short fade, and markers
move from silence to the voice that follows. A marker that finds no voice leaves on an untimed
frame of its own, and consecutive repeats of a marker count once.
-/

namespace Elocution.Frame

/-- The longest silence and fade, in milliseconds, kept before the first voice. -/
def leadingCap : Float32 := 10

/-- The least fade into the first voice of a clause, in milliseconds. -/
def minFadeIn : Float32 := 5

/-- The least fade from voice to silence, in milliseconds. -/
def minFadeOut : Float32 := 5

structure Shaper where
  clipLeading : Bool
  seenVoiced : Bool := false
  previousVoiced : Bool := false
  /-- A marker taken off a silence, waiting for a voice. -/
  held : Option Marker := none
  lastMarker : Option Marker := none
  /-- A frame that a released marker went ahead of. -/
  spilled : Option Frame := none
deriving DecidableEq

namespace Shaper

/-- The frame less a marker that has just been reported. -/
def dedupe (s : Shaper) (f : Frame) : Frame × Shaper :=
  match f.marker with
  | none => (f, s)
  | some m =>
    if s.lastMarker = some m then ({ f with marker := none }, s)
    else (f, { s with lastMarker := some m })

/-- A voiced frame takes the held marker; its own marker is then held in its place. -/
def shapeVoiced (s : Shaper) (f : Frame) : Frame × Shaper :=
  let faded := if s.seenVoiced then f else { f with fade := Single.maxNum f.fade minFadeIn }
  let s := { s with seenVoiced := true, previousVoiced := true }
  match s.held with
  | none => s.dedupe faded
  | some m =>
    let own := if f.marker = some m then none else f.marker
    { s with held := own }.dedupe { faded with marker := some m }

/-- The durations and the fade of a silence, its marker left aside. -/
def fadeSilence (s : Shaper) (f : Frame) : Frame × Shaper :=
  let clipped :=
    if !s.seenVoiced && s.clipLeading then
      { f with duration := Single.minNum f.duration leadingCap
               fade := Single.minNum f.fade leadingCap }
    else f
  if s.previousVoiced && clipped.isTimed then
    ({ clipped with fade := Single.maxNum clipped.fade minFadeOut },
      { s with previousVoiced := false })
  else (clipped, s)

/-- A silence gives its marker up. Of two markers in one stretch the older one is released
ahead of the frame. -/
def shapeSilence (s : Shaper) (f : Frame) : Frame × Shaper :=
  let (faded, s) := s.fadeSilence f
  let bare := { faded with marker := none }
  match f.marker with
  | none => s.dedupe bare
  | some m =>
    if s.held = some m then s.dedupe bare
    else
      match s.held with
      | none => { s with held := some m }.dedupe bare
      | some older =>
        { s with held := some m, spilled := some bare }.dedupe ((silence 0 0).withMarker older)

def shape (s : Shaper) (f : Frame) : Frame × Shaper :=
  if f.isVoiced then s.shapeVoiced f else s.shapeSilence f

/-- What follows the last frame: a marker with no voice left to ride on. -/
def finish (s : Shaper) : Option Frame × Shaper :=
  match s.held with
  | none => (none, s)
  | some m =>
    let s := { s with held := none }
    if s.lastMarker = some m then (none, s)
    else (some ((silence 0 0).withMarker m), { s with lastMarker := some m })

/-- The next shaped frame, if any, and what is left to shape. -/
def next (s : Shaper) (frames : List Frame) : Option Frame × Shaper × List Frame :=
  match s.spilled, frames with
  | some f, _ => (some f, { s with spilled := none }, frames)
  | none, f :: rest =>
    let (shaped, s) := s.shape f
    (some shaped, s, rest)
  | none, [] =>
    let (last, s) := s.finish
    (last, s, [])

end Shaper

end Elocution.Frame
