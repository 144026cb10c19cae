import Elocution.Speech.Session.Basic

/-!
# Playback

The player waits for a job to be announced, renders its frames chunk by chunk and hands each
chunk to the device, with a call for the markers in it. When the end of the job has been
rendered the device plays out what it has, and the job is done.
-/

namespace Elocution.Speech.Session

/-- The player waits, and turns to a signal. -/
def receive (x : Signal) (s : Session) : Session :=
  match x with
  | .play stamp => { s with player := .starting stamp }
  | .framesReady => s
  | .shutdown => { s with player := .stopped }

/-- Takes a job up, unless it has been cancelled. -/
def takeUp (stamp : Stamp) (s : Session) : Session :=
  if s.isCurrent stamp then { s with speaking := true, player := .opening stamp }
  else { s with player := .waiting }

/-- A signal that comes while more frames are awaited; the announcement of another job is put
off. -/
def poll (stamp : Stamp) (x : Signal) (s : Session) : Session :=
  match x with
  | .play _ => { s with deferred := s.deferred ++ [x], player := .checking stamp }
  | .framesReady => { s with player := .checking stamp }
  | .shutdown => { s with player := .stopped }

/-- The job is done, unless it has been cancelled. -/
def conclude (stamp : Stamp) (s : Session) : Session :=
  if s.isLive stamp then
    { s with speaking := false, fadeArmed := true, player := .waiting }.report [.done]
  else { s with player := .waiting }

/-- More frames are awaited no longer than for some time. -/
def expire? (s : Session) : Option Session :=
  match s.player with
  | .polling stamp => some { s with player := .checking stamp }
  | _ => none

variable (rig : Rig)

/-- Switches to the device asked for, if there is one. The device left behind is stopped. -/
def refresh (s : Session) : Session :=
  let (result, slot, actions) := s.slot.refresh (rig.openDevice s.opens)
  let kept := if rig.sticky && result matches .ok true then s.held else []
  { s with slot
           shelved := s.shelved ++ kept
           opens := if actions.isEmpty then s.opens else s.opens + 1 }.report
    (actions.map .ofAction)

/-- Renders a chunk. -/
def render (stamp : Stamp) (s : Session) : Session :=
  let (chunk, frames) := s.frames.render rig.chunk
  { s with frames
           player :=
             if !chunk.isEmpty then .delivering stamp chunk
             else if chunk.finished then .draining stamp
             else .testing stamp }

/-- Hands a chunk to the device, unless it has been cancelled. The first audio after silence is
ramped up. -/
def feed (stamp : Stamp) (chunk : Frame.Chunk) (s : Session) : Session :=
  if s.isLive stamp then
    let fades := s.fadeArmed && !chunk.samples.isEmpty
    let samples := if fades then Output.fadeIn rig.ramp chunk.samples else chunk.samples
    let calls := if chunk.markers.isEmpty then [] else [⟨stamp, chunk.markers⟩]
    let failed := rig.feedFails s.feeds
    (s.hold (if failed then s.held else s.held ++ calls)).report
        [.fed samples (!chunk.markers.isEmpty) failed]
      |> fun s =>
        { s with fadeArmed := s.fadeArmed && !fades
                 feeds := s.feeds + 1
                 handed := s.handed ++ [chunk]
                 player := if chunk.finished then .draining stamp else .checking stamp }
  else { s with player := .waiting }

/-- Lets the device play out what it has. -/
def idle (stamp : Stamp) (s : Session) : Session :=
  let failed := rig.idleFails s.idles
  { s with idles := s.idles + 1
           player := if failed then .completing stamp else .idling stamp }.report [.idled failed]

/-- Whether the device has calls to make before it takes a chunk. -/
def makesRoom (s : Session) : Bool := rig.callsOnRoom && !s.held.isEmpty

/-- A step of playback, if one can be made. -/
def play? (s : Session) : Option Session :=
  match s.player with
  | .waiting =>
    match s.deferred, s.signals with
    | x :: rest, _ => some ({ s with deferred := rest }.receive x)
    | [], x :: rest => some ({ s with signals := rest }.receive x)
    | [], [] => none
  | .starting stamp => if s.isGated then none else some (s.takeUp stamp)
  | .opening stamp => some { s.refresh rig with player := .checking stamp }
  | .checking stamp =>
    some { s with player := if s.isLive stamp then .rendering stamp else .waiting }
  | .rendering stamp => some (s.render rig stamp)
  | .delivering stamp chunk =>
    if s.isGated then none
    else if s.makesRoom rig then some s.makeCall
    else some (s.feed rig stamp chunk)
  | .testing stamp =>
    some { s with player := if s.allQueued then .draining stamp else .polling stamp }
  | .polling stamp =>
    match s.signals with
    | x :: rest => some ({ s with signals := rest }.poll stamp x)
    | [] => none
  | .draining stamp => some (s.idle rig stamp)
  | .idling stamp =>
    if s.held.isEmpty then some { s with player := .completing stamp }
    else if s.isGated then none
    else some s.makeCall
  | .completing stamp => if s.isGated then none else some (s.conclude stamp)
  | .stopped => none

end Elocution.Speech.Session
