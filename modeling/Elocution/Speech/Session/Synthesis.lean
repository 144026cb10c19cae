import Elocution.Speech.Session.Basic

/-!
# Synthesis

The synthesizer takes one job at a time and queues its frames clause by clause. The player is
told as soon as the first frame is in the queue. A frame of a job that has been cancelled is
not queued, and the rest of that job is dropped.
-/

namespace Elocution.Speech

/-- The fade in milliseconds of a marker that follows voice. -/
def markerFade : Float32 := 5

/-- The silence in milliseconds that closes spoken text. -/
def closingSilence : Float32 := 10

namespace Task

/-- The markers of a block; the first one may have voice before it. -/
def ofMarkers : List Marker → List Task
  | [] => []
  | m :: rest => .marker m true :: rest.map (.marker · false)

/-- The last tasks of a job, which ends with frame `f`. -/
def closing (f : Frame) : List Task :=
  [.frame f.ending, .raiseAllQueued, .signal .framesReady]

/-- All tasks of a job. -/
def ofJob : JobKind → List Task
  | .speak blocks =>
    .lowerAllQueued ::
      (blocks.map .block ++ closing (.silence closingSilence closingSilence))
  | .notify markers =>
    .lowerAllQueued ::
      (markers.map (fun m => .frame ((Frame.silence 0 0).withMarker m)) ++
        closing (.silence 0 0))

/-- What comes after the frames of a clause: the player is told, and a clause with voice in it
gets its pause. -/
def afterStream (voiced : Bool) (pause : Option Float32) : List Task :=
  .signal .framesReady ::
    if voiced then pause.toList.map fun ms => .frame (.silence ms Frame.minFadeOut) else []

end Task

namespace Session

/-- Queues a frame of a job, or drops the job if it has been cancelled. -/
def put (p : Progress) (f : Frame) (tasks : List Task) (s : Session) : Session :=
  if s.isCurrent p.stamp then
    let noted :=
      { p with kicked := true, lastVoiced := if f.isTimed then f.isVoiced else p.lastVoiced }
    { s with frames := s.frames.enqueue f
             queued := s.queued ++ [f]
             synthesizer := .working noted (if p.kicked then tasks else .kick :: tasks) }
  else { s with synthesizer := .idle }

variable (rig : Rig)

/-- The first of the tasks of a job, of which `tasks` come after it. -/
def carryOut (p : Progress) (task : Task) (tasks : List Task) (s : Session) : Session :=
  match task with
  | .lowerAllQueued => { s with allQueued := false, synthesizer := .working p tasks }
  | .block b =>
    if s.isCurrent p.stamp then
      let prosody := p.settings.prosody.offsetPitch b.offset
      let clauses := (Clause.split p.settings.pauseMode b.text).map (.clause prosody)
      { s with synthesizer := .working p (clauses ++ Task.ofMarkers b.markers ++ tasks) }
    else { s with synthesizer := .idle }
  | .clause prosody c =>
    let request : Request :=
      { text := rig.phonemize c.text, voice := p.settings.voice, prosody
        intonation := c.intonation }
    let clip := p.seenAudio || s.speaking
    let tasks :=
      match rig.engine s.requests request with
      | .error _ => tasks
      | .ok frames =>
        .stream (c.pause.map (· / prosody.speed)) { clipLeading := clip } frames :: tasks
    { s with requests := s.requests ++ [request], synthesizer := .working p tasks }
  | .stream pause shaper frames =>
    match shaper.next frames with
    | (some f, shaper, rest) =>
      let p := { p with pulled := p.pulled + (frames.length - rest.length) }
      s.put p f (.stream pause shaper rest :: tasks)
    | (none, shaper, _) =>
      let p := { p with seenAudio := p.seenAudio || shaper.seenVoiced }
      { s with synthesizer := .working p (Task.afterStream shaper.seenVoiced pause ++ tasks) }
  | .marker m first =>
    let fade := if first && p.lastVoiced then markerFade else 0
    s.put p ((Frame.silence fade fade).withMarker m) tasks
  | .frame f => s.put p f tasks
  | .kick =>
    if s.isCurrent p.stamp then
      { s with speaking := true
               synthesizer := .working p (.signal (.play p.stamp) :: tasks) }
    else { s with synthesizer := .working p tasks }
  | .signal x => { s with signals := s.signals ++ [x], synthesizer := .working p tasks }
  | .raiseAllQueued => { s with allQueued := true, synthesizer := .working p tasks }

/-- Begins a job that is still wanted. -/
def begin (job : Job) (s : Session) : Session :=
  if s.isCurrent job.stamp then
    let p : Progress := { stamp := job.stamp, settings := s.settings }
    { s with synthesizer := .working p (Task.ofJob job.kind) }
  else { s with synthesizer := .idle }

/-- A step of synthesis, if one can be made. -/
def synthesize? (s : Session) : Option Session :=
  match s.synthesizer with
  | .idle =>
    match s.jobs.pop with
    | (.job job, jobs) => some { s with jobs, synthesizer := .fetched job }
    | (.notYet, _) => none
    | (.closed, _) => some { s with synthesizer := .exited }
  | .fetched job => some (s.begin job)
  | .working _ [] => some { s with synthesizer := .idle }
  | .working p (task :: tasks) =>
    if task = .kick && s.isGated then none else some (s.carryOut rig p task tasks)
  | .exited => none

end Session

end Elocution.Speech
