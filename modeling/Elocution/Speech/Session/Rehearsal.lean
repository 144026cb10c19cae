import Elocution.Speech.Session.Advance
import Elocution.Speech.Session.Host

/-!
# Rehearsals

A session in which one party works at a time. The synthesizer queues a job to its end before
the player renders any of it, but for cues, at which the player catches up or the host cancels.
-/

namespace Elocution.Speech

/-- The places in a job at which the order of work is changed: frames that the engine is about
to give, and chunks that the player is about to hand over. -/
structure Cues where
  /-- The job is left unplayed. -/
  hold : Bool := false
  cancelAtFrame : Option Nat := none
  cancelAtChunk : Option Nat := none
  /-- Frames at which the player first plays all that is queued. -/
  drainAt : List Nat := []

namespace Session

variable (rig : Rig)

/-- Synthesis goes on until `halt` holds or there is nothing to do. -/
def synthesizeUntil (halt : Session → Bool) (s : Session) : Session :=
  if halt s then s
  else
    match _h : s.synthesize? rig with
    | none => s
    | some t => synthesizeUntil halt t
termination_by s.synthesisLeft
decreasing_by exact synthesisLeft_less _h

/-- Playback goes on until `halt` holds or there is nothing to do. -/
def playUntil (halt : Session → Bool) (s : Session) : Session :=
  if halt s then s
  else
    match _h : s.play? rig with
    | none => s
    | some t => playUntil halt t
termination_by s.playbackLeft
decreasing_by exact playbackLeft_fewer _h

def synthesizeAll (s : Session) : Session := s.synthesizeUntil rig fun _ => false

/-- The player looks for frames again, if it waits for some. -/
def wake (s : Session) : Session := s.expire?.getD s

def playAll (s : Session) : Session := s.wake.playUntil rig fun _ => false

/-- The engine is about to give frame `k` of the job. -/
def isAtFrame (k : Nat) (s : Session) : Bool :=
  match s.synthesizer with
  | .working p (.stream _ shaper (_ :: _) :: _) => shaper.spilled.isNone && p.pulled == k
  | _ => false

/-- The player is about to hand over chunk `n` of the session. -/
def isAtChunk (n : Nat) (s : Session) : Bool :=
  match s.player with
  | .delivering _ _ => !s.makesRoom rig && s.feeds == n
  | _ => false

/-- The player has taken a job up and is about to render it. -/
def isReady (s : Session) : Bool :=
  match s.player with
  | .checking stamp | .polling stamp => s.isLive stamp
  | _ => false

/-- The player takes the next job up, if it has none. -/
def attend (s : Session) : Session := s.playUntil rig isReady

/-- The host cancels, and the other parties drop what is stale. -/
def cancelAll (s : Session) : Session := (s.complete rig .cancel).synthesizeAll rig |>.playAll rig

/-- The host ends the session, and the other parties leave. -/
def terminate (s : Session) : Session :=
  (s.complete rig .terminate).synthesizeAll rig |>.playAll rig

/-- Plays all that is queued, or cancels ahead of a chunk; says whether it has. -/
def playOrCancel (chunk : Option Nat) (s : Session) : Bool × Session :=
  match chunk with
  | none => (false, s.playAll rig)
  | some n =>
    let s := s.wake.playUntil rig (isAtChunk rig n)
    if s.isAtChunk rig n then (true, s.cancelAll rig) else (false, s)

def isAnnouncement : Signal → Bool
  | .play _ => true
  | _ => false

/-- Some of the job at hand is queued, and no earlier job is left to play. -/
def canDrain (s : Session) : Bool :=
  match s.synthesizer with
  | .working p _ => p.kicked && !(s.deferred ++ s.signals).any isAnnouncement
  | _ => false

/-- Synthesis with stops at which the player catches up; says whether a cancellation ended it. -/
def drainThrough (chunk : Option Nat) : List Nat → Session → Bool × Session
  | [], s => (false, s)
  | k :: rest, s =>
    let s := (s.synthesizeUntil rig (isAtFrame k)).attend rig
    if s.isAtFrame k && s.canDrain then
      match s.playOrCancel rig chunk with
      | (true, s) => (true, s)
      | (false, s) => drainThrough chunk rest s
    else drainThrough chunk rest s

/-- Finishes the job at hand and plays it, unless it is held. -/
def finishJob (hold : Bool) (chunk : Option Nat) (s : Session) : Session :=
  let s := (s.synthesizeAll rig).attend rig
  if hold then s else (s.playOrCancel rig chunk).2

/-- Plays the jobs that have been held. -/
def playHeld (cancelAtChunk : Option Nat) (s : Session) : Session :=
  (s.playOrCancel rig (cancelAtChunk.map (s.feeds + ·))).2

/-- Speaks the commands, with cues. A cancellation at a frame goes before a stop there. -/
def say (commands : List Command) (paged : Bool) (cues : Cues) (s : Session) : Session :=
  let chunk := cues.cancelAtChunk.map (s.feeds + ·)
  let stops := cues.drainAt.filter fun k => cues.cancelAtFrame.all (k < ·)
  match (s.complete rig (.speak commands paged)).drainThrough rig chunk
      (stops.mergeSort (· ≤ ·)) with
  | (true, s) => s
  | (false, s) =>
    match cues.cancelAtFrame with
    | none => s.finishJob rig cues.hold chunk
    | some k =>
      let s := (s.synthesizeUntil rig (isAtFrame k)).attend rig
      if s.isAtFrame k then s.cancelAll rig else s.finishJob rig cues.hold chunk

end Session

end Elocution.Speech
