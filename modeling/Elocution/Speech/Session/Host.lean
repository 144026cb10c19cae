import Elocution.Speech.Session.Basic

/-!
# The host

What the host does to a session: it asks for speech, changes settings and devices, and cancels.
A cancellation makes the speech that was asked for stale before it clears it away, so that what
slips through in between is recognized by its stamp.
-/

namespace Elocution.Speech

/-- A call of the host. -/
inductive HostCall where
  /-- Speaks; `paged` holds markers back to keep sentences whole. -/
  | speak (commands : List Command) (paged : Bool)
  | cancel
  | terminate
  | pause (on : Bool)
  | request (device : Option String)
  | configure (settings : VoiceSettings)
deriving DecidableEq

namespace HostTask

/-- The tasks of a cancellation. -/
def cancellation : List HostTask :=
  [.lowerSpeaking, .stopDevice, .advance, .armFade, .drainJobs, .purgeFrames]

/-- The tasks of the end of a session. -/
def termination : List HostTask := cancellation ++ [.closeJobs, .shutDown]

end HostTask

namespace Session

variable (rig : Rig)

/-- Queues a job for the commands, unless the session has ended. -/
def submit (commands : List Command) (paged : Bool) (s : Session) : Session :=
  if s.ended then s
  else
    let blocks := Block.segment rig.limits paged commands
    { s with jobs := s.jobs.push ⟨.ofBlocks blocks, s.generation⟩ }

/-- A call of the host, which is made only while no other is under way. -/
def call? (c : HostCall) (s : Session) : Option Session :=
  if !s.host.isEmpty then none
  else
    some <| match c with
      | .speak commands paged => s.submit rig commands paged
      | .cancel => { s with host := HostTask.cancellation }
      | .terminate => if s.ended then s else { s with host := HostTask.termination }
      | .pause on => s.report [.paused on]
      | .request device => { s with slot := s.slot.request device }
      | .configure settings => { s with settings }

/-- A task of the host. -/
def perform (t : HostTask) (s : Session) : Session :=
  match t with
  | .lowerSpeaking => { s with speaking := false }
  | .stopDevice => s.stopDevice rig
  | .advance => { s with generation := s.generation + 1 }
  | .armFade => { s with fadeArmed := true }
  | .drainJobs => { s with jobs := s.jobs.drain.2 }
  | .purgeFrames => { s with frames := s.frames.purge }
  | .closeJobs => { s with jobs := s.jobs.close }
  | .shutDown => { s with signals := s.signals ++ [.shutdown], ended := true }

/-- A device that is stopped forgets the calls that it holds, unless it is sticky. -/
theorem perform_stopDevice (s : Session) :
    s.perform rig .stopDevice = { s with
      slot := { s.slot with output := if rig.sticky then s.held else [] }
      log := s.log ++ [.stopped] } := by
  change s.stopDevice rig = _
  unfold stopDevice
  split <;> rfl

section Untouched

variable (s : Session) (task : HostTask)

/-! What no task of the host touches. -/

theorem player_perform : (s.perform rig task).player = s.player := by
  cases task with
  | stopDevice => rw [perform_stopDevice]
  | _ => rfl

theorem synthesizer_perform : (s.perform rig task).synthesizer = s.synthesizer := by
  cases task with
  | stopDevice => rw [perform_stopDevice]
  | _ => rfl

theorem queued_perform : (s.perform rig task).queued = s.queued := by
  cases task with
  | stopDevice => rw [perform_stopDevice]
  | _ => rfl

theorem requests_perform : (s.perform rig task).requests = s.requests := by
  cases task with
  | stopDevice => rw [perform_stopDevice]
  | _ => rfl

end Untouched

/-- The next task of the call that is under way. -/
def proceed? (s : Session) : Option Session :=
  match s.host with
  | [] => none
  | t :: rest => some { s.perform rig t with host := rest }

/-- The host makes a call from start to end, the other parties standing still. -/
def complete (c : HostCall) (s : Session) : Session :=
  match s.call? rig c with
  | none => s
  | some t => { t.host.foldl (fun t task => t.perform rig task) t with host := [] }

end Session

end Elocution.Speech
