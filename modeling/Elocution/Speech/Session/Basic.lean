import Elocution.Frame.Queue
import Elocution.Frame.Shaper
import Elocution.Clause
import Elocution.Settings.Basic
import Elocution.Speech.Jobs
import Elocution.Speech.Rig

/-!
# Sessions

The state that three parties share: the host, which asks for speech and cancels it, the
synthesizer, which turns jobs into queued frames, and the player, which renders the frames and
hands the audio to a device. Each party has a list of tasks or a phase, and a step of a party
is the longest piece of its work that no other party can observe in parts.
-/

namespace Elocution.Speech

/-- Wakes the player up. -/
inductive Signal where
  /-- Frames of a job of this generation have been queued. -/
  | play (stamp : Stamp)
  | framesReady
  | shutdown
deriving DecidableEq

/-- A call that a device holds until the audio before it has been played: the markers to
report, if their generation still counts then. -/
structure Call where
  stamp : Stamp
  markers : List Marker
deriving DecidableEq

/-- The calls that a device holds. -/
abbrev Device := List Call

/-- Opens a device that holds no calls, `opens` openings having been made or tried before. -/
def Rig.openDevice (rig : Rig) (opens : Nat) : Output.Factory Device := fun name rate =>
  (rig.factory opens name rate).map fun _ => []

/-- What the devices and the host get to see. -/
inductive Event where
  | opened (device : Option String)
  | openFailed (device : Option String)
  | stopped
  | paused (on : Bool)
  | fed (samples : List Int16) (withCall failed : Bool)
  | idled (failed : Bool)
  | reached (marker : Marker)
  | done
deriving DecidableEq

def Event.ofAction : Output.SlotAction → Event
  | .opened device => .opened device
  | .openFailed device => .openFailed device
  | .stopped _ => .stopped

/-- What the host has started and not finished. -/
inductive HostTask where
  | lowerSpeaking
  | stopDevice
  | advance
  | armFade
  | drainJobs
  | purgeFrames
  | closeJobs
  | shutDown
deriving DecidableEq

/-- How far a job has got. -/
structure Progress where
  stamp : Stamp
  /-- The settings when the job was begun. -/
  settings : VoiceSettings
  /-- Whether the player has been told of the job. -/
  kicked : Bool := false
  /-- Whether any clause has had voice in it. -/
  seenAudio : Bool := false
  /-- Whether the last timed frame was voiced. -/
  lastVoiced : Bool := false
  /-- Frames taken from the engine. -/
  pulled : Nat := 0
deriving DecidableEq

/-- What is left of a job. -/
inductive Task where
  | lowerAllQueued
  | block (block : Block)
  | clause (prosody : Prosody) (clause : Clause)
  /-- The frames of a clause that the engine still has to give, on their way through the
  shaper; the pause comes after them. -/
  | stream (pause : Option Float32) (shaper : Frame.Shaper) (frames : List Frame)
  | marker (marker : Marker) (first : Bool)
  | frame (frame : Frame)
  | kick
  | signal (signal : Signal)
  | raiseAllQueued
deriving DecidableEq

inductive Synthesizer where
  | idle
  | fetched (job : Job)
  | working (progress : Progress) (tasks : List Task)
  | exited
deriving DecidableEq

/-- The phases of the player; all but the first and the last are about one job. -/
inductive Player where
  | waiting
  | starting (stamp : Stamp)
  | opening (stamp : Stamp)
  | checking (stamp : Stamp)
  | rendering (stamp : Stamp)
  | delivering (stamp : Stamp) (chunk : Frame.Chunk)
  /-- Nothing was left to render. -/
  | testing (stamp : Stamp)
  /-- More frames are to come. -/
  | polling (stamp : Stamp)
  | draining (stamp : Stamp)
  | idling (stamp : Stamp)
  | completing (stamp : Stamp)
  | stopped
deriving DecidableEq

structure Session where
  /-- How many cancellations there have been. They are taken to be fewer than `2 ^ 64`, so that this
  number and the counter of a `Generation` agree. -/
  generation : Stamp := 0
  speaking : Bool := false
  /-- Whether the last job begun is queued to its end. -/
  allQueued : Bool := false
  /-- Whether the next audio is ramped up from silence. -/
  fadeArmed : Bool := true
  frames : Frame.Queue
  jobs : JobQueue := {}
  settings : VoiceSettings
  slot : Output.Slot Device
  signals : List Signal := []
  /-- Signals that the player has put off until its job is played. -/
  deferred : List Signal := []
  host : List HostTask := []
  synthesizer : Synthesizer := .idle
  player : Player := .waiting
  /-- Whether the session has been terminated. -/
  ended : Bool := false
  /-- The calls that devices no longer in use still hold. -/
  shelved : List Call := []
  /-- How many times a device has been opened or tried. -/
  opens : Nat := 0
  feeds : Nat := 0
  idles : Nat := 0
  /-- The requests made of the engine. -/
  requests : List Request := []
  /-- The frames that have been queued. -/
  queued : List Frame := []
  /-- The chunks that have been handed to a device, as they were rendered. -/
  handed : List Frame.Chunk := []
  log : List Event := []

namespace Session

def isCurrent (stamp : Stamp) (s : Session) : Bool := s.generation == stamp

/-- Whether work of that generation is to be played. -/
def isLive (stamp : Stamp) (s : Session) : Bool := s.speaking && s.isCurrent stamp

/-- The host holds the gate from the first moment of a cancellation until the generation has
been advanced; meanwhile no other party starts a job, hands audio over or reports anything. -/
def isGated (s : Session) : Bool :=
  match s.host with
  | .stopDevice :: _ | .advance :: _ => true
  | _ => false

def report (events : List Event) (s : Session) : Session := { s with log := s.log ++ events }

/-- The calls that the active device holds. -/
def held (s : Session) : List Call := s.slot.output

def hold (calls : List Call) (s : Session) : Session :=
  { s with slot := { s.slot with output := calls } }

/-- Reports the markers of a call, unless it has been cancelled. -/
def answer (c : Call) (s : Session) : Session :=
  s.report (if s.isCurrent c.stamp then c.markers.map .reached else [])

/-- Makes the first call that the device holds. -/
def makeCall (s : Session) : Session :=
  match s.held with
  | [] => s
  | c :: rest => (s.hold rest).answer c

/-- The device in use plays as far as its first call. -/
def sound? (s : Session) : Option Session :=
  if s.held.isEmpty || s.isGated then none else some s.makeCall

/-- A device no longer in use makes one of the calls that it still holds. -/
def callBack? (i : Nat) (s : Session) : Option Session :=
  if s.isGated then none
  else s.shelved[i]?.map fun c => { s with shelved := s.shelved.eraseIdx i }.answer c

variable (rig : Rig)

/-- Stops the device in use. -/
def stopDevice (s : Session) : Session :=
  (if rig.sticky then s else s.hold []).report [.stopped]

/-- The session at its start, with the device it is to use. -/
def start (device : Option String) (settings : VoiceSettings) : Except OutputFault Session := do
  let slot ← Output.Slot.openFirst (rig.openDevice 0) device rig.rate
  return { frames := { rate := rig.rate }, settings, slot, opens := 1, log := [.opened device] }

end Session

end Elocution.Speech
