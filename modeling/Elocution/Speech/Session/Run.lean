import Elocution.Speech.Session.Host
import Elocution.Speech.Session.Playback
import Elocution.Speech.Session.Synthesis

/-!
# Runs

A session goes on by steps of its parties, in any order. The player looks at the queue in several
steps: it makes sure that its job is wanted, renders, and if nothing was left it tests whether
more is to come. A whole run is one in which nothing else happens during such a look.
-/

namespace Elocution.Speech

inductive Act where
  | call (c : HostCall)
  /-- The host goes on with the call that is under way. -/
  | proceed
  | synthesize
  | play
  /-- The player has waited for more frames long enough. -/
  | expire
  | sound
  /-- A device no longer in use makes the call that it holds at that place. -/
  | callBack (i : Nat)

namespace Act

def isPlay : Act → Bool
  | .play => true
  | _ => false

/-- Whether the host cancels or ends the session. -/
def isCancel : Act → Bool
  | .call .cancel | .call .terminate => true
  | _ => false

def isTerminate : Act → Bool
  | .call .terminate => true
  | _ => false

end Act

/-- What the host asks to be spoken, and whether in pages. -/
structure Saying where
  commands : List Command
  paged : Bool

namespace Act

def saying? : Act → Option Saying
  | .call (.speak commands paged) => some ⟨commands, paged⟩
  | _ => none

end Act

namespace Session

variable (rig : Rig)

def step? (a : Act) (s : Session) : Option Session :=
  match a with
  | .call c => s.call? rig c
  | .proceed => s.proceed? rig
  | .synthesize => s.synthesize? rig
  | .play => s.play? rig
  | .expire => s.expire?
  | .sound => s.sound?
  | .callBack i => s.callBack? i

/-- The player has made sure that its job is wanted and has not acted on the queue yet. -/
def isLooking (s : Session) : Bool :=
  match s.player with
  | .rendering _ | .testing _ => true
  | _ => false

/-- A step that does not break into a look at the queue. -/
def wholeStep? (a : Act) (s : Session) : Option Session :=
  if s.isLooking && !a.isPlay then none else s.step? rig a

/-- The session gets from one state to another by these steps. -/
inductive Run (step : Act → Session → Option Session) : Session → List Act → Session → Prop where
  | refl (s : Session) : Run step s [] s
  | tail {s t u : Session} {acts : List Act} {a : Act} :
    Run step s acts t → step a t = some u → Run step s (acts ++ [a]) u

/-- No party has anything to do unless the host makes a call. -/
structure AtRest (s : Session) : Prop where
  host : s.host = []
  synthesis : s.synthesize? rig = none
  playback : s.play? rig = none
  patience : s.expire? = none

theorem atRest_iff {s : Session} :
    s.AtRest rig ↔ s.host = [] ∧ (s.synthesize? rig).isNone ∧ (s.play? rig).isNone ∧
      s.expire?.isNone := by
  simp only [Option.isNone_iff_eq_none]
  exact ⟨fun ⟨hh, hs, hp, he⟩ => ⟨hh, hs, hp, he⟩, fun ⟨hh, hs, hp, he⟩ => ⟨hh, hs, hp, he⟩⟩

instance (s : Session) : Decidable (s.AtRest rig) := decidable_of_iff _ (atRest_iff rig).symm

end Session

end Elocution.Speech
