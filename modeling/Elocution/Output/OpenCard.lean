import Elocution.Output.Card
import Elocution.Output.Stream

/-!
# Cards in use

A card with the stream that feeds it. The card asks for frames while it plays; a caller may
wait for the stream to be played out or to have room, one at a time.
-/

namespace Elocution.Output

/-- What is done to a card. -/
inductive CardEvent where
  | built (config : CardConfig)
  | played
  | playFailed
  | paused
deriving DecidableEq, Repr

/-- What a caller waits for. -/
inductive Wait where
  /-- Everything has been played out; the card is then paused. -/
  | drained
  | room
deriving DecidableEq, Repr

structure OpenCard (κ : Type) where
  card : Card
  config : CardConfig
  stream : Stream κ
  playing : Bool := false
  waiting : Option Wait := none

/-- What comes of an operation: what was done to the card, and the wait that ended with it. -/
structure CardAnswer where
  events : List CardEvent := []
  ended : Option Wait := none
deriving DecidableEq, Repr

namespace OpenCard

variable {κ : Type}

/-- Opens a card for audio at `rate`. The stream of a card starts paused. -/
def openFirst (cards : Cards) (device : Option String) (rate : Nat) :
    Except OutputFault (OpenCard κ) × List CardEvent :=
  match (do let card ← cards.find device; return (card, ← card.config rate)) with
  | .error fault => (.error fault, [])
  | .ok (card, config) =>
    if card.failsToBuild then (.error (.system "cannot build stream"), [])
    else if card.failsToPause then (.error (.system "cannot pause"), [.built config])
    else
      ((Stream.make rate config.rate).map fun stream => { card, config, stream },
        [.built config, .paused])

/-- The card does what it is told, as far as it can. -/
def obey (control : Control) (c : OpenCard κ) : CardEvent × OpenCard κ :=
  match control with
  | .play => if c.card.failsToPlay then (.playFailed, c) else (.played, { c with playing := true })
  | .pause => (.paused, { c with playing := false })

def obeyAll : List Control → OpenCard κ → List CardEvent × OpenCard κ
  | [], c => ([], c)
  | control :: rest, c =>
    let (event, c) := c.obey control
    let (events, c) := obeyAll rest c
    (event :: events, c)

/-- A change of the stream, with what the card was told in it. -/
def apply (change : List Control × Stream κ) (c : OpenCard κ) : List CardEvent × OpenCard κ :=
  { c with stream := change.2 }.obeyAll change.1

/-- Ends the wait, if what the caller waits for is the case. -/
def recheck (events : List CardEvent) (c : OpenCard κ) : CardAnswer × OpenCard κ :=
  match c.waiting with
  | none => ({ events }, c)
  | some .room =>
    if c.stream.playout.hasRoom then ({ events, ended := some .room }, { c with waiting := none })
    else ({ events }, c)
  | some .drained =>
    match c.stream.settle? with
    | none => ({ events }, c)
    | some change =>
      let (more, c) := { c with waiting := none }.apply change
      ({ events := events ++ more, ended := some .drained }, c)

def update (change : List Control × Stream κ) (c : OpenCard κ) : CardAnswer × OpenCard κ :=
  let (events, c) := c.apply change
  c.recheck events

def feed (samples : List Int16) (call : Option κ) (c : OpenCard κ) : CardAnswer × OpenCard κ :=
  c.update (c.stream.feed samples call)

def stop (c : OpenCard κ) : CardAnswer × OpenCard κ := c.update c.stream.stop

def pause (on : Bool) (c : OpenCard κ) : CardAnswer × OpenCard κ := c.update (c.stream.pause on)

/-- Waits, unless a caller waits already. -/
def wait? (w : Wait) (c : OpenCard κ) : Option (CardAnswer × OpenCard κ) :=
  if c.waiting.isSome then none
  else
    let c := { c with waiting := some w }
    some <| match w with
      | .room => c.recheck []
      | .drained => c.update c.stream.flush

/-- The card asks for `n` frames, if it plays: their samples, and the calls that are due. -/
def pull? (n : Nat) (c : OpenCard κ) :
    Option (List Int16 × List κ × CardAnswer × OpenCard κ) :=
  if c.playing then
    let (samples, calls, stream) := c.stream.pull n
    let (answer, c) := { c with stream }.recheck []
    some (samples, calls, answer, c)
  else none

/-- The channels that are filled when the card asks for `n` frames; no frames have no channels. -/
def filledChannels (n : Nat) (c : OpenCard κ) : Nat := if n = 0 then 0 else c.config.channels

end OpenCard

end Elocution.Output
