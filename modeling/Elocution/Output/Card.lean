import Elocution.Error

/-!
# Sound cards

The sound cards of a system, and the choice of a card and of a configuration. A card that can
run at the rate asked for, with one channel or else with two, is run at that rate; any other
card is run as it is by default.
-/

namespace Elocution.Output

/-- Channels, and the rates at which they can be run. -/
structure ConfigRange where
  channels : Nat
  minRate : Nat
  maxRate : Nat
deriving DecidableEq, Repr

structure CardConfig where
  channels : Nat
  rate : Nat
deriving DecidableEq, Repr

structure Card where
  /-- None if the name cannot be read. -/
  name : Option String
  /-- None if the card does not tell. -/
  ranges : Option (List ConfigRange)
  default : Option CardConfig
  failsToBuild : Bool := false
  failsToPause : Bool := false
  failsToPlay : Bool := false
deriving DecidableEq, Repr

/-- The cards of a system, the default card first; none if they cannot be listed. -/
abbrev Cards := Option (List Card)

namespace Cards

/-- The names that can be read. -/
def names : Cards → Except OutputFault (List String)
  | none => .error (.system "no backend")
  | some cards => .ok (cards.filterMap Card.name)

/-- The first card of that name, or the default card. -/
def find (device : Option String) (cards : Cards) : Except OutputFault Card :=
  match device, cards with
  | none, none | none, some [] => .error .noDevice
  | none, some (card :: _) => .ok card
  | some _, none => .error (.system "no backend")
  | some name, some cards =>
    match cards.find? fun card => card.name == some name with
    | some card => .ok card
    | none => .error (.notFound name)

end Cards

namespace Card

/-- Whether the card runs that many channels at that rate. -/
def supports (channels rate : Nat) (card : Card) : Bool :=
  (card.ranges.getD []).any fun r =>
    r.channels == channels && r.minRate ≤ rate && rate ≤ r.maxRate

def config (rate : Nat) (card : Card) : Except OutputFault CardConfig :=
  if card.supports 1 rate then .ok ⟨1, rate⟩
  else if card.supports 2 rate then .ok ⟨2, rate⟩
  else
    match card.default with
    | some config => .ok config
    | none => .error (.noConfig "no default config")

end Card

end Elocution.Output
