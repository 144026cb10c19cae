import Elocution.Error

/-!
# The output slot

The device in use and the device asked for. A switch happens on refresh: the new device is
opened first, then the old one is stopped. The device that failed to open last is left alone until
a device has been opened.
-/

namespace Elocution.Output

/-- What was done to a device; no name stands for the default device. -/
inductive SlotAction where
  | opened (device : Option String)
  | openFailed (device : Option String)
  | stopped (device : Option String)
deriving DecidableEq, Repr

/-- Opens a device at a sample rate. -/
abbrev Factory (δ : Type) := Option String → Nat → Except OutputFault δ

structure Slot (δ : Type) where
  rate : Nat
  active : Option String
  output : δ
  requested : Option String
  /-- The device that failed to open last, if none has been opened since. -/
  failed : Option (Option String) := none

namespace Slot

variable {δ : Type}

def openFirst (factory : Factory δ) (device : Option String) (rate : Nat) :
    Except OutputFault (Slot δ) := do
  let output ← factory device rate
  return { rate, active := device, output, requested := device }

def request (device : Option String) (s : Slot δ) : Slot δ := { s with requested := device }

/-- Switches to the device asked for, if that is not the device in use and has not just
failed. Answers whether a switch took place, and what was done. -/
def refresh (factory : Factory δ) (s : Slot δ) :
    Except OutputFault Bool × Slot δ × List SlotAction :=
  if s.active = s.requested ∨ s.failed = some s.requested then (.ok false, s, [])
  else
    match factory s.requested s.rate with
    | .error fault =>
      (.error fault, { s with failed := some s.requested }, [.openFailed s.requested])
    | .ok output =>
      (.ok true, { s with active := s.requested, output, failed := none },
        [.opened s.requested, .stopped s.active])

theorem output_refresh {P : δ → Prop} {factory : Factory δ} {s : Slot δ} (hs : P s.output)
    (hf : ∀ name rate output, factory name rate = .ok output → P output) :
    P (s.refresh factory).2.1.output := by
  unfold refresh
  split
  · exact hs
  · split
    · exact hs
    · rename_i h
      exact hf _ _ _ h

end Slot

end Elocution.Output
