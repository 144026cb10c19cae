import Elocution.Output.Slot
import Elocution.Proofs.Chronicle

/-!
# The succession of devices

A slot in the course of its use, with the devices that it opens numbered in turn. Each device is
fed from its opening to the opening of the next, and is then stopped once; a device that does not
open changes nothing; and a refresh leaves nothing to do for the next one.
-/

namespace Elocution.Output

/-- What is done to a device; the number tells how many were opened before it. -/
inductive Deed where
  | opened (device : Option String) (number : Nat)
  | openFailed (device : Option String)
  | stopped (device : Option String) (number : Nat)
  | fed (device : Option String) (number : Nat)
deriving DecidableEq, Repr

namespace Deed

def opening? : Deed → Option (Option String × Nat)
  | .opened device number => some (device, number)
  | _ => none

def stop? : Deed → Option (Option String × Nat)
  | .stopped device number => some (device, number)
  | _ => none

/-- The deed of a slot that uses device `old` and opens a device as number `new`. -/
def ofAction (old new : Nat) : SlotAction → Deed
  | .opened device => .opened device new
  | .openFailed device => .openFailed device
  | .stopped device => .stopped device old

/-- The devices opened, in order. -/
def openings (deeds : List Deed) : List (Option String × Nat) := deeds.filterMap opening?

/-- The devices stopped, in order. -/
def stops (deeds : List Deed) : List (Option String × Nat) := deeds.filterMap stop?

/-- A device is stopped as soon as the next one has been opened, and audio goes to the device
opened last. -/
def Fits (before : List Deed) : Deed → Prop
  | .opened _ number => number = (openings before).length
  | .openFailed _ => True
  | .stopped _ number => ∃ successor, before.getLast? = some (.opened successor (number + 1))
  | .fed device number => (openings before).getLast? = some (device, number)

theorem openings_append (deeds more : List Deed) :
    openings (deeds ++ more) = openings deeds ++ openings more :=
  List.filterMap_append

theorem stops_append (deeds more : List Deed) :
    stops (deeds ++ more) = stops deeds ++ stops more :=
  List.filterMap_append

end Deed

namespace Slot

/-- What is done with a slot; a refresh meets with its own outcomes of openings. -/
inductive Turn where
  | request (device : Option String)
  | refresh (outcome : Factory Unit)
  | feed

def Turn.isRequest : Turn → Bool
  | .request _ => true
  | _ => false

/-- Opens every device as number `number`. -/
def numbered (outcome : Factory Unit) (number : Nat) : Factory Nat := fun device rate =>
  (outcome device rate).map fun _ => number

/-- A slot with all that has been done to its devices. -/
structure Career where
  slot : Slot Nat
  deeds : List Deed

namespace Career

def begin? (outcome : Factory Unit) (device : Option String) (rate : Nat) :
    Except OutputFault Career := do
  let slot ← openFirst (numbered outcome 0) device rate
  return { slot, deeds := [.opened device slot.output] }

/-- Refreshes the slot, with its answer. -/
def refresh (outcome : Factory Unit) (c : Career) : Except OutputFault Bool × Career :=
  let number := (Deed.openings c.deeds).length
  let (answer, slot, actions) := c.slot.refresh (numbered outcome number)
  (answer, { slot, deeds := c.deeds ++ actions.map (.ofAction c.slot.output number) })

def take (c : Career) : Turn → Career
  | .request device => { c with slot := c.slot.request device }
  | .refresh outcome => (c.refresh outcome).2
  | .feed => { c with deeds := c.deeds ++ [.fed c.slot.active c.slot.output] }

def perform (turns : List Turn) (c : Career) : Career := turns.foldl take c

/-- What a refresh can do. -/
inductive Refreshed (c : Career) : Except OutputFault Bool → Career → Prop where
  | kept (hs : c.slot.active = c.slot.requested ∨ c.slot.failed = some c.slot.requested) :
    Refreshed c (.ok false) c
  | missed {fault : OutputFault} :
    Refreshed c (.error fault)
      { slot := { c.slot with failed := some c.slot.requested }
        deeds := c.deeds ++ [.openFailed c.slot.requested] }
  | switched :
    Refreshed c (.ok true)
      { slot := { c.slot with
          active := c.slot.requested, output := (Deed.openings c.deeds).length, failed := none }
        deeds := c.deeds ++ [.opened c.slot.requested (Deed.openings c.deeds).length,
          .stopped c.slot.active c.slot.output] }

theorem refresh_cases (outcome : Factory Unit) (c : Career) :
    c.Refreshed (c.refresh outcome).1 (c.refresh outcome).2 := by
  unfold refresh Slot.refresh
  split
  · rename_i hs
    simpa using Refreshed.kept hs
  · cases ho : outcome c.slot.requested c.slot.rate with
    | error fault =>
      simpa [numbered, ho, Except.map, Deed.ofAction] using Refreshed.missed
    | ok _ =>
      simpa [numbered, ho, Except.map, Deed.ofAction] using Refreshed.switched

/-- The device in use is the one opened last, and those before it have been stopped. -/
structure Kept (c : Career) : Prop where
  current : (Deed.openings c.deeds).getLast? = some (c.slot.active, c.slot.output)
  numbers : (Deed.openings c.deeds).map Prod.snd = List.range (Deed.openings c.deeds).length
  replaced : Deed.stops c.deeds = (Deed.openings c.deeds).dropLast
  chronicle : Chronicle Deed.Fits c.deeds

variable {outcome : Factory Unit} {device : Option String} {rate : Nat} {c d : Career}
  {answer : Except OutputFault Bool}

/-- The device in use bears the last number given. -/
theorem Kept.output_succ (h : c.Kept) :
    c.slot.output + 1 = (Deed.openings c.deeds).length := by
  have hlast : ((Deed.openings c.deeds).map Prod.snd).getLast? = some c.slot.output := by
    rw [List.getLast?_map, h.current]
    rfl
  rw [h.numbers, List.getLast?_range] at hlast
  split at hlast
  · simp at hlast
  · have := Option.some.inj hlast
    omega

theorem Kept.openings_eq (h : c.Kept) :
    Deed.openings c.deeds =
      (Deed.openings c.deeds).dropLast ++ [(c.slot.active, c.slot.output)] :=
  (List.dropLast_append_getLast? _ h.current).symm

/-- A career begins with the device that is asked for, numbered 0. -/
theorem eq_of_begin? (h : begin? outcome device rate = .ok c) :
    c = { slot := { rate, active := device, output := 0, requested := device }
          deeds := [.opened device 0] } := by
  unfold begin? openFirst numbered at h
  cases ho : outcome device rate with
  | error fault => simp [ho, Except.map, bind, Except.bind] at h
  | ok _ =>
    simp only [ho, Except.map, bind, Except.bind, pure, Except.pure, Except.ok.injEq] at h
    exact h.symm

theorem kept_begin (h : begin? outcome device rate = .ok c) : c.Kept := by
  rw [eq_of_begin? h]
  exact ⟨rfl, rfl, rfl, Chronicle.concat_iff.mpr ⟨.nil, rfl⟩⟩

/-- A deed that neither opens nor stops a device. -/
theorem Kept.concat {deed : Deed} {slot : Slot Nat} (h : c.Kept) (ha : slot.active = c.slot.active)
    (ho : slot.output = c.slot.output) (hopen : deed.opening? = none) (hstop : deed.stop? = none)
    (hf : Deed.Fits c.deeds deed) : Kept { slot, deeds := c.deeds ++ [deed] } := by
  have hopenings : Deed.openings (c.deeds ++ [deed]) = Deed.openings c.deeds := by
    simp [Deed.openings, hopen]
  have hstops : Deed.stops (c.deeds ++ [deed]) = Deed.stops c.deeds := by
    simp [Deed.stops, hstop]
  refine ⟨?_, ?_, ?_, Chronicle.concat_iff.mpr ⟨h.chronicle, hf⟩⟩
  · rw [hopenings, h.current, ha, ho]
  · rw [hopenings, h.numbers]
  · rw [hopenings, hstops, h.replaced]

/-- The device in use gives way to one that has just been opened. -/
theorem Kept.switch (h : c.Kept) (requested : Option String) (failed : Option (Option String)) :
    Kept {
      slot := { c.slot with
        active := requested, output := (Deed.openings c.deeds).length, failed }
      deeds := c.deeds ++ [.opened requested (Deed.openings c.deeds).length,
        .stopped c.slot.active c.slot.output] } := by
  have hopenings : Deed.openings (c.deeds ++ [.opened requested (Deed.openings c.deeds).length,
        .stopped c.slot.active c.slot.output]) =
      Deed.openings c.deeds ++ [(requested, (Deed.openings c.deeds).length)] := by
    rw [Deed.openings_append]
    rfl
  refine ⟨?_, ?_, ?_, ?_⟩
  · rw [hopenings, List.getLast?_concat]
  · rw [hopenings, List.map_append, h.numbers, List.length_append, List.length_singleton,
      List.range_succ]
    rfl
  · rw [hopenings, List.dropLast_concat, Deed.stops_append, h.replaced]
    exact h.openings_eq.symm
  · rw [List.append_cons]
    refine Chronicle.concat_iff.mpr ⟨Chronicle.concat_iff.mpr ⟨h.chronicle, rfl⟩, requested, ?_⟩
    rw [List.getLast?_concat, h.output_succ]

theorem Kept.refresh (h : c.Kept) (hr : c.Refreshed answer d) : d.Kept := by
  cases hr with
  | kept => exact h
  | missed => exact h.concat rfl rfl rfl rfl trivial
  | switched => exact h.switch ..

theorem Kept.take (h : c.Kept) (turn : Turn) : (c.take turn).Kept := by
  cases turn with
  | request device => exact ⟨h.current, h.numbers, h.replaced, h.chronicle⟩
  | refresh outcome => exact h.refresh (refresh_cases outcome c)
  | feed => exact h.concat rfl rfl rfl rfl h.current

theorem Kept.perform (h : c.Kept) (turns : List Turn) : (c.perform turns).Kept := by
  induction turns generalizing c with
  | nil => exact h
  | cons turn turns ih => exact ih (h.take turn)

/-- Nothing is to be done for the device asked for: it is in use, or has just failed to open. -/
def Settled (c : Career) : Prop :=
  c.slot.active = c.slot.requested ∨ c.slot.failed = some c.slot.requested

theorem Refreshed.settled (h : c.Refreshed answer d) : d.Settled := by
  cases h with
  | kept hs => exact hs
  | missed => exact .inr rfl
  | switched => exact .inl rfl

theorem Settled.refresh (h : c.Settled) (outcome : Factory Unit) :
    c.refresh outcome = (.ok false, c) := by
  have hs : c.slot.refresh (numbered outcome (Deed.openings c.deeds).length) =
      (.ok false, c.slot, []) := if_pos h
  simp [Career.refresh, hs]

theorem Settled.perform (h : c.Settled) {turns : List Turn}
    (hq : ∀ turn ∈ turns, turn.isRequest = false) : (c.perform turns).Settled := by
  induction turns generalizing c with
  | nil => exact h
  | cons turn turns ih =>
    refine ih ?_ fun other ho => hq other (List.mem_cons_of_mem _ ho)
    cases turn with
    | request device => simpa [Turn.isRequest] using hq _ List.mem_cons_self
    | refresh outcome =>
      simp only [take, h.refresh outcome]
      exact h
    | feed => exact h

/-- A refresh answers that it has switched if there is another device in use after it. -/
theorem Kept.switched_iff (h : c.Kept) (hr : c.Refreshed answer d) :
    answer = .ok true ↔ d.slot.output ≠ c.slot.output := by
  cases hr with
  | kept => simp
  | missed => simp
  | switched =>
    have := h.output_succ
    simp only [true_iff]
    omega

theorem Refreshed.of_error {fault : OutputFault} (h : c.Refreshed (.error fault) d) :
    d.slot.active = c.slot.active ∧ d.slot.output = c.slot.output ∧
      d.deeds = c.deeds ++ [.openFailed c.slot.requested] := by
  cases h
  exact ⟨rfl, rfl, rfl⟩

/-- However a slot is used, the device in use is the one opened last, all others have been
stopped once and in turn, each right after the opening of the next, and audio goes to the device
opened last. A refresh that fails leaves the device in use, one that succeeds tells whether it
has switched, and after it no refresh does anything until another request. -/
theorem perform_succession (h : begin? outcome device rate = .ok c) (turns : List Turn) :
    let d := c.perform turns
    (Deed.openings d.deeds).getLast? = some (d.slot.active, d.slot.output) ∧
    (Deed.openings d.deeds).map Prod.snd = List.range (Deed.openings d.deeds).length ∧
    Deed.stops d.deeds = (Deed.openings d.deeds).dropLast ∧
    Chronicle Deed.Fits d.deeds ∧
    ∀ outcome, let (answer, e) := d.refresh outcome
      (∀ fault, answer = .error fault → e.slot.active = d.slot.active ∧
        e.slot.output = d.slot.output ∧ e.deeds = d.deeds ++ [.openFailed d.slot.requested]) ∧
      (answer = .ok true ↔ e.slot.output ≠ d.slot.output) ∧
      ∀ later : List Turn, (∀ turn ∈ later, turn.isRequest = false) →
        ∀ outcome, (e.perform later).refresh outcome = (.ok false, e.perform later) := by
  have hk : (c.perform turns).Kept := (kept_begin h).perform turns
  refine ⟨hk.current, hk.numbers, hk.replaced, hk.chronicle, fun outcome => ?_⟩
  have hr := refresh_cases outcome (c.perform turns)
  refine ⟨fun fault hf => Refreshed.of_error (hf ▸ hr), hk.switched_iff hr, ?_⟩
  intro later hq outcome'
  exact (hr.settled.perform hq).refresh outcome'

/-- A device that does not open, and then one that does. -/
theorem perform_succession_usb :
    let outcome : Factory Unit := fun device _ =>
      if device = some "broken" then .error .noDevice else .ok ()
    let first : Career :=
      { slot := { rate := 8000, active := none, output := 0, requested := none }
        deeds := [.opened none 0] }
    let d := first.perform [.feed, .request (some "broken"), .refresh outcome, .feed,
      .request (some "usb"), .refresh outcome, .feed]
    begin? outcome none 8000 = .ok first ∧
    d.deeds = [.opened none 0, .fed none 0, .openFailed (some "broken"), .fed none 0,
      .opened (some "usb") 1, .stopped none 0, .fed (some "usb") 1] ∧
    Deed.stops d.deeds = (Deed.openings d.deeds).dropLast := by
  intro outcome first d
  have hfirst : begin? outcome none 8000 = .ok first := rfl
  exact ⟨hfirst, by decide, (perform_succession hfirst _).2.2.1⟩

end Career

end Slot

end Elocution.Output
