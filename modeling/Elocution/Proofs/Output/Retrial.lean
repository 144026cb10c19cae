import Elocution.Proofs.Output.Succession

/-!
# When a device is tried again

A slot leaves a device alone that has just failed to open. It remembers the failure until some
other device is tried: to go back to the device in use for a while does not make it forget.
-/

namespace Elocution.Output

namespace Deed

def tried? : Deed → Option (Option String)
  | .opened device _ => some device
  | .openFailed device => some device
  | _ => none

/-- The devices that were tried, in order, whether they opened or not. -/
def trials (deeds : List Deed) : List (Option String) := deeds.filterMap tried?

end Deed

namespace Slot.Career

variable {outcome missed : Factory Unit} {device : Option String} {rate : Nat} {c d : Career}
  {turns later : List Turn} {found : Career → Prop} {answer : Except OutputFault Bool}

/-- A refresh tries to open the device asked for. -/
def Tries (outcome : Factory Unit) (c : Career) : Prop :=
  Deed.trials (c.refresh outcome).2.deeds = Deed.trials c.deeds ++ [c.slot.requested]

/-- The device is asked for, and a refresh fails to open it. -/
def Misses (outcome : Factory Unit) (device : Option String) (c : Career) : Prop :=
  c.slot.requested = device ∧ ∃ fault, (c.refresh outcome).1 = .error fault

/-- The device itself is asked for, or the one in use. -/
def Wants (device : Option String) (c : Career) : Prop :=
  c.slot.requested = device ∨ c.slot.requested = c.slot.active

/-- The device is not asked for, unless it is in use. -/
def Spares (device : Option String) (c : Career) : Prop :=
  c.slot.requested = device → c.slot.active = device

/-- What each refresh among the turns finds. -/
def Finds (found : Career → Prop) : List Turn → Career → Prop
  | [], _ => True
  | .refresh outcome :: rest, c => found c ∧ Finds found rest (c.take (.refresh outcome))
  | turn :: rest, c => Finds found rest (c.take turn)

theorem perform_concat (turns : List Turn) (turn : Turn) (c : Career) :
    c.perform (turns ++ [turn]) = (c.perform turns).take turn := List.foldl_concat ..

theorem perform_split (before later : List Turn) (turn : Turn) (c : Career) :
    c.perform (before ++ turn :: later) = ((c.perform before).take turn).perform later := by
  simp [perform]

theorem finds_concat_refresh :
    Finds found (turns ++ [.refresh outcome]) c ↔
      Finds found turns c ∧ found (c.perform turns) := by
  induction turns generalizing c with
  | nil => simp [Finds, perform]
  | cons turn rest ih =>
    cases turn with
    | refresh other => simp only [List.cons_append, Finds, ih, perform, List.foldl_cons, and_assoc]
    | request device => exact ih
    | feed => exact ih

theorem finds_concat_of_not_refresh {turn : Turn} (h : ∀ outcome, turn ≠ .refresh outcome) :
    Finds found (turns ++ [turn]) c ↔ Finds found turns c := by
  induction turns generalizing c with
  | nil => cases turn <;> simp_all [Finds]
  | cons first rest ih =>
    cases first with
    | refresh other => simp only [List.cons_append, Finds, ih]
    | request device => exact ih
    | feed => exact ih

/-! ## One refresh -/

theorem Refreshed.trials_eq (h : c.Refreshed answer d) (hs : ¬ c.Settled) :
    Deed.trials d.deeds = Deed.trials c.deeds ++ [c.slot.requested] := by
  cases h with
  | kept hk => exact absurd hk hs
  | missed => simp [Deed.trials, Deed.tried?]
  | switched => simp [Deed.trials, Deed.tried?]

theorem Refreshed.failed_of_error {fault : OutputFault} (h : c.Refreshed (.error fault) d) :
    d.slot.failed = some c.slot.requested := by
  cases h
  rfl

/-- A failure that is remembered is a new one, or one from before that nothing was done about. -/
theorem Refreshed.error_or_wants (h : c.Refreshed answer d) (hf : d.slot.failed = some device) :
    (c.slot.requested = device ∧ ∃ fault, answer = .error fault) ∨
      c.slot.failed = some device ∧ c.Wants device := by
  cases h with
  | kept hs =>
    refine .inr ⟨hf, ?_⟩
    rcases hs with hs | hs
    · exact .inr hs.symm
    · exact .inl (Option.some.inj (hs.symm.trans hf))
  | missed => exact .inl ⟨Option.some.inj hf, _, rfl⟩
  | switched => exact absurd hf (by simp)

theorem Refreshed.failed_ne (h : c.Refreshed answer d) (hr : c.slot.requested ≠ device)
    (ha : c.slot.requested ≠ c.slot.active) : d.slot.failed ≠ some device := by
  intro hf
  rcases h.error_or_wants hf with ⟨hd, -⟩ | ⟨-, hw⟩
  · exact hr hd
  · exact hw.elim hr ha

/-- A refresh remembers no failure of a device that it does not try. -/
theorem failed_ne_of_spares (hs : c.Spares device) (hf : c.slot.failed ≠ some device) :
    (c.refresh outcome).2.slot.failed ≠ some device := by
  by_cases h : c.Settled
  · rwa [h.refresh outcome]
  · have ha : c.slot.requested ≠ c.slot.active := fun ha => h (.inl ha.symm)
    have hr : c.slot.requested ≠ device := fun hr => ha (hr.trans (hs hr).symm)
    exact (refresh_cases outcome c).failed_ne hr ha

theorem Wants.refresh (h : c.Wants device) (hf : c.slot.failed = some device) :
    (c.refresh outcome).2 = c := by
  have hs : c.Settled := by
    rcases h with h | h
    · exact .inr (by rw [hf, h])
    · exact .inl h.symm
  rw [hs.refresh outcome]

theorem tries_iff (h : c.slot.active ≠ c.slot.requested) :
    c.Tries outcome ↔ c.slot.failed ≠ some c.slot.requested := by
  constructor
  · intro ht hf
    have hs : c.Settled := .inr hf
    rw [Tries, hs.refresh outcome] at ht
    simp at ht
  · intro hf
    apply (refresh_cases outcome c).trials_eq
    rintro (ha | hf')
    · exact h ha
    · exact hf hf'

/-! ## Courses of use -/

theorem failed_perform (hf : c.slot.failed = some device) (hw : Finds (Wants device) later c) :
    (c.perform later).slot.failed = some device := by
  induction later generalizing c with
  | nil => exact hf
  | cons turn rest ih =>
    cases turn with
    | refresh outcome =>
      have hkept : c.take (.refresh outcome) = c := hw.1.refresh hf
      refine ih ?_ hw.2
      rwa [hkept]
    | request other => exact ih hf hw
    | feed => exact ih hf hw

theorem failed_perform_ne (hf : c.slot.failed ≠ some device)
    (hs : Finds (Spares device) later c) : (c.perform later).slot.failed ≠ some device := by
  induction later generalizing c with
  | nil => exact hf
  | cons turn rest ih =>
    cases turn with
    | refresh outcome => exact ih (failed_ne_of_spares hs.1 hf) hs.2
    | request other => exact ih hf hs
    | feed => exact ih hf hs

/-- The device failed to open at a refresh, and every refresh since then has found it asked for,
or the device in use. -/
def FailedLast (device : Option String) (turns : List Turn) (c : Career) : Prop :=
  ∃ before missed later, turns = before ++ .refresh missed :: later ∧
    (c.perform before).Misses missed device ∧
    Finds (Wants device) later ((c.perform before).take (.refresh missed))

theorem FailedLast.concat {turn : Turn} (h : FailedLast device turns c)
    (ht : ∀ outcome, turn = .refresh outcome → (c.perform turns).Wants device) :
    FailedLast device (turns ++ [turn]) c := by
  obtain ⟨before, missed, later, rfl, hm, hw⟩ := h
  refine ⟨before, missed, later ++ [turn], by simp, hm, ?_⟩
  rw [perform_split] at ht
  cases turn with
  | refresh outcome => exact finds_concat_refresh.mpr ⟨hw, ht outcome rfl⟩
  | request other => exact (finds_concat_of_not_refresh (by simp)).mpr hw
  | feed => exact (finds_concat_of_not_refresh (by simp)).mpr hw

/-- What is remembered is told by the turns. -/
theorem failed_eq_some_iff (hc : c.slot.failed = none) :
    (c.perform turns).slot.failed = some device ↔ FailedLast device turns c := by
  constructor
  · intro hf
    induction turns using List.reverseRecOn with
    | nil => simp [perform, hc] at hf
    | append_singleton turns turn ih =>
      rw [perform_concat] at hf
      cases turn with
      | refresh outcome =>
        rcases (refresh_cases outcome _).error_or_wants hf with hm | ⟨hkept, hw⟩
        · exact ⟨turns, outcome, [], rfl, hm, trivial⟩
        · exact (ih hkept).concat fun _ _ => hw
      | request other => exact (ih hf).concat (by simp)
      | feed => exact (ih hf).concat (by simp)
  · rintro ⟨before, missed, later, rfl, ⟨rfl, fault, hfault⟩, hw⟩
    rw [perform_split]
    have hr := refresh_cases missed (c.perform before)
    rw [hfault] at hr
    exact failed_perform hr.failed_of_error hw

theorem failed_begin (h : begin? outcome device rate = .ok c) : c.slot.failed = none := by
  rw [eq_of_begin? h]

/-- A device that is asked for and not in use is tried, if some refresh has found another device
asked for that was not in use either, and none since then has found this one. It is left alone
only if it failed to open when it was tried last and every refresh since then has found it asked
for, or the device in use: to go back to the device in use does not count as another request. -/
theorem tried_after_another (h : begin? outcome device rate = .ok c) (turns : List Turn)
    (hd : (c.perform turns).slot.active ≠ (c.perform turns).slot.requested) :
    let d := c.perform turns
    let wanted := d.slot.requested
    (∀ before another later, turns = before ++ .refresh another :: later →
      let e := c.perform before
      e.slot.requested ≠ wanted → e.slot.requested ≠ e.slot.active →
      Finds (Spares wanted) later (e.take (.refresh another)) → ∀ next, d.Tries next) ∧
    ∀ next, d.Tries next ↔ ¬ FailedLast wanted turns c := by
  intro d wanted
  constructor
  · rintro before another later rfl e hr ha hs next
    have hfirst := (refresh_cases another e).failed_ne hr ha
    have hsplit : d = (e.take (.refresh another)).perform later := perform_split ..
    have hlast : d.slot.failed ≠ some wanted := by
      rw [hsplit]
      exact failed_perform_ne hfirst hs
    exact (tries_iff hd).mpr hlast
  · intro next
    rw [tries_iff hd, ne_eq, failed_eq_some_iff (failed_begin h)]

/-- A device that does not open is tried again after another one that does not open either. -/
theorem tried_after_another_hdmi :
    let outcome : Factory Unit := fun device _ =>
      if device = none then .ok () else .error .noDevice
    let first : Career :=
      { slot := { rate := 8000, active := none, output := 0, requested := none }
        deeds := [.opened none 0] }
    let turns := [.request (some "usb"), .refresh outcome, .request (some "hdmi"),
      .refresh outcome, .request none, .refresh outcome, .request (some "usb")]
    let d := first.perform turns
    begin? outcome none 8000 = .ok first ∧ d.slot.active ≠ d.slot.requested ∧
    (∀ next, d.Tries next) ∧ Deed.trials d.deeds = [none, some "usb", some "hdmi"] := by
  intro outcome first turns d
  have hfirst : begin? outcome none 8000 = .ok first := rfl
  have hd : d.slot.active ≠ d.slot.requested := by decide
  refine ⟨hfirst, hd, ?_, by decide⟩
  obtain ⟨htried, -⟩ := tried_after_another hfirst turns hd
  refine htried [.request (some "usb"), .refresh outcome, .request (some "hdmi")] outcome
    [.request none, .refresh outcome, .request (some "usb")] rfl ?_ ?_ ?_
  · decide
  · decide
  · exact ⟨by unfold Spares; decide, trivial⟩

/-- A device that did not open is left alone although the device in use has been asked for since,
at a refresh, and although it would open now. -/
theorem left_alone_after_going_back :
    let outcome : Factory Unit := fun device _ =>
      if device = none then .ok () else .error .noDevice
    let first : Career :=
      { slot := { rate := 8000, active := none, output := 0, requested := none }
        deeds := [.opened none 0] }
    let asked := first.perform [.request (some "usb")]
    let back := (asked.refresh outcome).2.perform [.request none]
    let again := (back.refresh outcome).2.perform [.request (some "usb")]
    begin? outcome none 8000 = .ok first ∧ asked.Misses outcome (some "usb") ∧
    back.slot.requested ≠ some "usb" ∧
    again.slot.requested = some "usb" ∧ again.slot.active ≠ some "usb" ∧
    let opens : Factory Unit := fun _ _ => .ok ()
    again.refresh opens = (.ok false, again) ∧ ¬ again.Tries opens := by
  intro outcome first asked back again
  refine ⟨rfl, ⟨rfl, .noDevice, rfl⟩, by decide, rfl, by decide, rfl, ?_⟩
  unfold Tries
  decide

end Slot.Career

end Elocution.Output
