import Elocution.Proofs.Session.Patience

/-!
# Notifications

What the host is told of a session in which nothing is cancelled and the player is patient. If the
devices take all audio and play it out, it is told of every call in full, one call after the other;
if they fail it may miss markers, but no call is done twice, never, or before its audio has been
handed over. Of a player that is not patient neither is true.
-/

namespace Elocution.Speech.Session

variable {rig : Rig} {s t : Session} {device : Option String} {settings : VoiceSettings}
  {begun : List (VoiceSettings × Saying)} {waiting : List Saying}

/-- At rest jobs flow. -/
theorem Uncut.flowing_of_atRest (h : s.Uncut rig begun waiting) (hr : s.AtRest rig) :
    s.Flowing :=
  anew_of_atRest hr ▸ h.flowing

/-- However the other parties break into the looks of the player, as long as it is patient, nothing
is cancelled and no device fails at audio that it is given, the host is told of the calls in full
and in order, of each its markers and then that it is done. Unless the player is hasty the session
can be gone on with until it is told of all of them. -/
theorem notified_in_order {acts : List Act} (h₀ : start rig device settings = .ok s)
    (hn : rig.NeverEnds) (hd : rig.Faultless) (hr : Run (patientStep? rig) s acts t)
    (ha : ∀ a ∈ acts, a.isCancel = false) :
    (∃ begun, s.Timely rig acts begun ∧ begun.map Prod.snd <+: acts.filterMap Act.saying? ∧
      t.notes <+: rig.notices [] begun ∧
      (t.AtRest rig → begun.map Prod.snd = acts.filterMap Act.saying? ∧
        t.notes = rig.notices [] begun ∧ t.requests = Item.requests (rig.score begun)) ∧
      ∀ x ∈ begun, (∀ run, .text run ∈ x.2.commands → Text.allBlank run = true) →
        ∀ past, rig.callMarkers past x.1 x.2 = x.2.commands.filterMap Command.marker?) ∧
    (t.isHasty = false →
      ∃ more u, Run (patientStep? rig) t more u ∧ (∀ a ∈ more, a.isWork = true) ∧
        u.AtRest rig) := by
  obtain ⟨begun, waiting, h, hall, htimely⟩ := hr.uncut h₀ hn ha
  obtain ⟨hheard, hprompt⟩ := (hr.reports h₀ hn ha).1 hd
  refine ⟨⟨begun, htimely, hall ▸ List.prefix_append .., ?_, fun hrest => ?_,
    fun x _ hblank past => Rig.callMarkers_of_blank past x.1 hblank⟩, h.exists_atRest hn⟩
  · rw [← h.scored.told_append h.delivered, hprompt, List.append_assoc]
    exact List.prefix_append ..
  · have hf := h.flowing_of_atRest hrest
    obtain ⟨rfl, hfull, hrequests⟩ := h.scored.atRest h.delivered hf h.lasts hrest
    obtain ⟨-, -, hp, -⟩ := hf.clear_of_atRest h.lasts hrest
    have hheld : t.held = [] := hheard.held_eq_nil hf.dated h.first (by rw [hp]; rfl)
    refine ⟨by simpa using hall, ?_, hrequests⟩
    rw [← hfull, hprompt, heldMarkers, hheld]
    simp

/-- Two calls of which the second is made before the first has been spoken; the synthesizer breaks
into a look of the player. -/
theorem notified_in_order_queued :
    ∃ (s t : Session) (acts : List Act) (begun : List (VoiceSettings × Saying)),
      start Rig.sample none {} = .ok s ∧ Rig.sample.NeverEnds ∧ Rig.sample.Faultless ∧
      Run (patientStep? Rig.sample) s acts t ∧ (∀ a ∈ acts, a.isCancel = false) ∧
      t.notes = [some 1, none, some 2, none] ∧ t.notes <+: Rig.sample.notices [] begun := by
  let acts : List Act := .call (.speak [.text ['a'], .marker 1] false) ::
    .call (.speak [.marker 2] false) ::
      (List.replicate 8 .synthesize ++ List.replicate 8 .play ++ List.replicate 3 .synthesize ++
        List.replicate 3 .play ++ List.replicate 14 .synthesize ++ List.replicate 18 .play)
  have hr : Run (patientStep? Rig.sample) (initial Rig.sample none {}) acts
      (after (patientStep? Rig.sample) acts (initial Rig.sample none {})) :=
    .after (by decide +kernel)
  have hn : Rig.sample.NeverEnds := Rig.neverEnds_sample
  have hd : Rig.sample.Faultless := ⟨fun _ => rfl, fun _ => rfl⟩
  have ha : ∀ a ∈ acts, a.isCancel = false := by simp [acts, Act.isCancel]
  obtain ⟨⟨begun, -, -, hnotes, -⟩, -⟩ := notified_in_order rfl hn hd hr ha
  exact ⟨_, _, acts, begun, rfl, hn, hd, hr, ha, by decide +kernel, hnotes⟩

/-- The marker of the only call and its end are queued, and all said to be queued, between two steps
of a look. The session comes to rest, and the host has not been told of the marker. -/
theorem notified_short :
    ∃ (s t : Session) (acts : List Act),
      start Rig.sample none {} = .ok s ∧ Rig.sample.NeverEnds ∧ Rig.sample.Faultless ∧
      Run (step? Rig.sample) s acts t ∧ (∀ a ∈ acts, a.isCancel = false) ∧
      acts.filterMap Act.saying? = [⟨[.text ['a'], .marker 1], false⟩] ∧ t.AtRest Rig.sample ∧
      t.notes = [none] ∧
      Rig.sample.notices [] [({}, ⟨[.text ['a'], .marker 1], false⟩)] = [some 1, none] := by
  let acts : List Act := .call (.speak [.text ['a'], .marker 1] false) ::
    (List.replicate 8 .synthesize ++ List.replicate 8 .play ++ List.replicate 7 .synthesize ++
      List.replicate 6 .play)
  let t := after (step? Rig.sample) acts (initial Rig.sample none {})
  have hr : Run (step? Rig.sample) (initial Rig.sample none {}) acts t :=
    .after (by decide +kernel)
  have hrest : t.AtRest Rig.sample := by decide +kernel
  exact ⟨_, t, acts, rfl, Rig.neverEnds_sample, ⟨fun _ => rfl, fun _ => rfl⟩, hr,
    by simp [acts, Act.isCancel], rfl, hrest, by decide +kernel, by decide +kernel⟩

/-- Whatever fails of the output, and however the other parties break into the looks of the player,
if it is patient and nothing is cancelled each call is done once, in order, when all of its audio
has been handed over; and markers are reported in order and at most once. Unless the player is hasty
the session can be gone on with until all calls are done. -/
theorem completed_in_order {acts : List Act} (h₀ : start rig device settings = .ok s)
    (hn : rig.NeverEnds) (hs : rig.sticky = false) (hr : Run (patientStep? rig) s acts t)
    (ha : ∀ a ∈ acts, a.isCancel = false) :
    (∃ begun, s.Timely rig acts begun ∧ begun.map Prod.snd <+: acts.filterMap Act.saying? ∧
      t.done ≤ begun.length ∧
      t.reported.Sublist ((rig.notices [] begun).filterMap id) ∧
      (∀ a u, t.step? rig a = some u → u.done ≠ t.done →
        u.done = t.done + 1 ∧ ∃ before, HandedOver rig begun u.done before t) ∧
      (t.AtRest rig → begun.map Prod.snd = acts.filterMap Act.saying? ∧
        t.done = begun.length)) ∧
    (t.isHasty = false →
      ∃ more u, Run (patientStep? rig) t more u ∧ (∀ a ∈ more, a.isWork = true) ∧
        u.AtRest rig) := by
  obtain ⟨begun, waiting, h, hall, htimely⟩ := hr.uncut h₀ hn ha
  have htold := h.scored.told_append h.delivered
  have hcount : (told t.log t.handed).count none = t.done := count_told
  refine ⟨⟨begun, htimely, hall ▸ List.prefix_append .., ?_, ?_, fun a u hst hne => ?_,
    fun hrest => ?_⟩, h.exists_atRest hn⟩
  · rw [← rig.count_notices [] begun, ← htold, List.count_append, hcount]
    omega
  · have hreported : t.reported.Sublist ((told t.log t.handed).filterMap id) :=
      (List.sublist_append_left ..).trans ((hr.reports h₀ hn ha).2 hs).order
    rw [← htold, List.filterMap_append]
    exact hreported.trans (List.sublist_append_left ..)
  · obtain ⟨hone, -, hover⟩ := h.handedOver (step?_cases hst) hne
    exact ⟨hone, hover⟩
  · have hf := h.flowing_of_atRest hrest
    obtain ⟨rfl, hfull, -⟩ := h.scored.atRest h.delivered hf h.lasts hrest
    refine ⟨by simpa using hall, ?_⟩
    rw [← hcount, hfull, Rig.count_notices]

/-- A rig of which no device can be switched to; the first feed and the first idle fail. -/
def frail : Rig := { Rig.sample with
  factory := fun n _ _ => if n = 0 then .ok () else .error .noDevice
  feedFails := fun n => n == 0
  idleFails := fun n => n == 0 }

/-- A marker is late, and the calls are done all the same; the synthesizer breaks into a look of the
player. -/
theorem completed_in_order_late :
    ∃ (s t : Session) (acts : List Act) (begun : List (VoiceSettings × Saying)),
      start frail none {} = .ok s ∧ frail.NeverEnds ∧ frail.sticky = false ∧
      Run (patientStep? frail) s acts t ∧ (∀ a ∈ acts, a.isCancel = false) ∧
      t.notes = [none, some 1, some 2, none] ∧ t.done ≤ begun.length ∧
      t.reported.Sublist ((frail.notices [] begun).filterMap id) := by
  let acts : List Act := .call (.speak [.text ['a'], .marker 1] false) ::
    .call (.speak [.text ['b'], .marker 2] false) :: .call (.request (some "x")) ::
      (List.replicate 8 .synthesize ++ List.replicate 8 .play ++ List.replicate 3 .synthesize ++
        .play :: List.replicate 19 .synthesize ++ List.replicate 23 .play)
  have hr : Run (patientStep? frail) (initial frail none {}) acts
      (after (patientStep? frail) acts (initial frail none {})) :=
    .after (by decide +kernel)
  have hn : frail.NeverEnds := Rig.neverEnds_sample
  have ha : ∀ a ∈ acts, a.isCancel = false := by simp [acts, Act.isCancel]
  obtain ⟨⟨begun, -, -, hdone, hreported, -⟩, -⟩ := completed_in_order rfl hn rfl hr ha
  exact ⟨_, _, acts, begun, rfl, hn, rfl, hr, ha, by decide +kernel, hdone, hreported⟩

/-- A voice and the end of the only call are queued, and all said to be queued, between two steps of
a look. Nothing fails, and the call is done though its second voice has not been handed over; the
session comes to rest with it in the buffer. -/
theorem completed_early :
    ∃ (s t : Session) (acts : List Act),
      start Rig.sample none {} = .ok s ∧ Rig.sample.NeverEnds ∧ Rig.sample.sticky = false ∧
      Run (step? Rig.sample) s acts t ∧ (∀ a ∈ acts, a.isCancel = false) ∧
      acts.filterMap Act.saying? = [⟨[.text ['a', '.', ' ', 'b']], false⟩] ∧
      t.AtRest Rig.sample ∧ t.done = 1 ∧ t.queued.countP Frame.isVoiced = 2 ∧
      (t.handed.map fun c => c.samples.length) = [20] ∧
      t.frames.pending.countP Frame.isVoiced = 1 := by
  let acts : List Act := .call (.speak [.text ['a', '.', ' ', 'b']] false) ::
    (List.replicate 8 .synthesize ++ List.replicate 8 .play ++ List.replicate 11 .synthesize ++
      List.replicate 7 .play)
  let t := after (step? Rig.sample) acts (initial Rig.sample none {})
  have hr : Run (step? Rig.sample) (initial Rig.sample none {}) acts t :=
    .after (by decide +kernel)
  have hrest : t.AtRest Rig.sample := by decide +kernel
  exact ⟨_, t, acts, rfl, Rig.neverEnds_sample, rfl, hr, by simp [acts, Act.isCancel], rfl, hrest,
    by decide +kernel, by decide +kernel, by decide +kernel, by decide +kernel⟩

end Elocution.Speech.Session
