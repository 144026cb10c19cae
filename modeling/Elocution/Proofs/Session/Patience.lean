import Elocution.Proofs.Session.Handover
import Elocution.Proofs.Session.Looking

/-!
# Looks that are broken into

Any party may act while the player looks at the queue. What the player makes of its look then has
to hold of the queue as it has become: a chunk that it has rendered is out of the queue, and when
it waits for more it will look again. Only a player that ends its job because all is said to be
queued relies on a look that is over. Apart from that step a session goes on, however its parties
take turns, as if the player had not begun to look.
-/

namespace Elocution.Speech

namespace Session

def isTesting (s : Session) : Bool :=
  match s.player with
  | .testing _ => true
  | _ => false

/-- The player has found nothing to render, and is about to end its job because all is said to be
queued by now. -/
def isHasty (s : Session) : Bool := s.isTesting && s.allQueued

/-- A step other than that of a player which ends its job because all is said to be queued. -/
def patientStep? (rig : Rig) (a : Act) (s : Session) : Option Session :=
  if a.isPlay && s.isHasty then none else s.step? rig a

variable {rig : Rig} {s t : Session} {a : Act} {stamp : Stamp}

theorem step?_of_patientStep? (h : s.patientStep? rig a = some t) : s.step? rig a = some t := by
  unfold patientStep? at h
  split at h
  · cases h
  · exact h

theorem patientStep?_of_not_isHasty (h : s.isHasty = false) :
    s.patientStep? rig a = s.step? rig a := by
  simp [patientStep?, h]

/-- A player that is not hasty and has found nothing to render waits for more. -/
theorem play?_of_not_isHasty (h : s.isHasty = false) (hp : s.player = .testing stamp) :
    s.play? rig = some { s with player := .polling stamp } := by
  have hq : s.allQueued = false := by simpa [isHasty, isTesting, hp] using h
  simp [play?, hp, hq]

/-- A patient player that has found nothing to render waits for more. -/
theorem await_of_patientStep? (h : s.patientStep? rig .play = some t)
    (hp : s.player = .testing stamp) : t = { s with player := .polling stamp } := by
  have hq : s.isHasty = false := by
    by_contra hq
    simp [patientStep?, Act.isPlay, hq] at h
  rw [patientStep?_of_not_isHasty hq] at h
  exact Option.some.inj (h.symm.trans (play?_of_not_isHasty hq hp))

/-- A session in which jobs flow is patient. -/
theorem Flowing.not_isHasty (h : s.Flowing) : s.isHasty = false := by
  cases hp : s.player with
  | testing stamp => simp [isHasty, h.not_allQueued hp]
  | _ => simp [isHasty, isTesting, hp]

variable {device : Option String} {settings : VoiceSettings}
  {begun : List (VoiceSettings × Saying)} {waiting : List Saying}

theorem delivered_anew : s.anew.Delivered ↔ s.Delivered := by
  have hturn : s.player.anew.turn = s.player.turn := by cases s.player <;> rfl
  have hcarries : s.player.anew.carries = s.player.carries := by cases s.player <;> rfl
  constructor
  · rintro ⟨hfeeds, hmarks, hsamples, hbuffer, hparted⟩
    simp only [Session.anew, turned, hturn, hcarries] at hfeeds hmarks hsamples hbuffer hparted
    exact ⟨hfeeds, hmarks, hsamples, hbuffer, hparted⟩
  · rintro ⟨hfeeds, hmarks, hsamples, hbuffer, hparted⟩
    rw [← hturn] at hmarks hparted
    rw [← hcarries] at hsamples
    exact ⟨hfeeds, hmarks, hsamples, hbuffer, hparted⟩

theorem scored_anew : s.anew.Scored rig begun waiting ↔ s.Scored rig begun waiting :=
  ⟨fun ⟨hj, hr, hm⟩ => ⟨hj, hr, hm⟩, fun ⟨hj, hr, hm⟩ => ⟨hj, hr, hm⟩⟩

/-- Some calls have been begun and the others wait, and no utterance has been cut short: all that
has been queued is delivered, and jobs flow if the player is taken to look anew. -/
structure Uncut (rig : Rig) (begun : List (VoiceSettings × Saying)) (waiting : List Saying)
    (s : Session) : Prop where
  flowing : s.anew.Flowing
  lasts : s.Open
  delivered : s.Delivered
  scored : s.Scored rig begun waiting
  first : s.generation = 0

theorem Uncut.of_anew_eq (h : s.Uncut rig begun waiting) (he : t.anew = s.anew) :
    t.Uncut rig begun waiting := by
  refine ⟨he ▸ h.flowing, ?_, ?_, ?_, ?_⟩
  · exact isOpen_anew.mp (he ▸ isOpen_anew.mpr h.lasts)
  · exact delivered_anew.mp (he ▸ delivered_anew.mpr h.delivered)
  · exact scored_anew.mp (he ▸ scored_anew.mpr h.scored)
  · exact (congrArg Session.generation he).trans h.first

/-- Of a step that does not break into a look all is kept. It makes a call, begins one that waits,
or does neither. -/
theorem Uncut.advance (h : s.Uncut rig begun waiting) (hf : s.Flowing) (hn : rig.NeverEnds)
    (hlook : a ≠ .play → s.isLooking = false) (hst : Step rig s a t) (ha : a.isCancel = false) :
    t.Uncut rig begun (waiting ++ a.saying?.toList) ∨
      a.saying? = none ∧
        ∃ x rest, waiting = x :: rest ∧ t.Uncut rig (begun ++ [(s.settings, x)]) rest := by
  obtain ⟨-, ho, hd, hs, hz⟩ := h
  have hflowing : t.anew.Flowing := (hf.advance ho hn hlook hst ha).anew
  have hopen : t.Open := ho.step hst (isTerminate_of_isCancel ha)
  have hdelivered : t.Delivered := hd.step hf ho hz hst ha
  have hfirst : t.generation = 0 := (generation_of_step hf.host hst).trans hz
  rcases hs.step hf ho hz hst ha with hs' | ⟨hno, x, rest, hx, hs'⟩
  · exact .inl ⟨hflowing, hopen, hdelivered, hs', hfirst⟩
  · exact .inr ⟨hno, x, rest, hx, hflowing, hopen, hdelivered, hs', hfirst⟩

section Looking

variable {stamp : Stamp}

/-- A player that looks anew looks for a job of the only generation. -/
theorem Uncut.checking (h : s.Uncut rig begun waiting) (hp : s.player.anew = .checking stamp) :
    Flowing { s with player := .checking stamp } ∧ s.generation = stamp := by
  have hf := h.flowing
  rw [anew, hp] at hf
  exact ⟨hf, hf.stamp_of_zero h.first rfl⟩

/-- A player that has made sure of its job may render. -/
theorem Uncut.flowing_of_rendering (h : s.Uncut rig begun waiting)
    (hp : s.player = .rendering stamp) : s.Flowing :=
  h.flowing.rendering hp (h.checking (by rw [hp]; rfl)).2

/-- A hasty player would leave the end of its job in the buffer. -/
theorem Uncut.ends_pos (h : s.Uncut rig begun waiting) (hh : s.isHasty = true) :
    0 < s.frames.ends := by
  simp only [isHasty, isTesting, Bool.and_eq_true] at hh
  obtain ⟨hlook, hq⟩ := hh
  cases hp : s.player with
  | testing stamp =>
    obtain ⟨hf, hstamp⟩ := h.checking (by rw [hp]; rfl)
    have howes : (Player.checking stamp).owes s.generation = 1 :=
      Player.owes_of_stamp (by rw [hstamp]; rfl)
    have hopens := hf.opens_le_owes hq
    have hbalance := hf.balance
    simp only [owed, unended, howes, Player.past] at hbalance hopens
    omega
  | _ => simp [hp] at hlook

end Looking

/-- Other parties may break into a look, as long as the player is patient: a step is one of a
session in which jobs flow and which differs at most in how far the player has looked, or it makes a
difference to that alone. -/
theorem Uncut.step_cases (h : s.Uncut rig begun waiting) (hst : s.patientStep? rig a = some t) :
    a.saying? = none ∧ t.anew = s.anew ∨
      ∃ s' t', s'.anew = s.anew ∧ t'.anew = t.anew ∧ s'.Flowing ∧
        (a ≠ .play → s'.isLooking = false) ∧ Step rig s' a t' := by
  have hstep := step?_cases (step?_of_patientStep? hst)
  by_cases hl : s.isLooking = false
  · exact .inr ⟨s, t, rfl, rfl, h.flowing.of_anew hl, fun _ => hl, hstep⟩
  by_cases hplay : a = .play
  · subst hplay
    cases hp : s.player with
    | rendering stamp =>
      exact .inr ⟨s, t, rfl, rfl, h.flowing_of_rendering hp, fun hne => absurd rfl hne, hstep⟩
    | testing stamp =>
      obtain rfl := await_of_patientStep? hst hp
      exact .inl ⟨rfl, anew_turned (by rw [hp]; rfl)⟩
    | _ => simp [isLooking, hp] at hl
  · -- The player is taken to look anew, and the step does not break into that.
    have hexpire : a ≠ .expire := by
      rintro rfl
      cases hstep with
      | expire hp => simp [isLooking, hp] at hl
    have hanew := step?_anew (step?_of_patientStep? hst) hplay hexpire
    exact .inr ⟨s.anew, t.anew, s.anew_anew, t.anew_anew, h.flowing,
      fun _ => isLooking_anew s, step?_cases hanew⟩

theorem Uncut.step (h : s.Uncut rig begun waiting) (hn : rig.NeverEnds)
    (hst : s.patientStep? rig a = some t) (ha : a.isCancel = false) :
    t.Uncut rig begun (waiting ++ a.saying?.toList) ∨
      a.saying? = none ∧
        ∃ x rest, waiting = x :: rest ∧ t.Uncut rig (begun ++ [(s.settings, x)]) rest := by
  obtain ⟨hno, hsame⟩ | ⟨s', t', hs, ht, hf, hlook, hstep⟩ := h.step_cases hst
  · left
    simpa [hno] using h.of_anew_eq hsame
  · have hsettings : s'.anew.settings = s.anew.settings := congrArg Session.settings hs
    rcases (h.of_anew_eq hs).advance hf hn hlook hstep ha with h' | ⟨hno, x, rest, hx, h'⟩
    · exact .inl (h'.of_anew_eq ht.symm)
    · exact .inr ⟨hno, x, rest, hx, hsettings ▸ h'.of_anew_eq ht.symm⟩

/-- What does not depend on how far the player has looked is kept by patient steps, if it is kept
where jobs flow. -/
theorem Uncut.preserves {P : Session → Prop} (h : s.Uncut rig begun waiting)
    (hst : s.patientStep? rig a = some t) (hs : P s) (hlook : ∀ u, P u.anew ↔ P u)
    (hstep : ∀ u v, u.Uncut rig begun waiting → u.Flowing → Step rig u a v → P u → P v) : P t := by
  obtain ⟨-, hsame⟩ | ⟨s', t', hs', ht, hf, -, hst'⟩ := h.step_cases hst
  · exact (hlook t).mp (hsame ▸ (hlook s).mpr hs)
  · have hsame : P s' := (hlook s').mp (hs' ▸ (hlook s).mpr hs)
    have hnext : P t' := hstep s' t' (h.of_anew_eq hs') hf hst' hsame
    exact (hlook t).mp (ht ▸ (hlook t').mpr hnext)

theorem heard_anew (s : Session) : s.anew.Heard ↔ s.Heard := by
  have htaken : s.player.anew.taken? = s.player.taken? := by cases s.player <;> rfl
  have hsettled : s.player.anew.isSettled = s.player.isSettled := by cases s.player <;> rfl
  constructor
  · rintro ⟨hheld, hshelved⟩
    simp only [Session.anew, turned, htaken, hsettled] at hheld
    exact ⟨hheld, hshelved⟩
  · rintro ⟨hheld, hshelved⟩
    rw [← htaken, ← hsettled] at hheld
    exact ⟨hheld, hshelved⟩

/-- Devices that take all audio have reported all that has been handed over, but for the calls that
they hold. -/
theorem Uncut.heard_step (h : s.Uncut rig begun waiting) (hless : rig.Faultless)
    (hst : s.patientStep? rig a = some t) (ha : a.isCancel = false) (hs : s.Heard ∧ s.Prompt) :
    t.Heard ∧ t.Prompt := by
  refine h.preserves (P := fun u => u.Heard ∧ u.Prompt) hst hs (fun u => ?_) ?_
  · exact and_congr_left' (heard_anew u)
  · rintro u v ⟨-, ho, hd, -, hz⟩ hf hstep ⟨hheard, hprompt⟩
    exact ⟨hheard.step hf ho hless hstep ha, hprompt.step hd hf hheard hz hless hstep ha⟩

theorem Uncut.orderly_step (h : s.Uncut rig begun waiting) (hsticky : rig.sticky = false)
    (hst : s.patientStep? rig a = some t) (ha : a.isCancel = false) (hs : s.Orderly) :
    t.Orderly := by
  refine h.preserves hst hs (fun u => ⟨fun ⟨ho, hh⟩ => ⟨ho, hh⟩, fun ⟨ho, hh⟩ => ⟨ho, hh⟩⟩) ?_
  rintro u v ⟨-, -, hd, -, hz⟩ hf hstep horderly
  exact horderly.step hd hf hz hsticky hstep ha

theorem uncut_start (h : start rig device settings = .ok s) : s.Uncut rig [] [] := by
  refine ⟨(flowing_start h).anew, isOpen_start h, (delivered_start h).1, scored_start h, ?_⟩
  obtain ⟨-, rfl⟩ := start_eq h
  rfl

/-- When a call is reported as done, the frames up to its end have been handed over. -/
theorem Uncut.handedOver (h : s.Uncut rig begun waiting) (hst : Step rig s a t)
    (hne : t.done ≠ s.done) :
    t.done = s.done + 1 ∧ t.done ≤ begun.length ∧
      ∃ before, HandedOver rig begun t.done before s := by
  obtain ⟨hone, hp⟩ := completing_of_done_ne hst hne
  have hf : s.Flowing := h.flowing.of_anew (by simp [isLooking, hp])
  obtain ⟨hlt, hover⟩ := h.scored.handedOver h.delivered hf h.first hp
  rw [hone]
  exact ⟨rfl, hlt, hover⟩

section Runs

variable {acts : List Act}

theorem Run.of_patient (hr : Run (patientStep? rig) s acts t) : Run (step? rig) s acts t :=
  hr.mono fun _ _ _ => step?_of_patientStep?

/-- As long as the player is patient and nothing is cancelled no utterance is cut short, and the
calls are begun in the order in which they were made. -/
theorem Run.uncut (hr : Run (patientStep? rig) s acts t) (h₀ : start rig device settings = .ok s)
    (hn : rig.NeverEnds) (ha : ∀ a ∈ acts, a.isCancel = false) :
    ∃ begun waiting, t.Uncut rig begun waiting ∧
      begun.map Prod.snd ++ waiting = acts.filterMap Act.saying? ∧ s.Timely rig acts begun := by
  induction hr with
  | refl => exact ⟨[], [], uncut_start h₀, rfl, by simp [Timely]⟩
  | @tail t u acts a hr hst ih =>
    obtain ⟨begun, waiting, h, hall, htimely⟩ := ih fun b hb => ha b (by simp [hb])
    have hlast : (acts ++ [a]).filterMap Act.saying? =
        acts.filterMap Act.saying? ++ a.saying?.toList := by
      cases hx : a.saying? <;> simp [hx]
    rw [hlast]
    rcases h.step hn hst (ha a (by simp)) with h' | ⟨hno, x, rest, rfl, h'⟩
    · exact ⟨begun, _, h', by rw [← List.append_assoc, hall], htimely.append⟩
    · exact ⟨_, rest, h', by simpa [hno] using hall, htimely.concat hr.of_patient hall⟩

/-- In such a run devices that take all audio report promptly, and devices that make no call after
they have been stopped report in order. -/
theorem Run.reports (hr : Run (patientStep? rig) s acts t) (h₀ : start rig device settings = .ok s)
    (hn : rig.NeverEnds) (ha : ∀ a ∈ acts, a.isCancel = false) :
    (rig.Faultless → t.Heard ∧ t.Prompt) ∧ (rig.sticky = false → t.Orderly) := by
  induction hr with
  | refl =>
    obtain ⟨-, hprompt, horderly⟩ := delivered_start h₀
    exact ⟨fun _ => ⟨(cancelled_start h₀).heard, hprompt⟩, fun _ => horderly⟩
  | @tail t u acts a hr hst ih =>
    have hacts (b : Act) (hb : b ∈ acts) : b.isCancel = false := ha b (by simp [hb])
    obtain ⟨hheard, horderly⟩ := ih hacts
    obtain ⟨begun, waiting, h, -⟩ := hr.uncut h₀ hn hacts
    have hcancel := ha a (by simp)
    exact ⟨fun hless => h.heard_step hless hst hcancel (hheard hless),
      fun hsticky => h.orderly_step hsticky hst hcancel (horderly hsticky)⟩

/-- Where jobs flow a whole run is patient. -/
theorem Run.patient_of_whole (hr : Run (wholeStep? rig) s acts t) (hf : s.Flowing) (ho : s.Open)
    (hn : rig.NeverEnds) (ha : ∀ a ∈ acts, a.isCancel = false) :
    Run (patientStep? rig) s acts t :=
  hr.steps_of_whole hf ho hn ha fun hflow hst =>
    (patientStep?_of_not_isHasty hflow.not_isHasty).trans hst

/-- Unless the player is hasty, the session can be gone on with until nothing is left to do. -/
theorem Uncut.exists_atRest (h : s.Uncut rig begun waiting) (hn : rig.NeverEnds)
    (hh : s.isHasty = false) :
    ∃ more u, Run (patientStep? rig) s more u ∧ (∀ a ∈ more, a.isWork = true) ∧ u.AtRest rig := by
  have hfinish {u : Session} (hf : u.Flowing) (ho : u.Open) :
      ∃ more v, Run (patientStep? rig) u more v ∧ (∀ a ∈ more, a.isWork = true) ∧
        v.AtRest rig := by
    obtain ⟨more, hrun, hwork⟩ := finish_run rig u
    exact ⟨more, _, hrun.patient_of_whole hf ho hn fun a ha => isCancel_of_isWork (hwork a ha),
      hwork, atRest_finish hf ho hn⟩
  cases hp : s.player with
  | rendering stamp => exact hfinish (h.flowing_of_rendering hp) h.lasts
  | testing stamp =>
    have hwait : Uncut rig begun waiting { s with player := .polling stamp } :=
      h.of_anew_eq (anew_turned (by rw [hp]; rfl))
    obtain ⟨more, u, hrun, hwork, hrest⟩ := hfinish (hwait.flowing.of_anew rfl) hwait.lasts
    have hstep : s.patientStep? rig .play = some { s with player := .polling stamp } :=
      (patientStep?_of_not_isHasty hh).trans (play?_of_not_isHasty hh hp)
    exact ⟨[.play] ++ more, u, (Run.head hstep).trans hrun, by simpa [Act.isWork] using hwork,
      hrest⟩
  | _ => exact hfinish (h.flowing.of_anew (by simp [isLooking, hp])) h.lasts

end Runs

/-- The ends that have been queued are those of the calls that have been handed over and those that
are in the buffer. -/
theorem HandedOver.count_ends {k : Nat} {before : List Frame}
    (h : HandedOver rig begun k before s) (hk : k ≤ begun.length) :
    (s.queued.flatMap Frame.marks).count none =
      k + (s.frames.pending.flatMap Frame.marks).count none := by
  rw [h.queued, List.flatMap_append, List.count_append, h.calls, Rig.count_notices,
    List.length_take, Nat.min_eq_left hk]

/-- However the other parties break into the looks of the player, as long as it is patient a call
is reported as done when all that was queued for it has been handed over and nothing of a later
one. A player that is hasty would leave the end of a call in the buffer. -/
theorem not_cut_short {acts : List Act} (h₀ : start rig device settings = .ok s)
    (hn : rig.NeverEnds) (hr : Run (patientStep? rig) s acts t)
    (ha : ∀ a ∈ acts, a.isCancel = false) :
    ∃ begun, s.Timely rig acts begun ∧ begun.map Prod.snd <+: acts.filterMap Act.saying? ∧
      (∀ a u, t.step? rig a = some u → u.done ≠ t.done →
        u.done = t.done + 1 ∧ u.done ≤ begun.length ∧
          ∃ before, HandedOver rig begun u.done before t) ∧
      (t.isHasty = true → 0 < t.frames.ends) := by
  obtain ⟨begun, waiting, h, hall, htimely⟩ := hr.uncut h₀ hn ha
  refine ⟨begun, htimely, hall ▸ List.prefix_append .., fun a u hst hne => ?_, h.ends_pos⟩
  exact h.handedOver (step?_cases hst) hne

/-- The synthesizer breaks into two looks of the player. -/
theorem not_cut_short_broken_into :
    ∃ (s t u : Session) (acts : List Act) (begun : List (VoiceSettings × Saying))
      (before : List Frame),
      start Rig.sample none {} = .ok s ∧ Rig.sample.NeverEnds ∧
      Run (patientStep? Rig.sample) s acts t ∧ (∀ a ∈ acts, a.isCancel = false) ∧
      t.step? Rig.sample .play = some u ∧ u.notes = [some 1, none] ∧
      HandedOver Rig.sample begun u.done before t := by
  let acts : List Act := .call (.speak [.text ['a'], .marker 1] false) ::
    (List.replicate 8 .synthesize ++ List.replicate 8 .play ++ List.replicate 3 .synthesize ++
      List.replicate 3 .play ++ List.replicate 4 .synthesize ++ List.replicate 5 .play)
  let t := after (patientStep? Rig.sample) acts (initial Rig.sample none {})
  have hr : Run (patientStep? Rig.sample) (initial Rig.sample none {}) acts t :=
    .after (by decide +kernel)
  have hn : Rig.sample.NeverEnds := Rig.neverEnds_sample
  have ha : ∀ a ∈ acts, a.isCancel = false := by simp [acts, Act.isCancel]
  have hst : t.step? Rig.sample .play = some (t.after (step? Rig.sample) [.play]) :=
    eq_some_after (by decide +kernel)
  obtain ⟨begun, -, -, hdone, -⟩ := not_cut_short rfl hn hr ha
  obtain ⟨-, -, before, hover⟩ := hdone .play _ hst (by decide +kernel)
  exact ⟨_, t, _, acts, begun, before, rfl, hn, hr, ha, hst, by decide +kernel, hover⟩

/-- The end of the only call is queued, and all said to be queued, between two steps of a look. The
player takes the call for done, though its marker is in the buffer. -/
theorem cut_short :
    ∃ (s t u : Session) (acts : List Act),
      start Rig.sample none {} = .ok s ∧ Rig.sample.NeverEnds ∧
      Run (step? Rig.sample) s acts t ∧ (∀ a ∈ acts, a.isCancel = false) ∧
      t.step? Rig.sample .play = some u ∧ u.done = t.done + 1 ∧ t.frames.markers = [1] ∧
      ∀ begun before, u.done ≤ begun.length → ¬ HandedOver Rig.sample begun u.done before t := by
  let acts : List Act := .call (.speak [.text ['a'], .marker 1] false) ::
    (List.replicate 8 .synthesize ++ List.replicate 8 .play ++ List.replicate 5 .synthesize ++
      List.replicate 3 .play)
  let t := after (step? Rig.sample) acts (initial Rig.sample none {})
  let u := t.after (step? Rig.sample) [.play]
  have hr : Run (step? Rig.sample) (initial Rig.sample none {}) acts t :=
    .after (by decide +kernel)
  have ha : ∀ a ∈ acts, a.isCancel = false := by simp [acts, Act.isCancel]
  have hst : t.step? Rig.sample .play = some u := eq_some_after (by decide +kernel)
  have hdone : u.done = 1 := by decide +kernel
  have hqueued : (t.queued.flatMap Frame.marks).count none = 1 := by decide +kernel
  have hpending : (t.frames.pending.flatMap Frame.marks).count none = 1 := by decide +kernel
  refine ⟨_, t, u, acts, rfl, Rig.neverEnds_sample, hr, ha, hst, by decide +kernel,
    by decide +kernel, fun begun before hle hover => ?_⟩
  -- One end has been queued, and it is in the buffer.
  have hends := hover.count_ends hle
  rw [hqueued, hpending, hdone] at hends
  cases hends

end Session

end Elocution.Speech
