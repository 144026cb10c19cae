import Elocution.Proofs.Session.Handover
import Elocution.Proofs.Session.Likeness

/-!
# One session follows another

What one of two sessions that are alike does, the other can do as well, the host making the same
calls of both. The player may need other steps for it: a session that has a history may hear of jobs
that are done, and a signal that more frames are ready may come to the one and not to the other.
-/

namespace Elocution.Speech

/-- A step of the player or of a device. -/
def Act.isPlayback : Act → Bool
  | .play | .expire | .sound | .callBack _ => true
  | _ => false

theorem Act.call?_of_isPlayback {a : Act} (h : a.isPlayback = true) : a.call? = none := by
  cases a <;> first | rfl | exact absurd h (by rintro ⟨⟩)

namespace Session

/-- Jobs flow, and no call of an earlier job passes for one of the job at hand. -/
structure Unbroken (s : Session) : Prop where
  flowing : s.Flowing
  lasts : s.Open
  heard : s.Heard

/-- The session gets to another by playback alone. -/
def Reaches (rig : Rig) (s t : Session) : Prop :=
  ∃ acts, Run (wholeStep? rig) s acts t ∧ ∀ a ∈ acts, a.isPlayback = true

variable {same : Prop} {rig : Rig} {r₀ f₀ r f s t : Session} {past other : List Request}

theorem Unbroken.run {acts : List Act} (h : s.Unbroken) (hn : rig.NeverEnds)
    (hless : rig.Faultless) (hr : Run (wholeStep? rig) s acts t)
    (ha : ∀ a ∈ acts, a.isCancel = false) : t.Unbroken ∧ t.generation = s.generation := by
  induction hr with
  | refl => exact ⟨h, rfl⟩
  | @tail t u acts a hrun hst ih =>
    have hacts (b : Act) (hb : b ∈ acts) : b.isCancel = false := ha b (by simp [hb])
    have hcancel := ha a (by simp)
    obtain ⟨⟨hf, ho, hh⟩, hg⟩ := ih hacts
    have hstep := step?_cases (step?_of_wholeStep? hst)
    refine ⟨⟨(hrun.tail hst).flowing h.flowing h.lasts hn ha |>.1,
      ho.step hstep (isTerminate_of_isCancel hcancel), hh.step hf ho hless hstep hcancel⟩, ?_⟩
    exact ((hrun.tail hst).flowing h.flowing h.lasts hn ha).2.1

theorem Reaches.refl (s : Session) : s.Reaches rig s := ⟨[], .refl s, by simp⟩

theorem Reaches.trans {u : Session} (h : s.Reaches rig t) (h' : t.Reaches rig u) :
    s.Reaches rig u := by
  obtain ⟨acts, hr, ha⟩ := h
  obtain ⟨more, hr', hm⟩ := h'
  exact ⟨acts ++ more, hr.trans hr', fun a hb => (List.mem_append.mp hb).elim (ha a) (hm a)⟩

theorem Reaches.of_step {a : Act} (h : s.wholeStep? rig a = some t) (ha : a.isPlayback = true) :
    s.Reaches rig t :=
  ⟨[a], .head h, List.forall_mem_singleton.mpr ha⟩

theorem Reaches.of_play (h : s.play? rig = some t) : s.Reaches rig t :=
  .of_step ((wholeStep?_play s).trans h) rfl

theorem Reaches.of_sound (hl : s.isLooking = false) (hg : s.isGated = false) {c : Call}
    {rest : List Call} (hc : s.held = c :: rest) : s.Reaches rig s.makeCall := by
  have hstep : s.wholeStep? rig .sound = some s.makeCall := by
    rw [wholeStep?_of_not_isLooking hl]
    simp [step?, sound?, hc, hg]
  exact .of_step hstep rfl

theorem sound?_eq (h : s.sound? = some t) :
    ∃ c rest, s.held = c :: rest ∧ t = s.makeCall := by
  unfold sound? at h
  split at h
  · simp at h
  · rename_i hheld
    cases hc : s.held with
    | nil => simp [hc] at hheld
    | cons c rest => exact ⟨c, rest, rfl, (Option.some.inj h).symm⟩

theorem not_isLooking {a : Act} (h : s.wholeStep? rig a = some t) (ha : a ≠ .play) :
    s.isLooking = false := by
  by_contra hl
  exact ha (isPlay_of_isLooking h (by simpa using hl))

/-- Playback leaves the synthesizer where it is. -/
theorem synthesizer_of_isPlayback {a : Act} (h : Step rig s a t) (ha : a.isPlayback = true) :
    t.synthesizer = s.synthesizer := by
  cases h with
  | play hp => cases hp <;> rfl
  | expire => rfl
  | sound => rfl
  | callBack => rfl
  | _ => exact absurd ha (by rintro ⟨⟩)

theorem Reaches.synthesizer_eq (h : s.Reaches rig t) : t.synthesizer = s.synthesizer := by
  obtain ⟨acts, hr, ha⟩ := h
  induction hr with
  | refl => rfl
  | tail _ hst ih =>
    have hstep := step?_cases (step?_of_wholeStep? hst)
    exact (synthesizer_of_isPlayback hstep (ha _ (by simp))).trans
      (ih fun b hb => ha b (by simp [hb]))

section Signals

variable {x : Signal} {rest : List Signal}

theorem Takes.announced {ds ss : List Signal} (h : s.Takes x ds ss) :
    s.announced = x.announced?.toList ++ (ds ++ ss).filterMap Signal.announced? := by
  have hall : s.deferred ++ s.signals = x :: (ds ++ ss) := by
    rcases h with ⟨hd, hs⟩ | ⟨hd, rfl, hs⟩ <;> simp [hd, hs]
  rw [Session.announced, hall]
  cases x <;> rfl

variable (rig) in
theorem play?_of_waiting (hp : s.player = .waiting) (hx : s.deferred ++ s.signals = x :: rest) :
    ∃ ds ss, ds ++ ss = rest ∧
      s.play? rig = some ({ s with deferred := ds, signals := ss }.receive x) := by
  unfold play?
  rw [hp]
  cases hd : s.deferred with
  | nil =>
    rw [hd, List.nil_append] at hx
    exact ⟨[], rest, rfl, by simp only [hx]⟩
  | cons y ds =>
    rw [hd, List.cons_append] at hx
    obtain ⟨rfl, rfl⟩ := List.cons.inj hx
    exact ⟨ds, s.signals, rfl, rfl⟩

theorem mem_announced {y : Stamp} :
    y ∈ s.announced ↔ .play y ∈ s.deferred ++ s.signals := by
  rw [announced, List.mem_filterMap]
  constructor
  · rintro ⟨x, hx, hy⟩
    cases x with
    | play stamp =>
      obtain rfl := Option.some.inj hy
      exact hx
    | _ => exact absurd hy (by rintro ⟨⟩)
  · exact fun hy => ⟨.play y, hy, rfl⟩

variable (rig) in
/-- A player that waits disregards what comes before the next job that is announced. -/
theorem reaches_announcement (hp : s.player = .waiting)
    (hs : .shutdown ∉ s.deferred ++ s.signals) :
    ∃ ds ss, s.Reaches rig { s with deferred := ds, signals := ss } ∧
      (ds ++ ss).filterMap Signal.announced? = s.announced ∧
      (ds ++ ss).head? = s.announced.head?.map Signal.play := by
  generalize hall : s.deferred ++ s.signals = all at hs
  induction all generalizing s with
  | nil => exact ⟨s.deferred, s.signals, .refl s, rfl, by simp [announced, hall]⟩
  | cons x rest ih =>
    cases x with
    | play stamp =>
      exact ⟨s.deferred, s.signals, .refl s, rfl, by simp [announced, hall]⟩
    | shutdown => simp at hs
    | framesReady =>
      obtain ⟨ds, ss, hrest, hplay⟩ := play?_of_waiting rig hp hall
      obtain ⟨ds', ss', hreach, hannounced, hhead⟩ := ih (s := { s with
        deferred := ds, signals := ss }) hp hrest (fun hm => hs (List.mem_cons_of_mem _ hm))
      have heq : announced { s with deferred := ds, signals := ss } = s.announced := by
        change (ds ++ ss).filterMap _ = (s.deferred ++ s.signals).filterMap _
        rw [hrest, hall]
        rfl
      rw [heq] at hannounced hhead
      exact ⟨ds', ss', (Reaches.of_play hplay).trans hreach, hannounced, hhead⟩

variable (rig) in
/-- A player that waits turns to the next job that is announced. -/
theorem reaches_starting {y : Stamp} {later : List Stamp} (hp : s.player = .waiting)
    (hs : .shutdown ∉ s.deferred ++ s.signals) (ha : s.announced = y :: later) :
    ∃ ds ss, s.Reaches rig { s with deferred := ds, signals := ss, player := .starting y } ∧
      (ds ++ ss).filterMap Signal.announced? = later := by
  obtain ⟨ds, ss, hreach, hannounced, hhead⟩ := reaches_announcement rig hp hs
  rw [ha] at hannounced hhead
  obtain ⟨rest, hrest⟩ : ∃ rest, ds ++ ss = .play y :: rest := List.head?_eq_some_iff.mp hhead
  obtain ⟨ds', ss', heq, hplay⟩ := play?_of_waiting rig (s := { s with
    deferred := ds, signals := ss }) hp hrest
  refine ⟨ds', ss', hreach.trans (.of_play hplay), ?_⟩
  rw [heq]
  rw [hrest] at hannounced
  exact (List.cons.inj hannounced).2

theorem reaches_of_expire {y : Stamp} (hp : s.player = .polling y) :
    s.Reaches rig { s with player := .checking y } := by
  have hlook : s.isLooking = false := by simp [isLooking, hp]
  have hstep : s.wholeStep? rig .expire = some { s with player := .checking y } := by
    rw [wholeStep?_of_not_isLooking hlook]
    simp only [step?, expire?, hp]
  exact .of_step hstep rfl

variable (rig) in
/-- A player that awaits more frames looks again, and puts off what is announced. -/
theorem reaches_checking {y : Stamp} (hp : s.player = .polling y)
    (hs : .shutdown ∉ s.deferred ++ s.signals) :
    ∃ ds ss, s.Reaches rig { s with deferred := ds, signals := ss, player := .checking y } ∧
      (ds ++ ss).filterMap Signal.announced? = s.announced := by
  cases hx : s.signals with
  | nil => exact ⟨s.deferred, s.signals, reaches_of_expire hp, rfl⟩
  | cons x rest =>
    cases x with
    | play stamp =>
      have hplay : s.play? rig = some { s with
          deferred := s.deferred ++ [.play stamp], signals := rest, player := .checking y } := by
        simp only [play?, hp, hx, poll]
      exact ⟨s.deferred ++ [.play stamp], rest, .of_play hplay, by simp [announced, hx]⟩
    | framesReady =>
      have hplay : s.play? rig = some { s with signals := rest, player := .checking y } := by
        simp only [play?, hp, hx, poll]
      exact ⟨s.deferred, rest, .of_play hplay, by simp [announced, hx, List.filterMap_cons]⟩
    | shutdown => simp [hx] at hs

theorem checking_of_polling (ho : s.Open) {x : Stamp} (hp : s.player = .polling x)
    (ht : s.play? rig = some t) :
    ∃ ds ss, t = { s with deferred := ds, signals := ss, player := .checking x } ∧
      (ds ++ ss).filterMap Signal.announced? = s.announced := by
  cases play?_cases ht with
  | putOff hp' hs =>
    obtain rfl := Player.polling.inj (hp.symm.trans hp')
    exact ⟨_, _, rfl, by simp [Session.announced, hs]⟩
  | lookAgain hp' hs =>
    obtain rfl := Player.polling.inj (hp.symm.trans hp')
    exact ⟨_, _, rfl, by simp [Session.announced, hs, List.filterMap_cons]⟩
  | quit _ hs => exact absurd (by simp [hs]) ho.signals
  | _ => simp_all [Player.hears]

end Signals

namespace Alike

theorem sound (h : Alike same r₀ f₀ past r f) (hl : f.isLooking = false)
    (ht : r.sound? = some t) : ∃ f', f.Reaches rig f' ∧ Alike same r₀ f₀ past t f' := by
  obtain ⟨c, rest, hc, rfl⟩ := sound?_eq ht
  rcases h.held_cons hc with ⟨hlate, hrest⟩ | ⟨d, more, hd, heq, hrest⟩
  · exact ⟨f, .refl f, h.makeCall_late hc hlate hrest⟩
  · exact ⟨f.makeCall, .of_sound hl h.isGated_eq.2 hd, h.makeCall hc hd heq hrest⟩

theorem sound_back (h : Alike same r₀ f₀ past r f) (hs : r.Stamped (r₀.generation ≤ ·))
    (hl : r.isLooking = false) (ht : f.sound? = some t) :
    ∃ r', r.Reaches rig r' ∧ Alike same r₀ f₀ past r' t := by
  obtain ⟨d, more, hd, rfl⟩ := sound?_eq ht
  cases hc : r.held with
  | nil => simp [h.held_eq_nil hc] at hd
  | cons c rest =>
    rcases h.held_cons hc with ⟨hlate, -⟩ | ⟨d, more, hd, heq, hrest⟩
    · exact absurd (hs.held c (by simp [hc])) (Nat.not_le_of_lt hlate)
    · exact ⟨r.makeCall, .of_sound hl h.isGated_eq.1 hc, h.makeCall hc hd heq hrest⟩

theorem look_again (h : Alike same r₀ f₀ past r f) {x : Stamp} {ds ss ds' ss' : List Signal}
    (hr : (ds ++ ss).filterMap Signal.announced? = r.announced)
    (hf : (ds' ++ ss').filterMap Signal.announced? = f.announced) :
    Alike same r₀ f₀ past
      { r with deferred := ds, signals := ss, player := .checking (x + r₀.generation) }
      { f with deferred := ds', signals := ss', player := .checking x } := by
  have hannounced := h.announced
  rw [← hr, ← hf] at hannounced
  exact { h with announced := hannounced, player := .checking x }

theorem play_waiting (h : Alike same r₀ f₀ past r f) (ho : r.Open) (hf : f.Open)
    (hp : r.player = .waiting) (hw : f.player = .waiting) (ht : r.play? rig = some t) :
    ∃ f', f.Reaches rig f' ∧ Alike same r₀ f₀ past t f' := by
  cases play?_cases ht with
  | @turnTo x ds ss _ hx =>
    rcases h.announced_cons hx.announced with ⟨hlate, hrest⟩ | ⟨y, later, hy, rfl, hrest⟩
    · refine ⟨f, .refl f, { h with announced := hrest, player := ?_ }⟩
      rw [hw]
      exact .late rfl hlate (by simp) (by simp)
    · obtain ⟨ds', ss', hreach, rfl⟩ := reaches_starting rig hw hf.signals hy
      exact ⟨_, hreach, { h with announced := hrest, player := .starting y }⟩
  | disregard _ hx =>
    have hannounced := h.announced
    rw [hx.announced] at hannounced
    exact ⟨f, .refl f, { h with announced := hannounced }⟩
  | leave _ hx => exact absurd (hx.mem_iff.mpr (.inl rfl)) ho.signals
  | _ => simp_all [Player.hears]

theorem play_waiting_back (h : Alike same r₀ f₀ past r f)
    (hs : r.Stamped (r₀.generation ≤ ·)) (ho : r.Open) (hf : f.Open) (hp : r.player = .waiting)
    (hw : f.player = .waiting) (ht : f.play? rig = some t) :
    ∃ r', r.Reaches rig r' ∧ Alike same r₀ f₀ past r' t := by
  cases play?_cases ht with
  | @turnTo x ds ss _ hx =>
    have hannounced := h.announced
    rw [hx.announced] at hannounced
    cases hy : r.announced with
    | nil => simp [hy] at hannounced
    | cons y later =>
      rcases h.announced_cons hy with ⟨hlate, -⟩ | ⟨x', later', hx', rfl, hrest⟩
      · have hmem : y ∈ r.announced := by simp [hy]
        exact absurd (hs.signals y (mem_announced.mp hmem)) (Nat.not_le_of_lt hlate)
      · obtain ⟨rfl, rfl⟩ := List.cons.inj (hx'.symm.trans hx.announced)
        obtain ⟨ds', ss', hreach, rfl⟩ := reaches_starting rig hp ho.signals hy
        exact ⟨_, hreach, { h with announced := hrest, player := .starting x' }⟩
  | disregard _ hx =>
    have hannounced := h.announced
    rw [hx.announced] at hannounced
    exact ⟨r, .refl r, { h with announced := hannounced }⟩
  | leave _ hx => exact absurd (hx.mem_iff.mpr (.inl rfl)) hf.signals
  | _ => simp_all [Player.hears]

/-- What the player does in the later session, it does in the other. -/
theorem play (h : Alike same r₀ f₀ past r f) (hless : rig.Faultless) (hr : r.Unbroken)
    (hf : f.Unbroken) (hz : f.generation = 0) (ht : r.play? rig = some t) :
    ∃ f', f.Reaches rig f' ∧ Alike same r₀ f₀ past t f' := by
  have hsettled (hp : f.player.isSettled = true) : f.held = [] :=
    hf.heard.held_eq_nil hf.flowing.dated hz hp
  have hplayer := h.player
  by_cases hw : f.player = .waiting
  · rw [hw] at hplayer
    generalize hp : r.player = p at hplayer
    cases hplayer with
    | @late _ x hs hx hrender htest =>
      exact ⟨f, .refl f, h.play_late hr.lasts hw (hsettled (by rw [hw]; rfl)) (hp ▸ hs) hx
        (hp ▸ hrender) (hp ▸ htest) (play?_cases ht)⟩
    | waiting => exact h.play_waiting hr.lasts hf.lasts hp hw ht
  by_cases hx : ∃ x, f.player = .polling x
  · obtain ⟨x, hx⟩ := hx
    rw [hx] at hplayer
    generalize hp : r.player = p at hplayer
    cases hplayer
    obtain ⟨ds, ss, rfl, hds⟩ := checking_of_polling hr.lasts hp ht
    obtain ⟨ds', ss', hreach, hds'⟩ := reaches_checking rig hx hf.lasts.signals
    exact ⟨_, hreach, h.look_again hds hds'⟩
  rcases h.play_at hless (h.allQueued_eq hr.flowing hf.flowing)
    (fun x hx => hsettled (by rw [hx]; rfl)) hw (fun x hp => hx ⟨x, hp⟩) with
    ⟨c, rest, -, -, hcall, hlike⟩ | hrel
  · obtain rfl := Option.some.inj (ht.symm.trans hcall)
    exact ⟨f, .refl f, hlike⟩
  · rw [ht] at hrel
    generalize ho : f.play? rig = o at hrel
    cases hrel with
    | some hlike => exact ⟨_, .of_play ho, hlike⟩

/-- What the player does in the other session, it does in the later one, if nothing of earlier jobs
is left there. -/
theorem play_back (h : Alike same r₀ f₀ past r f) (hs : r.Stamped (r₀.generation ≤ ·))
    (hless : rig.Faultless) (hr : r.Unbroken) (hf : f.Unbroken) (hz : f.generation = 0)
    (ht : f.play? rig = some t) : ∃ r', r.Reaches rig r' ∧ Alike same r₀ f₀ past r' t := by
  have hsettled (hp : f.player.isSettled = true) : f.held = [] :=
    hf.heard.held_eq_nil hf.flowing.dated hz hp
  have hplayer := h.player
  by_cases hw : f.player = .waiting
  · rw [hw] at hplayer
    generalize hp : r.player = p at hplayer
    cases hplayer with
    | @late _ x hstamp hx =>
      exact absurd (hs.player x (hp ▸ hstamp)) (Nat.not_le_of_lt hx)
    | waiting => exact h.play_waiting_back hs hr.lasts hf.lasts hp hw ht
  by_cases hx : ∃ x, f.player = .polling x
  · obtain ⟨x, hx⟩ := hx
    rw [hx] at hplayer
    generalize hp : r.player = p at hplayer
    cases hplayer
    obtain ⟨ds, ss, rfl, hds⟩ := checking_of_polling hf.lasts hx ht
    obtain ⟨ds', ss', hreach, hds'⟩ := reaches_checking rig hp hr.lasts.signals
    exact ⟨_, hreach, h.look_again hds' hds⟩
  rcases h.play_at hless (h.allQueued_eq hr.flowing hf.flowing)
    (fun x hx => hsettled (by rw [hx]; rfl)) hw (fun x hp => hx ⟨x, hp⟩) with
    ⟨c, rest, hc, hlate, -⟩ | hrel
  · exact absurd (hs.held c (by simp [hc])) (Nat.not_le_of_lt hlate)
  · rw [ht] at hrel
    generalize ho : r.play? rig = o at hrel
    cases hrel with
    | some hlike => exact ⟨_, .of_play ho, hlike⟩

theorem expire (h : Alike same r₀ f₀ past r f) (ht : r.expire? = some t) :
    ∃ f', f.Reaches rig f' ∧ Alike same r₀ f₀ past t f' := by
  have hplayer := h.player
  unfold expire? at ht
  split at ht
  · rename_i stamp hp
    obtain rfl := Option.some.inj ht
    rw [hp] at hplayer
    generalize hpf : f.player = p at hplayer
    cases hplayer with
    | late hs hx =>
      refine ⟨f, .refl f, { h with player := ?_ }⟩
      rw [hpf]
      exact .late hs hx (by simp) (by simp)
    | polling x => exact ⟨_, reaches_of_expire hpf, { h with player := .checking x }⟩
  · simp at ht

/-- Playback of the later session goes on in the other. -/
theorem playback (h : Alike same r₀ f₀ past r f) (hless : rig.Faultless) (hr : r.Unbroken)
    (hf : f.Unbroken) (hz : f.generation = 0) {a : Act} (ha : a.isPlayback = true)
    (ht : r.wholeStep? rig a = some t) :
    ∃ f', f.Reaches rig f' ∧ Alike same r₀ f₀ past t f' := by
  cases a with
  | play => exact h.play hless hr hf hz ((wholeStep?_play r).symm.trans ht)
  | expire => exact h.expire (step?_of_wholeStep? ht)
  | sound =>
    exact h.sound (h.isLooking_eq.symm.trans (not_isLooking ht (by simp))) (step?_of_wholeStep? ht)
  | callBack i => exact ⟨f, .refl f, h.callBack (step?_of_wholeStep? ht)⟩
  | _ => exact absurd ha (by rintro ⟨⟩)

/-- Playback of the other session goes on in the later one, if nothing of earlier jobs is left
there. -/
theorem playback_back (h : Alike same r₀ f₀ past r f) (hs : r.Stamped (r₀.generation ≤ ·))
    (hless : rig.Faultless) (hr : r.Unbroken) (hf : f.Unbroken) (hz : f.generation = 0) {a : Act}
    (ha : a.isPlayback = true) (ht : f.wholeStep? rig a = some t) :
    ∃ r', r.Reaches rig r' ∧ Alike same r₀ f₀ past r' t := by
  cases a with
  | play => exact h.play_back hs hless hr hf hz ((wholeStep?_play f).symm.trans ht)
  | expire =>
    cases step?_cases (step?_of_wholeStep? ht) with
    | @expire x hp =>
      have hplayer := h.player
      rw [hp] at hplayer
      generalize hpr : r.player = p at hplayer
      cases hplayer
      exact ⟨_, reaches_of_expire hpr, { h with player := .checking x }⟩
  | sound =>
    exact h.sound_back hs (h.isLooking_eq.trans (not_isLooking ht (by simp)))
      (step?_of_wholeStep? ht)
  | callBack i =>
    have hnone := step?_of_wholeStep? ht
    simp [step?, callBack?, h.shelved.2] at hnone
  | _ => exact absurd ha (by rintro ⟨⟩)

end Alike

theorem wholeStep?_onward {a : Act} (ha : a ≠ .synthesize) (s : Session) :
    s.wholeStep? (rig.onward past) a = s.wholeStep? rig a := by
  cases a <;> first | rfl | exact absurd rfl ha

/-- Playback is the same whatever the engine. -/
theorem Reaches.run (h : s.Reaches rig t) :
    ∃ acts, (∀ past, Run (wholeStep? (rig.onward past)) s acts t) ∧
      ∀ a ∈ acts, a.isPlayback = true := by
  obtain ⟨acts, hr, ha⟩ := h
  refine ⟨acts, fun past => ?_, ha⟩
  induction hr with
  | refl => exact .refl _
  | @tail t u acts a _ hst ih =>
    have hplayback := ha a (by simp)
    refine .tail (ih fun b hb => ha b (by simp [hb])) ((wholeStep?_onward ?_ t).trans hst)
    rintro rfl
    exact absurd hplayback (by rintro ⟨⟩)

theorem filterMap_call?_of_isPlayback {acts : List Act} (h : ∀ a ∈ acts, a.isPlayback = true) :
    acts.filterMap Act.call? = [] :=
  List.filterMap_eq_nil_iff.mpr fun a ha => Act.call?_of_isPlayback (h a ha)

theorem filterMap_call?_singleton (a : Act) : [a].filterMap Act.call? = a.call?.toList := by
  cases a <;> rfl

theorem neverEnds_onward (hn : rig.NeverEnds) (past : List Request) :
    (rig.onward past).NeverEnds :=
  fun more q frames he => hn (past ++ more) q frames he

theorem faultless_onward (hless : rig.Faultless) (past : List Request) :
    (rig.onward past).Faultless :=
  ⟨hless.feeds, hless.idles⟩

/-- The synthesizers are at the same job, which has a later stamp in `r`. -/
def InStep (g : Stamp) (r f : Session) : Prop := r.synthesizer = f.synthesizer.shift g

/-- By these calls of the host the session `f` gets to where it is like `t`, as `r` has got there.
The synthesizer of the later session may have to make more requests at an earlier job first; before
that the engine has no say in what the other does. -/
def Follows (rig : Rig) (same : Prop) (r₀ f₀ : Session) (past : List Request) (r f : Session)
    (calls : List HostCall) (t : Session) : Prop :=
  ∃ more acts f', (InStep r₀.generation r f → more = [] ∧ InStep r₀.generation t f') ∧
    (∀ later, (InStep r₀.generation t f' → later = []) →
      Run (wholeStep? (rig.onward (past ++ more ++ later))) f acts f') ∧
    acts.filterMap Act.call? = calls ∧ Alike same r₀ f₀ (past ++ more) t f'

section Runs

variable {acts : List Act}

/-- No stamp goes below one that the generation has passed. -/
theorem Run.stamped_ge {g : Stamp} (h : Run (step? rig) s acts t) (hs : s.Stamped (g ≤ ·))
    (hg : g ≤ s.generation) : t.Stamped (g ≤ ·) := by
  induction h with
  | refl => exact hs
  | tail hr ha ih => exact ih.step (step?_cases ha) fun _ => hg.trans hr.generation_le

theorem isCancel_of_filterMap {more : List Act}
    (h : more.filterMap Act.call? = acts.filterMap Act.call?)
    (ha : ∀ a ∈ acts, a.isCancel = false) : ∀ a ∈ more, a.isCancel = false := by
  intro a hm
  cases a with
  | call c =>
    have hcall : c ∈ acts.filterMap Act.call? := by
      rw [← h]
      exact List.mem_filterMap.mpr ⟨_, hm, rfl⟩
    obtain ⟨b, hb, hc⟩ := List.mem_filterMap.mp hcall
    cases b with
    | call d =>
      obtain rfl := Option.some.inj hc
      exact ha _ hb
    | _ => exact absurd hc (by rintro ⟨⟩)
  | _ => rfl

theorem Alike.follows_synthesize (h : Alike same r₀ f₀ past r f) (hr : r.Flowing)
    (hz : f.generation = 0) (hl : f.isLooking = false) (ht : r.synthesize? rig = some t) :
    Follows rig same r₀ f₀ past r f [] t := by
  by_cases hab : InStep r₀.generation r f
  · have hrel := Abreast.synthesize rig ⟨h, hab⟩
    rw [ht] at hrel
    generalize ho : f.synthesize? (rig.onward past) = o at hrel
    cases hrel with
    | @some _ f' hlike =>
      refine ⟨[], [.synthesize], f', fun _ => ⟨rfl, hlike.abreast⟩, fun later hlater => ?_, rfl, ?_⟩
      · rw [hlater hlike.abreast, List.append_nil, List.append_nil]
        exact .head ((wholeStep?_of_not_isLooking hl).trans ho)
      · rw [List.append_nil]
        exact hlike.toAlike
  · obtain ⟨hidle, hq, hspent⟩ := h.synthesizer.resolve_left hab
    have hi : r.synthesizer ≠ .idle := fun hi => hab (by rw [InStep, hi, hidle]; rfl)
    obtain ⟨more, hlike⟩ := h.synthesize_spent hr hz hidle hq hspent hi (synthesize?_cases ht)
    exact ⟨more, [], f, fun hin => absurd hin hab, fun _ _ => .refl f, rfl, hlike⟩

/-- What the later session does in a step the other does as well. -/
theorem Alike.follows_step (h : Alike same r₀ f₀ past r f) (hless : rig.Faultless)
    (hr : r.Unbroken) (hf : f.Unbroken) (hz : f.generation = 0) {a : Act}
    (ha : a.isCancel = false) (ht : r.wholeStep? rig a = some t) :
    Follows rig same r₀ f₀ past r f a.call?.toList t := by
  have hplayback (ha : a.isPlayback = true) :
      Follows rig same r₀ f₀ past r f a.call?.toList t := by
    obtain ⟨f', hreach, hlike⟩ := h.playback hless hr hf hz ha ht
    obtain ⟨acts, hrun, hacts⟩ := hreach.run
    refine ⟨[], acts, f', fun hin => ⟨rfl, ?_⟩, fun _ _ => hrun _, ?_, ?_⟩
    · rw [InStep, synthesizer_of_isPlayback (step?_cases (step?_of_wholeStep? ht)) ha,
        hreach.synthesizer_eq]
      exact hin
    · rw [filterMap_call?_of_isPlayback hacts, Act.call?_of_isPlayback ha]
      rfl
    · rwa [List.append_nil]
  cases a with
  | call c =>
    have hl : f.isLooking = false := h.isLooking_eq.symm.trans (not_isLooking ht (by simp))
    have hrel := h.call rig ha
    have hc : r.call? rig c = some t := step?_of_wholeStep? ht
    rw [hc] at hrel
    generalize ho : f.call? rig c = o at hrel
    cases hrel with
    | @some _ f' hlike =>
      obtain ⟨hlike, hsr, hsf⟩ := hlike
      refine ⟨[], [.call c], f', fun hin => ⟨rfl, ?_⟩, fun later _ => .head ?_, rfl, ?_⟩
      · rw [InStep, hsr, hsf]
        exact hin
      · exact (wholeStep?_onward (by simp) f).trans ((wholeStep?_of_not_isLooking hl).trans ho)
      · rwa [List.append_nil]
  | proceed =>
    have hnone := step?_of_wholeStep? ht
    simp [step?, proceed?, h.host.1] at hnone
  | synthesize =>
    exact h.follows_synthesize hr.flowing hz
      (h.isLooking_eq.symm.trans (not_isLooking ht (by simp))) (step?_of_wholeStep? ht)
  | _ => exact hplayback rfl

theorem Alike.follows_refl (h : Alike same r₀ f₀ past r f) :
    Follows rig same r₀ f₀ past r f [] r :=
  ⟨[], [], f, fun hin => ⟨rfl, hin⟩, fun _ _ => .refl f, rfl, by rwa [List.append_nil]⟩

/-- What is done after other things is done from where these have led. -/
theorem Follows.trans {acts : List Act} {more : List HostCall} {u : Session}
    (h : Follows rig same r₀ f₀ past r f (acts.filterMap Act.call?) t) (hn : rig.NeverEnds)
    (hless : rig.Faultless) (hf : f.Unbroken) (hz : f.generation = 0)
    (ha : ∀ a ∈ acts, a.isCancel = false)
    (h' : ∀ past' f', f'.Unbroken → f'.generation = 0 → Alike same r₀ f₀ past' t f' →
      Follows rig same r₀ f₀ past' t f' more u) :
    Follows rig same r₀ f₀ past r f (acts.filterMap Act.call? ++ more) u := by
  obtain ⟨asked, early, f', hin, hrun, hcalls, hlike⟩ := h
  obtain ⟨hf', hg⟩ := hf.run (neverEnds_onward hn _) (faultless_onward hless _)
    (hrun [] fun _ => rfl) (isCancel_of_filterMap hcalls ha)
  obtain ⟨asked', late, f'', hin', hrun', hcalls', hlike'⟩ := h' _ f' hf' (hg.trans hz) hlike
  refine ⟨asked ++ asked', early ++ late, f'', fun h₀ => ?_, fun later hlater => ?_, ?_, ?_⟩
  · obtain ⟨rfl, h₁⟩ := hin h₀
    obtain ⟨rfl, h₂⟩ := hin' h₁
    exact ⟨rfl, h₂⟩
  · have hlast := hrun' later hlater
    have hfirst := hrun (asked' ++ later) fun h₁ => by
      obtain ⟨rfl, h₂⟩ := hin' h₁
      rw [hlater h₂]
      rfl
    simp only [List.append_assoc] at hfirst hlast ⊢
    exact hfirst.trans hlast
  · rw [List.filterMap_append, hcalls, hcalls']
  · rwa [← List.append_assoc]

/-- Whatever the later session does, the other can do as well. -/
theorem Alike.follows (h : Alike same r₀ f₀ past r f) (hn : rig.NeverEnds)
    (hless : rig.Faultless) (hr : r.Unbroken) (hf : f.Unbroken) (hz : f.generation = 0)
    (hrun : Run (wholeStep? rig) r acts t) (ha : ∀ a ∈ acts, a.isCancel = false) :
    Follows rig same r₀ f₀ past r f (acts.filterMap Act.call?) t := by
  induction hrun with
  | refl => exact h.follows_refl
  | @tail t u acts a hrun hst ih =>
    have hacts (b : Act) (hb : b ∈ acts) : b.isCancel = false := ha b (by simp [hb])
    obtain ⟨ht, -⟩ := hr.run hn hless hrun hacts
    rw [List.filterMap_append, filterMap_call?_singleton]
    exact (ih hacts).trans hn hless hf hz hacts fun past' f' hf' hz' hlike =>
      hlike.follows_step hless ht hf' hz' (ha a (by simp)) hst

/-- What the other session does in a step the later one does as well, if nothing of earlier jobs is
left there. -/
theorem Alike.leads_step (h : Alike same r₀ f₀ past r f) (hin : InStep r₀.generation r f)
    (hs : r.Stamped (r₀.generation ≤ ·)) (hless : rig.Faultless) (hr : r.Unbroken)
    (hf : f.Unbroken) (hz : f.generation = 0) {a : Act} (ha : a.isCancel = false)
    (ht : f.wholeStep? (rig.onward past) a = some t) :
    ∃ acts r', Run (wholeStep? rig) r acts r' ∧ acts.filterMap Act.call? = a.call?.toList ∧
      InStep r₀.generation r' t ∧ Alike same r₀ f₀ past r' t := by
  have hplayback (ha : a.isPlayback = true) :
      ∃ acts r', Run (wholeStep? rig) r acts r' ∧ acts.filterMap Act.call? = a.call?.toList ∧
        InStep r₀.generation r' t ∧ Alike same r₀ f₀ past r' t := by
    have hsame : f.wholeStep? rig a = some t := by
      rw [← ht, wholeStep?_onward]
      rintro rfl
      exact absurd ha (by rintro ⟨⟩)
    obtain ⟨r', ⟨acts, hrun, hacts⟩, hlike⟩ := h.playback_back hs hless hr hf hz ha hsame
    have hreach : r.Reaches rig r' := ⟨acts, hrun, hacts⟩
    refine ⟨acts, r', hrun, ?_, ?_, hlike⟩
    · rw [filterMap_call?_of_isPlayback hacts, Act.call?_of_isPlayback ha]
      rfl
    · rw [InStep, hreach.synthesizer_eq,
        synthesizer_of_isPlayback (step?_cases (step?_of_wholeStep? ht)) ha]
      exact hin
  have hl (ha : a ≠ .play) : r.isLooking = false := h.isLooking_eq.trans (not_isLooking ht ha)
  cases a with
  | call c =>
    have hrel := h.call rig ha
    have hc : f.call? rig c = some t := step?_of_wholeStep? ht
    rw [hc] at hrel
    generalize ho : r.call? rig c = o at hrel
    cases hrel with
    | some hlike =>
      obtain ⟨hlike, hsr, hsf⟩ := hlike
      refine ⟨[.call c], _, .head ((wholeStep?_of_not_isLooking (hl (by simp))).trans ho), rfl, ?_,
        hlike⟩
      rw [InStep, hsr, hsf]
      exact hin
  | proceed =>
    have hnone := step?_of_wholeStep? ht
    simp [step?, proceed?, h.host.2] at hnone
  | synthesize =>
    have hrel := Abreast.synthesize rig ⟨h, hin⟩
    have hsynthesis : f.synthesize? (rig.onward past) = some t := step?_of_wholeStep? ht
    rw [hsynthesis] at hrel
    generalize ho : r.synthesize? rig = o at hrel
    cases hrel with
    | some hlike =>
      exact ⟨[.synthesize], _, .head ((wholeStep?_of_not_isLooking (hl (by simp))).trans ho), rfl,
        hlike.abreast, hlike.toAlike⟩
  | _ => exact hplayback rfl

/-- Whatever the other session does, the later one can do as well, if nothing of earlier jobs is
left there. -/
theorem Alike.leads (h : Alike same r₀ f₀ past r f) (hin : InStep r₀.generation r f)
    (hs : r.Stamped (r₀.generation ≤ ·)) (hn : rig.NeverEnds) (hless : rig.Faultless)
    (hr : r.Unbroken) (hf : f.Unbroken) (hz : f.generation = 0)
    (hrun : Run (wholeStep? (rig.onward past)) f acts t) (ha : ∀ a ∈ acts, a.isCancel = false) :
    ∃ acts' t', Run (wholeStep? rig) r acts' t' ∧
      acts'.filterMap Act.call? = acts.filterMap Act.call? ∧ InStep r₀.generation t' t ∧
      t'.Stamped (r₀.generation ≤ ·) ∧ Alike same r₀ f₀ past t' t := by
  have hg : r₀.generation ≤ r.generation := h.generation ▸ Nat.le_add_left ..
  induction hrun with
  | refl => exact ⟨[], r, .refl r, rfl, hin, hs, h⟩
  | @tail t u acts a hrun hst ih =>
    have hacts (b : Act) (hb : b ∈ acts) : b.isCancel = false := ha b (by simp [hb])
    obtain ⟨early, t', hrun', hcalls, hin', hs', hlike⟩ := ih hacts
    obtain ⟨ht, hgen⟩ := hf.run (neverEnds_onward hn _) (faultless_onward hless _) hrun hacts
    obtain ⟨ht', -⟩ := hr.run hn hless hrun' (isCancel_of_filterMap hcalls hacts)
    obtain ⟨late, u', hrun'', hcalls', hin'', hlike'⟩ :=
      hlike.leads_step hin' hs' hless ht' ht (hgen.trans hz) (ha a (by simp)) hst
    refine ⟨early ++ late, u', hrun'.trans hrun'', ?_, hin'', ?_, hlike'⟩
    · rw [List.filterMap_append, List.filterMap_append, hcalls, hcalls',
        filterMap_call?_singleton]
    · exact (hrun'.trans hrun'').of_whole.stamped_ge hs hg

end Runs

section Rest

variable {rig' : Rig}

variable (rig) in
/-- A session in which at most signals are left that announce nothing comes to rest. -/
theorem reaches_atRest (ho : s.Open) (hh : s.host = []) (hi : s.synthesizer = .idle)
    (hj : s.jobs.jobs = []) (hp : s.player = .waiting) (ha : s.announced = []) :
    s.Reaches rig { s with deferred := [], signals := [] } ∧
      ∀ rig', AtRest rig' { s with deferred := [], signals := [] } := by
  obtain ⟨ds, ss, hreach, -, hhead⟩ := reaches_announcement rig hp ho.signals
  rw [ha] at hhead
  obtain ⟨rfl, rfl⟩ := List.append_eq_nil_iff.mp (List.head?_eq_none_iff.mp hhead)
  refine ⟨hreach, fun rig' => ⟨hh, ?_, ?_, ?_⟩⟩
  · simp [synthesize?, hi, JobQueue.pop, ho.jobs, hj]
  · simp [play?, hp]
  · simp [expire?, hp]

theorem announced_of_atRest (hf : s.Flowing) (ho : s.Open) (hr : s.AtRest rig) :
    s.announced = [] := by
  have hg : s.isGated = false := by simp [isGated, hr.host]
  obtain ⟨-, -, hp, -⟩ := hf.clear_of_atRest ho hr
  obtain ⟨⟨-, hd⟩ | ⟨stamp, hpoll⟩, hx⟩ := waiting_of_play? ho hg hr.playback
  · simp [announced, hd, hx]
  · simp [hp] at hpoll

namespace Alike

theorem jobs_eq_nil (h : Alike same r₀ f₀ past r f) : r.jobs.jobs = [] ↔ f.jobs.jobs = [] := by
  rw [h.jobs, JobQueue.shift, List.map_eq_nil_iff]

/-- If the later session has nothing left to do, the other comes to rest as well. -/
theorem rests (h : Alike same r₀ f₀ past r f) (hr : r.Unbroken) (hf : f.Unbroken)
    (hrest : r.AtRest rig) :
    ∃ f', f.Reaches rig f' ∧ Alike same r₀ f₀ past r f' ∧ ∀ rig', f'.AtRest rig' := by
  obtain ⟨hi, hj, hp, -⟩ := hr.flowing.clear_of_atRest hr.lasts hrest
  have hannounced := h.announced
  rw [announced_of_atRest hr.flowing hr.lasts hrest] at hannounced
  have hfi : f.synthesizer = .idle := by
    rcases h.synthesizer with hin | ⟨hidle, -⟩
    · rw [hi] at hin
      cases hs : f.synthesizer <;> first | rfl | simp [hs, Synthesizer.shift] at hin
    · exact hidle
  have hfp : f.player = .waiting := by
    have hplayer := h.player
    rw [hp] at hplayer
    generalize f.player = p at hplayer
    cases hplayer <;> rfl
  obtain ⟨hreach, hquiet⟩ := reaches_atRest rig hf.lasts h.host.2 hfi
    (h.jobs_eq_nil.mp hj) hfp (List.map_eq_nil_iff.mp hannounced.symm)
  refine ⟨_, hreach, { h with announced := ?_ }, hquiet⟩
  rw [announced_of_atRest hr.flowing hr.lasts hrest]
  rfl

variable (rig) in
/-- If the other session has nothing left to do, the later one comes to rest as well. -/
theorem rests_back (h : Alike same r₀ f₀ past r f) (hin : InStep r₀.generation r f)
    (hs : r.Stamped (r₀.generation ≤ ·)) (hr : r.Unbroken) (hf : f.Unbroken)
    (hrest : f.AtRest rig') :
    ∃ r', r.Reaches rig r' ∧ Alike same r₀ f₀ past r' f ∧ r'.AtRest rig := by
  obtain ⟨hi, hj, hp, -⟩ := hf.flowing.clear_of_atRest hf.lasts hrest
  have hannounced := h.announced
  rw [announced_of_atRest hf.flowing hf.lasts hrest, List.map_nil, List.filter_eq_nil_iff]
    at hannounced
  have hra : r.announced = [] := List.eq_nil_iff_forall_not_mem.mpr fun x hx =>
    hannounced x hx (by simpa using hs.signals x (mem_announced.mp hx))
  have hri : r.synthesizer = .idle := by
    rw [InStep, hi] at hin
    exact hin
  have hrp : r.player = .waiting := by
    have hplayer := h.player
    rw [hp] at hplayer
    generalize hpr : r.player = p at hplayer
    cases hplayer with
    | waiting => rfl
    | late hstamp hx => exact absurd (hs.player _ (hpr ▸ hstamp)) (Nat.not_le_of_lt hx)
  obtain ⟨hreach, hquiet⟩ := reaches_atRest rig hr.lasts h.host.1 hri
    (h.jobs_eq_nil.mpr hj) hrp hra
  refine ⟨_, hreach, { h with announced := ?_ }, hquiet rig⟩
  rw [announced_of_atRest hf.flowing hf.lasts hrest]
  rfl

variable (rig) in
/-- The device in use makes its calls of earlier jobs. -/
theorem reaches_sounded (h : Alike same r₀ f₀ past r f) (hl : r.isLooking = false)
    (hf : f.held = []) :
    ∃ slot log, slot.output = [] ∧ r.Reaches rig { r with slot := slot, log := log } ∧
      Alike same r₀ f₀ past { r with slot := slot, log := log } f := by
  generalize hc : r.held = calls
  induction calls generalizing r with
  | nil => exact ⟨r.slot, r.log, hc, .refl r, h⟩
  | cons c rest ih =>
    have hcall : r.makeCall = { r with
        slot := { r.slot with output := rest }
        log := r.log ++ if r.isCurrent c.stamp then c.markers.map .reached else [] } := by
      simp only [Session.makeCall, hc]
      rfl
    have hreach : r.Reaches rig r.makeCall := .of_sound hl h.isGated_eq.1 hc
    have hlate := h.late_of_mem_held hf (c := c) (by simp [hc])
    rcases h.held_cons hc with ⟨-, hrest⟩ | ⟨d, more, hd, -⟩
    · have hlike := h.makeCall_late hc hlate hrest
      rw [hcall] at hreach hlike
      obtain ⟨slot, log, hout, hreach', hlike'⟩ := ih hlike hl rfl
      exact ⟨slot, log, hout, hreach.trans hreach', hlike'⟩
    · simp [hf] at hd

variable (rig) in
/-- Devices that are no longer in use make all their calls. -/
theorem reaches_calledBack (h : Alike same r₀ f₀ past r f) (hl : r.isLooking = false) :
    ∃ log, r.Reaches rig { r with shelved := [], log := log } ∧
      Alike same r₀ f₀ past { r with shelved := [], log := log } f := by
  generalize hc : r.shelved = calls
  induction calls generalizing r with
  | nil =>
    refine ⟨r.log, ?_, { h with shelved := ⟨by simp, h.shelved.2⟩ }⟩
    have heq : r = { r with shelved := [], log := r.log } := by rw [← hc]
    rw [← heq]
    exact .refl r
  | cons c rest ih =>
    have hback : r.callBack? 0 = some { r with
        shelved := rest
        log := r.log ++ if r.isCurrent c.stamp then c.markers.map .reached else [] } := by
      simp only [callBack?, h.isGated_eq.1, hc]
      rfl
    have hreach : r.Reaches rig _ :=
      .of_step (a := .callBack 0) ((wholeStep?_of_not_isLooking hl).trans hback) rfl
    obtain ⟨log, hreach', hlike⟩ := ih (h.callBack hback) hl rfl
    exact ⟨log, hreach.trans hreach', hlike⟩

end Alike

end Rest

end Session

end Elocution.Speech
