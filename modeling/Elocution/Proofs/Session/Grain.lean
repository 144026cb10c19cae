import Elocution.Proofs.Session.Utterance

/-!
# The length of chunks

The synthesizer notices of the player only when it takes a job up and when it is done with it. If
the parties take turns alike but for what is between, and no job is rendered before it is queued to
its end, then sessions that cut their audio into chunks of different lengths are the same to the
host and to a listener; and whatever one of them does can be done by the others.
-/

namespace Elocution.Speech

/-- A step that the host or the synthesizer makes, or that the synthesizer may notice. -/
inductive Beat where
  | call (c : HostCall)
  | synthesize
  | takeUp
  | conclude
deriving DecidableEq

/-- The rig with chunks of another length. -/
def Rig.inChunksOf (ms : Nat) (rig : Rig) : Rig := { rig with chunkMs := ms }

/-- What the synthesizer works with, the calls that are done, and whether the player is at one. -/
structure Standing where
  desk : Session
  done : Nat
  busy : Bool

namespace Session

variable {rig : Rig} {s t : Session} {a : Act}

def beat? (a : Act) (s : Session) : Option Beat :=
  match a, s.player with
  | .call c, _ => some (.call c)
  | .synthesize, _ => some .synthesize
  | .play, .starting _ => some .takeUp
  | .play, .completing _ => some .conclude
  | _, _ => none

variable (rig) in
/-- The beats of a run. -/
def beats (acts : List Act) (s : Session) : List Beat :=
  observed rig (fun a s => (s.beat? a).toList) acts s

/-- What the synthesizer works with, and nothing else. -/
def desk (s : Session) : Session where
  generation := s.generation
  speaking := s.speaking
  allQueued := s.allQueued
  frames := {}
  jobs := s.jobs
  settings := s.settings
  slot := { rate := 0, active := none, output := [], requested := none }
  host := s.host
  synthesizer := s.synthesizer
  ended := s.ended
  requests := s.requests
  queued := s.queued

def standing (s : Session) : Standing := ⟨s.desk, s.done, s.player.taken?.isSome⟩

theorem isCurrent_desk (stamp : Stamp) (s : Session) :
    s.desk.isCurrent stamp = s.isCurrent stamp := rfl

theorem desk_put (p : Progress) (f : Frame) (tasks : List Task) (s : Session) :
    (s.desk.put p f tasks).desk = (s.put p f tasks).desk := by
  cases hc : s.isCurrent p.stamp <;> simp only [put, isCurrent_desk, hc] <;> rfl

theorem desk_carryOut (p : Progress) (task : Task) (tasks : List Task) (s : Session) :
    (s.desk.carryOut rig p task tasks).desk = (s.carryOut rig p task tasks).desk := by
  cases task with
  | block b => cases hc : s.isCurrent p.stamp <;> simp only [carryOut, isCurrent_desk, hc] <;> rfl
  | stream pause shaper frames =>
    simp only [carryOut]
    split
    · exact desk_put ..
    · rfl
  | marker m first => exact desk_put ..
  | frame f => exact desk_put ..
  | kick => cases hc : s.isCurrent p.stamp <;> simp only [carryOut, isCurrent_desk, hc] <;> rfl
  | _ => rfl

theorem desk_synthesize? (s : Session) :
    (s.desk.synthesize? rig).map desk = (s.synthesize? rig).map desk := by
  unfold synthesize?
  have hw : s.desk.synthesizer = s.synthesizer := rfl
  rw [hw]
  cases s.synthesizer with
  | idle =>
    have hj : s.desk.jobs = s.jobs := rfl
    rw [hj]
    rcases s.jobs.pop with ⟨p, jobs⟩
    cases p <;> rfl
  | fetched job =>
    cases hc : s.isCurrent job.stamp <;> simp only [begin, isCurrent_desk, hc] <;> rfl
  | working p tasks =>
    cases tasks with
    | nil => rfl
    | cons task tasks =>
      have hg : s.desk.isGated = s.isGated := rfl
      simp only [hg]
      split
      · rfl
      · exact congrArg some (desk_carryOut ..)
  | exited => rfl

theorem synthesize?_eq_none {u : Session} (hd : s.desk = u.desk) (h : s.synthesize? rig = none) :
    u.synthesize? rig = none := by
  have hnone : (s.desk.synthesize? rig).map desk = none := by
    rw [desk_synthesize?, h]
    rfl
  rw [hd, desk_synthesize?] at hnone
  exact Option.map_eq_none_iff.mp hnone

theorem desk_call? (c : HostCall) (s : Session) :
    (s.desk.call? rig c).map desk = (s.call? rig c).map desk := by
  unfold call?
  have hh : s.desk.host = s.host := rfl
  rw [hh]
  split
  · rfl
  · cases c with
    | speak commands paged => cases he : s.ended <;> simp [submit, desk, he]
    | terminate => cases he : s.ended <;> simp [desk, he]
    | _ => rfl

end Session

open Session in
/-- What a beat does to the synthesizer. -/
def Beat.move (rig : Rig) (x : Standing) : Beat → Standing
  | .call c => { x with desk := ((x.desk.call? rig c).getD x.desk).desk }
  | .synthesize => { x with desk := ((x.desk.synthesize? rig).getD x.desk).desk }
  | .takeUp => { x with desk := { x.desk with speaking := true }, busy := true }
  | .conclude => ⟨{ x.desk with speaking := false }, x.done + 1, false⟩

theorem Beat.move_inChunksOf (ms : Nat) (rig : Rig) :
    Beat.move (rig.inChunksOf ms) = Beat.move rig := by
  funext x b
  cases b <;> rfl

namespace Session

variable {rig : Rig} {s t : Session} {a : Act}

theorem standing_of_not_beat (hb : s.beat? a = none) (hk : t.desk = s.desk)
    (hd : t.done = s.done) (hp : t.player.taken?.isSome = s.player.taken?.isSome) :
    t.standing = (s.beat? a).toList.foldl (Beat.move rig) s.standing := by
  rw [hb, standing, hk, hd, hp]
  rfl

theorem Ripe.standing_playback (h : s.Ripe) (hst : Playback rig s t) :
    t.standing = (s.beat? .play).toList.foldl (Beat.move rig) s.standing := by
  have hlog {events : List Event} (he : .done ∉ events) :
      (s.log ++ events).count .done = s.log.count .done := by
    rw [List.count_append, List.count_eq_zero.mpr he, Nat.add_zero]
  cases hst with
  | takeUp hp => simp [beat?, hp, Beat.move, standing, desk, done, Player.taken?, Player.stamp?]
  | decline hp hc =>
    exact absurd (h.flowing.stamp_of_zero h.first (by rw [hp]; rfl)) hc
  | conclude hp => simp [beat?, hp, Beat.move, standing, desk, done, Player.taken?,
      Player.stamp?]
  | forget hp hl => exact absurd hl (h.flowing.not_dropped h.first (by rw [hp]; rfl))
  | lapse hp hl => exact absurd hl (h.flowing.not_dropped h.first (by rw [hp]; rfl))
  | discard hp hl => exact absurd hl (h.flowing.not_dropped h.first (by rw [hp]; rfl))
  | leave hp hx => exact absurd (hx.mem_iff.mpr (.inl rfl)) h.lasts.signals
  | quit hp hx => exact absurd (by simp [hx]) h.lasts.signals
  | hear hp =>
    refine standing_of_not_beat ?_ rfl (hlog fun hm => (reports_quiet _ _ hm).2 rfl) rfl
    unfold beat?
    cases hs : s.player <;> simp [hs, Player.hears] at hp ⊢
  | @feed stamp chunk samples failed calls hp =>
    refine standing_of_not_beat (by simp [beat?, hp]) rfl (hlog (by simp)) ?_
    rw [hp]
    cases chunk.finished <;> rfl
  | @idle stamp failed hp =>
    refine standing_of_not_beat (by simp [beat?, hp]) rfl (hlog (by simp)) ?_
    rw [hp]
    cases failed <;> rfl
  | missDevice hp =>
    exact standing_of_not_beat (by simp [beat?, hp]) rfl (hlog (by simp)) (by rw [hp]; rfl)
  | switchDevice hp =>
    exact standing_of_not_beat (by simp [beat?, hp]) rfl (hlog (by simp)) (by rw [hp]; rfl)
  | disregard hp => exact standing_of_not_beat (by simp [beat?, hp]) rfl rfl rfl
  | _ hp => exact standing_of_not_beat (by simp [beat?, hp]) rfl rfl (by rw [hp]; rfl)

/-- Only a beat moves what the synthesizer works with. -/
theorem Ripe.standing_step (h : s.Ripe) (hst : s.step? rig a = some t) (ha : a.isCancel = false) :
    t.standing = (s.beat? a).toList.foldl (Beat.move rig) s.standing := by
  have hmove {o o' : Option Session} (he : o.map desk = o'.map desk) (ho : o' = some t) :
      (o.getD s.desk).desk = t.desk := by
    rw [ho] at he
    obtain ⟨u, hu, hd⟩ := Option.map_eq_some_iff.mp he
    rw [hu]
    exact hd
  have hreports (c : Call) : (s.log ++ s.reports c).count .done = s.log.count .done := by
    rw [List.count_append, count_done_reports, Nat.add_zero]
  cases step?_cases hst with
  | @call c t hh hc =>
    have hbeat : s.beat? (.call c) = some (.call c) := rfl
    have hstay : t.done = s.done ∧ t.player = s.player := by
      cases hc with
      | pause => exact ⟨by simp [done, List.count_append], rfl⟩
      | _ => exact ⟨rfl, rfl⟩
    rw [hbeat, standing, hstay.1, hstay.2, ← hmove (desk_call? c s) hst]
    rfl
  | proceed hh => simp [h.flowing.host] at hh
  | @synthesize t hs =>
    have hbeat : s.beat? .synthesize = some .synthesize := rfl
    have hstay : t.done = s.done ∧ t.player = s.player := by cases hs <;> exact ⟨rfl, rfl⟩
    rw [hbeat, standing, hstay.1, hstay.2, ← hmove (desk_synthesize? s) hst]
    rfl
  | play hp => exact h.standing_playback hp
  | expire hp => exact standing_of_not_beat rfl rfl rfl (by rw [hp]; rfl)
  | sound => exact standing_of_not_beat rfl rfl (hreports _) rfl
  | callBack => exact standing_of_not_beat rfl rfl (hreports _) rfl

/-- The player has to make a beat, or cannot go on. -/
def CaughtUp (rig : Rig) (s : Session) : Prop :=
  s.beat? .play ≠ none ∨ s.ripeStep? rig .play = none

theorem exists_caughtUp (rig : Rig) (s : Session) :
    ∃ n t, Run (ripeStep? rig) s (List.replicate n .play) t ∧
      s.beats rig (List.replicate n .play) = [] ∧ t.CaughtUp rig := by
  cases hst : s.ripeStep? rig .play with
  | none => exact ⟨0, s, .refl s, rfl, .inr hst⟩
  | some t =>
    by_cases hb : s.beat? .play = none
    · obtain ⟨n, u, hr, hbeats, hu⟩ := exists_caughtUp rig t
      have hplay : s.step? rig .play = some t := step?_of_ripeStep? hst
      refine ⟨n + 1, u, .cons hst hr, ?_, hu⟩
      rw [List.replicate_succ, ← List.singleton_append, beats,
        observed_append (Run.head hplay), observed_singleton, hb]
      exact hbeats
    · exact ⟨0, s, .refl s, rfl, .inl hb⟩
termination_by s.playbackLeft
decreasing_by exact playbackLeft_fewer (step?_of_ripeStep? hst)

theorem Ripe.caughtUp_cases (h : s.Ripe) (hs : s.CaughtUp rig) :
    (∃ stamp, s.player = .starting stamp) ∨ (∃ stamp, s.player = .completing stamp) ∨
      (s.player = .waiting ∧ s.deferred = [] ∧ s.signals = []) ∨
      ∃ stamp, s.player = .rendering stamp ∧ s.frames.ends = 0 := by
  cases hp : s.player with
  | starting stamp => exact .inl ⟨stamp, rfl⟩
  | completing stamp => exact .inr (.inl ⟨stamp, rfl⟩)
  | rendering stamp =>
    refine .inr (.inr (.inr ⟨stamp, rfl, ?_⟩))
    by_contra hz
    rcases hs with hb | hnone
    · simp [beat?, hp] at hb
    · simp [ripeStep?, hp, hz, play?] at hnone
  | _ =>
    have hnone : s.play? rig = none := by
      rcases hs with hb | hnone
      · simp [beat?, hp] at hb
      · simpa [ripeStep?, hp, step?] using hnone
    have hg : s.isGated = false := by simp [isGated, h.flowing.host]
    obtain ⟨⟨hw, hd⟩ | ⟨stamp, hpoll⟩, hx⟩ := waiting_of_play? h.lasts hg hnone
    · exact .inr (.inr (.inl ⟨hp ▸ hw, hd, hx⟩))
    · have hsupplied := h.supplied
      simp [hpoll, Player.lacks] at hsupplied

/-- The ends that have been queued are those that are done, the one that the player is at and those
that are in the buffer. -/
theorem Delivered.count_ends (h : s.Delivered) :
    (s.queued.flatMap Frame.marks).count none =
      s.done + s.player.turn.count none + s.frames.ends := by
  rw [h.marks, List.count_append, List.count_append, count_told]
  rfl

section Abreast

variable {u : Session}

/-- The ends of utterances are in the same places, but for the one that the player is at. -/
theorem Ripe.ends_eq (h : s.Ripe) (h' : u.Ripe) (hst : s.standing = u.standing) :
    s.player.turn.count none + s.frames.ends = u.player.turn.count none + u.frames.ends := by
  have hqueued : s.queued = u.queued := congrArg (·.desk.queued) hst
  have hdone : s.done = u.done := congrArg Standing.done hst
  have hs := h.delivered.count_ends
  have hu := h'.delivered.count_ends
  rw [hqueued, hdone] at hs
  omega

/-- As many jobs have been announced. -/
theorem Ripe.announced_eq (h : s.Ripe) (h' : u.Ripe) (hst : s.standing = u.standing) :
    (s.deferred ++ s.signals).countP (Signal.isPlayFrom 0) + s.player.owes 0 +
        (u.frames.ends + u.player.past 0) =
      (u.deferred ++ u.signals).countP (Signal.isPlayFrom 0) + u.player.owes 0 +
        (s.frames.ends + s.player.past 0) := by
  have hjobs : s.jobs = u.jobs := congrArg (·.desk.jobs) hst
  have hsynthesizer : s.synthesizer = u.synthesizer := congrArg (·.desk.synthesizer) hst
  have hs := h.flowing.balance
  have hu := h'.flowing.balance
  simp only [h.first, h'.first, owed, unended, hjobs, hsynthesizer] at hs hu
  omega

theorem Ripe.starting_of_standing (h : s.Ripe) (h' : u.Ripe) (hst : s.standing = u.standing)
    (hu : u.CaughtUp rig) {stamp : Stamp} (hp : s.player = .starting stamp) :
    ∃ stamp, u.player = .starting stamp := by
  have hbusy : s.player.taken?.isSome = u.player.taken?.isSome := congrArg Standing.busy hst
  have hends := h.ends_eq h' hst
  have hannounced := h.announced_eq h' hst
  rw [hp] at hbusy hends hannounced
  obtain hstart | ⟨x, hq⟩ | ⟨hq, hd, hx⟩ | ⟨x, hq, -⟩ := h'.caughtUp_cases hu
  · exact hstart
  · rw [hq] at hbusy
    cases hbusy
  · -- The announcement would have been lost.
    rw [hq] at hends hannounced
    simp only [Player.turn, List.count_nil, Nat.zero_add] at hends
    simp [hends, hd, hx, Player.past, Player.owes, Player.stamp?] at hannounced
  · rw [hq] at hbusy
    cases hbusy

theorem Ripe.completing_of_standing (h : s.Ripe) (h' : u.Ripe) (hst : s.standing = u.standing)
    (hu : u.CaughtUp rig) {stamp : Stamp} (hp : s.player = .completing stamp) :
    ∃ stamp, u.player = .completing stamp := by
  have hbusy : s.player.taken?.isSome = u.player.taken?.isSome := congrArg Standing.busy hst
  have hends := h.ends_eq h' hst
  rw [hp] at hbusy hends
  obtain ⟨x, hq⟩ | hcompleting | ⟨hq, -⟩ | ⟨x, hq, hzero⟩ := h'.caughtUp_cases hu
  · rw [hq] at hbusy
    cases hbusy
  · exact hcompleting
  · rw [hq] at hbusy
    cases hbusy
  · -- The end of the job would have been lost.
    rw [hq, hzero] at hends
    simp [Player.turn] at hends

theorem Ripe.atRest_of_standing {ms : Nat} (h : s.Ripe) (h' : u.Ripe)
    (hst : s.standing = u.standing) (hu : u.CaughtUp (rig.inChunksOf ms)) (hr : s.AtRest rig) :
    u.AtRest (rig.inChunksOf ms) := by
  have hcaught : s.CaughtUp rig := by
    refine .inr ?_
    have hplay := hr.playback
    unfold ripeStep?
    split
    · rw [hplay, ite_self]
    · exact hplay
  obtain ⟨-, -, hp, -⟩ := h.flowing.clear_of_atRest h.lasts hr
  have hbusy : s.player.taken?.isSome = u.player.taken?.isSome := congrArg Standing.busy hst
  rw [hp] at hbusy
  obtain ⟨x, hq⟩ | ⟨x, hq⟩ | ⟨hq, hd, hx⟩ | ⟨x, hq, -⟩ := h'.caughtUp_cases hu
  · obtain ⟨y, hstart⟩ := h'.starting_of_standing h hst.symm hcaught hq
    rw [hp] at hstart
    cases hstart
  · rw [hq] at hbusy
    cases hbusy
  · refine ⟨h'.flowing.host, ?_, by simp [play?, hq, hd, hx], by simp [expire?, hq]⟩
    exact synthesize?_eq_none (congrArg Standing.desk hst) hr.synthesis
  · rw [hq] at hbusy
    cases hbusy

/-- A player that has caught up can make the beat that the other one makes. -/
theorem Ripe.exists_step {ms : Nat} (h : s.Ripe) (h' : u.Ripe) (hst : s.standing = u.standing)
    (hu : u.CaughtUp (rig.inChunksOf ms)) (hs : s.ripeStep? rig a = some t)
    (hb : s.beat? a ≠ none) :
    u.beat? a = s.beat? a ∧ ∃ v, u.ripeStep? (rig.inChunksOf ms) a = some v := by
  have hgate : u.isGated = false := by simp [isGated, h'.flowing.host]
  cases a with
  | call c =>
    have hhost : u.host = [] := h'.flowing.host
    exact ⟨rfl, by simp [ripeStep?, step?, call?, hhost]⟩
  | synthesize =>
    refine ⟨rfl, Option.ne_none_iff_exists'.mp fun hnone => ?_⟩
    have hidle : s.synthesize? rig = none :=
      synthesize?_eq_none (congrArg Standing.desk hst.symm) hnone
    exact absurd (hidle.symm.trans hs) (by rintro ⟨⟩)
  | play =>
    cases hp : s.player with
    | starting stamp =>
      obtain ⟨x, hq⟩ := h.starting_of_standing h' hst hu hp
      exact ⟨by simp [beat?, hp, hq], by simp [ripeStep?, step?, play?, hq, hgate]⟩
    | completing stamp =>
      obtain ⟨x, hq⟩ := h.completing_of_standing h' hst hu hp
      exact ⟨by simp [beat?, hp, hq], by simp [ripeStep?, step?, play?, hq, hgate]⟩
    | _ => simp [beat?, hp] at hb
  | _ => exact absurd rfl hb

end Abreast

section Runs

variable {device : Option String} {settings : VoiceSettings} {acts : List Act}

theorem Run.of_ripe (hr : Run (ripeStep? rig) s acts t) : Run (step? rig) s acts t :=
  hr.mono fun _ _ _ => step?_of_ripeStep?

theorem beats_concat (hr : Run (ripeStep? rig) s acts t) (a : Act) :
    s.beats rig (acts ++ [a]) = s.beats rig acts ++ (t.beat? a).toList := by
  rw [beats, observed_append hr.of_ripe, observed_singleton]
  rfl

/-- The beats of a run tell where the synthesizer stands. -/
theorem Run.standing (hr : Run (ripeStep? rig) s acts t) (h₀ : start rig device settings = .ok s)
    (hn : rig.NeverEnds) (hd : rig.Faultless) (ha : ∀ a ∈ acts, a.isCancel = false) :
    t.standing = (s.beats rig acts).foldl (Beat.move rig) s.standing := by
  induction hr with
  | refl => rfl
  | @tail t u acts a hr hst ih =>
    have hacts := fun b hb => ha b (List.mem_append_left _ hb)
    have hripe := hr.ripe h₀ hn hd hacts
    rw [beats_concat hr, List.foldl_append, ← ih hacts]
    exact hripe.standing_step (step?_of_ripeStep? hst) (ha a (by simp))

theorem Run.standing_eq {ms : Nat} {acts' : List Act} {t' : Session}
    (hr : Run (ripeStep? rig) s acts t) (hr' : Run (ripeStep? (rig.inChunksOf ms)) s acts' t')
    (h₀ : start rig device settings = .ok s) (hn : rig.NeverEnds) (hd : rig.Faultless)
    (ha : ∀ a ∈ acts, a.isCancel = false) (ha' : ∀ a ∈ acts', a.isCancel = false)
    (hb : s.beats (rig.inChunksOf ms) acts' = s.beats rig acts) : t.standing = t'.standing := by
  rw [hr.standing h₀ hn hd ha, hr'.standing h₀ hn ⟨hd.feeds, hd.idles⟩ ha', hb,
    Beat.move_inChunksOf]

theorem beats_append {more : List Act} (hr : Run (ripeStep? rig) s acts t) :
    s.beats rig (acts ++ more) = s.beats rig acts ++ t.beats rig more :=
  observed_append hr.of_ripe

/-- A session with other chunks goes through the same beats. -/
theorem Run.exists_counterpart (hr : Run (ripeStep? rig) s acts t)
    (h₀ : start rig device settings = .ok s) (hn : rig.NeverEnds) (hd : rig.Faultless)
    (ha : ∀ a ∈ acts, a.isCancel = false) (ms : Nat) :
    ∃ acts' u, Run (ripeStep? (rig.inChunksOf ms)) s acts' u ∧
      (∀ a ∈ acts', a.isCancel = false) ∧
      s.beats (rig.inChunksOf ms) acts' = s.beats rig acts ∧ u.CaughtUp (rig.inChunksOf ms) := by
  have settle {acts' : List Act} {u : Session} {beats : List Beat}
      (hr' : Run (ripeStep? (rig.inChunksOf ms)) s acts' u) (ha' : ∀ a ∈ acts', a.isCancel = false)
      (hb : s.beats (rig.inChunksOf ms) acts' = beats) :
      ∃ acts' u, Run (ripeStep? (rig.inChunksOf ms)) s acts' u ∧
        (∀ a ∈ acts', a.isCancel = false) ∧
        s.beats (rig.inChunksOf ms) acts' = beats ∧ u.CaughtUp (rig.inChunksOf ms) := by
    obtain ⟨n, v, hv, hnone, hcaught⟩ := exists_caughtUp (rig.inChunksOf ms) u
    refine ⟨_, v, hr'.trans hv, fun a hm => ?_, ?_, hcaught⟩
    · rcases List.mem_append.mp hm with hm | hm
      · exact ha' a hm
      · rw [List.eq_of_mem_replicate hm]
        rfl
    · rw [beats_append hr', hnone, List.append_nil, hb]
  induction hr with
  | refl => exact settle (.refl s) (List.forall_mem_nil _) rfl
  | @tail t v acts a hr hst ih =>
    have hacts := fun b hb => ha b (List.mem_append_left _ hb)
    obtain ⟨acts', u, hr', ha', hb, hu⟩ := ih hacts
    by_cases hbeat : t.beat? a = none
    · refine ⟨acts', u, hr', ha', ?_, hu⟩
      rw [beats_concat hr, hbeat, hb]
      exact (List.append_nil _).symm
    · have hstanding := hr.standing_eq hr' h₀ hn hd hacts ha' hb
      have hripe' := hr'.ripe h₀ hn ⟨hd.feeds, hd.idles⟩ ha'
      obtain ⟨hsame, w, hw⟩ :=
        (hr.ripe h₀ hn hd hacts).exists_step hripe' hstanding hu hst hbeat
      refine settle (.tail hr' hw) (fun b hm => ?_) ?_
      · rcases List.mem_append.mp hm with hm | hm
        · exact ha' b hm
        · rw [List.mem_singleton.mp hm]
          exact ha a (by simp)
      · rw [beats_concat hr', beats_concat hr, hb, hsame]

/-- The length of the chunks makes no difference. Take a session in which nothing is cancelled, no
device fails at audio that it is given, and no job is rendered before it is queued to its end; and
take one with chunks of another length in which the host, the synthesizer, and the player where the
synthesizer may notice it, take turns in the same way. Then of each utterance the host is told the
same and as much audio is fed, and if a chunk of either length has room for the ramp it is the same
audio. Such a session there always is, and it comes to rest where this one does; and at rest each
call has been an utterance. -/
theorem chunk_length_inaudible (h₀ : start rig device settings = .ok s) (hn : rig.NeverEnds)
    (hd : rig.Faultless) (hr : Run (ripeStep? rig) s acts t)
    (ha : ∀ a ∈ acts, a.isCancel = false) (ms : Nat) :
    (∀ acts' t', Run (ripeStep? (rig.inChunksOf ms)) s acts' t' →
      (∀ a ∈ acts', a.isCancel = false) →
      s.beats (rig.inChunksOf ms) acts' = s.beats rig acts →
        t.utterances.map (List.filterMap Event.note?) =
          t'.utterances.map (List.filterMap Event.note?) ∧
        (t.AtRest rig → t'.AtRest (rig.inChunksOf ms) → t.notes = t'.notes) ∧
        t.utterances.map (fun u => (audio u).length) =
          t'.utterances.map (fun u => (audio u).length) ∧
        (rig.ramp ≤ rig.chunk → rig.ramp ≤ (rig.inChunksOf ms).chunk →
          t.utterances.map audio = t'.utterances.map audio)) ∧
    (∃ acts' t', Run (ripeStep? (rig.inChunksOf ms)) s acts' t' ∧
      (∀ a ∈ acts', a.isCancel = false) ∧
      s.beats (rig.inChunksOf ms) acts' = s.beats rig acts ∧
      (t.AtRest rig → t'.AtRest (rig.inChunksOf ms))) ∧
    (t.AtRest rig → t.utterances.length = (acts.filterMap Act.saying?).length) := by
  have hd' : (rig.inChunksOf ms).Faultless := ⟨hd.feeds, hd.idles⟩
  have hripe := hr.ripe h₀ hn hd ha
  obtain ⟨said, now, h⟩ := hr.uttering h₀ hn hd ha
  refine ⟨fun acts' t' hr' ha' hb => ?_, ?_, hr.length_utterances h₀ hn hd ha⟩
  · have hstanding := hr.standing_eq hr' h₀ hn hd ha ha' hb
    obtain ⟨said', now', h'⟩ := hr'.uttering h₀ hn hd' ha'
    obtain ⟨rfl, hnow⟩ := h.said_inj h' rfl (congrArg (·.desk.queued) hstanding)
      (congrArg Standing.done hstanding)
    refine ⟨?_, fun hs ht => ?_, ?_, fun hramp hramp' => ?_⟩
    · rw [h.map_eq fun _ _ hc => hc.told, h'.map_eq fun _ _ hc => hc.told]
    · exact h.notes_eq_of_atRest h' hripe (hr'.ripe h₀ hn hd' ha') hs ht hnow
    · rw [h.map_eq fun _ _ hc => hc.length, h'.map_eq fun _ _ hc => hc.length]
    · rw [h.map_eq fun _ _ hc => hc.audio hramp, h'.map_eq fun _ _ hc => hc.audio hramp']
      rfl
  · obtain ⟨acts', t', hr', ha', hb, hcaught⟩ := hr.exists_counterpart h₀ hn hd ha ms
    have hstanding := hr.standing_eq hr' h₀ hn hd ha ha' hb
    exact ⟨acts', t', hr', ha', hb,
      hripe.atRest_of_standing (hr'.ripe h₀ hn hd' ha') hstanding hcaught⟩

/-- The audio of an utterance in two chunks, and in four. -/
theorem chunk_length_inaudible_halved :
    ∃ (s t t' : Session) (acts acts' : List Act),
      start Rig.sample none {} = .ok s ∧ Rig.sample.NeverEnds ∧ Rig.sample.Faultless ∧
      Run (ripeStep? Rig.sample) s acts t ∧ (∀ a ∈ acts, a.isCancel = false) ∧
      Run (ripeStep? (Rig.sample.inChunksOf 10)) s acts' t' ∧
      (∀ a ∈ acts', a.isCancel = false) ∧
      s.beats (Rig.sample.inChunksOf 10) acts' = s.beats Rig.sample acts ∧
      t.handed.map (·.samples.length) = [20, 15] ∧
      t'.handed.map (·.samples.length) = [10, 10, 10, 5] ∧
      t.notes = [some 1, none] ∧ t'.notes = [some 1, none] ∧
      t.utterances.map audio = t'.utterances.map audio := by
  let speak : List Act :=
    .call (.speak [.text ['a'], .marker 1] false) :: List.replicate 15 .synthesize
  let acts : List Act := speak ++ List.replicate 15 .play
  let acts' : List Act := speak ++ List.replicate 21 .play
  have hr : Run (ripeStep? Rig.sample) (initial Rig.sample none {}) acts
      (after (ripeStep? Rig.sample) acts (initial Rig.sample none {})) :=
    .after (by decide +kernel)
  have hr' : Run (ripeStep? (Rig.sample.inChunksOf 10)) (initial Rig.sample none {}) acts'
      (after (ripeStep? (Rig.sample.inChunksOf 10)) acts' (initial Rig.sample none {})) :=
    .after (by decide +kernel)
  have hn : Rig.sample.NeverEnds := Rig.neverEnds_sample
  have hd : Rig.sample.Faultless := ⟨fun _ => rfl, fun _ => rfl⟩
  have ha : ∀ a ∈ acts, a.isCancel = false := by simp [acts, speak, Act.isCancel]
  have ha' : ∀ a ∈ acts', a.isCancel = false := by simp [acts', speak, Act.isCancel]
  have hb : beats (Rig.sample.inChunksOf 10) acts' (initial Rig.sample none {}) =
      beats Rig.sample acts (initial Rig.sample none {}) := by decide +kernel
  obtain ⟨-, -, -, haudio⟩ := (chunk_length_inaudible rfl hn hd hr ha 10).1 acts' _ hr' ha' hb
  exact ⟨_, _, _, acts, acts', rfl, hn, hd, hr, ha, hr', ha', hb, by decide +kernel,
    by decide +kernel, by decide +kernel, by decide +kernel,
    haudio (by decide +kernel) (by decide +kernel)⟩

end Runs

end Session

end Elocution.Speech
