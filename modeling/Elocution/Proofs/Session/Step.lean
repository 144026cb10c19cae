import Mathlib
import Elocution.Speech.Session.Run

/-!
# What a step can do

One constructor for each thing that a step of synthesis or of playback can do to a session, with
the condition under which it is done. Everything that is shown of the steps goes by these cases.
-/

namespace Elocution.Speech

/-- The player is to be told of the job as soon as the frame is queued. -/
def Progress.noting (f : Frame) (p : Progress) : Progress :=
  { p with kicked := true, lastVoiced := if f.isTimed then f.isVoiced else p.lastVoiced }

/-- The request that a clause makes of the engine. -/
def Rig.request (rig : Rig) (voice : String) (prosody : Prosody) (c : Clause) : Request where
  text := rig.phonemize c.text
  voice := voice
  prosody := prosody
  intonation := c.intonation

/-- A task queues a frame; the progress and the tasks that are then left. -/
inductive Emits (p : Progress) (tasks : List Task) :
    Task → Progress → Frame → List Task → Prop where
  | stream {pause : Option Float32} {shaper next : Frame.Shaper} {frames rest : List Frame}
      {f : Frame} (h : shaper.next frames = (some f, next, rest)) :
    Emits p tasks (.stream pause shaper frames)
      { p with pulled := p.pulled + (frames.length - rest.length) } f
      (.stream pause next rest :: tasks)
  | marker {m : Marker} {first : Bool} {fade : Float32}
      (h : fade = if first && p.lastVoiced then markerFade else 0) :
    Emits p tasks (.marker m first) p ((Frame.silence fade fade).withMarker m) tasks
  | frame {f : Frame} : Emits p tasks (.frame f) p f tasks

/-- What a step of synthesis does. -/
inductive Synthesis (rig : Rig) (s : Session) : Session → Prop where
  | fetch {job : Job} {rest : List Job} (hi : s.synthesizer = .idle)
      (ho : s.jobs.closed = false) (hj : s.jobs.jobs = job :: rest) :
    Synthesis rig s { s with jobs := { s.jobs with jobs := rest }, synthesizer := .fetched job }
  | exit (hi : s.synthesizer = .idle) (hc : s.jobs.closed = true) :
    Synthesis rig s { s with synthesizer := .exited }
  | begin {job : Job} (hf : s.synthesizer = .fetched job) (hc : s.generation = job.stamp) :
    Synthesis rig s { s with
      synthesizer :=
        .working { stamp := job.stamp, settings := s.settings } (Task.ofJob job.kind) }
  | drop {job : Job} (hf : s.synthesizer = .fetched job) (hc : s.generation ≠ job.stamp) :
    Synthesis rig s { s with synthesizer := .idle }
  | finish {p : Progress} (hw : s.synthesizer = .working p []) :
    Synthesis rig s { s with synthesizer := .idle }
  | abandon {p : Progress} {task : Task} {tasks : List Task}
      (hw : s.synthesizer = .working p (task :: tasks)) (hc : s.generation ≠ p.stamp) :
    Synthesis rig s { s with synthesizer := .idle }
  | put {p q : Progress} {task : Task} {tasks rest : List Task} {f : Frame}
      (hw : s.synthesizer = .working p (task :: tasks)) (hc : s.generation = p.stamp)
      (he : Emits p tasks task q f rest) :
    Synthesis rig s { s with
      frames := s.frames.enqueue f
      queued := s.queued ++ [f]
      synthesizer := .working (q.noting f) (if q.kicked then rest else .kick :: rest) }
  | lower {p : Progress} {tasks : List Task}
      (hw : s.synthesizer = .working p (.lowerAllQueued :: tasks)) :
    Synthesis rig s { s with allQueued := false, synthesizer := .working p tasks }
  | block {p : Progress} {b : Block} {tasks : List Task}
      (hw : s.synthesizer = .working p (.block b :: tasks)) (hc : s.generation = p.stamp) :
    Synthesis rig s { s with
      synthesizer := .working p
        ((Clause.split p.settings.pauseMode b.text).map
            (.clause (p.settings.prosody.offsetPitch b.offset)) ++
          Task.ofMarkers b.markers ++ tasks) }
  | refused {p : Progress} {prosody : Prosody} {c : Clause} {tasks : List Task}
      {fault : SynthesisFault} (hw : s.synthesizer = .working p (.clause prosody c :: tasks))
      (he : rig.engine s.requests (rig.request p.settings.voice prosody c) = .error fault) :
    Synthesis rig s { s with
      requests := s.requests ++ [rig.request p.settings.voice prosody c]
      synthesizer := .working p tasks }
  | answered {p : Progress} {prosody : Prosody} {c : Clause} {tasks : List Task}
      {frames : List Frame} (hw : s.synthesizer = .working p (.clause prosody c :: tasks))
      (he : rig.engine s.requests (rig.request p.settings.voice prosody c) = .ok frames) :
    Synthesis rig s { s with
      requests := s.requests ++ [rig.request p.settings.voice prosody c]
      synthesizer := .working p
        (.stream (c.pause.map (· / prosody.speed))
          { clipLeading := p.seenAudio || s.speaking } frames :: tasks) }
  | exhaust {p : Progress} {pause : Option Float32} {shaper next : Frame.Shaper}
      {frames rest : List Frame} {tasks : List Task}
      (hw : s.synthesizer = .working p (.stream pause shaper frames :: tasks))
      (hn : shaper.next frames = (none, next, rest)) :
    Synthesis rig s { s with
      synthesizer := .working { p with seenAudio := p.seenAudio || next.seenVoiced }
        (Task.afterStream next.seenVoiced pause ++ tasks) }
  | kick {p : Progress} {tasks : List Task}
      (hw : s.synthesizer = .working p (.kick :: tasks)) (hg : s.isGated = false)
      (hc : s.generation = p.stamp) :
    Synthesis rig s { s with
      speaking := true, synthesizer := .working p (.signal (.play p.stamp) :: tasks) }
  | withhold {p : Progress} {tasks : List Task}
      (hw : s.synthesizer = .working p (.kick :: tasks)) (hc : s.generation ≠ p.stamp) :
    Synthesis rig s { s with synthesizer := .working p tasks }
  | signal {p : Progress} {x : Signal} {tasks : List Task}
      (hw : s.synthesizer = .working p (.signal x :: tasks)) :
    Synthesis rig s { s with signals := s.signals ++ [x], synthesizer := .working p tasks }
  | raise {p : Progress} {tasks : List Task}
      (hw : s.synthesizer = .working p (.raiseAllQueued :: tasks)) :
    Synthesis rig s { s with allQueued := true, synthesizer := .working p tasks }

/-- The player takes a signal, one put off before one that has just come. -/
def Session.Takes (s : Session) (x : Signal) (deferred signals : List Signal) : Prop :=
  s.deferred = x :: deferred ∧ s.signals = signals ∨
    s.deferred = [] ∧ deferred = [] ∧ s.signals = x :: signals

/-- The player is at a point at which a device makes calls for it. -/
def Player.hears : Player → Bool
  | .delivering _ _ | .idling _ => true
  | _ => false

/-- What a call reports. -/
def Session.reports (c : Call) (s : Session) : List Event :=
  if s.generation = c.stamp then c.markers.map .reached else []

/-- What a call of the host does, no other being under way. -/
inductive Calling (rig : Rig) (s : Session) : HostCall → Session → Prop where
  | speak {commands : List Command} {paged : Bool} (ho : s.ended = false) :
    Calling rig s (.speak commands paged) { s with
      jobs := s.jobs.push
        ⟨.ofBlocks (Block.segment rig.limits paged commands), s.generation⟩ }
  | ignore {c : HostCall} (he : s.ended = true) : Calling rig s c s
  | cancel : Calling rig s .cancel { s with host := HostTask.cancellation }
  | terminate (ho : s.ended = false) :
    Calling rig s .terminate { s with host := HostTask.termination }
  | pause {on : Bool} : Calling rig s (.pause on) { s with log := s.log ++ [.paused on] }
  | request {device : Option String} :
    Calling rig s (.request device) { s with slot := { s.slot with requested := device } }
  | configure {settings : VoiceSettings} : Calling rig s (.configure settings) { s with settings }

/-- What a step of playback does. -/
inductive Playback (rig : Rig) (s : Session) : Session → Prop where
  | turnTo {stamp : Stamp} {ds ss : List Signal} (hp : s.player = .waiting)
      (hx : s.Takes (.play stamp) ds ss) :
    Playback rig s { s with deferred := ds, signals := ss, player := .starting stamp }
  | disregard {ds ss : List Signal} (hp : s.player = .waiting) (hx : s.Takes .framesReady ds ss) :
    Playback rig s { s with deferred := ds, signals := ss }
  | leave {ds ss : List Signal} (hp : s.player = .waiting) (hx : s.Takes .shutdown ds ss) :
    Playback rig s { s with deferred := ds, signals := ss, player := .stopped }
  | takeUp {stamp : Stamp} (hp : s.player = .starting stamp) (hg : s.isGated = false)
      (hc : s.generation = stamp) :
    Playback rig s { s with speaking := true, player := .opening stamp }
  | decline {stamp : Stamp} (hp : s.player = .starting stamp) (hc : s.generation ≠ stamp) :
    Playback rig s { s with player := .waiting }
  | keepDevice {stamp : Stamp} (hp : s.player = .opening stamp)
      (hs : s.slot.active = s.slot.requested ∨ s.slot.failed = some s.slot.requested) :
    Playback rig s { s with player := .checking stamp }
  | missDevice {stamp : Stamp} {fault : OutputFault} (hp : s.player = .opening stamp)
      (hf : rig.factory s.opens s.slot.requested s.slot.rate = .error fault) :
    Playback rig s { s with
      slot := { s.slot with failed := some s.slot.requested }
      opens := s.opens + 1
      log := s.log ++ [.openFailed s.slot.requested]
      player := .checking stamp }
  | switchDevice {stamp : Stamp} (hp : s.player = .opening stamp)
      (hf : rig.factory s.opens s.slot.requested s.slot.rate = .ok ()) :
    Playback rig s { s with
      slot := { s.slot with active := s.slot.requested, output := [], failed := none }
      shelved := s.shelved ++ if rig.sticky then s.held else []
      opens := s.opens + 1
      log := s.log ++ [.opened s.slot.requested, .stopped]
      player := .checking stamp }
  | look {stamp : Stamp} (hp : s.player = .checking stamp) (hl : s.speaking = true)
      (hc : s.generation = stamp) :
    Playback rig s { s with player := .rendering stamp }
  | lapse {stamp : Stamp} (hp : s.player = .checking stamp) (hl : s.isLive stamp = false) :
    Playback rig s { s with player := .waiting }
  | render {stamp : Stamp} (hp : s.player = .rendering stamp)
      (he : (s.frames.render rig.chunk).1.isEmpty = false) :
    Playback rig s { s with
      frames := (s.frames.render rig.chunk).2
      player := .delivering stamp (s.frames.render rig.chunk).1 }
  | renderEnd {stamp : Stamp} (hp : s.player = .rendering stamp)
      (he : (s.frames.render rig.chunk).1.isEmpty = true)
      (hf : (s.frames.render rig.chunk).1.finished = true) :
    Playback rig s { s with
      frames := (s.frames.render rig.chunk).2, player := .draining stamp }
  | renderNone {stamp : Stamp} (hp : s.player = .rendering stamp)
      (he : (s.frames.render rig.chunk).1.isEmpty = true)
      (hf : (s.frames.render rig.chunk).1.finished = false) :
    Playback rig s { s with
      frames := (s.frames.render rig.chunk).2, player := .testing stamp }
  | hear {c : Call} {rest : List Call} (hp : s.player.hears = true) (hg : s.isGated = false)
      (hh : s.held = c :: rest) :
    Playback rig s { s with
      slot := { s.slot with output := rest }, log := s.log ++ s.reports c }
  | feed {stamp : Stamp} {chunk : Frame.Chunk} {samples : List Int16} {failed : Bool}
      {calls : List Call} (hp : s.player = .delivering stamp chunk) (hg : s.isGated = false)
      (hm : s.makesRoom rig = false) (hl : s.speaking = true) (hc : s.generation = stamp)
      (hs : samples = if s.fadeArmed && !chunk.samples.isEmpty then
        Output.fadeIn rig.ramp chunk.samples else chunk.samples)
      (hf : failed = rig.feedFails s.feeds)
      (hk : calls = if failed || chunk.markers.isEmpty then [] else [⟨stamp, chunk.markers⟩]) :
    Playback rig s { s with
      slot := { s.slot with output := s.held ++ calls }
      log := s.log ++ [.fed samples (!chunk.markers.isEmpty) failed]
      fadeArmed := s.fadeArmed && !(s.fadeArmed && !chunk.samples.isEmpty)
      feeds := s.feeds + 1
      handed := s.handed ++ [chunk]
      player := if chunk.finished then .draining stamp else .checking stamp }
  | discard {stamp : Stamp} {chunk : Frame.Chunk} (hp : s.player = .delivering stamp chunk)
      (hl : s.isLive stamp = false) :
    Playback rig s { s with player := .waiting }
  | endJob {stamp : Stamp} (hp : s.player = .testing stamp) (hq : s.allQueued = true) :
    Playback rig s { s with player := .draining stamp }
  | await {stamp : Stamp} (hp : s.player = .testing stamp) (hq : s.allQueued = false) :
    Playback rig s { s with player := .polling stamp }
  | putOff {stamp other : Stamp} {rest : List Signal} (hp : s.player = .polling stamp)
      (hx : s.signals = .play other :: rest) :
    Playback rig s { s with
      deferred := s.deferred ++ [.play other], signals := rest, player := .checking stamp }
  | lookAgain {stamp : Stamp} {rest : List Signal} (hp : s.player = .polling stamp)
      (hx : s.signals = .framesReady :: rest) :
    Playback rig s { s with signals := rest, player := .checking stamp }
  | quit {stamp : Stamp} {rest : List Signal} (hp : s.player = .polling stamp)
      (hx : s.signals = .shutdown :: rest) :
    Playback rig s { s with signals := rest, player := .stopped }
  | idle {stamp : Stamp} {failed : Bool} (hp : s.player = .draining stamp)
      (hf : failed = rig.idleFails s.idles) :
    Playback rig s { s with
      idles := s.idles + 1
      log := s.log ++ [.idled failed]
      player := if failed then .completing stamp else .idling stamp }
  | idled {stamp : Stamp} (hp : s.player = .idling stamp) (hh : s.held = []) :
    Playback rig s { s with player := .completing stamp }
  | conclude {stamp : Stamp} (hp : s.player = .completing stamp) (hg : s.isGated = false)
      (hl : s.speaking = true) (hc : s.generation = stamp) :
    Playback rig s { s with
      speaking := false, fadeArmed := true, player := .waiting, log := s.log ++ [.done] }
  | forget {stamp : Stamp} (hp : s.player = .completing stamp) (hl : s.isLive stamp = false) :
    Playback rig s { s with player := .waiting }

namespace Session

variable {rig : Rig} {s t : Session}

theorem isCurrent_iff {stamp : Stamp} : s.isCurrent stamp = true ↔ s.generation = stamp := by
  simp [isCurrent]

theorem isLive_iff {stamp : Stamp} :
    s.isLive stamp = true ↔ s.speaking = true ∧ s.generation = stamp := by
  simp [isLive, isCurrent]

theorem put_cases {p q : Progress} {task : Task} {tasks rest : List Task} {f : Frame}
    (hw : s.synthesizer = .working p (task :: tasks)) (hq : q.stamp = p.stamp)
    (he : Emits p tasks task q f rest) : Synthesis rig s (s.put q f rest) := by
  unfold put
  split
  · rename_i hc
    rw [isCurrent_iff, hq] at hc
    exact .put hw hc he
  · rename_i hc
    rw [isCurrent_iff, hq] at hc
    exact .abandon hw hc

theorem carryOut_cases {p : Progress} {task : Task} {tasks : List Task}
    (hw : s.synthesizer = .working p (task :: tasks))
    (hg : task = .kick → s.isGated = false) :
    Synthesis rig s (s.carryOut rig p task tasks) := by
  cases task with
  | lowerAllQueued => exact .lower hw
  | block b =>
    simp only [carryOut]
    split
    · rename_i hc
      exact .block hw (isCurrent_iff.mp hc)
    · rename_i hc
      exact .abandon hw (by rwa [isCurrent_iff] at hc)
  | clause prosody c =>
    simp only [carryOut]
    cases he : rig.engine s.requests (rig.request p.settings.voice prosody c) with
    | error fault =>
      simp only [Rig.request] at he
      simp only [he]
      exact .refused hw he
    | ok frames =>
      simp only [Rig.request] at he
      simp only [he]
      exact .answered hw he
  | stream pause shaper frames =>
    simp only [carryOut]
    split
    · rename_i f next rest hn
      exact put_cases hw rfl (.stream hn)
    · rename_i next rest hn
      exact .exhaust hw hn
  | marker m first =>
    exact put_cases hw rfl (.marker rfl)
  | frame f =>
    exact put_cases hw rfl .frame
  | kick =>
    simp only [carryOut]
    split
    · rename_i hc
      exact .kick hw (hg rfl) (isCurrent_iff.mp hc)
    · rename_i hc
      exact .withhold hw (by rwa [isCurrent_iff] at hc)
  | signal x => exact .signal hw
  | raiseAllQueued => exact .raise hw

theorem synthesize?_cases (h : s.synthesize? rig = some t) : Synthesis rig s t := by
  unfold synthesize? at h
  split at h
  · rename_i hi
    unfold JobQueue.pop at h
    split at h
    · rename_i job jobs hpop
      split at hpop
      · simp at hpop
      · rename_i hc
        split at hpop
        · simp at hpop
        · rename_i job' rest hj
          simp only [Prod.mk.injEq, Popped.job.injEq] at hpop
          obtain ⟨rfl, rfl⟩ := hpop
          obtain rfl := Option.some.inj h
          exact .fetch hi (by simpa using hc) hj
    · simp at h
    · rename_i hpop
      obtain rfl := Option.some.inj h
      split at hpop
      · rename_i hc
        exact .exit hi hc
      · split at hpop <;> simp at hpop
  · rename_i job hf
    obtain rfl := Option.some.inj h
    unfold begin
    split
    · rename_i hc
      exact .begin hf (isCurrent_iff.mp hc)
    · rename_i hc
      exact .drop hf (by rwa [isCurrent_iff] at hc)
  · rename_i hw
    obtain rfl := Option.some.inj h
    exact .finish hw
  · rename_i p task tasks hw
    split at h
    · simp at h
    · rename_i hg
      obtain rfl := Option.some.inj h
      refine carryOut_cases hw fun hk => ?_
      simpa [hk] using hg
  · simp at h

theorem refresh_cases {stamp : Stamp} (hp : s.player = .opening stamp) :
    Playback rig s { s.refresh rig with player := .checking stamp } := by
  by_cases hs : s.slot.active = s.slot.requested ∨ s.slot.failed = some s.slot.requested
  · simpa [refresh, Output.Slot.refresh, hs, report] using
      (.keepDevice hp hs : Playback rig s _)
  · cases hf : rig.factory s.opens s.slot.requested s.slot.rate with
    | error fault =>
      simpa [refresh, Output.Slot.refresh, hs, Rig.openDevice, hf, Except.map, report,
        Event.ofAction] using (.missDevice hp hf : Playback rig s _)
    | ok u =>
      simpa [refresh, Output.Slot.refresh, hs, Rig.openDevice, hf, Except.map, report,
        Event.ofAction] using (.switchDevice hp hf : Playback rig s _)

theorem render_cases {stamp : Stamp} (hp : s.player = .rendering stamp) :
    Playback rig s (s.render rig stamp) := by
  unfold render
  cases he : (s.frames.render rig.chunk).1.isEmpty with
  | false => simpa [he] using (.render hp he : Playback rig s _)
  | true =>
    cases hf : (s.frames.render rig.chunk).1.finished with
    | false => simpa [he, hf] using (.renderNone hp he hf : Playback rig s _)
    | true => simpa [he, hf] using (.renderEnd hp he hf : Playback rig s _)

theorem answer_eq (c : Call) : s.answer c = { s with log := s.log ++ s.reports c } := by
  simp [answer, report, reports, isCurrent]

theorem makeCall_cases (hp : s.player.hears = true) (hg : s.isGated = false)
    (hh : s.held.isEmpty = false) : Playback rig s s.makeCall := by
  unfold makeCall
  split
  · rename_i hc
    simp [hc] at hh
  · rename_i c rest hc
    rw [answer_eq]
    exact .hear hp hg hc

theorem feed_cases {stamp : Stamp} {chunk : Frame.Chunk} (hp : s.player = .delivering stamp chunk)
    (hg : s.isGated = false) (hm : s.makesRoom rig = false) :
    Playback rig s (s.feed rig stamp chunk) := by
  unfold feed
  split
  · rename_i hl
    obtain ⟨hl, hc⟩ := isLive_iff.mp hl
    have h : Playback rig s _ := .feed hp hg hm hl hc rfl rfl rfl
    cases hf : rig.feedFails s.feeds <;> cases hk : chunk.markers.isEmpty <;>
      simpa [hf, hk, hold, report] using h
  · rename_i hl
    exact .discard hp (by simpa using hl)

theorem play?_cases (h : s.play? rig = some t) : Playback rig s t := by
  unfold play? at h
  split at h
  · rename_i hp
    split at h
    · rename_i x rest hd
      obtain rfl := Option.some.inj h
      cases x with
      | play stamp => exact .turnTo hp (.inl ⟨hd, rfl⟩)
      | framesReady => exact .disregard hp (.inl ⟨hd, rfl⟩)
      | shutdown => exact .leave hp (.inl ⟨hd, rfl⟩)
    · rename_i x rest hd hx
      obtain rfl := Option.some.inj h
      cases x with
      | play stamp => simpa [receive, hd] using (.turnTo hp (.inr ⟨hd, rfl, hx⟩) : Playback rig s _)
      | framesReady =>
        simpa [receive, hd] using (.disregard hp (.inr ⟨hd, rfl, hx⟩) : Playback rig s _)
      | shutdown => simpa [receive, hd] using (.leave hp (.inr ⟨hd, rfl, hx⟩) : Playback rig s _)
    · simp at h
  · rename_i stamp hp
    split at h
    · simp at h
    · rename_i hg
      obtain rfl := Option.some.inj h
      unfold Session.takeUp
      split
      · rename_i hc
        exact .takeUp hp (by simpa using hg) (isCurrent_iff.mp hc)
      · rename_i hc
        exact .decline hp (by rwa [isCurrent_iff] at hc)
  · rename_i stamp hp
    obtain rfl := Option.some.inj h
    exact refresh_cases hp
  · rename_i stamp hp
    obtain rfl := Option.some.inj h
    split
    · rename_i hl
      exact .look hp (isLive_iff.mp hl).1 (isLive_iff.mp hl).2
    · rename_i hl
      exact .lapse hp (by simpa using hl)
  · rename_i stamp hp
    obtain rfl := Option.some.inj h
    exact render_cases hp
  · rename_i stamp chunk hp
    split at h
    · simp at h
    · rename_i hg
      split at h
      · rename_i hm
        obtain rfl := Option.some.inj h
        simp only [makesRoom, Bool.and_eq_true, Bool.not_eq_true'] at hm
        exact makeCall_cases (by simp [hp, Player.hears]) (by simpa using hg) hm.2
      · rename_i hm
        obtain rfl := Option.some.inj h
        exact feed_cases hp (by simpa using hg) (by simpa using hm)
  · rename_i stamp hp
    obtain rfl := Option.some.inj h
    split
    · rename_i hq
      exact .endJob hp hq
    · rename_i hq
      exact .await hp (by simpa using hq)
  · rename_i stamp hp
    split at h
    · rename_i x rest hx
      obtain rfl := Option.some.inj h
      cases x with
      | play other => exact .putOff hp hx
      | framesReady => exact .lookAgain hp hx
      | shutdown => exact .quit hp hx
    · simp at h
  · rename_i stamp hp
    obtain rfl := Option.some.inj h
    exact .idle hp rfl
  · rename_i stamp hp
    split at h
    · rename_i hh
      obtain rfl := Option.some.inj h
      exact .idled hp (by simpa using hh)
    · rename_i hh
      split at h
      · simp at h
      · rename_i hg
        obtain rfl := Option.some.inj h
        exact makeCall_cases (by simp [hp, Player.hears]) (by simpa using hg) (by simpa using hh)
  · rename_i stamp hp
    split at h
    · simp at h
    · rename_i hg
      obtain rfl := Option.some.inj h
      unfold Session.conclude
      split
      · rename_i hl
        exact .conclude hp (by simpa using hg) (isLive_iff.mp hl).1 (isLive_iff.mp hl).2
      · rename_i hl
        exact .forget hp (by simpa using hl)
  · simp at h

theorem call?_cases {c : HostCall} (h : s.call? rig c = some t) :
    s.host = [] ∧ Calling rig s c t := by
  unfold call? at h
  split at h
  · simp at h
  · rename_i hh
    refine ⟨by simpa using hh, ?_⟩
    obtain rfl := Option.some.inj h
    cases c with
    | speak commands paged =>
      simp only [submit]
      split
      · rename_i he
        exact .ignore he
      · rename_i ho
        exact .speak (by simpa using ho)
    | cancel => exact .cancel
    | terminate =>
      simp only
      split
      · rename_i he
        exact .ignore he
      · rename_i ho
        exact .terminate (by simpa using ho)
    | pause on => exact .pause
    | request device => exact .request
    | configure settings => exact .configure

end Session

/-- What a step does. -/
inductive Step (rig : Rig) (s : Session) : Act → Session → Prop where
  | call {c : HostCall} {t : Session} (hh : s.host = []) (h : Calling rig s c t) :
    Step rig s (.call c) t
  | proceed {task : HostTask} {rest : List HostTask} (hh : s.host = task :: rest) :
    Step rig s .proceed { s.perform rig task with host := rest }
  | synthesize {t : Session} (h : Synthesis rig s t) : Step rig s .synthesize t
  | play {t : Session} (h : Playback rig s t) : Step rig s .play t
  | expire {stamp : Stamp} (hp : s.player = .polling stamp) :
    Step rig s .expire { s with player := .checking stamp }
  | sound {c : Call} {rest : List Call} (hg : s.isGated = false) (hh : s.held = c :: rest) :
    Step rig s .sound { s with
      slot := { s.slot with output := rest }, log := s.log ++ s.reports c }
  | callBack {i : Nat} {c : Call} (hg : s.isGated = false) (hi : s.shelved[i]? = some c) :
    Step rig s (.callBack i) { s with
      shelved := s.shelved.eraseIdx i, log := s.log ++ s.reports c }

namespace Session

variable {rig : Rig} {s t : Session} {a : Act}

theorem step?_cases (h : s.step? rig a = some t) : Step rig s a t := by
  cases a with
  | call c =>
    obtain ⟨hh, hc⟩ := call?_cases h
    exact .call hh hc
  | proceed =>
    simp only [step?, proceed?] at h
    split at h
    · simp at h
    · rename_i task rest hh
      obtain rfl := Option.some.inj h
      exact .proceed hh
  | synthesize => exact .synthesize (synthesize?_cases h)
  | play => exact .play (play?_cases h)
  | expire =>
    simp only [step?, expire?] at h
    split at h
    · rename_i stamp hp
      obtain rfl := Option.some.inj h
      exact .expire hp
    · simp at h
  | sound =>
    simp only [step?, sound?] at h
    split at h
    · simp at h
    · rename_i hs
      simp only [Bool.or_eq_true, not_or, Bool.not_eq_true] at hs
      obtain rfl := Option.some.inj h
      unfold makeCall
      split
      · rename_i hh
        simp [hh] at hs
      · rename_i c rest hh
        rw [answer_eq]
        exact .sound hs.2 hh
  | callBack i =>
    simp only [step?, callBack?] at h
    split at h
    · simp at h
    · rename_i hg
      obtain ⟨c, hi, rfl⟩ := Option.map_eq_some_iff.mp h
      rw [answer_eq]
      exact .callBack (by simpa using hg) hi

theorem step?_of_wholeStep? (h : s.wholeStep? rig a = some t) : s.step? rig a = some t := by
  unfold wholeStep? at h
  split at h
  · simp at h
  · exact h

/-- In a whole run a look at the queue is only gone on with. -/
theorem isPlay_of_isLooking (h : s.wholeStep? rig a = some t) (hl : s.isLooking = true) :
    a = .play := by
  unfold wholeStep? at h
  split at h
  · simp at h
  · rename_i ha
    cases a <;> simp_all [Act.isPlay]

end Session

end Elocution.Speech
