import Elocution.Proofs.Frame.Utterance
import Elocution.Proofs.Session.Onset
import Elocution.Proofs.Session.Patience

/-!
# Utterances

If no job is rendered before it is queued to its end, each utterance is fed as if it had been
rendered in one piece: its markers are reported, and its audio is ramped up from silence and handed
over, cut into chunks that are full but for the last.
-/

namespace Elocution.Speech

def Event.audio : Event → List Int16
  | .fed samples _ _ => samples
  | _ => []

/-- The audio that has been fed. -/
def audio (events : List Event) : List Int16 := events.flatMap Event.audio

/-- The events of each utterance that is done, and those since. -/
def sections (log : List Event) : List (List Event) × List Event :=
  log.foldl (fun u e => if e = .done then (u.1 ++ [u.2 ++ [e]], []) else (u.1, u.2 ++ [e]))
    ([], [])

section Sections

variable {log more : List Event} {e : Event}

theorem sections_done :
    sections (log ++ [.done]) = ((sections log).1 ++ [(sections log).2 ++ [.done]], []) := by
  simp [sections]

theorem sections_concat (h : e ≠ .done) :
    sections (log ++ [e]) = ((sections log).1, (sections log).2 ++ [e]) := by
  simp [sections, h]

theorem sections_append (h : ∀ e ∈ more, e ≠ .done) :
    sections (log ++ more) = ((sections log).1, (sections log).2 ++ more) := by
  induction more generalizing log with
  | nil => simp
  | cons e rest ih =>
    obtain ⟨he, hrest⟩ := List.forall_mem_cons.mp h
    rw [List.append_cons, ih hrest, sections_concat he, List.append_assoc, List.singleton_append]

theorem flatten_sections (log : List Event) :
    (sections log).1.flatten ++ (sections log).2 = log := by
  induction log using List.reverseRecOn with
  | nil => rfl
  | append_singleton log e ih =>
    by_cases he : e = .done
    · rw [he, sections_done, List.flatten_concat, List.append_nil, ← List.append_assoc, ih]
    · rw [sections_concat he, ← List.append_assoc, ih]

theorem length_sections : (sections log).1.length = log.count .done := by
  induction log using List.reverseRecOn with
  | nil => rfl
  | append_singleton log e ih =>
    by_cases he : e = .done
    · rw [he, sections_done, List.length_append, ih, List.count_append,
        List.count_singleton_self]
      rfl
    · rw [sections_concat he, ih, List.count_append, List.count_singleton, if_neg (by simpa),
        Nat.add_zero]

theorem audio_append : audio (log ++ more) = audio log ++ audio more := List.flatMap_append

theorem audio_of_not_fed (h : ∀ e ∈ more, e.isFed = false) : audio more = [] := by
  refine List.flatMap_eq_nil_iff.mpr fun e he => ?_
  cases e with
  | fed => exact absurd (h _ he) (by simp [Event.isFed])
  | _ => rfl

end Sections

/-- The events of an utterance tell of it in one piece. -/
structure Conveys (rig : Rig) (events : List Event) (c : Frame.Chunk) : Prop where
  told : events.filterMap Event.note? = c.marks
  length : (audio events).length = c.samples.length
  audio : rig.ramp ≤ rig.chunk → audio events = Output.fadeIn rig.ramp c.samples

/-- The end of the job that the player is at has been handed over. -/
def Player.isPast : Player → Bool
  | .draining _ | .idling _ | .completing _ => true
  | _ => false

/-- The player has found nothing to render of a job that has not ended. -/
def Player.lacks : Player → Bool
  | .testing _ | .polling _ => true
  | _ => false

/-- What has been handed over of an utterance, with the chunk that the player holds. -/
def Player.front (p : Player) (now : Frame.Chunk) : Frame.Chunk := p.chunk?.elim now now.join

namespace Session

/-- A step other than one that renders some of a job which is not queued to its end. -/
def ripeStep? (rig : Rig) (a : Act) (s : Session) : Option Session :=
  match a, s.player with
  | .play, .rendering _ => if s.frames.ends = 0 then none else s.play? rig
  | _, _ => s.step? rig a

variable {rig : Rig} {s t : Session} {a : Act}

theorem step?_of_ripeStep? (h : s.ripeStep? rig a = some t) : s.step? rig a = some t := by
  unfold ripeStep? at h
  split at h
  · split at h
    · cases h
    · exact h
  · exact h

theorem ends_pos_of_ripeStep? {stamp : Stamp} (h : s.ripeStep? rig .play = some t)
    (hp : s.player = .rendering stamp) : 0 < s.frames.ends := by
  by_contra hz
  simp [ripeStep?, hp, Nat.eq_zero_of_not_pos hz] at h

/-- The events of each utterance that is done. -/
def utterances (s : Session) : List (List Event) := (sections s.log).1

/-- Nothing is rendered but of jobs that are queued to their end. -/
structure Ripe (s : Session) : Prop where
  flowing : s.Flowing
  lasts : s.Open
  delivered : s.Delivered
  heard : s.Heard
  first : s.generation = 0
  supplied : s.player.lacks = false

/-- A player that renders some of a job whose end is in the buffer finds some. -/
theorem lacks_of_ripeStep? (h : s.ripeStep? rig a = some t) (hs : s.player.lacks = false) :
    t.player.lacks = false := by
  cases step?_cases (step?_of_ripeStep? h) with
  | call hh hc => cases hc <;> exact hs
  | @proceed task rest hh => exact (player_perform rig s task).symm ▸ hs
  | synthesize hw => cases hw <;> exact hs
  | play hp =>
    cases hp with
    | renderNone hp he hf =>
      exact absurd he
        (Frame.Queue.render_ne_empty_of_ends rig.chunk_pos (ends_pos_of_ripeStep? h hp) hf)
    | await hp => simp [hp, Player.lacks] at hs
    | @feed stamp chunk => cases chunk.finished <;> rfl
    | @idle stamp failed => cases failed <;> rfl
    | hear => exact hs
    | disregard => exact hs
    | _ => rfl
  | expire => rfl
  | sound => exact hs
  | callBack => exact hs

theorem patientStep?_of_ripeStep? (h : s.ripeStep? rig a = some t)
    (hs : s.player.lacks = false) : s.patientStep? rig a = some t := by
  have htest : s.isTesting = false := by
    unfold isTesting
    split
    · rename_i hp
      simp [hp, Player.lacks] at hs
    · rfl
  simp [patientStep?, isHasty, htest, step?_of_ripeStep? h]

/-- Where nothing is lacking jobs flow, though other parties may break into looks. -/
theorem Uncut.flowing_of_supplied {begun : List (VoiceSettings × Saying)} {waiting : List Saying}
    (h : s.Uncut rig begun waiting) (hs : s.player.lacks = false) : s.Flowing := by
  cases hp : s.player with
  | rendering stamp => exact h.flowing_of_rendering hp
  | testing stamp => simp [hp, Player.lacks] at hs
  | _ => exact h.flowing.of_anew (by simp [isLooking, hp])

/-- The utterances that have been rendered to their end are `said`, and `now` has been handed over
of the next one; what has been told and fed is theirs, but for the markers that the device holds. -/
structure Uttering (rig : Rig) (said : List Frame.Chunk) (now : Frame.Chunk) (s : Session) :
    Prop where
  front : (Frame.Queue.enqueueAll s.queued { rate := rig.rate }).playOut =
    (Frame.Recording.ofChunks said ++ (s.player.front now).recording).before s.frames.playOut
  finished : ∀ c ∈ said, c.finished = true
  isPast : now.finished = s.player.isPast
  conveyed : List.Forall₂ (Conveys rig) s.utterances said
  told : (sections s.log).2.filterMap Event.note? ++ s.heldMarkers.map some = now.markers.map some
  length : (audio (sections s.log).2).length = now.samples.length
  audio : rig.ramp ≤ rig.chunk →
    audio (sections s.log).2 = Output.fadeIn rig.ramp now.samples
  armed : s.fadeArmed = now.samples.isEmpty
  full : now.finished = false → now.samples ≠ [] → rig.chunk ≤ now.samples.length
  grain : ∀ c, s.player.chunk? = some c → c.finished = false → rig.chunk ≤ c.samples.length

namespace Uttering

variable {said : List Frame.Chunk} {now : Frame.Chunk}

/-- Nothing is fed, and what is told has been held by the device. -/
theorem tell (h : s.Uttering rig said now) {events : List Event} {slot : Output.Slot Device}
    (he : ∀ e ∈ events, e.isFed = false ∧ e ≠ .done)
    (ht : events.filterMap Event.note? ++ (slot.output.flatMap Call.markers).map some =
      s.heldMarkers.map some) :
    Uttering rig said now { s with slot := slot, log := s.log ++ events } := by
  have hsections : sections (s.log ++ events) =
      ((sections s.log).1, (sections s.log).2 ++ events) :=
    sections_append fun e hm => (he e hm).2
  have haudio : Speech.audio ((sections s.log).2 ++ events) = Speech.audio (sections s.log).2 := by
    rw [audio_append, audio_of_not_fed fun e hm => (he e hm).1, List.append_nil]
  refine { h with conveyed := ?_, told := ?_, length := ?_, audio := fun hramp => ?_ }
  · rw [utterances, hsections]
    exact h.conveyed
  · rw [hsections, List.filterMap_append, List.append_assoc, ← h.told, ← ht]
    rfl
  · rw [hsections, haudio]
    exact h.length
  · rw [hsections, haudio]
    exact h.audio hramp

/-- What is reported is neither told nor fed. -/
theorem note (h : s.Uttering rig said now) {events : List Event} {slot : Output.Slot Device}
    (he : ∀ e ∈ events, e.isFed = false ∧ e.note? = none) (ho : slot.output = s.held) :
    Uttering rig said now { s with slot := slot, log := s.log ++ events } := by
  apply h.tell
  · refine fun e hm => ⟨(he e hm).1, ?_⟩
    rintro rfl
    exact absurd (he _ hm).2 (by rintro ⟨⟩)
  · rw [List.filterMap_eq_nil_iff.mpr fun e hm => (he e hm).2, ho]
    rfl

/-- The device makes its first call. -/
theorem hear (h : s.Uttering rig said now) {c : Call} {rest : List Call}
    (hd : s.Stamped (· ≤ s.generation)) (hz : s.generation = 0) (hh : s.held = c :: rest) :
    Uttering rig said now
      { s with slot := { s.slot with output := rest }, log := s.log ++ s.reports c } := by
  apply h.tell (reports_quiet c)
  rw [reports_of_zero hd hz hh, heldMarkers, hh, List.flatMap_cons, List.filterMap_map,
    List.map_append]
  exact congrArg (· ++ _) (congrFun List.filterMap_eq_map c.markers)

/-- The player goes on with its job, without a chunk in hand. -/
theorem goOn (h : s.Uttering rig said now) (p : Player) (hs : s.player.chunk? = none)
    (hp : p.chunk? = none) (hpast : p.isPast = s.player.isPast) :
    Uttering rig said now { s with player := p } := by
  have hfront : p.front now = s.player.front now := by rw [Player.front, Player.front, hs, hp]
  refine { h with front := ?_, isPast := h.isPast.trans hpast.symm, grain := fun c hc => ?_ }
  · rw [hfront]
    exact h.front
  · rw [hp] at hc
    cases hc

theorem synthesis (h : s.Uttering rig said now) (hst : Synthesis rig s t) :
    t.Uttering rig said now := by
  cases hst with
  | @put p q task tasks rest f hw hc he =>
    refine { h with front := ?_ }
    rw [Frame.Queue.enqueueAll_concat]
    exact Frame.Queue.playOut_enqueue h.front f
  | _ => exact { h with }

/-- The player renders: the chunk comes after what it has handed over. -/
theorem render (h : s.Uttering rig said now) {stamp : Stamp} (hp : s.player = .rendering stamp) :
    (Frame.Queue.enqueueAll s.queued { rate := rig.rate }).playOut =
      (Frame.Recording.ofChunks said ++ (now.join (s.frames.render rig.chunk).1).recording).before
        (s.frames.render rig.chunk).2.playOut := by
  have hopen : now.finished = false := h.isPast.trans (by rw [hp]; rfl)
  have hfront := h.front
  have hnow : s.player.front now = now := by rw [hp]; rfl
  rw [hnow, s.frames.playOut_render rig.chunk, Frame.Recording.before_before,
    Frame.Recording.append_assoc, ← Frame.Chunk.recording_join hopen] at hfront
  exact hfront

/-- The chunk that the player holds is handed to the device. -/
theorem feed (h : s.Uttering rig said now) {stamp : Stamp} {chunk : Frame.Chunk}
    {samples : List Int16} {calls : List Call} (hp : s.player = .delivering stamp chunk)
    (hs : samples = if s.fadeArmed && !chunk.samples.isEmpty then
      Output.fadeIn rig.ramp chunk.samples else chunk.samples)
    (hk : calls.flatMap Call.markers = chunk.markers) :
    Uttering rig said (now.join chunk) { s with
      slot := { s.slot with output := s.held ++ calls }
      log := s.log ++ [.fed samples (!chunk.markers.isEmpty) false]
      fadeArmed := s.fadeArmed && !(s.fadeArmed && !chunk.samples.isEmpty)
      feeds := s.feeds + 1
      handed := s.handed ++ [chunk]
      player := if chunk.finished then .draining stamp else .checking stamp } := by
  have hopen : now.finished = false := h.isPast.trans (by rw [hp]; rfl)
  have hnone : (if chunk.finished then Player.draining stamp else .checking stamp).chunk? =
      none := by cases chunk.finished <;> rfl
  have hsections : sections (s.log ++ [.fed samples (!chunk.markers.isEmpty) false]) =
      ((sections s.log).1, (sections s.log).2 ++ [.fed samples (!chunk.markers.isEmpty) false]) :=
    sections_concat (by rintro ⟨⟩)
  have haudio : Speech.audio ((sections s.log).2 ++
      [.fed samples (!chunk.markers.isEmpty) false]) =
        Speech.audio (sections s.log).2 ++ samples := by
    rw [audio_append]
    simp [Speech.audio, Event.audio]
  have hlen : samples.length = chunk.samples.length := by
    rw [hs]
    split
    · exact Output.length_fadeIn ..
    · rfl
  refine ⟨?_, h.finished, ?_, ?_, ?_, ?_, fun hramp => ?_, ?_, fun hfin _ => ?_, fun c hc => ?_⟩
  · have hfront := h.front
    rw [hp] at hfront
    simp only [Player.front, hnone]
    exact hfront
  · cases hfin : chunk.finished <;> simp [Frame.Chunk.join, hfin, Player.isPast]
  · rw [utterances, hsections]
    exact h.conveyed
  · have htold := h.told
    simp only [hsections, heldMarkers, held, List.filterMap_append, List.flatMap_append, hk,
      Frame.Chunk.join, List.map_append, ← htold, List.append_assoc]
    rfl
  · rw [hsections, haudio, List.length_append, h.length, hlen, Frame.Chunk.join,
      List.length_append]
  · -- Only the first chunk with samples is ramped up, and the ramp ends within it.
    rw [hsections, haudio, h.audio hramp, hs, h.armed, Frame.Chunk.join]
    by_cases hnow : now.samples = []
    · rw [hnow]
      cases chunk.samples <;> rfl
    · have hfull := h.full hopen hnow
      rw [Output.fadeIn_append (hramp.trans hfull), List.isEmpty_eq_false_iff.mpr hnow]
      rfl
  · simp only [h.armed, Frame.Chunk.join]
    cases now.samples <;> cases chunk.samples <;> rfl
  · have hgrain := h.grain chunk (by rw [hp]; rfl) hfin
    rw [Frame.Chunk.join, List.length_append]
    omega
  · rw [hnone] at hc
    cases hc

/-- An utterance is done when the device has made all calls. -/
theorem conclude (h : s.Uttering rig said now) {stamp : Stamp}
    (hp : s.player = .completing stamp) (hh : s.held = []) :
    Uttering rig (said ++ [now]) {} { s with
      speaking := false, fadeArmed := true, player := .waiting, log := s.log ++ [.done] } := by
  have hfin : now.finished = true := h.isPast.trans (by rw [hp]; rfl)
  have htold := h.told
  rw [heldMarkers, hh, List.flatMap_nil, List.map_nil, List.append_nil] at htold
  have haudio : Speech.audio ((sections s.log).2 ++ [.done]) = Speech.audio (sections s.log).2 := by
    rw [audio_append]
    exact List.append_nil _
  have hlast : Conveys rig ((sections s.log).2 ++ [.done]) now := by
    refine ⟨?_, ?_, fun hramp => ?_⟩
    · rw [List.filterMap_append, htold, Frame.Chunk.marks, hfin]
      rfl
    · rw [haudio]
      exact h.length
    · rw [haudio]
      exact h.audio hramp
  refine ⟨?_, ?_, rfl, ?_, ?_, ?_, fun _ => ?_, rfl, fun _ hno => absurd rfl hno, by rintro _ ⟨⟩⟩
  · have hfront := h.front
    rw [hp] at hfront
    have hnext : Frame.Recording.ofChunks (said ++ [now]) ++ Frame.Chunk.recording {} =
        Frame.Recording.ofChunks said ++ now.recording := by
      rw [Frame.Recording.ofChunks_concat]
      exact Frame.Recording.append_empty _
    exact hfront.trans (congrArg (·.before s.frames.playOut) hnext.symm)
  · intro c hc
    rcases List.mem_append.mp hc with hc | hc
    · exact h.finished c hc
    · rw [List.mem_singleton.mp hc]
      exact hfin
  · rw [utterances, sections_done]
    exact List.rel_append h.conveyed (.cons hlast .nil)
  · have hnone : s.heldMarkers = [] := by rw [heldMarkers, hh, List.flatMap_nil]
    rw [sections_done]
    exact congrArg (List.map some) hnone
  · rw [sections_done]
    rfl
  · rw [sections_done]
    rfl

theorem playback (h : s.Uttering rig said now) (hr : s.Ripe) (hd : rig.Faultless)
    (hripe : ∀ stamp, s.player = .rendering stamp → 0 < s.frames.ends)
    (hst : Playback rig s t) : ∃ said' now', t.Uttering rig said' now' := by
  have hlacks {p : Player} (hp : s.player = p) (hl : p.lacks = true) : False := by
    simp [← hp, hr.supplied] at hl
  have hheld (hp : s.player.isSettled = true) : s.held = [] :=
    hr.heard.held_eq_nil hr.flowing.dated hr.first hp
  cases hst with
  | @turnTo stamp ds ss hp =>
    exact ⟨_, _, { h.goOn (.starting stamp) (by rw [hp]; rfl) rfl (by rw [hp]; rfl) with }⟩
  | disregard hp => exact ⟨_, _, { h with }⟩
  | leave hp hx => exact absurd (hx.mem_iff.mpr (.inl rfl)) hr.lasts.signals
  | @takeUp stamp hp =>
    exact ⟨_, _, { h.goOn (.opening stamp) (by rw [hp]; rfl) rfl (by rw [hp]; rfl) with }⟩
  | decline hp =>
    exact ⟨_, _, h.goOn .waiting (by rw [hp]; rfl) rfl (by rw [hp]; rfl)⟩
  | keepDevice hp =>
    exact ⟨_, _, h.goOn (.checking _) (by rw [hp]; rfl) rfl (by rw [hp]; rfl)⟩
  | @missDevice stamp fault hp =>
    have hnote : Uttering rig said now { s with
        slot := { s.slot with failed := some s.slot.requested }
        log := s.log ++ [.openFailed s.slot.requested] } :=
      h.note (List.forall_mem_singleton.mpr ⟨rfl, rfl⟩) rfl
    exact ⟨_, _, { hnote.goOn (.checking stamp) (by rw [hp]; rfl) rfl (by rw [hp]; rfl) with }⟩
  | @switchDevice stamp hp =>
    have hnote : Uttering rig said now { s with
        slot := { s.slot with active := s.slot.requested, output := [], failed := none }
        log := s.log ++ [.opened s.slot.requested, .stopped] } := by
      refine h.note (fun e he => ?_) (hheld (by rw [hp]; rfl)).symm
      rcases List.mem_pair.mp he with rfl | rfl
      · exact ⟨rfl, rfl⟩
      · exact ⟨rfl, rfl⟩
    exact ⟨_, _, { hnote.goOn (.checking stamp) (by rw [hp]; rfl) rfl (by rw [hp]; rfl) with }⟩
  | look hp => exact ⟨_, _, h.goOn (.rendering _) (by rw [hp]; rfl) rfl (by rw [hp]; rfl)⟩
  | lapse hp hl => exact absurd hl (hr.flowing.not_dropped hr.first (by rw [hp]; rfl))
  | @render stamp hp =>
    refine ⟨said, now, { h with
      front := h.render hp, isPast := h.isPast.trans (by rw [hp]; rfl)
      grain := fun c hc hfin => ?_ }⟩
    obtain rfl := Option.some.inj hc
    exact (Frame.Queue.length_render_of_ends (hripe stamp hp) hfin).ge
  | renderEnd hp he hfin =>
    -- The end of the utterance comes without any audio, and is not handed over.
    have hsamples : (now.join (s.frames.render rig.chunk).1).samples = now.samples := by
      rw [Frame.Chunk.join, (Frame.Chunk.isEmpty_iff.mp he).1, List.append_nil]
    have hmarkers : (now.join (s.frames.render rig.chunk).1).markers = now.markers := by
      rw [Frame.Chunk.join, (Frame.Chunk.isEmpty_iff.mp he).2, List.append_nil]
    refine ⟨said, now.join (s.frames.render rig.chunk).1, { h with
      front := h.render hp, isPast := hfin, told := ?_, length := ?_, audio := ?_, armed := ?_
      full := fun hno => absurd hfin (by simpa using hno), grain := by rintro _ ⟨⟩ }⟩
    · rw [hmarkers]
      exact h.told
    · rw [hsamples]
      exact h.length
    · rw [hsamples]
      exact h.audio
    · rw [hsamples]
      exact h.armed
  | renderNone hp he hfin =>
    exact absurd he (Frame.Queue.render_ne_empty_of_ends rig.chunk_pos (hripe _ hp) hfin)
  | hear hp hg hh => exact ⟨_, _, { h.hear hr.flowing.dated hr.first hh with }⟩
  | @feed stamp chunk samples failed calls hp hg hm hl hc hs hf hk =>
    rw [hd.feeds] at hf
    subst hf
    refine ⟨_, _, h.feed hp hs ?_⟩
    rw [hk]
    cases hempty : chunk.markers <;> simp
  | discard hp hl => exact absurd hl (hr.flowing.not_dropped hr.first (by rw [hp]; rfl))
  | endJob hp hq => exact (hlacks hp rfl).elim
  | await hp => exact (hlacks hp rfl).elim
  | putOff hp => exact (hlacks hp rfl).elim
  | lookAgain hp => exact (hlacks hp rfl).elim
  | quit hp hx => exact (hlacks hp rfl).elim
  | @idle stamp failed hp =>
    have hnote : Uttering rig said now { s with log := s.log ++ [.idled failed] } :=
      h.note (List.forall_mem_singleton.mpr ⟨rfl, rfl⟩) rfl
    refine ⟨_, _, { hnote.goOn (if failed then .completing stamp else .idling stamp)
      (by rw [hp]; rfl) ?_ ?_ with }⟩
    · cases failed <;> rfl
    · rw [hp]
      cases failed <;> rfl
  | idled hp => exact ⟨_, _, h.goOn (.completing _) (by rw [hp]; rfl) rfl (by rw [hp]; rfl)⟩
  | conclude hp => exact ⟨_, _, h.conclude hp (hheld (by rw [hp]; rfl))⟩
  | forget hp hl => exact absurd hl (hr.flowing.not_dropped hr.first (by rw [hp]; rfl))

theorem step (h : s.Uttering rig said now) (hr : s.Ripe) (hd : rig.Faultless)
    (hst : s.ripeStep? rig a = some t) (ha : a.isCancel = false) :
    ∃ said' now', t.Uttering rig said' now' := by
  cases step?_cases (step?_of_ripeStep? hst) with
  | call hh hc =>
    cases hc with
    | cancel => simp [Act.isCancel] at ha
    | terminate => simp [Act.isCancel] at ha
    | pause => exact ⟨_, _, h.note (List.forall_mem_singleton.mpr ⟨rfl, rfl⟩) rfl⟩
    | _ => exact ⟨_, _, { h with }⟩
  | proceed hh => simp [hr.flowing.host] at hh
  | synthesize hs => exact ⟨_, _, h.synthesis hs⟩
  | play hp => exact h.playback hr hd (fun _ => ends_pos_of_ripeStep? hst) hp
  | expire hp =>
    have hs := hr.supplied
    simp [hp, Player.lacks] at hs
  | sound hg hh => exact ⟨_, _, h.hear hr.flowing.dated hr.first hh⟩
  | callBack hg hi => simp [hr.heard.shelved_eq_nil hr.flowing.dated hr.first] at hi

/-- The utterances that are done are told from the frames that have been queued. -/
theorem said_inj {rig' : Rig} {said' : List Frame.Chunk} {now' : Frame.Chunk}
    (h : s.Uttering rig said now) (h' : t.Uttering rig' said' now') (hrate : rig.rate = rig'.rate)
    (hq : s.queued = t.queued) (hdone : s.done = t.done) :
    said = said' ∧ (s.player.front now).recording ++ s.frames.playOut.1 =
      (t.player.front now').recording ++ t.frames.playOut.1 := by
  have hlen : said.length = said'.length := by
    rw [← h.conveyed.length_eq, ← h'.conveyed.length_eq, utterances, utterances, length_sections,
      length_sections]
    exact hdone
  have hfront := congrArg Prod.fst h.front
  rw [hq, hrate, h'.front] at hfront
  simp only [Frame.Recording.before, Frame.Recording.append_assoc] at hfront
  exact Frame.Recording.ofChunks_append_inj h.finished h'.finished hlen hfront.symm

theorem map_eq {β : Type} {f : List Event → β} {g : Frame.Chunk → β}
    (h : s.Uttering rig said now) (hfg : ∀ events c, Conveys rig events c → f events = g c) :
    s.utterances.map f = said.map g := by
  rw [← List.forall₂_eq_eq_eq, List.forall₂_map_left_iff, List.forall₂_map_right_iff]
  exact h.conveyed.imp hfg

/-- What the host has been told, if the device holds no calls. -/
theorem notes_eq (h : s.Uttering rig said now) (hh : s.held = []) :
    s.notes = said.flatMap Frame.Chunk.marks ++ now.markers.map some := by
  have htold := h.told
  rw [heldMarkers, hh, List.flatMap_nil, List.map_nil, List.append_nil] at htold
  have hnotes := h.map_eq fun _ _ hc => hc.told
  rw [notes, ← flatten_sections s.log, List.filterMap_append, htold, List.filterMap_flatten,
    List.flatMap_def, ← hnotes, utterances]

/-- At rest the host has been told of the same, if what is done is the same. -/
theorem notes_eq_of_atRest {rig' : Rig} {now' : Frame.Chunk} (h : s.Uttering rig said now)
    (h' : t.Uttering rig' said now') (hr : s.Ripe) (hr' : t.Ripe) (hs : s.AtRest rig)
    (ht : t.AtRest rig')
    (hnow : (s.player.front now).recording ++ s.frames.playOut.1 =
      (t.player.front now').recording ++ t.frames.playOut.1) : s.notes = t.notes := by
  obtain ⟨-, -, hp, hclear⟩ := hr.flowing.clear_of_atRest hr.lasts hs
  obtain ⟨-, -, hp', hclear'⟩ := hr'.flowing.clear_of_atRest hr'.lasts ht
  have hheld : s.held = [] :=
    hr.heard.held_eq_nil hr.flowing.dated hr.first (by rw [hp]; rfl)
  have hheld' : t.held = [] :=
    hr'.heard.held_eq_nil hr'.flowing.dated hr'.first (by rw [hp']; rfl)
  rw [hp, hp', Frame.Queue.playOut_of_isClear hclear, Frame.Queue.playOut_of_isClear hclear',
    Frame.Recording.append_empty, Frame.Recording.append_empty] at hnow
  have hmarkers : now.markers = now'.markers := congrArg Frame.Recording.markers hnow
  rw [h.notes_eq hheld, h'.notes_eq hheld', hmarkers]

end Uttering

section Runs

variable {device : Option String} {settings : VoiceSettings} {acts : List Act}

theorem Run.patient_of_ripe (hr : Run (ripeStep? rig) s acts t)
    (h₀ : start rig device settings = .ok s) :
    Run (patientStep? rig) s acts t ∧ t.player.lacks = false := by
  induction hr with
  | refl =>
    obtain ⟨-, rfl⟩ := start_eq h₀
    exact ⟨.refl _, rfl⟩
  | tail _ ha ih =>
    obtain ⟨hr, hs⟩ := ih
    exact ⟨.tail hr (patientStep?_of_ripeStep? ha hs), lacks_of_ripeStep? ha hs⟩

theorem Run.ripe (hr : Run (ripeStep? rig) s acts t) (h₀ : start rig device settings = .ok s)
    (hn : rig.NeverEnds) (hd : rig.Faultless) (ha : ∀ a ∈ acts, a.isCancel = false) : t.Ripe := by
  have ripe {acts : List Act} {t : Session} (hr : Run (ripeStep? rig) s acts t)
      (ha : ∀ a ∈ acts, a.isCancel = false) (hheard : t.Heard) : t.Ripe := by
    obtain ⟨hpatient, hs⟩ := hr.patient_of_ripe h₀
    obtain ⟨begun, waiting, hu, -⟩ := hpatient.uncut h₀ hn ha
    exact ⟨hu.flowing_of_supplied hs, hu.lasts, hu.delivered, hheard, hu.first, hs⟩
  induction hr with
  | refl => exact ripe (.refl _) ha (cancelled_start h₀).heard
  | tail hr hst ih =>
    have h := ih fun b hb => ha b (by simp [hb])
    have hstep := step?_cases (step?_of_ripeStep? hst)
    exact ripe (.tail hr hst) ha (h.heard.step h.flowing h.lasts hd hstep (ha _ (by simp)))

/-- Each utterance that is done has been told and fed as if it had come in one piece. -/
theorem Run.uttering (hr : Run (ripeStep? rig) s acts t) (h₀ : start rig device settings = .ok s)
    (hn : rig.NeverEnds) (hd : rig.Faultless) (ha : ∀ a ∈ acts, a.isCancel = false) :
    ∃ said now, t.Uttering rig said now := by
  induction hr with
  | refl =>
    obtain ⟨-, rfl⟩ := start_eq h₀
    refine ⟨[], {}, ?_, by simp, rfl, .nil, rfl, rfl, fun _ => rfl, rfl,
      fun _ hno => absurd rfl hno, by rintro _ ⟨⟩⟩
    have hfirst : (initial rig device settings).queued = [] := rfl
    rw [hfirst, Frame.Queue.enqueueAll_nil]
    exact (Frame.Recording.empty_before _).symm
  | tail hr hst ih =>
    have hacts := fun b hb => ha b (List.mem_append_left _ hb)
    obtain ⟨said, now, h⟩ := ih hacts
    exact h.step (hr.ripe h₀ hn hd hacts) hd hst (ha _ (by simp))

/-- At rest each call has been an utterance. -/
theorem Run.length_utterances (hr : Run (ripeStep? rig) s acts t)
    (h₀ : start rig device settings = .ok s) (hn : rig.NeverEnds) (hd : rig.Faultless)
    (ha : ∀ a ∈ acts, a.isCancel = false) (hrest : t.AtRest rig) :
    t.utterances.length = (acts.filterMap Act.saying?).length := by
  obtain ⟨begun, waiting, hu, hall, -⟩ := (hr.patient_of_ripe h₀).1.uncut h₀ hn ha
  have h := hr.ripe h₀ hn hd ha
  obtain ⟨rfl, htold, -⟩ := hu.scored.atRest h.delivered h.flowing h.lasts hrest
  have hcount : (told t.log t.handed).count none = t.log.count .done := count_told
  rw [htold, Rig.count_notices] at hcount
  rw [utterances, length_sections, ← hcount, ← hall, List.append_nil, List.length_map]

end Runs

end Session

end Elocution.Speech
