import Elocution.Proofs.Session.Flow

/-!
# Delivery

What is queued is handed to a device in order and without a gap: the log and the chunks that have
been handed over, the chunk at hand and the frames in the buffer make up what has been queued. What
is reported follows this at a distance that depends on what the devices make of their calls.
-/

namespace Elocution.Speech

/-- What the host is told: a marker, or none for the end of an utterance. -/
def Event.note? : Event → Option (Option Marker)
  | .reached m => some (some m)
  | .done => some none
  | _ => none

def Event.isFed : Event → Bool
  | .fed .. => true
  | _ => false

/-- What has been handed over and done, in order, whether or not a device has taken it. -/
def told : List Event → List Frame.Chunk → List (Option Marker)
  | .fed .. :: log, c :: chunks => c.markers.map some ++ told log chunks
  | .done :: log, chunks => none :: told log chunks
  | _ :: log, chunks => told log chunks
  | [], _ => []

/-- What there is to report of the chunk, or of the end of the job, that the player is at. -/
def Player.turn : Player → List (Option Marker)
  | .delivering _ chunk => chunk.marks
  | .draining _ | .idling _ | .completing _ => [none]
  | _ => []

/-- The number of samples that are about to be handed over. -/
def Player.carries : Player → Nat
  | .delivering _ chunk => chunk.samples.length
  | _ => 0

/-- No audio is with a device that works. -/
def Player.isSettled : Player → Bool
  | .waiting | .starting _ | .opening _ | .completing _ => true
  | _ => false

/-- The devices take all audio and play it out. -/
structure Rig.Faultless (rig : Rig) : Prop where
  feeds : ∀ n, rig.feedFails n = false
  idles : ∀ n, rig.idleFails n = false

section Told

variable {log more : List Event} {chunks : List Frame.Chunk}

theorem told_append (h : ∀ e ∈ more, e.isFed = false ∧ e ≠ .done) :
    told (log ++ more) chunks = told log chunks := by
  induction log generalizing chunks with
  | nil =>
    induction more with
    | nil => rfl
    | cons e rest ih =>
      have hrest := ih fun e he => h e (List.mem_cons_of_mem _ he)
      obtain ⟨hfed, hdone⟩ := h e (List.mem_cons_self ..)
      cases e with
      | fed => simp [Event.isFed] at hfed
      | done => exact absurd rfl hdone
      | _ => exact hrest
  | cons e rest ih =>
    cases e with
    | fed samples withCall failed =>
      cases chunks with
      | nil => exact ih
      | cons c chunks => exact congrArg (c.markers.map some ++ ·) ih
    | done => exact congrArg (none :: ·) ih
    | _ => exact ih

theorem told_done : told (log ++ [.done]) chunks = told log chunks ++ [none] := by
  induction log generalizing chunks with
  | nil => rfl
  | cons e rest ih =>
    cases e with
    | fed samples withCall failed =>
      cases chunks with
      | nil => exact ih
      | cons c chunks => simp only [List.cons_append, told, ih, List.append_assoc]
    | done => exact congrArg (none :: ·) ih
    | _ => exact ih

theorem told_fed {samples : List Int16} {withCall failed : Bool} {c : Frame.Chunk}
    (h : log.countP Event.isFed = chunks.length) :
    told (log ++ [.fed samples withCall failed]) (chunks ++ [c]) =
      told log chunks ++ c.markers.map some := by
  induction log generalizing chunks with
  | nil =>
    obtain rfl : chunks = [] := List.eq_nil_of_length_eq_zero h.symm
    simp [told]
  | cons e rest ih =>
    cases e with
    | fed samples withCall failed =>
      cases chunks with
      | nil => simp [Event.isFed] at h
      | cons d chunks =>
        have hrest : rest.countP Event.isFed = chunks.length := by
          simpa [List.countP_cons, Event.isFed] using h
        simp only [List.cons_append, told, ih hrest, List.append_assoc]
    | done => exact congrArg (none :: ·) (ih (by simpa [List.countP_cons, Event.isFed] using h))
    | _ => exact ih (by simpa [List.countP_cons, Event.isFed] using h)

theorem count_told : (told log chunks).count none = log.count .done := by
  induction log generalizing chunks with
  | nil => rfl
  | cons e rest ih =>
    cases e with
    | fed samples withCall failed =>
      cases chunks with
      | nil => simpa [told] using ih
      | cons c chunks =>
        have hmarkers : (c.markers.map some).count none = 0 := by simp [List.count_eq_zero]
        rw [told, List.count_append, hmarkers, ih]
        simp
    | done => rw [told, List.count_cons_self, List.count_cons_self, ih]
    | _ => simpa [told] using ih

theorem reduceOption_told (h : log.countP Event.isFed = chunks.length) :
    (told log chunks).filterMap id = chunks.flatMap Frame.Chunk.markers := by
  induction log generalizing chunks with
  | nil =>
    obtain rfl : chunks = [] := List.eq_nil_of_length_eq_zero h.symm
    rfl
  | cons e rest ih =>
    cases e with
    | fed samples withCall failed =>
      cases chunks with
      | nil => simp [Event.isFed] at h
      | cons c chunks =>
        have hfed : rest.countP Event.isFed = chunks.length := by
          simpa [List.countP_cons, Event.isFed] using h
        rw [told, List.filterMap_append, ih hfed, List.filterMap_map, List.flatMap_cons]
        congr 1
        exact List.filterMap_some
    | done => exact ih (by simpa [List.countP_cons, Event.isFed] using h)
    | _ => exact ih (by simpa [List.countP_cons, Event.isFed] using h)

end Told

namespace Session

/-- What the host has been told. -/
def notes (s : Session) : List (Option Marker) := s.log.filterMap Event.note?

/-- The markers of the calls that the active device holds. -/
def heldMarkers (s : Session) : List Marker := s.held.flatMap Call.markers

/-- What has been queued is what has been handed over or done, what the player is at, and what is
in the buffer, in this order. -/
structure Delivered (s : Session) : Prop where
  feeds : s.log.countP Event.isFed = s.handed.length
  marks : s.queued.flatMap Frame.marks = told s.log s.handed ++ s.player.turn ++ s.frames.marks
  samples : (s.queued.map (Frame.samples s.frames.rate)).sum =
    (s.handed.map fun c => c.samples.length).sum + s.player.carries + s.frames.left
  buffer : s.frames.Holds s.queued
  /-- When the end of a job is at hand, the frame before those in the buffer is that end. -/
  parted : none ∈ s.player.turn →
    ∃ f : Frame, f.endsUtterance = true ∧ f :: s.frames.pending <:+ s.queued

/-- Devices that take all audio make their calls before the end of the job is reported, so that a
call of the present generation is one of the job that the player is at. -/
structure Heard (s : Session) : Prop where
  held : ∀ c ∈ s.held, c.stamp = s.generation →
    s.player.taken? = some s.generation ∧ s.player.isSettled = false
  shelved : ∀ c ∈ s.shelved, c.stamp ≠ s.generation

/-- Such devices have reported all that has been handed over, but for the calls that they hold. -/
def Prompt (s : Session) : Prop := told s.log s.handed = s.notes ++ s.heldMarkers.map some

/-- Devices that make no call after they have been stopped report markers in order, if at all. -/
structure Orderly (s : Session) : Prop where
  order : List.Sublist (s.reported ++ s.heldMarkers) ((told s.log s.handed).filterMap id)
  shelved : s.shelved = []

variable {rig : Rig} {s t : Session}

/-- A player that stands at a job stands at one of the present generation, the only one. -/
theorem Flowing.stamp_of_zero (h : s.Flowing) (hz : s.generation = 0) {stamp : Stamp}
    (hp : s.player.stamp? = some stamp) : s.generation = stamp := by
  have hle := h.dated.player stamp hp
  rw [hz] at hle ⊢
  exact (Nat.le_zero.mp hle).symm

/-- No job is dropped if there has been but one generation. -/
theorem Flowing.not_dropped (h : s.Flowing) (hz : s.generation = 0) {stamp : Stamp}
    (hp : s.player.taken? = some stamp) : s.isLive stamp ≠ false := by
  intro hl
  have hnone := h.not_live hp hl
  have hstamp := Player.stamp_of_taken hp
  rw [← h.stamp_of_zero hz hstamp] at hstamp
  simp [Player.owes_of_stamp hstamp] at hnone

theorem Delivered.synthesis (h : s.Delivered) (hst : Synthesis rig s t) : t.Delivered := by
  cases hst with
  | put hw hc he =>
    obtain ⟨hfeeds, hmarks, hsamples, hbuffer, hparted⟩ := h
    refine ⟨hfeeds, ?_, ?_, Frame.Queue.holds_enqueue hbuffer _, fun hend => ?_⟩
    · rw [List.flatMap_append, hmarks, Frame.Queue.marks_enqueue]
      simp
    · rw [Frame.Queue.left_enqueue, List.map_append, List.sum_append, Frame.Queue.rate_enqueue,
        hsamples]
      simp [Nat.add_assoc]
    · obtain ⟨f, hf, hs⟩ := hparted hend
      exact ⟨f, hf, List.suffix_append_self_iff.mpr hs⟩
  | _ => exact { h with }

/-- The player goes on without handing anything over. -/
theorem Delivered.move (h : s.Delivered) {events : List Event}
    (he : ∀ e ∈ events, e.isFed = false ∧ e ≠ .done) (hl : t.log = s.log ++ events)
    (hh : t.handed = s.handed) (hq : t.queued = s.queued) (hf : t.frames = s.frames)
    (ht : t.player.turn = s.player.turn) (hc : t.player.carries = s.player.carries) :
    t.Delivered := by
  obtain ⟨hfeeds, hmarks, hsamples, hbuffer, hparted⟩ := h
  have hnone : events.countP Event.isFed = 0 :=
    List.countP_eq_zero.mpr fun e hm => by simp [(he e hm).1]
  refine ⟨?_, ?_, ?_, ?_, ?_⟩
  · rw [hl, hh, List.countP_append, hnone, hfeeds, Nat.add_zero]
  · rw [hl, hh, hq, hf, ht, told_append he, hmarks]
  · rw [hh, hq, hf, hc, hsamples]
  · rw [hq, hf]
    exact hbuffer
  · rw [hq, hf, ht]
    exact hparted

/-- The player goes on and nothing is told. -/
theorem Delivered.still (h : s.Delivered) (hl : t.log = s.log) (hh : t.handed = s.handed)
    (hq : t.queued = s.queued) (hf : t.frames = s.frames) (ht : t.player.turn = s.player.turn)
    (hc : t.player.carries = s.player.carries) : t.Delivered :=
  h.move (List.forall_mem_nil _) (by rw [hl, List.append_nil]) hh hq hf ht hc

/-- The player takes a chunk from the buffer, or finds nothing in it. -/
theorem Delivered.render (h : s.Delivered) {p : Player} {room : Nat} (hs : s.player.turn = [])
    (hn : s.player.carries = 0) (ht : p.turn = (s.frames.render room).1.marks)
    (hc : p.carries = (s.frames.render room).1.samples.length) :
    Delivered { s with frames := (s.frames.render room).2, player := p } := by
  obtain ⟨hfeeds, hmarks, hsamples, hbuffer, -⟩ := h
  refine ⟨hfeeds, ?_, ?_, Frame.Queue.holds_render hbuffer _, fun hend => ?_⟩
  · simp only [hmarks, hs, ht, s.frames.marks_render room, List.append_nil, List.append_assoc]
  · have hleft := s.frames.left_render room
    simp only [Frame.Queue.rate_render, hsamples, hn, hc]
    omega
  · exact Frame.Queue.parted_render hbuffer (Frame.Chunk.none_mem_marks.mp (ht ▸ hend))

theorem reports_quiet (c : Call) : ∀ e ∈ s.reports c, e.isFed = false ∧ e ≠ .done := by
  intro e he
  unfold reports at he
  split at he
  · obtain ⟨m, -, rfl⟩ := List.mem_map.mp he
    exact ⟨rfl, by simp⟩
  · simp at he

theorem Delivered.playback (h : s.Delivered) (hf : s.Flowing) (ho : s.Open)
    (hz : s.generation = 0) (hst : Playback rig s t) : t.Delivered := by
  cases hst with
  | turnTo hp => exact h.still rfl rfl rfl rfl (by rw [hp]; rfl) (by rw [hp]; rfl)
  | disregard hp => exact { h with }
  | leave hp hx => exact absurd (hx.mem_iff.mpr (.inl rfl)) ho.signals
  | takeUp hp => exact h.still rfl rfl rfl rfl (by rw [hp]; rfl) (by rw [hp]; rfl)
  | decline hp => exact h.still rfl rfl rfl rfl (by rw [hp]; rfl) (by rw [hp]; rfl)
  | keepDevice hp => exact h.still rfl rfl rfl rfl (by rw [hp]; rfl) (by rw [hp]; rfl)
  | missDevice hp =>
    refine h.move (fun e he => ?_) rfl rfl rfl rfl (by rw [hp]; rfl) (by rw [hp]; rfl)
    rw [List.mem_singleton.mp he]
    exact ⟨rfl, by simp⟩
  | switchDevice hp =>
    refine h.move (fun e he => ?_) rfl rfl rfl rfl (by rw [hp]; rfl) (by rw [hp]; rfl)
    rcases List.mem_pair.mp he with rfl | rfl
    · exact ⟨rfl, by simp⟩
    · exact ⟨rfl, by simp⟩
  | look hp => exact h.still rfl rfl rfl rfl (by rw [hp]; rfl) (by rw [hp]; rfl)
  | lapse hp => exact h.still rfl rfl rfl rfl (by rw [hp]; rfl) (by rw [hp]; rfl)
  | render hp => exact h.render (by rw [hp]; rfl) (by rw [hp]; rfl) rfl rfl
  | renderEnd hp he hfin =>
    have hempty := Frame.Chunk.isEmpty_iff.mp he
    refine h.render (by rw [hp]; rfl) (by rw [hp]; rfl) ?_ ?_
    · simp [Player.turn, Frame.Chunk.marks, hempty.2, hfin]
    · simp [Player.carries, hempty.1]
  | renderNone hp he hfin =>
    have hempty := Frame.Chunk.isEmpty_iff.mp he
    refine h.render (by rw [hp]; rfl) (by rw [hp]; rfl) ?_ ?_
    · simp [Player.turn, Frame.Chunk.marks, hempty.2, hfin]
    · simp [Player.carries, hempty.1]
  | hear => exact h.move (reports_quiet _) rfl rfl rfl rfl rfl rfl
  | @feed stamp chunk samples failed calls hp =>
    obtain ⟨hfeeds, hmarks, hsamples, hbuffer, hparted⟩ := h
    have hchunk :
        s.player.turn = chunk.markers.map some ++ if chunk.finished then [none] else [] := by
      rw [hp]
      rfl
    have hlength : s.player.carries = chunk.samples.length := by rw [hp]; rfl
    have hturn : (if chunk.finished then Player.draining stamp else .checking stamp).turn =
        if chunk.finished then [none] else [] := by cases chunk.finished <;> rfl
    have hcarries : (if chunk.finished then Player.draining stamp else .checking stamp).carries =
        0 := by cases chunk.finished <;> rfl
    refine ⟨?_, ?_, ?_, hbuffer, fun hend => hparted ?_⟩
    · simp [hfeeds, Event.isFed]
    · simp only [told_fed hfeeds, hmarks, hturn, hchunk, List.append_assoc]
    · simp only [hsamples, hlength, hcarries, List.map_append, List.map_cons, List.map_nil,
        List.sum_append, List.sum_cons, List.sum_nil]
      omega
    · rw [hturn] at hend
      rw [hchunk]
      exact List.mem_append_right _ hend
  | discard hp hl => exact absurd hl (hf.not_dropped hz (by rw [hp]; rfl))
  | endJob hp hq => simp [hf.not_allQueued hp] at hq
  | await hp => exact h.still rfl rfl rfl rfl (by rw [hp]; rfl) (by rw [hp]; rfl)
  | putOff hp => exact h.still rfl rfl rfl rfl (by rw [hp]; rfl) (by rw [hp]; rfl)
  | lookAgain hp => exact h.still rfl rfl rfl rfl (by rw [hp]; rfl) (by rw [hp]; rfl)
  | quit hp => exact h.still rfl rfl rfl rfl (by rw [hp]; rfl) (by rw [hp]; rfl)
  | @idle stamp failed hp =>
    refine h.move (fun e he => ?_) rfl rfl rfl rfl ?_ ?_
    · rw [List.mem_singleton.mp he]
      exact ⟨rfl, by simp⟩
    · rw [hp]
      cases failed <;> rfl
    · rw [hp]
      cases failed <;> rfl
  | idled hp => exact h.still rfl rfl rfl rfl (by rw [hp]; rfl) (by rw [hp]; rfl)
  | conclude hp =>
    obtain ⟨hfeeds, hmarks, hsamples, hbuffer, -⟩ := h
    rw [hp] at hmarks hsamples
    refine ⟨?_, ?_, hsamples, hbuffer, by simp [Player.turn]⟩
    · simp [hfeeds, Event.isFed]
    · simp [told_done, hmarks, Player.turn]
  | forget hp hl => exact absurd hl (hf.not_dropped hz (by rw [hp]; rfl))

theorem Delivered.step {a : Act} (h : s.Delivered) (hf : s.Flowing) (ho : s.Open)
    (hz : s.generation = 0) (hst : Step rig s a t) (ha : a.isCancel = false) : t.Delivered := by
  cases hst with
  | call hh hc =>
    cases hc with
    | cancel => simp [Act.isCancel] at ha
    | terminate => simp [Act.isCancel] at ha
    | pause =>
      refine h.move (fun e he => ?_) rfl rfl rfl rfl rfl rfl
      rw [List.mem_singleton.mp he]
      exact ⟨rfl, by simp⟩
    | _ => exact { h with }
  | proceed hh => simp [hf.host] at hh
  | synthesize hs => exact h.synthesis hs
  | play hp => exact h.playback hf ho hz hp
  | expire hp =>
    exact h.still rfl rfl rfl rfl (by rw [hp]; rfl) (by rw [hp]; rfl)
  | sound => exact h.move (reports_quiet _) rfl rfl rfl rfl rfl rfl
  | callBack => exact h.move (reports_quiet _) rfl rfl rfl rfl rfl rfl

section Calls

variable {c : Call} {rest : List Call}

/-- A call of the only generation reports its markers. -/
theorem reports_of_zero (hd : s.Stamped (· ≤ s.generation)) (hz : s.generation = 0)
    (hh : s.held = c :: rest) : s.reports c = c.markers.map .reached := by
  have hle := hd.held c (by simp [hh])
  rw [hz] at hle
  exact if_pos (hz.trans (Nat.le_zero.mp hle).symm)

/-- The device makes its first call. -/
theorem Prompt.hear (h : s.Prompt) (hd : s.Stamped (· ≤ s.generation)) (hz : s.generation = 0)
    (hh : s.held = c :: rest) :
    Prompt { s with slot := { s.slot with output := rest }, log := s.log ++ s.reports c } := by
  have hreports : (s.reports c).filterMap Event.note? = c.markers.map some := by
    rw [reports_of_zero hd hz hh, List.filterMap_map]
    exact congrFun List.filterMap_eq_map c.markers
  have hmarkers : s.heldMarkers = c.markers ++ rest.flatMap Call.markers := by
    rw [heldMarkers, hh, List.flatMap_cons]
  unfold Prompt at h ⊢
  rw [hmarkers] at h
  simp only [told_append (reports_quiet c), h, notes, heldMarkers, held, List.filterMap_append,
    hreports, List.map_append, List.append_assoc]

theorem Orderly.hear (h : s.Orderly) (hd : s.Stamped (· ≤ s.generation)) (hz : s.generation = 0)
    (hh : s.held = c :: rest) :
    Orderly { s with slot := { s.slot with output := rest }, log := s.log ++ s.reports c } := by
  obtain ⟨hreported, hshelved⟩ := h
  refine ⟨?_, hshelved⟩
  have hreports : (s.reports c).filterMap Event.marker? = c.markers := by
    rw [reports_of_zero hd hz hh, List.filterMap_map]
    exact List.filterMap_some
  have hmarkers : s.heldMarkers = c.markers ++ rest.flatMap Call.markers := by
    rw [heldMarkers, hh, List.flatMap_cons]
  rw [hmarkers] at hreported
  simp only [told_append (reports_quiet c), reported, heldMarkers, held, List.filterMap_append,
    hreports, List.append_assoc]
  exact hreported

end Calls

/-- Nothing is heard or handed over. -/
theorem Heard.move (h : s.Heard) (hg : t.generation = s.generation) (ho : t.held = s.held)
    (hs : t.shelved = s.shelved)
    (hp : s.player.taken? = some s.generation → s.player.isSettled = false →
      t.player.taken? = some s.generation ∧ t.player.isSettled = false) : t.Heard := by
  refine ⟨fun c hc hstamp => ?_, ?_⟩
  · rw [ho] at hc
    rw [hg] at hstamp ⊢
    obtain ⟨htaken, hsettled⟩ := h.held c hc hstamp
    exact hp htaken hsettled
  · rw [hs, hg]
    exact h.shelved

theorem Heard.playback (h : s.Heard) (hf : s.Flowing) (ho : s.Open) (hr : rig.Faultless)
    (hst : Playback rig s t) : t.Heard := by
  have hlive {stamp : Stamp} (hp : s.player.taken? = some stamp) (hl : s.isLive stamp = false)
      (ht : s.player.taken? = some s.generation) : False := by
    have hnone := hf.not_live hp hl
    simp [Player.owes_of_stamp (Player.stamp_of_taken ht)] at hnone
  cases hst with
  | turnTo hp => exact h.move rfl rfl rfl (by rw [hp]; rintro ⟨⟩)
  | disregard hp => exact h.move rfl rfl rfl (by rw [hp]; rintro ⟨⟩)
  | leave hp => exact h.move rfl rfl rfl (by rw [hp]; rintro ⟨⟩)
  | takeUp hp => exact h.move rfl rfl rfl (by rw [hp]; rintro ⟨⟩)
  | decline hp => exact h.move rfl rfl rfl (by rw [hp]; rintro ⟨⟩)
  | keepDevice hp => exact h.move rfl rfl rfl (by rw [hp]; rintro _ ⟨⟩)
  | missDevice hp => exact h.move rfl rfl rfl (by rw [hp]; rintro _ ⟨⟩)
  | switchDevice hp =>
    refine ⟨List.forall_mem_nil _, fun c hc hstamp => ?_⟩
    rcases List.mem_append.mp hc with hc | hc
    · exact h.shelved c hc hstamp
    · split at hc
      · have hsettled := (h.held c hc hstamp).2
        simp [hp, Player.isSettled] at hsettled
      · simp at hc
  | look hp => exact h.move rfl rfl rfl fun ht _ => ⟨by rw [hp] at ht; exact ht, rfl⟩
  | lapse hp hl => exact h.move rfl rfl rfl fun ht => (hlive (by rw [hp]; rfl) hl ht).elim
  | render hp => exact h.move rfl rfl rfl fun ht _ => ⟨by rw [hp] at ht; exact ht, rfl⟩
  | renderEnd hp => exact h.move rfl rfl rfl fun ht _ => ⟨by rw [hp] at ht; exact ht, rfl⟩
  | renderNone hp => exact h.move rfl rfl rfl fun ht _ => ⟨by rw [hp] at ht; exact ht, rfl⟩
  | hear hp hg hh =>
    refine ⟨fun c hc hstamp => h.held c ?_ hstamp, h.shelved⟩
    rw [hh]
    exact List.mem_cons_of_mem _ hc
  | @feed stamp chunk samples failed calls hp hg hm hl hc =>
    subst hc
    refine ⟨fun c hc hstamp => ?_, h.shelved⟩
    cases chunk.finished <;> exact ⟨rfl, rfl⟩
  | discard hp hl => exact h.move rfl rfl rfl fun ht => (hlive (by rw [hp]; rfl) hl ht).elim
  | endJob hp => exact h.move rfl rfl rfl fun ht _ => ⟨by rw [hp] at ht; exact ht, rfl⟩
  | await hp => exact h.move rfl rfl rfl fun ht _ => ⟨by rw [hp] at ht; exact ht, rfl⟩
  | putOff hp => exact h.move rfl rfl rfl fun ht _ => ⟨by rw [hp] at ht; exact ht, rfl⟩
  | lookAgain hp => exact h.move rfl rfl rfl fun ht _ => ⟨by rw [hp] at ht; exact ht, rfl⟩
  | quit hp hx => exact absurd (by simp [hx]) ho.signals
  | @idle stamp failed hp hfail =>
    rw [hr.idles] at hfail
    subst hfail
    exact h.move rfl rfl rfl fun ht _ => ⟨by rw [hp] at ht; exact ht, rfl⟩
  | idled hp hh =>
    refine ⟨fun c hc => ?_, h.shelved⟩
    have hmem : c ∈ s.held := hc
    simp [hh] at hmem
  | conclude hp =>
    refine h.move rfl rfl rfl fun _ hsettled => ?_
    simp [hp, Player.isSettled] at hsettled
  | forget hp hl => exact h.move rfl rfl rfl fun ht => (hlive (by rw [hp]; rfl) hl ht).elim

theorem Heard.step {a : Act} (h : s.Heard) (hf : s.Flowing) (ho : s.Open) (hr : rig.Faultless)
    (hst : Step rig s a t) (ha : a.isCancel = false) : t.Heard := by
  cases hst with
  | call hh hc =>
    cases hc with
    | cancel => simp [Act.isCancel] at ha
    | terminate => simp [Act.isCancel] at ha
    | _ => exact { h with }
  | proceed hh => simp [hf.host] at hh
  | synthesize hs => cases hs <;> exact { h with }
  | play hp => exact h.playback hf ho hr hp
  | expire hp => exact h.move rfl rfl rfl fun ht _ => ⟨by rw [hp] at ht; exact ht, rfl⟩
  | sound hg hh =>
    refine ⟨fun c hc hstamp => h.held c ?_ hstamp, h.shelved⟩
    rw [hh]
    exact List.mem_cons_of_mem _ hc
  | callBack hg hi =>
    exact ⟨h.held, fun c hc => h.shelved c (List.mem_of_mem_eraseIdx hc)⟩

theorem Cancelled.heard (h : s.Cancelled []) : s.Heard := by
  have hstale := h.stale List.not_mem_nil
  exact ⟨fun c hc hstamp => absurd hstamp (Nat.ne_of_lt (hstale.held c hc)),
    fun c hc => Nat.ne_of_lt (hstale.shelved c hc)⟩

/-- The player is at no job whose calls could be held. -/
theorem Heard.held_eq_nil (h : s.Heard) (hd : s.Stamped (· ≤ s.generation))
    (hz : s.generation = 0) (hp : s.player.isSettled = true) : s.held = [] := by
  refine List.eq_nil_iff_forall_not_mem.mpr fun c hc => ?_
  have hle := hd.held c hc
  rw [hz] at hle
  have hsettled := (h.held c hc (by rw [Nat.le_zero.mp hle, hz])).2
  simp [hp] at hsettled

theorem Heard.shelved_eq_nil (h : s.Heard) (hd : s.Stamped (· ≤ s.generation))
    (hz : s.generation = 0) : s.shelved = [] := by
  refine List.eq_nil_iff_forall_not_mem.mpr fun c hc => ?_
  have hle := hd.shelved c hc
  rw [hz] at hle
  exact h.shelved c hc (by rw [Nat.le_zero.mp hle, hz])

/-- The player or the host goes on without a report. -/
theorem Prompt.move (h : s.Prompt) {events : List Event}
    (he : ∀ e ∈ events, e.isFed = false ∧ e.note? = none) (hl : t.log = s.log ++ events)
    (hh : t.handed = s.handed) (ho : t.held = s.held) : t.Prompt := by
  have hquiet : ∀ e ∈ events, e.isFed = false ∧ e ≠ .done := by
    refine fun e hm => ⟨(he e hm).1, ?_⟩
    rintro rfl
    exact absurd (he _ hm).2 (by rintro ⟨⟩)
  have hnone : events.filterMap Event.note? = [] :=
    List.filterMap_eq_nil_iff.mpr fun e hm => (he e hm).2
  unfold Prompt at h ⊢
  rw [hl, hh, told_append hquiet, h, notes, notes, heldMarkers, heldMarkers, hl, ho,
    List.filterMap_append, hnone, List.append_nil]

theorem Prompt.playback (h : s.Prompt) (hd : s.Delivered) (hf : s.Flowing) (hh : s.Heard)
    (hz : s.generation = 0) (hr : rig.Faultless) (hst : Playback rig s t) : t.Prompt := by
  have hnone : ∀ e ∈ ([] : List Event), e.isFed = false ∧ e.note? = none := by simp
  have hlog : s.log = s.log ++ [] := (List.append_nil _).symm
  have hsettled (hp : s.player.isSettled = true) : s.slot.output = [] :=
    hh.held_eq_nil hf.dated hz hp
  cases hst with
  | missDevice =>
    refine h.move (fun e he => ?_) rfl rfl rfl
    rw [List.mem_singleton.mp he]
    exact ⟨rfl, rfl⟩
  | switchDevice hp =>
    refine h.move (fun e he => ?_) rfl rfl (hsettled (by rw [hp]; rfl)).symm
    rcases List.mem_pair.mp he with rfl | rfl
    · exact ⟨rfl, rfl⟩
    · exact ⟨rfl, rfl⟩
  | hear hp hg hc => exact h.hear hf.dated hz hc
  | @feed stamp chunk samples failed calls hp hg hm hl hc hs hfail hk =>
    rw [hr.feeds] at hfail
    subst hfail
    have hcalls : calls.flatMap Call.markers = chunk.markers := by
      rw [hk]
      cases hempty : chunk.markers <;> simp
    unfold Prompt at h ⊢
    simp only [told_fed hd.feeds, h, notes, heldMarkers, held, List.filterMap_append,
      List.flatMap_append, hcalls, List.map_append, List.append_assoc]
    rfl
  | idle =>
    refine h.move (fun e he => ?_) rfl rfl rfl
    rw [List.mem_singleton.mp he]
    exact ⟨rfl, rfl⟩
  | conclude hp =>
    have hheld := hsettled (by rw [hp]; rfl)
    unfold Prompt at h ⊢
    simp only [heldMarkers, held, hheld] at h ⊢
    simp [told_done, h, notes, Event.note?]
  | _ => exact h.move hnone hlog rfl rfl

theorem Prompt.step {a : Act} (h : s.Prompt) (hd : s.Delivered) (hf : s.Flowing) (hh : s.Heard)
    (hz : s.generation = 0) (hr : rig.Faultless) (hst : Step rig s a t)
    (ha : a.isCancel = false) : t.Prompt := by
  have hnone : ∀ e ∈ ([] : List Event), e.isFed = false ∧ e.note? = none := by simp
  have hlog : s.log = s.log ++ [] := (List.append_nil _).symm
  cases hst with
  | call _ hc =>
    cases hc with
    | cancel => simp [Act.isCancel] at ha
    | terminate => simp [Act.isCancel] at ha
    | pause =>
      refine h.move (fun e he => ?_) rfl rfl rfl
      rw [List.mem_singleton.mp he]
      exact ⟨rfl, rfl⟩
    | _ => exact h.move hnone hlog rfl rfl
  | proceed hp => simp [hf.host] at hp
  | synthesize hs => cases hs <;> exact h.move hnone hlog rfl rfl
  | play hp => exact h.playback hd hf hh hz hr hp
  | expire => exact h.move hnone hlog rfl rfl
  | sound hg hc => exact h.hear hf.dated hz hc
  | callBack hg hi => simp [hh.shelved_eq_nil hf.dated hz] at hi

theorem Orderly.move (h : s.Orderly) {events : List Event}
    (he : ∀ e ∈ events, e.isFed = false ∧ e ≠ .done ∧ e.marker? = none)
    (hl : t.log = s.log ++ events) (hh : t.handed = s.handed) (ho : t.held = s.held)
    (hs : t.shelved = s.shelved) : t.Orderly := by
  obtain ⟨hreported, hshelved⟩ := h
  have hquiet : ∀ e ∈ events, e.isFed = false ∧ e ≠ .done :=
    fun e hm => ⟨(he e hm).1, (he e hm).2.1⟩
  have hnone : events.filterMap Event.marker? = [] :=
    List.filterMap_eq_nil_iff.mpr fun e hm => (he e hm).2.2
  refine ⟨?_, hs.trans hshelved⟩
  rw [reported, heldMarkers, hl, hh, ho, told_append hquiet, List.filterMap_append, hnone,
    List.append_nil]
  exact hreported

theorem Orderly.playback (h : s.Orderly) (hd : s.Delivered) (hf : s.Flowing)
    (hz : s.generation = 0) (hr : rig.sticky = false) (hst : Playback rig s t) : t.Orderly := by
  have hnone : ∀ e ∈ ([] : List Event), e.isFed = false ∧ e ≠ .done ∧ e.marker? = none := by simp
  have hlog : s.log = s.log ++ [] := (List.append_nil _).symm
  cases hst with
  | missDevice =>
    refine h.move (fun e he => ?_) rfl rfl rfl rfl
    rw [List.mem_singleton.mp he]
    exact ⟨rfl, by simp, rfl⟩
  | @switchDevice stamp hp =>
    have hmove : Orderly { s with log := s.log ++ [.opened s.slot.requested, .stopped] } := by
      refine h.move (fun e he => ?_) rfl rfl rfl rfl
      rcases List.mem_pair.mp he with rfl | rfl
      · exact ⟨rfl, by simp, rfl⟩
      · exact ⟨rfl, by simp, rfl⟩
    obtain ⟨hreported, -⟩ := hmove
    refine ⟨?_, by simp [h.shelved, hr]⟩
    -- The device that is left behind forgets its calls.
    exact ((List.Sublist.refl _).append (List.nil_sublist _)).trans hreported
  | hear hp hg hh => exact h.hear hf.dated hz hh
  | @feed stamp chunk samples failed calls hp hg hm hl hc hs hfail hk =>
    obtain ⟨hreported, hshelved⟩ := h
    have hcalls : List.Sublist (calls.flatMap Call.markers) chunk.markers := by
      rw [hk]
      split
      · exact List.nil_sublist _
      · simp
    have hmarkers : (chunk.markers.map some).filterMap id = chunk.markers := by
      rw [List.filterMap_map]
      exact List.filterMap_some
    have hfed : [Event.fed samples (!chunk.markers.isEmpty) failed].filterMap Event.marker? = [] :=
      rfl
    refine ⟨?_, hshelved⟩
    simp only [told_fed hd.feeds, reported, heldMarkers, held, List.filterMap_append, hfed,
      List.append_nil, List.flatMap_append, hmarkers, ← List.append_assoc]
    exact hreported.append hcalls
  | @idle stamp failed hp hfail =>
    refine h.move (fun e he => ?_) rfl rfl rfl rfl
    rw [List.mem_singleton.mp he]
    exact ⟨rfl, by simp, rfl⟩
  | conclude hp =>
    obtain ⟨hreported, hshelved⟩ := h
    refine ⟨?_, hshelved⟩
    have hdone : [Event.done].filterMap Event.marker? = [] := rfl
    have hend : [(none : Option Marker)].filterMap id = [] := rfl
    simp only [told_done, reported, heldMarkers, held, List.filterMap_append, hdone, hend,
      List.append_nil]
    exact hreported
  | _ => exact h.move hnone hlog rfl rfl rfl

theorem Orderly.step {a : Act} (h : s.Orderly) (hd : s.Delivered) (hf : s.Flowing)
    (hz : s.generation = 0) (hr : rig.sticky = false) (hst : Step rig s a t)
    (ha : a.isCancel = false) : t.Orderly := by
  have hnone : ∀ e ∈ ([] : List Event), e.isFed = false ∧ e ≠ .done ∧ e.marker? = none := by simp
  have hlog : s.log = s.log ++ [] := (List.append_nil _).symm
  cases hst with
  | call hh hc =>
    cases hc with
    | cancel => simp [Act.isCancel] at ha
    | terminate => simp [Act.isCancel] at ha
    | pause =>
      refine h.move (fun e he => ?_) rfl rfl rfl rfl
      rw [List.mem_singleton.mp he]
      exact ⟨rfl, by simp, rfl⟩
    | _ => exact h.move hnone hlog rfl rfl rfl
  | proceed hh => simp [hf.host] at hh
  | synthesize hs => cases hs <;> exact h.move hnone hlog rfl rfl rfl
  | play hp => exact h.playback hd hf hz hr hp
  | expire => exact h.move hnone hlog rfl rfl rfl
  | sound hg hh => exact h.hear hf.dated hz hh
  | callBack hg hi => simp [h.shelved] at hi

end Session

end Elocution.Speech
