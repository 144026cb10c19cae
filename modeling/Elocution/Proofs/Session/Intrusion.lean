import Elocution.Proofs.Session.Notification

/-!
# Intrusion

A player makes sure that its job is wanted, and only then renders. If a cancellation falls in
between, and a job of the new generation is queued, the player takes frames of a job that is not
its own, and drops them. That is one chunk, the first that is rendered after the cancellation has
returned. All that is queued from then on is rendered for its own job and handed over otherwise.
-/

namespace Elocution.Speech

/-- The chunk of that generation that the player is to hand over. -/
def Player.chunks (g : Stamp) : Player → List Frame.Chunk
  | .delivering stamp chunk => if stamp = g then [chunk] else []
  | _ => []

namespace Session

/-- What has been queued since is what was lost, what has been handed over since, what the player
is to hand over for the present generation, and what is in the buffer. -/
structure Kept (past : List Frame) (gone lost : List Frame.Chunk) (new : List Frame)
    (chunks : List Frame.Chunk) (s : Session) : Prop where
  queued : s.queued = past ++ new
  handed : s.handed = gone ++ chunks
  markers : new.filterMap Frame.marker =
    (lost ++ chunks ++ s.player.chunks s.generation).flatMap Frame.Chunk.markers ++
      s.frames.markers
  samples : (new.map (Frame.samples s.frames.rate)).sum =
    ((lost ++ chunks ++ s.player.chunks s.generation).map fun c => c.samples.length).sum +
      s.frames.left
  /-- A player that is still to render for an earlier generation has not rendered since. -/
  late : ∀ stamp, s.player = .rendering stamp → stamp ≠ s.generation → lost = [] ∧ chunks = []

/-- The host cancels nothing, and the session speaks while a job of the present generation is
played. -/
structure Undisturbed (s : Session) : Prop where
  host : s.host = []
  audible : s.player.taken? = some s.generation → s.speaking = true

variable {rig : Rig} {s t : Session} {past new : List Frame}
  {gone lost chunks : List Frame.Chunk} {stamp : Stamp} {chunk : Frame.Chunk}

theorem Undisturbed.live (h : s.Undisturbed) (hp : s.player.taken? = some s.generation) :
    s.isLive s.generation = true :=
  isLive_iff.mpr ⟨h.audible hp, rfl⟩

theorem Undisturbed.playback (h : s.Undisturbed) (hst : Playback rig s t) : t.Undisturbed := by
  obtain ⟨hh, ha⟩ := h
  cases hst with
  | takeUp => exact ⟨hh, fun _ => rfl⟩
  | look hp hl => exact ⟨hh, fun _ => hl⟩
  | disregard => exact ⟨hh, ha⟩
  | hear => exact ⟨hh, ha⟩
  | feed hp hg hm hl => exact ⟨hh, fun _ => hl⟩
  | @idle stamp failed hp =>
    rw [hp] at ha
    cases failed <;> exact ⟨hh, ha⟩
  | turnTo => exact ⟨hh, by rintro ⟨⟩⟩
  | leave => exact ⟨hh, by rintro ⟨⟩⟩
  | decline => exact ⟨hh, by rintro ⟨⟩⟩
  | lapse => exact ⟨hh, by rintro ⟨⟩⟩
  | discard => exact ⟨hh, by rintro ⟨⟩⟩
  | quit => exact ⟨hh, by rintro ⟨⟩⟩
  | conclude => exact ⟨hh, by rintro ⟨⟩⟩
  | forget => exact ⟨hh, by rintro ⟨⟩⟩
  | keepDevice hp => exact ⟨hh, by rw [hp] at ha; exact ha⟩
  | missDevice hp => exact ⟨hh, by rw [hp] at ha; exact ha⟩
  | switchDevice hp => exact ⟨hh, by rw [hp] at ha; exact ha⟩
  | render hp => exact ⟨hh, by rw [hp] at ha; exact ha⟩
  | renderEnd hp => exact ⟨hh, by rw [hp] at ha; exact ha⟩
  | renderNone hp => exact ⟨hh, by rw [hp] at ha; exact ha⟩
  | endJob hp => exact ⟨hh, by rw [hp] at ha; exact ha⟩
  | await hp => exact ⟨hh, by rw [hp] at ha; exact ha⟩
  | putOff hp => exact ⟨hh, by rw [hp] at ha; exact ha⟩
  | lookAgain hp => exact ⟨hh, by rw [hp] at ha; exact ha⟩
  | idled hp => exact ⟨hh, by rw [hp] at ha; exact ha⟩

theorem Undisturbed.step {a : Act} (h : s.Undisturbed) (hst : Step rig s a t)
    (ha : a.isCancel = false) : t.Undisturbed := by
  obtain ⟨hhost, haudible⟩ := h
  cases hst with
  | call hh hc =>
    cases hc with
    | cancel => simp [Act.isCancel] at ha
    | terminate => simp [Act.isCancel] at ha
    | _ => exact ⟨hhost, haudible⟩
  | proceed hh => simp [hhost] at hh
  | synthesize hs =>
    cases hs with
    | kick => exact ⟨hhost, fun _ => rfl⟩
    | _ => exact ⟨hhost, haudible⟩
  | play hp => exact Undisturbed.playback ⟨hhost, haudible⟩ hp
  | expire hp =>
    rw [hp] at haudible
    exact ⟨hhost, haudible⟩
  | sound => exact ⟨hhost, haudible⟩
  | callBack => exact ⟨hhost, haudible⟩

/-- The player goes on and keeps the chunk that it is to hand over, if there is one. -/
theorem Kept.move (h : s.Kept past gone lost new chunks) (hg : t.generation = s.generation)
    (hq : t.queued = s.queued) (hh : t.handed = s.handed) (hf : t.frames = s.frames)
    (hp : t.player.chunks s.generation = s.player.chunks s.generation)
    (hr : ∀ stamp, t.player = .rendering stamp → stamp = s.generation ∨ s.player = t.player) :
    t.Kept past gone lost new chunks := by
  obtain ⟨hqueued, hhanded, hmarkers, hsamples, hlate⟩ := h
  rw [← hp] at hmarkers hsamples
  refine ⟨hq.trans hqueued, hh.trans hhanded, ?_, ?_, fun stamp hrender hne => ?_⟩
  · rw [hg, hf]
    exact hmarkers
  · rw [hg, hf]
    exact hsamples
  · rw [hg] at hne
    rcases hr stamp hrender with hc | hsame
    · exact absurd hc hne
    · exact hlate stamp (hsame.trans hrender) hne

/-- Other parties go on. -/
theorem Kept.stay (h : s.Kept past gone lost new chunks) (hg : t.generation = s.generation)
    (hq : t.queued = s.queued) (hh : t.handed = s.handed) (hf : t.frames = s.frames)
    (hp : t.player = s.player) : t.Kept past gone lost new chunks :=
  h.move hg hq hh hf (by rw [hp]) fun _ _ => .inr hp.symm

/-- The player renders what it is to hand over, or what is lost. -/
theorem Kept.render (h : s.Kept past gone lost new chunks) {p : Player} {room : Nat}
    {lost' : List Frame.Chunk} (hs : s.player.chunks s.generation = [])
    (hm : (lost' ++ chunks ++ p.chunks s.generation).flatMap Frame.Chunk.markers =
      (lost ++ chunks).flatMap Frame.Chunk.markers ++ (s.frames.render room).1.markers)
    (hl : ((lost' ++ chunks ++ p.chunks s.generation).map fun c => c.samples.length).sum =
      ((lost ++ chunks).map fun c => c.samples.length).sum +
        (s.frames.render room).1.samples.length)
    (hr : ∀ stamp, p ≠ .rendering stamp) :
    Kept past gone lost' new chunks
      { s with frames := (s.frames.render room).2, player := p } := by
  obtain ⟨hqueued, hhanded, hmarkers, hsamples, -⟩ := h
  rw [hs, List.append_nil] at hmarkers hsamples
  refine ⟨hqueued, hhanded, ?_, ?_, fun stamp hrender => absurd hrender (hr stamp)⟩
  · rw [hmarkers, hm, s.frames.markers_render room, List.append_assoc]
  · rw [Frame.Queue.rate_render, hsamples, hl, s.frames.left_render room, Nat.add_assoc]

/-- Nothing is lost unless the player is about to render for an earlier generation. -/
theorem Kept.playback (h : s.Kept past gone lost new chunks) (hu : s.Undisturbed)
    (hst : Playback rig s t) :
    ∃ lost' chunks', t.Kept past gone lost' new chunks' ∧
      (lost' = lost ∨ (∃ chunk, lost' = [chunk] ∧ chunk.samples.length ≤ rig.chunk) ∧
        ∃ stamp, s.player = .rendering stamp ∧ stamp ≠ s.generation) := by
  have hstay {chunks' : List Frame.Chunk} (hk : t.Kept past gone lost new chunks') :
      ∃ lost' chunks', t.Kept past gone lost' new chunks' ∧
        (lost' = lost ∨ (∃ chunk, lost' = [chunk] ∧ chunk.samples.length ≤ rig.chunk) ∧
          ∃ stamp, s.player = .rendering stamp ∧ stamp ≠ s.generation) :=
    ⟨lost, chunks', hk, .inl rfl⟩
  cases hst with
  | @render stamp hp he =>
    by_cases hc : stamp = s.generation
    · refine hstay (h.render (by rw [hp]; rfl) ?_ ?_ (by rintro _ ⟨⟩))
      · simp [Player.chunks, hc]
      · simp [Player.chunks, hc, Nat.add_assoc]
    · obtain ⟨rfl, rfl⟩ := h.late stamp hp hc
      refine ⟨[(s.frames.render rig.chunk).1], [], h.render (by rw [hp]; rfl) ?_ ?_
        (by rintro _ ⟨⟩), .inr ⟨⟨_, rfl, s.frames.length_render_le _⟩, stamp, hp, hc⟩⟩
      · simp [Player.chunks, hc]
      · simp [Player.chunks, hc]
  | renderEnd hp he =>
    obtain ⟨hsamples, hmarkers⟩ := Frame.Chunk.isEmpty_iff.mp he
    refine hstay (h.render (by rw [hp]; rfl) ?_ ?_ (by rintro _ ⟨⟩))
    · simp [Player.chunks, hmarkers]
    · simp [Player.chunks, hsamples]
  | renderNone hp he =>
    obtain ⟨hsamples, hmarkers⟩ := Frame.Chunk.isEmpty_iff.mp he
    refine hstay (h.render (by rw [hp]; rfl) ?_ ?_ (by rintro _ ⟨⟩))
    · simp [Player.chunks, hmarkers]
    · simp [Player.chunks, hsamples]
  | @feed stamp chunk samples failed calls hp hg hm hl hc =>
    obtain ⟨hqueued, hhanded, hmarkers, hsamples, -⟩ := h
    have hchunk : s.player.chunks s.generation = [chunk] := by rw [hp]; exact if_pos hc.symm
    have hnone : (if chunk.finished then Player.draining stamp else .checking stamp).chunks
        s.generation = [] := by cases chunk.finished <;> rfl
    rw [hchunk, List.append_assoc] at hmarkers hsamples
    refine hstay ⟨hqueued, (by simp [hhanded] : _ = gone ++ (chunks ++ [chunk])), ?_, ?_, ?_⟩
    · rw [hnone, List.append_nil]
      exact hmarkers
    · rw [hnone, List.append_nil]
      exact hsamples
    · cases chunk.finished <;> rintro _ ⟨⟩
  | @discard stamp chunk hp hl =>
    -- A chunk of the present generation would be alive.
    have hstale : stamp ≠ s.generation := by
      rintro rfl
      simp [hu.live (by rw [hp]; rfl)] at hl
    have hnone : s.player.chunks s.generation = [] := by rw [hp]; exact if_neg hstale
    exact hstay (h.move rfl rfl rfl rfl hnone.symm (by rintro _ ⟨⟩))
  | @idle stamp failed hp =>
    refine hstay (h.move rfl rfl rfl rfl ?_ ?_)
    · rw [hp]
      cases failed <;> rfl
    · cases failed <;> rintro _ ⟨⟩
  | look hp hl hc =>
    refine hstay (h.move rfl rfl rfl rfl (by rw [hp]; rfl) ?_)
    rintro _ ⟨⟩
    exact .inl hc.symm
  | disregard => exact hstay (h.stay rfl rfl rfl rfl rfl)
  | hear => exact hstay (h.stay rfl rfl rfl rfl rfl)
  | turnTo hp => exact hstay (h.move rfl rfl rfl rfl (by rw [hp]; rfl) (by rintro _ ⟨⟩))
  | leave hp => exact hstay (h.move rfl rfl rfl rfl (by rw [hp]; rfl) (by rintro _ ⟨⟩))
  | takeUp hp => exact hstay (h.move rfl rfl rfl rfl (by rw [hp]; rfl) (by rintro _ ⟨⟩))
  | decline hp => exact hstay (h.move rfl rfl rfl rfl (by rw [hp]; rfl) (by rintro _ ⟨⟩))
  | keepDevice hp => exact hstay (h.move rfl rfl rfl rfl (by rw [hp]; rfl) (by rintro _ ⟨⟩))
  | missDevice hp => exact hstay (h.move rfl rfl rfl rfl (by rw [hp]; rfl) (by rintro _ ⟨⟩))
  | switchDevice hp => exact hstay (h.move rfl rfl rfl rfl (by rw [hp]; rfl) (by rintro _ ⟨⟩))
  | lapse hp => exact hstay (h.move rfl rfl rfl rfl (by rw [hp]; rfl) (by rintro _ ⟨⟩))
  | endJob hp => exact hstay (h.move rfl rfl rfl rfl (by rw [hp]; rfl) (by rintro _ ⟨⟩))
  | await hp => exact hstay (h.move rfl rfl rfl rfl (by rw [hp]; rfl) (by rintro _ ⟨⟩))
  | putOff hp => exact hstay (h.move rfl rfl rfl rfl (by rw [hp]; rfl) (by rintro _ ⟨⟩))
  | lookAgain hp => exact hstay (h.move rfl rfl rfl rfl (by rw [hp]; rfl) (by rintro _ ⟨⟩))
  | quit hp => exact hstay (h.move rfl rfl rfl rfl (by rw [hp]; rfl) (by rintro _ ⟨⟩))
  | idled hp => exact hstay (h.move rfl rfl rfl rfl (by rw [hp]; rfl) (by rintro _ ⟨⟩))
  | conclude hp => exact hstay (h.move rfl rfl rfl rfl (by rw [hp]; rfl) (by rintro _ ⟨⟩))
  | forget hp => exact hstay (h.move rfl rfl rfl rfl (by rw [hp]; rfl) (by rintro _ ⟨⟩))

/-- What is queued is in the buffer. -/
theorem Kept.synthesis (h : s.Kept past gone lost new chunks) (hst : Synthesis rig s t) :
    ∃ new', t.Kept past gone lost new' chunks := by
  cases hst with
  | @put p q task tasks rest f =>
    obtain ⟨hqueued, hhanded, hmarkers, hsamples, hlate⟩ := h
    refine ⟨new ++ [f], by simp [hqueued], hhanded, ?_, ?_, hlate⟩
    · rw [List.filterMap_append, hmarkers, List.append_assoc]
      simp [Frame.Queue.markers, Frame.Queue.enqueue]
    · rw [Frame.Queue.left_enqueue, List.map_append, List.sum_append, Frame.Queue.rate_enqueue,
        hsamples]
      simp [Nat.add_assoc]
  | _ => exact ⟨new, h.stay rfl rfl rfl rfl rfl⟩

theorem Kept.step {a : Act} (h : s.Kept past gone lost new chunks) (hu : s.Undisturbed)
    (hst : Step rig s a t) (ha : a.isCancel = false) :
    ∃ lost' new' chunks', t.Kept past gone lost' new' chunks' ∧
      (lost' = lost ∨ (∃ chunk, lost' = [chunk] ∧ chunk.samples.length ≤ rig.chunk) ∧
        ∃ stamp, s.player = .rendering stamp ∧ stamp ≠ s.generation) := by
  cases hst with
  | call hh hc =>
    cases hc with
    | cancel => simp [Act.isCancel] at ha
    | terminate => simp [Act.isCancel] at ha
    | _ => exact ⟨lost, new, chunks, h.stay rfl rfl rfl rfl rfl, .inl rfl⟩
  | proceed hh => simp [hu.host] at hh
  | synthesize hs =>
    obtain ⟨new', hk⟩ := h.synthesis hs
    exact ⟨lost, new', chunks, hk, .inl rfl⟩
  | play hp =>
    obtain ⟨lost', chunks', hk⟩ := h.playback hu hp
    exact ⟨lost', new, chunks', hk⟩
  | expire hp =>
    exact ⟨lost, new, chunks,
      h.move rfl rfl rfl rfl (by rw [hp]; rfl) (by rintro _ ⟨⟩), .inl rfl⟩
  | sound => exact ⟨lost, new, chunks, h.stay rfl rfl rfl rfl rfl, .inl rfl⟩
  | callBack => exact ⟨lost, new, chunks, h.stay rfl rfl rfl rfl rfl, .inl rfl⟩

/-- A player that comes to render does so for the present generation. -/
theorem rendering_of_step {a : Act} {stamp : Stamp} (hst : Step rig s a t)
    (hp : t.player = .rendering stamp) : s.player = t.player ∨ stamp = s.generation := by
  cases hst with
  | call hh hc => cases hc <;> exact .inl rfl
  | @proceed task rest hh => exact .inl (player_perform rig s task).symm
  | synthesize hs => cases hs <;> exact .inl rfl
  | play hst =>
    cases hst with
    | look hp' hl hc =>
      cases hp
      exact .inr hc.symm
    | disregard => exact .inl rfl
    | hear => exact .inl rfl
    | @feed stamp chunk => cases hf : chunk.finished <;> simp [hf] at hp
    | @idle stamp failed => cases failed <;> simp at hp
    | _ => cases hp
  | expire => cases hp
  | sound => exact .inl rfl
  | callBack => exact .inl rfl

theorem step?_delivering (hg : s.isGated = false) (hp : s.player = .delivering stamp chunk) :
    s.step? rig .play =
      if s.makesRoom rig then some s.makeCall else some (s.feed rig stamp chunk) := by
  simp [step?, play?, hp, hg]

/-- The device makes calls that it holds, and then it takes the chunk. -/
theorem handed_run (hg : s.isGated = false) (hl : s.isLive stamp = true)
    (hp : s.player = .delivering stamp chunk) :
    ∃ n t, Run (step? rig) s (List.replicate n .play) t ∧ t.handed = s.handed ++ [chunk] := by
  have hfeed {s : Session} (hg : s.isGated = false) (hl : s.isLive stamp = true)
      (hp : s.player = .delivering stamp chunk) (hm : s.makesRoom rig = false) :
      ∃ n t, Run (step? rig) s (List.replicate n .play) t ∧ t.handed = s.handed ++ [chunk] := by
    have hstep : s.step? rig .play = _ := step?_delivering hg hp
    rw [hm] at hstep
    exact ⟨1, _, .head hstep, by simp [feed, hl, hold, report]⟩
  generalize hn : s.held = calls
  induction calls generalizing s with
  | nil => exact hfeed hg hl hp (by simp [makesRoom, hn])
  | cons c rest ih =>
    cases hm : s.makesRoom rig with
    | false => exact hfeed hg hl hp hm
    | true =>
      have hcall : s.makeCall = (s.hold rest).answer c := by simp [makeCall, hn]
      have hstep : s.step? rig .play = _ := step?_delivering hg hp
      rw [hm, hcall] at hstep
      obtain ⟨n, t, hr, hh⟩ := ih (s := (s.hold rest).answer c) hg hl hp rfl
      exact ⟨n + 1, t, .cons hstep hr, hh⟩

/-- A player that is to hand over a chunk of the present generation goes on to do so, and any call
for the chunk is one of that generation. -/
theorem Undisturbed.hand_over {u : Session} (h : s.Undisturbed)
    (hp : s.player = .delivering s.generation chunk) (hst : s.step? rig .play = some u) :
    u.player = s.player ∨
      u.handed = s.handed ++ [chunk] ∧ ∀ c ∈ u.held, c ∈ s.held ∨ c.stamp = s.generation := by
  have hplay : Playback rig s u := play?_cases hst
  cases hplay with
  | hear => exact .inl rfl
  | @feed stamp other samples failed calls hp' hg hm hl hc hs hf hk =>
    obtain ⟨rfl, rfl⟩ := Player.delivering.inj (hp.symm.trans hp')
    refine .inr ⟨rfl, fun c hm => ?_⟩
    rcases List.mem_append.mp hm with hm | hm
    · exact .inl hm
    · rw [hk] at hm
      split at hm
      · cases hm
      · rw [List.mem_singleton.mp hm]
        exact .inr rfl
  | discard hp' hl =>
    obtain ⟨rfl, -⟩ := Player.delivering.inj (hp.symm.trans hp')
    simp [h.live (by rw [hp]; rfl)] at hl
  | _ => simp_all

/-- Just after a cancellation, or at the start, nothing has been queued that has to be kept. -/
theorem Cancelled.kept (h : s.Cancelled []) : s.Kept s.queued s.handed [] [] [] := by
  have hchunks : s.player.chunks s.generation = [] := by
    cases hp : s.player with
    | delivering stamp chunk =>
      have hlt := (h.stale List.not_mem_nil).player stamp (by rw [hp]; rfl)
      exact if_neg (Nat.ne_of_lt hlt)
    | _ => rfl
  obtain ⟨hpending, hplaying⟩ := (h.purged List.not_mem_nil).1
  refine ⟨by simp, by simp, ?_, ?_, fun _ _ _ => ⟨rfl, rfl⟩⟩
  · simp [hchunks, Frame.Queue.markers, hpending]
  · simp [hchunks, Frame.Queue.left, hpending, hplaying]

theorem Cancelled.undisturbed (h : s.Cancelled []) (hh : s.host = []) : s.Undisturbed := by
  refine ⟨hh, fun ht => ?_⟩
  have hlt := (h.stale List.not_mem_nil).player _ (Player.stamp_of_taken ht)
  exact absurd hlt (Nat.lt_irrefl _)

/-- As long as nothing is cancelled no more than one chunk is lost, and that only if the player was
about to render. -/
theorem Run.kept {acts : List Act} (hr : Run (step? rig) s acts t) (hc : s.Cancelled [])
    (hh : s.host = []) (ha : ∀ a ∈ acts, a.isCancel = false) :
    t.Undisturbed ∧ t.generation = s.generation ∧
      ∃ lost new chunks, t.Kept s.queued s.handed lost new chunks ∧
        (lost.length ≤ 1 ∧ ∀ chunk ∈ lost, chunk.samples.length ≤ rig.chunk) ∧
        ((∀ stamp, s.player ≠ .rendering stamp) →
          lost = [] ∧ ∀ stamp, t.player = .rendering stamp → stamp = t.generation) := by
  induction hr with
  | refl =>
    exact ⟨hc.undisturbed hh, rfl, [], [], [], hc.kept, ⟨Nat.zero_le _, List.forall_mem_nil _⟩,
      fun hp => ⟨rfl, fun stamp hr => absurd hr (hp stamp)⟩⟩
  | @tail t u acts a hr hst ih =>
    obtain ⟨hu, hgen, lost, new, chunks, hk, hle, hsafe⟩ := ih fun b hb => ha b (by simp [hb])
    have hcancel := ha a (by simp)
    have hstep := step?_cases hst
    have hgen' := generation_of_step hu.host hstep
    obtain ⟨lost', new', chunks', hk', hlost⟩ := hk.step hu hstep hcancel
    refine ⟨hu.step hstep hcancel, hgen'.trans hgen, lost', new', chunks', hk', ?_, fun hp => ?_⟩
    · rcases hlost with rfl | ⟨⟨chunk, rfl, hroom⟩, -⟩
      · exact hle
      · exact ⟨Nat.le_refl _, List.forall_mem_singleton.mpr hroom⟩
    · obtain ⟨rfl, hown⟩ := hsafe hp
      refine ⟨?_, fun stamp hrender => ?_⟩
      · rcases hlost with rfl | ⟨-, stamp, hrender, hne⟩
        · rfl
        · exact absurd (hown stamp hrender) hne
      · rw [hgen']
        rcases rendering_of_step hstep hrender with hsame | hown'
        · exact hown stamp (hsame.trans hrender)
        · exact hown'

/-- However the parties take turns once a cancellation has returned, or from the start, all that is
queued until the next is rendered for its own job and handed over, but for at most one chunk, the
first. None is lost unless the player was about to render when the cancellation returned. -/
theorem lost_at_most_once {device : Option String} {settings : VoiceSettings} {s₀ : Session}
    {before after : List Act} (h₀ : start rig device settings = .ok s₀)
    (hs : Run (step? rig) s₀ before s) (hl : before = [] ∨ ∃ acts, before = acts ++ [.proceed])
    (hh : s.host = []) (ht : Run (step? rig) s after t) (ha : ∀ a ∈ after, a.isCancel = false) :
    (∃ lost new chunks, t.Kept s.queued s.handed lost new chunks ∧
      (lost.length ≤ 1 ∧ ∀ chunk ∈ lost, chunk.samples.length ≤ rig.chunk) ∧
      ((∀ stamp, s.player ≠ .rendering stamp) →
        lost = [] ∧ ∀ stamp, t.player = .rendering stamp → stamp = t.generation)) ∧
    ∀ chunk, t.player = .delivering t.generation chunk →
      (∀ u, t.step? rig .play = some u → u.player = t.player ∨
        u.handed = t.handed ++ [chunk] ∧ ∀ c ∈ u.held, c ∈ t.held ∨ c.stamp = t.generation) ∧
      ∃ n u, Run (step? rig) t (List.replicate n .play) u ∧ u.handed = t.handed ++ [chunk] := by
  have hc := cancelled_of_return h₀ hs hl hh
  obtain ⟨hu, -, hkept⟩ := ht.kept hc hh ha
  refine ⟨hkept, fun chunk hp => ⟨fun u hst => hu.hand_over hp hst, ?_⟩⟩
  have hg : t.isGated = false := by simp [isGated, hu.host]
  exact handed_run hg (hu.live (by rw [hp]; rfl)) hp

/-- A call is cancelled when the player has not made sure of its job yet, and the next call is
queued before it does. -/
theorem lost_at_most_once_in_time :
    ∃ (s₀ s t : Session) (before after : List Act), start Rig.sample none {} = .ok s₀ ∧
      Run (step? Rig.sample) s₀ before s ∧ before.getLast? = some .proceed ∧ s.host = [] ∧
      s.player = .checking 0 ∧ s.generation = 1 ∧ Run (step? Rig.sample) s after t ∧
      (∀ a ∈ after, a.isCancel = false) ∧ t.notes = [some 7, none] ∧
      ∃ new chunks, t.Kept s.queued s.handed [] new chunks := by
  let acts : List Act := .call (.speak [.text ['a']] false) :: List.replicate 8 .synthesize ++
    List.replicate 3 .play ++ .call .cancel :: List.replicate 5 .proceed
  let later : List Act := .call (.speak [.marker 7] false) :: List.replicate 13 .synthesize ++
    List.replicate 12 .play
  let s := after (step? Rig.sample) (acts ++ [.proceed]) (initial Rig.sample none {})
  have hs : Run (step? Rig.sample) (initial Rig.sample none {}) (acts ++ [.proceed]) s :=
    .after (by decide +kernel)
  have ht : Run (step? Rig.sample) s later (s.after (step? Rig.sample) later) :=
    .after (by decide +kernel)
  have hh : s.host = [] := by decide +kernel
  have hp : s.player = .checking 0 := by decide +kernel
  have ha : ∀ a ∈ later, a.isCancel = false := by simp [later, Act.isCancel]
  obtain ⟨⟨lost, new, chunks, hkept, -, hsafe⟩, -⟩ :=
    lost_at_most_once rfl hs (.inr ⟨acts, rfl⟩) hh ht ha
  obtain ⟨rfl, -⟩ := hsafe (by rw [hp]; rintro _ ⟨⟩)
  exact ⟨initial Rig.sample none {}, s, _, acts ++ [Act.proceed], later, rfl, hs, by simp, hh, hp,
    by decide +kernel, ht, ha, by decide +kernel, new, chunks, hkept⟩

/-- The player has made sure of its job when the call is cancelled, and renders after the next call
has been queued. The marker of that call is never handed over. -/
theorem lost_marker :
    ∃ (s₀ s t : Session) (before after : List Act), start Rig.sample none {} = .ok s₀ ∧
      Run (step? Rig.sample) s₀ before s ∧ before.getLast? = some .proceed ∧ s.host = [] ∧
      s.player = .rendering 0 ∧ s.generation = 1 ∧ Run (step? Rig.sample) s after t ∧
      (∀ a ∈ after, a.isCancel = false) ∧ t.queued.filterMap Frame.marker = [7] ∧
      t.notes = [none] ∧ ∀ new chunks, ¬ t.Kept s.queued s.handed [] new chunks := by
  let acts : List Act := .call (.speak [.text ['a']] false) :: List.replicate 8 .synthesize ++
    List.replicate 4 .play ++ .call .cancel :: List.replicate 5 .proceed
  let later : List Act := .call (.speak [.marker 7] false) :: List.replicate 7 .synthesize ++
    List.replicate 2 .play ++ List.replicate 6 .synthesize ++ List.replicate 9 .play
  let s := after (step? Rig.sample) (acts ++ [.proceed]) (initial Rig.sample none {})
  let t := s.after (step? Rig.sample) later
  have hs : Run (step? Rig.sample) (initial Rig.sample none {}) (acts ++ [.proceed]) s :=
    .after (by decide +kernel)
  have ht : Run (step? Rig.sample) s later t := .after (by decide +kernel)
  have ha : ∀ a ∈ later, a.isCancel = false := by simp [later, Act.isCancel]
  have hbefore : s.queued.filterMap Frame.marker = [] := by decide +kernel
  have hqueued : t.queued.filterMap Frame.marker = [7] := by decide +kernel
  have hhanded : t.handed.flatMap Frame.Chunk.markers = [] := by decide +kernel
  have hplayer : t.player = .waiting := by decide +kernel
  have hframes : t.frames.markers = [] := by decide +kernel
  refine ⟨initial Rig.sample none {}, s, t, acts ++ [Act.proceed], later, rfl, hs, by simp,
    by decide +kernel, by decide +kernel, by decide +kernel, ht, ha, hqueued, by decide +kernel,
    fun new chunks h => ?_⟩
  obtain ⟨hnew, hchunks, hmarkers, -, -⟩ := h
  rw [hnew, List.filterMap_append, hbefore, List.nil_append] at hqueued
  rw [hchunks, List.flatMap_append] at hhanded
  rw [hqueued, hplayer, hframes] at hmarkers
  simp [Player.chunks, (List.append_eq_nil_iff.mp hhanded).2] at hmarkers

end Session

end Elocution.Speech
