import Elocution.Proofs.Session.Accounts
import Elocution.Proofs.Session.Cancellation

/-!
# What comes after a cancellation

From the return of a cancellation on, all that is reported or handed over has come from calls
that were made later, whatever the other parties were at and whatever the devices still hold.
-/

namespace Elocution.Speech.Session

variable {rig : Rig} {s t : Session} {g : Stamp}

/-- The chunk has been rendered from a queue with none but the first of these frames in it. -/
def RenderedFrom (rig : Rig) (frames : List Frame) (c : Frame.Chunk) : Prop :=
  ∃ (earlier : List Frame) (q : Frame.Queue),
    earlier <+: frames ∧ q.Holds earlier ∧ c = (q.render rig.chunk).1

/-- Audio that is handed over is that of a chunk from these frames, ramped up or as it is. -/
def ComesFrom (rig : Rig) (frames : List Frame) : Event → Prop
  | .fed samples withCall _ =>
    ∃ c, RenderedFrom rig frames c ∧ withCall = !c.markers.isEmpty ∧
      (samples = c.samples ∨ samples = Output.fadeIn rig.ramp c.samples)
  | _ => True

/-- Since there were `n` queued frames and `k` events, nothing from generation `g` on has been
rendered but from frames that were queued later. -/
structure Sourced (rig : Rig) (g : Stamp) (n k : Nat) (s : Session) : Prop where
  queued : n ≤ s.queued.length
  log : k ≤ s.log.length
  buffer : s.frames.Holds (s.queued.drop n)
  chunk : ∀ x c, s.player = .delivering x c → g ≤ x → RenderedFrom rig (s.queued.drop n) c
  fed : ∀ e ∈ s.log.drop k, ComesFrom rig (s.queued.drop n) e

variable {n k : Nat}

theorem RenderedFrom.mono {frames more : List Frame} {c : Frame.Chunk}
    (h : RenderedFrom rig frames c) : RenderedFrom rig (frames ++ more) c := by
  obtain ⟨earlier, q, hp, hq, hc⟩ := h
  exact ⟨earlier, q, hp.trans (List.prefix_append ..), hq, hc⟩

theorem ComesFrom.mono {frames more : List Frame} {e : Event} (h : ComesFrom rig frames e) :
    ComesFrom rig (frames ++ more) e := by
  cases e with
  | fed samples withCall failed =>
    obtain ⟨c, hc, hs⟩ := h
    exact ⟨c, hc.mono, hs⟩
  | _ => trivial

theorem comesFrom_reports {frames : List Frame} (c : Call) :
    ∀ e ∈ s.reports c, ComesFrom rig frames e := by
  intro e he
  unfold reports at he
  split at he
  · obtain ⟨m, -, rfl⟩ := List.mem_map.mp he
    trivial
  · simp at he

/-- More is logged. -/
theorem Sourced.fed_append {events : List Event} (h : s.Sourced rig g n k)
    (he : ∀ e ∈ events, ComesFrom rig (s.queued.drop n) e) :
    ∀ e ∈ (s.log ++ events).drop k, ComesFrom rig (s.queued.drop n) e := by
  intro e hm
  rw [List.drop_append_of_le_length h.log, List.mem_append] at hm
  exact hm.elim (h.fed e) (he e)

theorem Sourced.log_append {events : List Event} (h : s.Sourced rig g n k) :
    k ≤ (s.log ++ events).length :=
  Nat.le_trans h.log (by simp)

theorem Sourced.synthesis (h : s.Sourced rig g n k) (hst : Synthesis rig s t) :
    t.Sourced rig g n k := by
  cases hst with
  | @put p q task tasks rest f hw hc he =>
    have hdrop : (s.queued ++ [f]).drop n = s.queued.drop n ++ [f] :=
      List.drop_append_of_le_length h.queued
    refine ⟨?_, h.log, ?_, fun x c hp hx => ?_, fun e hm => ?_⟩
    · exact Nat.le_trans h.queued (by simp)
    · rw [hdrop]
      exact Frame.Queue.holds_enqueue h.buffer f
    · rw [hdrop]
      exact (h.chunk x c hp hx).mono
    · rw [hdrop]
      exact (h.fed e hm).mono
  | _ => exact { h with }

theorem Sourced.playback (h : s.Sourced rig g n k) (hst : Playback rig s t)
    (hg : g ≤ s.generation) : t.Sourced rig g n k := by
  have hone {e : Event} (he : ComesFrom rig (s.queued.drop n) e) :
      ∀ e' ∈ [e], ComesFrom rig (s.queued.drop n) e' := List.forall_mem_singleton.mpr he
  cases hst with
  | render hp he =>
    refine { h with buffer := Frame.Queue.holds_render h.buffer _, chunk := fun x c hd hx => ?_ }
    obtain ⟨-, rfl⟩ := Player.delivering.inj hd
    exact ⟨_, s.frames, List.prefix_rfl, h.buffer, rfl⟩
  | renderEnd => exact { h with buffer := Frame.Queue.holds_render h.buffer _, chunk := by simp }
  | renderNone => exact { h with buffer := Frame.Queue.holds_render h.buffer _, chunk := by simp }
  | @feed stamp chunk samples failed calls hp hgate hm hl hc hs hf hk =>
    refine { h with log := h.log_append, chunk := ?_, fed := h.fed_append fun e he => ?_ }
    · cases hfin : chunk.finished <;> simp
    · obtain rfl := List.mem_singleton.mp he
      refine ⟨chunk, h.chunk stamp chunk hp (hc ▸ hg), rfl, ?_⟩
      rw [hs]
      split
      · exact .inr rfl
      · exact .inl rfl
  | hear => exact { h with log := h.log_append, fed := h.fed_append (comesFrom_reports _) }
  | missDevice =>
    exact { h with log := h.log_append, fed := h.fed_append (hone trivial), chunk := by simp }
  | switchDevice =>
    exact { h with
      log := h.log_append, chunk := by simp
      fed := h.fed_append (List.forall_mem_cons.mpr ⟨trivial, hone trivial⟩) }
  | @idle stamp failed =>
    refine { h with log := h.log_append, fed := h.fed_append (hone trivial), chunk := ?_ }
    cases failed <;> simp
  | conclude =>
    exact { h with log := h.log_append, fed := h.fed_append (hone trivial), chunk := by simp }
  | disregard => exact { h with }
  | _ => exact { h with chunk := by simp }

theorem Sourced.step {a : Act} (h : s.Sourced rig g n k) (hst : Step rig s a t)
    (hg : g ≤ s.generation) : t.Sourced rig g n k := by
  have hone {e : Event} (he : ComesFrom rig (s.queued.drop n) e) :
      ∀ e' ∈ [e], ComesFrom rig (s.queued.drop n) e' := List.forall_mem_singleton.mpr he
  cases hst with
  | call hh hc =>
    cases hc with
    | pause => exact { h with log := h.log_append, fed := h.fed_append (hone trivial) }
    | _ => exact { h with }
  | @proceed task rest hh =>
    cases task with
    | stopDevice =>
      rw [perform_stopDevice]
      exact { h with log := h.log_append, fed := h.fed_append (hone trivial) }
    | purgeFrames =>
      exact { h with buffer := Frame.Queue.holds_of_isClear (Frame.Queue.isClear_purge _) _ }
    | _ => exact { h with }
  | synthesize hs => exact h.synthesis hs
  | play hp => exact h.playback hp hg
  | expire => exact { h with chunk := by simp }
  | sound => exact { h with log := h.log_append, fed := h.fed_append (comesFrom_reports _) }
  | callBack => exact { h with log := h.log_append, fed := h.fed_append (comesFrom_reports _) }

/-- Nothing from generation `g` on has been queued or announced. -/
structure Quiet (g : Stamp) (s : Session) : Prop where
  silent : s.speaking = false
  clear : s.frames.IsClear
  unmarked : s.frames.lastMarker = none
  synthesizer : ∀ p tasks, s.synthesizer = .working p tasks → g ≤ p.stamp →
    p.kicked = false ∧ tasks.countP Task.announces = 0
  signals : ∀ x, .play x ∈ s.deferred ++ s.signals → x < g
  player : ∀ x, s.player.stamp? = some x → x < g

theorem Quiet.synthesis (h : s.Quiet g) (hst : Synthesis rig s t) (hg : g ≤ s.generation)
    (hd : s.Stamped fun _ => True) (hq : t.queued = s.queued) : t.Quiet g := by
  have hwork {p q : Progress} {tasks more : List Task} (hw : s.synthesizer = .working p tasks)
      (hstamp : q.stamp = p.stamp) (hk : q.kicked = p.kicked)
      (hm : more.countP Task.announces ≤ tasks.countP Task.announces) :
      ∀ q' rest, Synthesizer.working q more = .working q' rest → g ≤ q'.stamp →
        q'.kicked = false ∧ rest.countP Task.announces = 0 := by
    rintro q' rest heq hle
    obtain ⟨rfl, rfl⟩ := Synthesizer.working.inj heq
    obtain ⟨hno, hc⟩ := h.synthesizer p tasks hw (hstamp ▸ hle)
    exact ⟨hk.trans hno, Nat.le_zero.mp (hc ▸ hm)⟩
  cases hst with
  | fetch => exact { h with synthesizer := by simp }
  | exit => exact { h with synthesizer := by simp }
  | begin hf hc =>
    refine { h with synthesizer := fun p tasks hw _ => ?_ }
    obtain ⟨rfl, rfl⟩ := Synthesizer.working.inj hw
    exact ⟨rfl, Task.countP_announces_ofJob _⟩
  | drop => exact { h with synthesizer := by simp }
  | finish => exact { h with synthesizer := by simp }
  | abandon => exact { h with synthesizer := by simp }
  | put => simp at hq
  | block hw =>
    refine { h with synthesizer := hwork hw rfl rfl ?_ }
    rw [List.countP_append, List.countP_append, Task.countP_announces_clauses,
      Task.countP_announces_ofMarkers, List.countP_cons]
    omega
  | answered hw => exact { h with synthesizer := hwork hw rfl rfl (by simp [Task.announces]) }
  | @exhaust p pause shaper next frames rest tasks hw =>
    refine { h with synthesizer := hwork hw rfl rfl ?_ }
    rw [List.countP_append, Task.countP_announces_afterStream, List.countP_cons]
    omega
  | @kick p tasks hw hgate hc =>
    have hann := (h.synthesizer p _ hw (hc ▸ hg)).2
    simp [Task.announces] at hann
  | @signal p x tasks hw =>
    refine { h with synthesizer := hwork hw rfl rfl (by simp [List.countP_cons]),
                    signals := fun y hy => ?_ }
    rw [← List.append_assoc, List.mem_append, List.mem_singleton] at hy
    rcases hy with hy | rfl
    · exact h.signals y hy
    · have hs := hd.synthesizer
      rw [hw] at hs
      rw [hs.2 y (by simp)]
      by_contra hle
      have hann := (h.synthesizer p _ hw (Nat.le_of_not_lt hle)).2
      simp [Task.announces] at hann
  | lower hw => exact { h with synthesizer := hwork hw rfl rfl (by simp [List.countP_cons]) }
  | refused hw => exact { h with synthesizer := hwork hw rfl rfl (by simp [List.countP_cons]) }
  | withhold hw => exact { h with synthesizer := hwork hw rfl rfl (by simp [List.countP_cons]) }
  | raise hw => exact { h with synthesizer := hwork hw rfl rfl (by simp [List.countP_cons]) }

theorem Quiet.playback (h : s.Quiet g) (hst : Playback rig s t) (hg : g ≤ s.generation) :
    t.Quiet g := by
  have hrender : (s.frames.render rig.chunk).2.IsClear ∧
      (s.frames.render rig.chunk).2.lastMarker = none := by
    rw [Frame.Queue.render_of_isClear h.clear]
    exact ⟨h.clear, h.unmarked⟩
  have hstay {p : Player} (hp : p.stamp? = s.player.stamp?) :
      ∀ x, p.stamp? = some x → x < g := fun x hx => h.player x (hp ▸ hx)
  cases hst with
  | turnTo hp hx =>
    refine { h with
      signals := fun y hy => h.signals y (hx.mem_iff.mpr (.inr hy)), player := fun y hy => ?_ }
    obtain rfl := Option.some.inj hy
    exact h.signals _ (hx.mem_iff.mpr (.inl rfl))
  | disregard hp hx =>
    exact { h with signals := fun y hy => h.signals y (hx.mem_iff.mpr (.inr hy)) }
  | leave hp hx =>
    exact { h with
      signals := fun y hy => h.signals y (hx.mem_iff.mpr (.inr hy)), player := by rintro _ ⟨⟩ }
  | @takeUp stamp hp hgate hc =>
    have hlt := h.player stamp (by rw [hp]; rfl)
    exact absurd hg (Nat.not_le_of_lt (hc ▸ hlt))
  | render hp =>
    exact { h with clear := hrender.1, unmarked := hrender.2, player := hstay (by rw [hp]; rfl) }
  | renderEnd hp =>
    exact { h with clear := hrender.1, unmarked := hrender.2, player := hstay (by rw [hp]; rfl) }
  | renderNone hp =>
    exact { h with clear := hrender.1, unmarked := hrender.2, player := hstay (by rw [hp]; rfl) }
  | hear => exact { h with }
  | @feed stamp chunk samples failed calls hp hgate hm hl hc =>
    have hlt := h.player stamp (by rw [hp]; rfl)
    exact absurd hg (Nat.not_le_of_lt (hc ▸ hlt))
  | putOff hp hx =>
    refine { h with signals := fun y hy => h.signals y ?_, player := hstay (by rw [hp]; rfl) }
    simpa [hx, or_assoc] using hy
  | lookAgain hp hx =>
    refine { h with signals := fun y hy => h.signals y ?_, player := hstay (by rw [hp]; rfl) }
    simpa [hx] using hy
  | quit hp hx =>
    refine { h with signals := fun y hy => h.signals y ?_, player := by rintro _ ⟨⟩ }
    simpa [hx] using hy
  | @idle stamp failed hp =>
    exact { h with player := hstay (by rw [hp]; cases failed <;> rfl) }
  | conclude => exact { h with silent := rfl, player := by rintro _ ⟨⟩ }
  | keepDevice hp => exact { h with player := hstay (by rw [hp]; rfl) }
  | missDevice hp => exact { h with player := hstay (by rw [hp]; rfl) }
  | switchDevice hp => exact { h with player := hstay (by rw [hp]; rfl) }
  | look hp => exact { h with player := hstay (by rw [hp]; rfl) }
  | endJob hp => exact { h with player := hstay (by rw [hp]; rfl) }
  | await hp => exact { h with player := hstay (by rw [hp]; rfl) }
  | idled hp => exact { h with player := hstay (by rw [hp]; rfl) }
  | _ => exact { h with player := by rintro _ ⟨⟩ }

theorem Quiet.step {a : Act} (h : s.Quiet g) (hst : Step rig s a t) (hg : g ≤ s.generation)
    (hd : s.Stamped fun _ => True) (hq : t.queued = s.queued) : t.Quiet g := by
  cases hst with
  | call hh hc => cases hc <;> exact { h with }
  | @proceed task rest hh =>
    cases task with
    | lowerSpeaking => exact { h with silent := rfl }
    | stopDevice =>
      rw [perform_stopDevice]
      exact { h with }
    | purgeFrames =>
      exact { h with clear := Frame.Queue.isClear_purge _, unmarked := rfl }
    | shutDown =>
      refine { h with signals := fun y hy => h.signals y ?_ }
      simpa [perform] using hy
    | _ => exact { h with }
  | synthesize hs => exact h.synthesis hs hg hd hq
  | play hp => exact h.playback hp hg
  | expire hp => exact { h with player := fun x hx => h.player x (by rw [hp]; exact hx) }
  | sound => exact { h with }
  | callBack => exact { h with }

/-- A step that queues a frame is at a job of the present generation. -/
theorem stamp_of_queued_ne {a : Act} (h : Step rig s a t) (hne : t.queued ≠ s.queued) :
    a = .synthesize ∧ ∃ p tasks, s.synthesizer = .working p tasks ∧ p.stamp = s.generation := by
  cases h with
  | call hh hc => cases hc <;> exact absurd rfl hne
  | @proceed task rest hh => exact absurd (queued_perform rig s task) hne
  | synthesize hs =>
    cases hs with
    | put hw hc => exact ⟨rfl, _, _, hw, hc.symm⟩
    | _ => exact absurd rfl hne
  | play hp => cases hp <;> exact absurd rfl hne
  | _ => exact absurd rfl hne

namespace Run

variable {acts : List Act}

theorem sourced (h : Run (step? rig) s acts t) (hs : s.Sourced rig g n k)
    (hg : g ≤ s.generation) : t.Sourced rig g n k := by
  induction h with
  | refl => exact hs
  | tail hr ha ih => exact ih.step (step?_cases ha) (Nat.le_trans hg hr.generation_le)

theorem quiet (h : Run (step? rig) s acts t) (hs : s.Stamped (· ≤ s.generation))
    (hq : s.Quiet g) (hg : g ≤ s.generation) (heq : t.queued = s.queued) : t.Quiet g := by
  induction h with
  | refl => exact hq
  | @tail t u acts a hr ha ih =>
    have hsame : t.queued = s.queued := by
      refine hr.queued_grows.eq_of_length_le ?_ |>.symm
      rw [← heq]
      exact (step?_cases ha).queued_grows.length_le
    exact (ih hsame).step (step?_cases ha) (Nat.le_trans hg hr.generation_le)
      ((hr.stamped_le hs).mono fun _ _ => trivial) (heq.trans hsame.symm)

/-- Nothing is queued for calls that have been cancelled. -/
theorem queued_eq (h : Run (step? rig) s acts t) (hs : s.Stamped (· < s.generation))
    (hno : ∀ a ∈ acts, a.saying? = none) : t.queued = s.queued := by
  have hboth : t.Stamped (· < s.generation) ∧ t.queued = s.queued := by
    induction h with
    | refl => exact ⟨hs, rfl⟩
    | @tail t u acts a hr ha ih =>
      obtain ⟨hst, hq⟩ := ih fun b hb => hno b (List.mem_append_left _ hb)
      have hstep := step?_cases ha
      refine ⟨hst.step hstep fun hsome => ?_, ?_⟩
      · rw [hno a (by simp)] at hsome
        simp at hsome
      · rw [← hq]
        by_contra hne
        obtain ⟨-, p, tasks, hw, hp⟩ := stamp_of_queued_ne hstep hne
        have hlt := hst.synthesizer
        rw [hw] at hlt
        exact absurd hr.generation_le (Nat.not_le_of_lt (hp ▸ hlt.1))
  exact hboth.2

end Run

namespace Cancelled

theorem sourced (h : s.Cancelled []) :
    s.Sourced rig s.generation s.queued.length s.log.length := by
  refine ⟨Nat.le_refl _, Nat.le_refl _, ?_, fun x c hp hx => ?_, by simp⟩
  · exact Frame.Queue.holds_of_isClear (h.purged List.not_mem_nil).1 _
  · have hlt := (h.stale List.not_mem_nil).player x (by rw [hp]; rfl)
    exact absurd hx (Nat.not_le_of_lt hlt)

theorem quiet (h : s.Cancelled []) : s.Quiet s.generation := by
  have hstale := h.stale List.not_mem_nil
  have hpurged := h.purged List.not_mem_nil
  refine ⟨h.silent List.not_mem_nil, hpurged.1, hpurged.2, fun p tasks hw hle => ?_,
    hstale.signals, hstale.player⟩
  have hs := hstale.synthesizer
  rw [hw] at hs
  exact absurd hle (Nat.not_le_of_lt hs.1)

end Cancelled

/-- All that a run has brought about since a point `s` has come from the calls that were made
after that point. -/
structure Aftermath (rig : Rig) (s : Session) (acts : List Act) (t : Session) : Prop where
  /-- No marker is reported but of a frame that was queued later. -/
  markers : List.Subperm ((t.log.drop s.log.length).filterMap Event.marker?)
    ((t.queued.drop s.queued.length).filterMap Frame.marker)
  /-- No more utterances are done than were asked for later. -/
  done : (t.log.drop s.log.length).count .done ≤ acts.countP (·.saying?.isSome)
  /-- An utterance is reported as done for a job that was asked for later. -/
  concluded : ∀ a u, t.step? rig a = some u → u.done ≠ t.done →
    ∃ stamp, t.player = .completing stamp ∧ s.generation ≤ stamp
  /-- No audio is handed over but of frames that were queued later. -/
  fed : ∀ e ∈ t.log.drop s.log.length, ComesFrom rig (t.queued.drop s.queued.length) e
  /-- No frame is in the buffer but those that were queued later. -/
  buffer : t.frames.Holds (t.queued.drop s.queued.length)
  /-- Frames are queued for jobs that were asked for later. -/
  own : ∀ u, t.synthesize? rig = some u → u.queued ≠ t.queued →
    ∃ p tasks, t.synthesizer = .working p tasks ∧ s.generation ≤ p.stamp
  /-- Nothing is queued unless speech has been asked for. -/
  unasked : (∀ a ∈ acts, a.saying? = none) → t.queued = s.queued
  /-- Until a frame is queued the session stays silent. -/
  silent : t.queued = s.queued →
    t.speaking = false ∧ t.frames.IsClear ∧ t.frames.lastMarker = none

/-- Once a cancellation, or the end of the session, has returned, nothing is left of the calls
that were made before, and nothing of them shows up later. -/
theorem nothing_leaks {device : Option String} {settings : VoiceSettings} {s₀ : Session}
    {before after : List Act} (h₀ : start rig device settings = .ok s₀)
    (hs : Run (step? rig) s₀ (before ++ [.proceed]) s) (hh : s.host = [])
    (ht : Run (step? rig) s after t) :
    (s.speaking = false ∧ s.jobs.jobs = [] ∧ s.frames.IsClear ∧ s.frames.lastMarker = none ∧
      s.Stamped (· < s.generation)) ∧ Aftermath rig s after t := by
  have hc := cancelled_of_run h₀ hs hh
  have hdated := hs.stamped_le (stamped_start h₀)
  have hquiet := hc.quiet
  have hsourced := ht.sourced hc.sourced (Nat.le_refl _)
  obtain ⟨events, hlog⟩ := ht.log_grows
  obtain ⟨frames, hqueued⟩ := ht.queued_grows
  have hevents : t.log.drop s.log.length = events := by rw [← hlog, List.drop_left]
  have hframes : t.queued.drop s.queued.length = frames := by rw [← hqueued, List.drop_left]
  refine ⟨⟨hquiet.silent, hc.drained List.not_mem_nil, hquiet.clear, hquiet.unmarked,
    hc.stale List.not_mem_nil⟩, ?_, ?_, ?_, hsourced.fed, hsourced.buffer, ?_, ?_, ?_⟩
  · rw [hevents, hframes, List.subperm_iff_count]
    intro m
    have hcount := ht.count_outstanding_le (Nat.le_refl _) m
    rw [hc.outstanding_eq_nil] at hcount
    simp only [reported, markersQueued, ← hlog, ← hqueued, List.filterMap_append,
      List.count_append, List.count_nil] at hcount
    omega
  · rw [hevents]
    have howed := ht.owed_le hdated (Nat.le_refl _)
    rw [hc.owed_eq_zero] at howed
    simp only [done, ← hlog, List.count_append] at howed
    omega
  · intro a u hu hne
    exact ⟨_, (completing_of_done_ne (step?_cases hu) hne).2, ht.generation_le⟩
  · intro u hu hne
    obtain ⟨-, p, tasks, hw, hp⟩ := stamp_of_queued_ne (.synthesize (synthesize?_cases hu)) hne
    exact ⟨p, tasks, hw, hp ▸ ht.generation_le⟩
  · exact ht.queued_eq (hc.stale List.not_mem_nil)
  · intro hq
    have hstill := ht.quiet hdated hquiet (Nat.le_refl _) hq
    exact ⟨hstill.silent, hstill.clear, hstill.unmarked⟩

/-- A call is cancelled when its marker has been queued and announced; another is made and
played to its end. -/
theorem nothing_leaks_announced :
    ∃ (s₀ s t : Session) (before after : List Act), start Rig.sample none {} = .ok s₀ ∧
      Run (step? Rig.sample) s₀ (before ++ [.proceed]) s ∧ s.host = [] ∧
      s.signals = [.play 0] ∧ Run (step? Rig.sample) s after t ∧
      t.reported = [2] ∧ t.done = 1 ∧ Aftermath Rig.sample s after t := by
  let before : List Act := .call (.speak [.marker 1] false) :: List.replicate 7 .synthesize ++
    .call .cancel :: List.replicate 5 .proceed
  let later : List Act := .call (.speak [.text ['a'], .marker 2] false) ::
    List.replicate 18 .synthesize ++ List.replicate 18 .play
  have hs : Run (step? Rig.sample) (initial Rig.sample none {}) (before ++ [.proceed])
      (after (step? Rig.sample) (before ++ [.proceed]) (initial Rig.sample none {})) :=
    .after (by decide +kernel)
  have ht : Run (step? Rig.sample)
      (after (step? Rig.sample) (before ++ [.proceed]) (initial Rig.sample none {})) later
      (after (step? Rig.sample) later
        (after (step? Rig.sample) (before ++ [.proceed]) (initial Rig.sample none {}))) :=
    .after (by decide +kernel)
  exact ⟨_, _, _, before, later, rfl, hs, by decide +kernel, by decide +kernel, ht,
    by decide +kernel, by decide +kernel, (nothing_leaks rfl hs (by decide +kernel) ht).2⟩

end Elocution.Speech.Session
