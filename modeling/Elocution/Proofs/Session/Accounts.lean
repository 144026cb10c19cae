import Elocution.Proofs.Session.Cancellation

/-!
# Accounts

Only work of the generations from some point on can still be reported. The accounts are kept for
such a generation `g`: markers and jobs are counted where they wait, and every step hands on at
most what it takes.
-/

namespace Elocution.Speech

/-- The marker that an event reports. -/
def Event.marker? : Event → Option Marker
  | .reached m => some m
  | _ => none

/-- The markers of the calls from generation `g` on. -/
def markersFrom (g : Stamp) (calls : List Call) : List Marker :=
  (calls.filter (g ≤ ·.stamp)).flatMap Call.markers

/-- The markers of a chunk from generation `g` on that is to be handed over. -/
def Player.markersFrom (g : Stamp) : Player → List Marker
  | .delivering stamp chunk => if g ≤ stamp then chunk.markers else []
  | _ => []

/-- Announces a job to the player, or is about to. -/
def Task.announces : Task → Bool
  | .kick | .signal (.play _) => true
  | _ => false

def Signal.isPlayFrom (g : Stamp) : Signal → Bool
  | .play stamp => g ≤ stamp
  | _ => false

/-- Whether a job from generation `g` on still has to be announced. -/
def Synthesizer.owes (g : Stamp) : Synthesizer → Nat
  | .fetched job => if g ≤ job.stamp then 1 else 0
  | .working p tasks =>
    if g ≤ p.stamp then (if p.kicked then 0 else 1) + tasks.countP Task.announces else 0
  | .idle | .exited => 0

def Player.owes (g : Stamp) (p : Player) : Nat := if p.stamp?.any (g ≤ ·) then 1 else 0

/-- The synthesizer has no task left, or its job is not of generation `g`. -/
def Synthesizer.Leaves (g : Stamp) : Synthesizer → Prop
  | .fetched job => g ≠ job.stamp
  | .working p tasks => tasks = [] ∨ g ≠ p.stamp
  | .idle | .exited => False

/-- The generation of the job that the player has taken up. -/
def Player.taken? : Player → Option Stamp
  | .starting _ => none
  | p => p.stamp?

namespace Task

theorem countP_announces_ofMarkers (markers : List Marker) :
    (ofMarkers markers).countP announces = 0 := by
  cases markers <;> simp [ofMarkers, List.countP_eq_zero, announces]

theorem countP_announces_clauses (prosody : Prosody) (clauses : List Clause) :
    (clauses.map (Task.clause prosody)).countP announces = 0 := by
  simp [List.countP_eq_zero, announces]

theorem countP_announces_afterStream (voiced : Bool) (pause : Option Float32) :
    (afterStream voiced pause).countP announces = 0 := by
  cases voiced <;> cases pause <;> simp [afterStream, announces]

theorem countP_announces_ofJob (kind : JobKind) : (ofJob kind).countP announces = 0 := by
  cases kind <;> simp [ofJob, closing, announces, List.countP_eq_zero]

end Task

/-- A task that queues a frame announces nothing. -/
theorem Emits.countP_announces {p q : Progress} {task : Task} {tasks rest : List Task} {f : Frame}
    (h : Emits p tasks task q f rest) :
    rest.countP Task.announces = (task :: tasks).countP Task.announces := by
  cases h <;> simp [Task.announces]

theorem Emits.kicked_eq {p q : Progress} {task : Task} {tasks rest : List Task} {f : Frame}
    (h : Emits p tasks task q f rest) : q.kicked = p.kicked := by
  cases h <;> rfl

/-- A job whose first frame is queued is to be announced by a task. -/
theorem Emits.owes_eq {p q : Progress} {task : Task} {tasks rest : List Task} {f : Frame}
    {g : Stamp} (h : Emits p tasks task q f rest) :
    (Synthesizer.working (q.noting f) (if q.kicked then rest else .kick :: rest)).owes g =
      (Synthesizer.working p (task :: tasks)).owes g := by
  have hcount := h.countP_announces
  have hstamp : (q.noting f).stamp = p.stamp := h.stamp_eq
  have hnoted : (q.noting f).kicked = true := rfl
  simp only [Synthesizer.owes, hstamp, hnoted, h.kicked_eq]
  split
  · cases hk : p.kicked
    · simp only [List.countP_cons, hcount, Task.announces, Bool.false_eq_true, if_false, if_true]
      omega
    · simp only [hcount, if_true]
  · rfl

namespace Session

/-- The markers that have been reported. -/
def reported (s : Session) : List Marker := s.log.filterMap Event.marker?

/-- The markers of the frames that have been queued. -/
def markersQueued (s : Session) : List Marker := s.queued.filterMap Frame.marker

/-- The markers from generation `g` on that may still be reported. -/
def outstanding (g : Stamp) (s : Session) : List Marker :=
  markersFrom g s.held ++ markersFrom g s.shelved ++ s.player.markersFrom g ++ s.frames.markers

/-- The jobs from generation `g` on that may still be done. -/
def owed (g : Stamp) (s : Session) : Nat :=
  s.jobs.jobs.countP (g ≤ ·.stamp) + s.synthesizer.owes g +
    (s.deferred ++ s.signals).countP (Signal.isPlayFrom g) + s.player.owes g

/-- The player is to drop its job: one of another generation that it was to take up, one that it
has taken up and that is not to be heard any more, or any job, once the session ends. -/
inductive Drops (s : Session) : Prop where
  | overtaken {x : Stamp} (hp : s.player = .starting x) (hc : s.generation ≠ x)
  | hushed {x : Stamp} (hp : s.player.taken? = some x) (hl : s.isLive x = false)
  | ended (hx : .shutdown ∈ s.deferred ++ s.signals)

variable {rig : Rig} {s t : Session} {g : Stamp}

theorem markersFrom_append (calls more : List Call) :
    markersFrom g (calls ++ more) = markersFrom g calls ++ markersFrom g more := by
  simp [markersFrom]

/-- A call that is made is taken off the calls of its device, wherever it stood. -/
theorem count_markersFrom_eraseIdx {calls : List Call} {i : Nat} {c : Call}
    (h : calls[i]? = some c) (m : Marker) :
    (markersFrom g [c]).count m + (markersFrom g (calls.eraseIdx i)).count m =
      (markersFrom g calls).count m := by
  obtain ⟨hi, hc⟩ := List.getElem?_eq_some_iff.mp h
  have hperm : (c :: calls.eraseIdx i).Perm calls := by
    rw [← hc]
    exact List.getElem_cons_eraseIdx_perm hi
  have hmarkers : (markersFrom g (c :: calls.eraseIdx i)).Perm (markersFrom g calls) :=
    (hperm.filter _).flatMap_right _
  rw [← hmarkers.count_eq m, ← List.count_append, ← markersFrom_append, List.singleton_append]

/-- A device that is left keeps the calls that it holds, or none. -/
theorem count_markersFrom_held (s : Session) (keeps : Bool) (m : Marker) :
    (markersFrom g (if keeps then s.held else [])).count m ≤ (markersFrom g s.held).count m := by
  split
  · exact Nat.le_refl _
  · exact Nat.zero_le _

/-- A call from a generation before `g` reports nothing once the generation is `g`. -/
theorem count_reports_le (c : Call) (hg : g ≤ s.generation) (m : Marker) :
    ((s.reports c).filterMap Event.marker?).count m ≤ (markersFrom g [c]).count m := by
  unfold reports
  split
  · rename_i hc
    have hmap : (c.markers.map Event.reached).filterMap Event.marker? = c.markers := by
      simp [List.filterMap_map, Event.marker?, Function.comp_def]
    rw [hmap]
    simp [markersFrom, hc ▸ hg]
  · simp

/-- A step that reports nothing and leaves the calls and the frames where they are. -/
theorem count_outstanding_of_eq (hl : t.reported = s.reported) (hh : t.held = s.held)
    (hs : t.shelved = s.shelved) (hp : t.player.markersFrom g <:+ s.player.markersFrom g)
    (hf : t.frames = s.frames) {m : Marker} :
    t.reported.count m + (t.outstanding g).count m ≤
      s.reported.count m + (s.outstanding g).count m := by
  have hcount := hp.sublist.count_le m
  simp only [outstanding, hl, hh, hs, hf, List.count_append]
  omega

/-- A frame that is queued is outstanding. -/
theorem count_outstanding_synthesis (h : Synthesis rig s t) (m : Marker) :
    t.reported = s.reported ∧ (t.outstanding g).count m + s.markersQueued.count m =
      (s.outstanding g).count m + t.markersQueued.count m := by
  cases h with
  | put =>
    refine ⟨rfl, ?_⟩
    simp only [outstanding, markersQueued, Frame.Queue.markers, Frame.Queue.enqueue, held,
      List.filterMap_append, List.count_append]
    omega
  | _ => exact ⟨rfl, rfl⟩

/-- The device makes the first call that it holds. -/
theorem count_outstanding_hear {c : Call} {rest : List Call} (hh : s.held = c :: rest)
    (hg : g ≤ s.generation) (m : Marker) :
    ((s.log ++ s.reports c).filterMap Event.marker?).count m +
        (outstanding g { s with slot := { s.slot with output := rest } }).count m ≤
      s.reported.count m + (s.outstanding g).count m := by
  have hc := count_reports_le c hg m
  have hheld : (markersFrom g s.held).count m =
      (markersFrom g [c]).count m + (markersFrom g rest).count m := by
    rw [hh, ← List.count_append, ← markersFrom_append, List.singleton_append]
  simp only [reported, outstanding, held, List.filterMap_append, List.count_append] at hheld ⊢
  omega

/-- What playback reports was outstanding, and is no more. -/
theorem count_outstanding_playback (h : Playback rig s t) (hg : g ≤ s.generation) (m : Marker) :
    t.reported.count m + (t.outstanding g).count m ≤
      s.reported.count m + (s.outstanding g).count m := by
  have hrender : (s.frames.render rig.chunk).1.markers.count m +
      (s.frames.render rig.chunk).2.markers.count m = s.frames.markers.count m := by
    rw [s.frames.markers_render rig.chunk, List.count_append]
  cases h with
  | @render stamp hp he =>
    have hp' : (s.player.markersFrom g).count m = 0 := by simp [hp, Player.markersFrom]
    simp only [reported, outstanding, held, List.count_append, Player.markersFrom]
    split
    · omega
    · rw [List.count_nil]
      omega
  | renderEnd =>
    simp only [reported, outstanding, held, List.count_append, Player.markersFrom, List.count_nil]
    omega
  | renderNone =>
    simp only [reported, outstanding, held, List.count_append, Player.markersFrom, List.count_nil]
    omega
  | hear hp hgate hh => exact count_outstanding_hear hh hg m
  | @feed stamp chunk samples failed calls hp hgate hm hl hc hs hf hk =>
    -- The markers of the chunk pass from the player to a call of the device, or are lost.
    have hcalls : (markersFrom g calls).count m ≤ (s.player.markersFrom g).count m := by
      rw [hk, hp]
      split
      · exact Nat.zero_le _
      · simp only [markersFrom, Player.markersFrom]
        by_cases hle : g ≤ stamp <;> simp [hle]
    have hlog : [Event.fed samples (!chunk.markers.isEmpty) failed].filterMap Event.marker? = [] :=
      rfl
    have hplayer : Player.markersFrom g (if chunk.finished then .draining stamp else
        .checking stamp) = [] := by
      split <;> rfl
    simp only [reported, outstanding, held, hlog, hplayer, markersFrom_append,
      List.filterMap_append, List.count_append, List.count_nil]
    omega
  | switchDevice hp hf =>
    -- The calls that the device left behind holds are shelved, or forgotten.
    have hkept := s.count_markersFrom_held (g := g) rig.sticky m
    have hlog : [Event.opened s.slot.requested, .stopped].filterMap Event.marker? = [] := rfl
    have hnew : markersFrom g [] = [] := rfl
    simp only [reported, outstanding, held, hlog, hnew, Player.markersFrom, markersFrom_append,
      List.filterMap_append, List.count_append, List.count_nil] at hkept ⊢
    omega
  | @idle stamp failed hp hf =>
    apply count_outstanding_of_eq
    · simp [reported, Event.marker?]
    · rfl
    · rfl
    · cases failed <;> exact List.nil_suffix
    · rfl
  | missDevice =>
    apply count_outstanding_of_eq
    · simp [reported, Event.marker?]
    · rfl
    · rfl
    · exact List.nil_suffix
    · rfl
  | conclude =>
    apply count_outstanding_of_eq
    · simp [reported, Event.marker?]
    · rfl
    · rfl
    · exact List.nil_suffix
    · rfl
  | _ => apply count_outstanding_of_eq <;> first | rfl | exact List.nil_suffix

theorem count_outstanding_perform (task : HostTask) (m : Marker) :
    (s.perform rig task).reported.count m + ((s.perform rig task).outstanding g).count m ≤
      s.reported.count m + (s.outstanding g).count m := by
  cases task with
  | stopDevice =>
    have hlog : [Event.stopped].filterMap Event.marker? = [] := rfl
    have hheld := s.count_markersFrom_held (g := g) rig.sticky m
    rw [perform_stopDevice]
    simp only [reported, outstanding, held, hlog, List.filterMap_append, List.count_append,
      List.count_nil] at hheld ⊢
    omega
  | purgeFrames =>
    have hnone : s.frames.purge.markers = [] := rfl
    simp only [perform, reported, outstanding, held, hnone, List.count_append, List.count_nil]
    omega
  | _ => exact Nat.le_refl _

/-- Every step reports at most what it takes away, and makes outstanding at most what it
queues. -/
theorem count_outstanding_step {a : Act} (h : Step rig s a t) (hg : g ≤ s.generation)
    (m : Marker) :
    t.reported.count m + (t.outstanding g).count m + s.markersQueued.count m ≤
      s.reported.count m + (s.outstanding g).count m + t.markersQueued.count m := by
  cases h with
  | call hh hc =>
    cases hc with
    | pause =>
      have hlog (on : Bool) : [Event.paused on].filterMap Event.marker? = [] := rfl
      simp only [reported, hlog, List.filterMap_append, List.append_nil]
      exact Nat.le_refl _
    | _ => exact Nat.le_refl _
  | @proceed task rest hh =>
    have hqueued : (s.perform rig task).markersQueued = s.markersQueued := by
      rw [markersQueued, queued_perform, markersQueued]
    have hp : (s.perform rig task).reported.count m + ((s.perform rig task).outstanding g).count m ≤
        s.reported.count m + (s.outstanding g).count m := count_outstanding_perform task m
    rw [← hqueued] at *
    exact Nat.add_le_add_right hp _
  | synthesize hs =>
    obtain ⟨hl, hc⟩ := count_outstanding_synthesis (g := g) hs m
    rw [hl]
    omega
  | play hp =>
    have hc := count_outstanding_playback hp hg m
    have hqueued : t.markersQueued = s.markersQueued := by cases hp <;> rfl
    rw [hqueued]
    omega
  | @expire stamp hp =>
    have hchunk : (Player.checking stamp).markersFrom g = [] := rfl
    simp only [reported, outstanding, held, hchunk, List.count_append, List.count_nil,
      markersQueued]
    omega
  | @sound c rest hgate hh => exact Nat.add_le_add_right (count_outstanding_hear hh hg m) _
  | @callBack i c hgate hi =>
    have hc := count_reports_le c hg m
    have hshelved := count_markersFrom_eraseIdx (g := g) hi m
    simp only [reported, outstanding, held, markersQueued, List.filterMap_append,
      List.count_append]
    omega

/-- Another synthesizer owes something else. -/
theorem owed_synthesizer (s : Session) (w : Synthesizer) :
    owed g { s with synthesizer := w } + s.synthesizer.owes g = s.owed g + w.owes g := by
  simp only [owed]
  omega

/-- A job is announced by a task until it is by the signal that the task sends. -/
theorem owed_signal {p : Progress} {x : Signal} {tasks : List Task}
    (hd : s.synthesizer.Stamped fun _ => True)
    (hw : s.synthesizer = .working p (.signal x :: tasks)) :
    owed g { s with signals := s.signals ++ [x], synthesizer := .working p tasks } = s.owed g := by
  have hx (y : Stamp) (hy : x = .play y) : y = p.stamp := by
    rw [hw] at hd
    exact hd.2 y (by simp [hy])
  simp only [owed, hw, Synthesizer.owes, List.countP_append, List.countP_cons]
  cases x with
  | play y =>
    obtain rfl := hx y rfl
    simp only [Signal.isPlayFrom, Task.announces, List.countP_nil, decide_eq_true_eq, if_true]
    split <;> omega
  | framesReady => simp [Signal.isPlayFrom, Task.announces]
  | shutdown => simp [Signal.isPlayFrom, Task.announces]

/-- The synthesizer keeps the account of the jobs, but for a job that it leaves. -/
theorem owed_synthesis_cases (h : Synthesis rig s t) (hd : s.Stamped fun _ => True) :
    t.owed g = s.owed g ∨ s.synthesizer.Leaves s.generation ∧
      t.owed g ≤ s.owed g ∧ s.owed g ≤ t.owed g + s.synthesizer.owes g := by
  have hidle : owed g { s with synthesizer := .idle } + s.synthesizer.owes g = s.owed g :=
    owed_synthesizer s .idle
  cases h with
  | fetch hi ho hj =>
    refine .inl ?_
    simp only [owed, hi, hj, Synthesizer.owes, List.countP_cons, decide_eq_true_eq]
    omega
  | exit hi => exact .inl (by simp only [owed, hi, Synthesizer.owes])
  | begin hf hc =>
    refine .inl ?_
    simp only [owed, hf, Synthesizer.owes, Task.countP_announces_ofJob, Bool.false_eq_true,
      if_false, Nat.add_zero]
  | drop hf hc =>
    have hleaves : s.synthesizer.Leaves s.generation := by
      rw [hf]
      exact hc
    exact .inr ⟨hleaves, by omega, by omega⟩
  | finish hw =>
    have hleaves : s.synthesizer.Leaves s.generation := by
      rw [hw]
      exact .inl rfl
    exact .inr ⟨hleaves, by omega, by omega⟩
  | abandon hw hc =>
    have hleaves : s.synthesizer.Leaves s.generation := by
      rw [hw]
      exact .inr hc
    exact .inr ⟨hleaves, by omega, by omega⟩
  | put hw hc he => exact .inl (by simp only [owed, hw, he.owes_eq])
  | block hw =>
    refine .inl ?_
    simp only [owed, hw, Synthesizer.owes, List.countP_append, List.countP_cons,
      Task.countP_announces_clauses, Task.countP_announces_ofMarkers, Nat.zero_add, Task.announces]
    simp
  | exhaust hw =>
    refine .inl ?_
    simp only [owed, hw, Synthesizer.owes, List.countP_append, List.countP_cons,
      Task.countP_announces_afterStream, Nat.zero_add, Task.announces]
    simp
  | @withhold p tasks hw hc =>
    have hleaves : s.synthesizer.Leaves s.generation := by
      rw [hw]
      exact .inr hc
    have hmoved := owed_synthesizer (g := g) s (.working p tasks)
    have hfewer : (Synthesizer.working p tasks).owes g ≤ s.synthesizer.owes g := by
      simp only [hw, Synthesizer.owes, List.countP_cons]
      split <;> omega
    exact .inr ⟨hleaves, by omega, by omega⟩
  | signal hw => exact .inl (owed_signal hd.synthesizer hw)
  | lower hw => exact .inl (by simp [owed, hw, Synthesizer.owes, Task.announces])
  | refused hw => exact .inl (by simp [owed, hw, Synthesizer.owes, Task.announces])
  | answered hw => exact .inl (by simp [owed, hw, Synthesizer.owes, Task.announces])
  | kick hw => exact .inl (by simp [owed, hw, Synthesizer.owes, Task.announces, List.countP_cons])
  | raise hw => exact .inl (by simp [owed, hw, Synthesizer.owes, Task.announces])

/-- Synthesis hands on the announcement of each job once. -/
theorem owed_synthesis (h : Synthesis rig s t) (hd : s.Stamped fun _ => True) :
    t.owed g ≤ s.owed g := by
  obtain heq | ⟨-, hle, -⟩ := owed_synthesis_cases (g := g) h hd
  · exact Nat.le_of_eq heq
  · exact hle

theorem Takes.countP_isPlayFrom {x : Signal} {ds ss : List Signal} (h : s.Takes x ds ss) :
    (s.deferred ++ s.signals).countP (Signal.isPlayFrom g) =
      (ds ++ ss).countP (Signal.isPlayFrom g) + if Signal.isPlayFrom g x then 1 else 0 := by
  rcases h with ⟨hd, hs⟩ | ⟨hd, rfl, hs⟩
  · simp only [hd, hs, List.cons_append, List.countP_cons]
  · simp only [hd, hs, List.nil_append, List.countP_cons]

/-- The jobs that have been done. -/
def done (s : Session) : Nat := s.log.count .done

theorem count_done_reports (c : Call) : (s.reports c).count .done = 0 := by
  unfold reports
  split
  · simp [List.count_eq_zero]
  · rfl

/-- Only a player that completes a job of the present generation reports that it is done. -/
theorem completing_of_done_ne {a : Act} (hst : Step rig s a t) (hd : t.done ≠ s.done) :
    t.done = s.done + 1 ∧ s.player = .completing s.generation := by
  have hevents {events : List Event} (he : events.count .done = 0)
      (hl : t.log = s.log ++ events) : t.done = s.done := by
    rw [done, hl, List.count_append, he, done, Nat.add_zero]
  cases hst with
  | call hh hc =>
    cases hc with
    | pause => exact absurd (hevents rfl rfl) hd
    | _ => exact absurd rfl hd
  | @proceed task rest hh =>
    cases task with
    | stopDevice =>
      refine absurd (hevents (rfl : [Event.stopped].count .done = 0) ?_) hd
      rw [perform_stopDevice]
    | _ => exact absurd rfl hd
  | synthesize hs => cases hs <;> exact absurd rfl hd
  | play hp =>
    cases hp with
    | missDevice => exact absurd (hevents rfl rfl) hd
    | switchDevice => exact absurd (hevents rfl rfl) hd
    | hear => exact absurd (hevents (count_done_reports _) rfl) hd
    | feed => exact absurd (hevents rfl rfl) hd
    | idle => exact absurd (hevents rfl rfl) hd
    | conclude hp _ _ hc => exact ⟨by simp [done], hc ▸ hp⟩
    | _ => exact absurd rfl hd
  | expire => exact absurd rfl hd
  | sound => exact absurd (hevents (count_done_reports _) rfl) hd
  | callBack => exact absurd (hevents (count_done_reports _) rfl) hd

/-- Only the player moves on. -/
theorem owed_of_player (hl : t.done = s.done) (hj : t.jobs = s.jobs)
    (hs : t.synthesizer = s.synthesizer)
    (hx : (t.deferred ++ t.signals).countP (Signal.isPlayFrom g) =
      (s.deferred ++ s.signals).countP (Signal.isPlayFrom g)) :
    t.done + t.owed g + s.player.owes g = s.done + s.owed g + t.player.owes g := by
  simp only [owed, hl, hj, hs, hx]
  omega

/-- The player stays at its job. -/
theorem done_owed_of_stay (hl : t.done = s.done) (hj : t.jobs = s.jobs)
    (hs : t.synthesizer = s.synthesizer)
    (hx : (t.deferred ++ t.signals).countP (Signal.isPlayFrom g) =
      (s.deferred ++ s.signals).countP (Signal.isPlayFrom g))
    (hp : t.player.stamp? = s.player.stamp?) : t.done + t.owed g = s.done + s.owed g := by
  have howes : t.player.owes g = s.player.owes g := by simp only [Player.owes, hp]
  have hmoved := owed_of_player hl hj hs hx
  omega

/-- The player drops its job. -/
theorem done_owed_of_drop (hl : t.done = s.done) (hj : t.jobs = s.jobs)
    (hs : t.synthesizer = s.synthesizer)
    (hx : (t.deferred ++ t.signals).countP (Signal.isPlayFrom g) =
      (s.deferred ++ s.signals).countP (Signal.isPlayFrom g))
    (hp : t.player.stamp? = none) : t.done + t.owed g + s.player.owes g = s.done + s.owed g := by
  have hnone : t.player.owes g = 0 := by simp [Player.owes, hp]
  have hmoved := owed_of_player hl hj hs hx
  omega

/-- Playback keeps the account of the jobs: each job that is done has been announced, and none is
let go but one that the player drops. -/
theorem owed_playback_cases (h : Playback rig s t) (hg : g ≤ s.generation) :
    t.done + t.owed g = s.done + s.owed g ∨
      s.Drops ∧ t.done + t.owed g + s.player.owes g = s.done + s.owed g := by
  cases h with
  | turnTo hp hx =>
    refine .inl ?_
    have hc := hx.countP_isPlayFrom (g := g)
    simp only [Signal.isPlayFrom, decide_eq_true_eq] at hc
    simp only [done, owed, hp, hc, Player.owes, Player.stamp?, Option.any, decide_eq_true_eq,
      Bool.false_eq_true, if_false]
    omega
  | disregard hp hx =>
    exact .inl (done_owed_of_stay rfl rfl rfl hx.countP_isPlayFrom.symm rfl)
  | leave hp hx =>
    exact .inl (done_owed_of_stay rfl rfl rfl hx.countP_isPlayFrom.symm (by rw [hp]; rfl))
  | decline hp hc =>
    exact .inr ⟨.overtaken hp hc, done_owed_of_drop rfl rfl rfl rfl rfl⟩
  | lapse hp hl =>
    exact .inr ⟨.hushed (by rw [hp]; rfl) hl, done_owed_of_drop rfl rfl rfl rfl rfl⟩
  | discard hp hl =>
    exact .inr ⟨.hushed (by rw [hp]; rfl) hl, done_owed_of_drop rfl rfl rfl rfl rfl⟩
  | forget hp hl =>
    exact .inr ⟨.hushed (by rw [hp]; rfl) hl, done_owed_of_drop rfl rfl rfl rfl rfl⟩
  | quit hp hx =>
    exact .inr ⟨.ended (by simp [hx]),
      done_owed_of_drop rfl rfl rfl (by simp [hx, Signal.isPlayFrom]) rfl⟩
  | @conclude stamp hp hgate hl hc =>
    refine .inl ?_
    have howes : s.player.owes g = 1 := by simp [hp, Player.owes, Player.stamp?, hc ▸ hg]
    have hnone : Player.waiting.owes g = 0 := rfl
    simp only [done, owed, howes, hnone, List.count_append, List.count_singleton_self]
    omega
  | hear hp hgate hh =>
    exact .inl (done_owed_of_stay (by simp [done, count_done_reports]) rfl rfl rfl rfl)
  | putOff hp hx =>
    exact .inl (done_owed_of_stay rfl rfl rfl (by simp [hx]) (by rw [hp]; rfl))
  | lookAgain hp hx =>
    exact .inl (done_owed_of_stay rfl rfl rfl (by simp [hx, Signal.isPlayFrom]) (by rw [hp]; rfl))
  | missDevice hp =>
    exact .inl (done_owed_of_stay (by simp [done]) rfl rfl rfl (by rw [hp]; rfl))
  | switchDevice hp =>
    exact .inl (done_owed_of_stay (by simp [done]) rfl rfl rfl (by rw [hp]; rfl))
  | @feed stamp chunk samples failed calls hp =>
    refine .inl (done_owed_of_stay (by simp [done]) rfl rfl rfl ?_)
    rw [hp]
    cases chunk.finished <;> rfl
  | @idle stamp failed hp =>
    refine .inl (done_owed_of_stay (by simp [done]) rfl rfl rfl ?_)
    rw [hp]
    cases failed <;> rfl
  | takeUp hp => exact .inl (done_owed_of_stay rfl rfl rfl rfl (by rw [hp]; rfl))
  | keepDevice hp => exact .inl (done_owed_of_stay rfl rfl rfl rfl (by rw [hp]; rfl))
  | look hp => exact .inl (done_owed_of_stay rfl rfl rfl rfl (by rw [hp]; rfl))
  | render hp => exact .inl (done_owed_of_stay rfl rfl rfl rfl (by rw [hp]; rfl))
  | renderEnd hp => exact .inl (done_owed_of_stay rfl rfl rfl rfl (by rw [hp]; rfl))
  | renderNone hp => exact .inl (done_owed_of_stay rfl rfl rfl rfl (by rw [hp]; rfl))
  | endJob hp => exact .inl (done_owed_of_stay rfl rfl rfl rfl (by rw [hp]; rfl))
  | await hp => exact .inl (done_owed_of_stay rfl rfl rfl rfl (by rw [hp]; rfl))
  | idled hp => exact .inl (done_owed_of_stay rfl rfl rfl rfl (by rw [hp]; rfl))

/-- Playback is owed what it does. -/
theorem owed_playback (h : Playback rig s t) (hg : g ≤ s.generation) :
    t.done + t.owed g ≤ s.done + s.owed g := by
  obtain heq | ⟨-, heq⟩ := owed_playback_cases h hg
  · exact Nat.le_of_eq heq
  · omega

/-- Every step does at most what it is owed, and only a call that asks for speech adds to that. -/
theorem owed_step {a : Act} (h : Step rig s a t) (hd : s.Stamped fun _ => True)
    (hg : g ≤ s.generation) :
    t.done + t.owed g ≤ s.done + s.owed g + if a.saying?.isSome then 1 else 0 := by
  cases h with
  | call hh hc =>
    cases hc with
    | @speak commands paged ho =>
      have hpush (job : Job) : (s.jobs.push job).jobs.countP (g ≤ ·.stamp) ≤
          s.jobs.jobs.countP (g ≤ ·.stamp) + 1 := by
        unfold JobQueue.push
        split
        · omega
        · rw [List.countP_append]
          exact Nat.add_le_add_left (List.countP_le_length (l := [job])) _
      have hle := hpush ⟨.ofBlocks (Block.segment rig.limits paged commands), s.generation⟩
      simp only [done, owed, Act.saying?, Option.isSome_some, if_true]
      omega
    | pause => simp [done, owed, List.count_append]
    | _ => exact Nat.le_add_right ..
  | @proceed task rest hh =>
    cases task with
    | stopDevice =>
      rw [perform_stopDevice]
      simp only [done, owed, List.count_append]
      exact Nat.le_refl _
    | drainJobs =>
      simp only [perform, done, owed, JobQueue.drain, List.countP_nil]
      omega
    | shutDown =>
      have hsignals :
          (s.deferred ++ (s.signals ++ [Signal.shutdown])).countP (Signal.isPlayFrom g) =
          (s.deferred ++ s.signals).countP (Signal.isPlayFrom g) := by simp [Signal.isPlayFrom]
      simp only [perform, done, owed, hsignals]
      exact Nat.le_add_right ..
    | _ => exact Nat.le_add_right ..
  | synthesize hs =>
    have hl : t.done = s.done := by cases hs <;> rfl
    have ho := owed_synthesis (g := g) hs hd
    omega
  | play hp => exact Nat.le_add_right_of_le (owed_playback hp hg)
  | expire hp =>
    apply Nat.le_add_right_of_le
    exact Nat.le_of_eq (done_owed_of_stay rfl rfl rfl rfl (by rw [hp]; rfl))
  | sound hgate hh =>
    simp only [done, owed, List.count_append, count_done_reports]
    exact Nat.le_add_right ..
  | callBack hgate hi =>
    simp only [done, owed, List.count_append, count_done_reports]
    exact Nat.le_add_right ..

namespace Run

variable {acts : List Act}

theorem count_outstanding_le (h : Run (step? rig) s acts t) (hg : g ≤ s.generation)
    (m : Marker) :
    t.reported.count m + (t.outstanding g).count m + s.markersQueued.count m ≤
      s.reported.count m + (s.outstanding g).count m + t.markersQueued.count m := by
  induction h with
  | refl => exact Nat.le_refl _
  | tail hr ha ih =>
    have hstep := count_outstanding_step (step?_cases ha) (Nat.le_trans hg hr.generation_le) m
    omega

theorem owed_le (h : Run (step? rig) s acts t) (hs : s.Stamped (· ≤ s.generation))
    (hg : g ≤ s.generation) :
    t.done + t.owed g ≤ s.done + s.owed g + acts.countP (·.saying?.isSome) := by
  induction h with
  | refl => exact Nat.le_refl _
  | tail hr ha ih =>
    have hstep := owed_step (step?_cases ha) ((hr.stamped_le hs).mono fun _ _ => trivial)
      (Nat.le_trans hg hr.generation_le)
    rw [List.countP_append, List.countP_singleton]
    omega

end Run

theorem markersFrom_eq_nil {calls : List Call} (h : ∀ c ∈ calls, c.stamp < g) :
    markersFrom g calls = [] := by
  have hnone : calls.filter (g ≤ ·.stamp) = [] := by
    rw [List.filter_eq_nil_iff]
    intro c hc
    simpa using h c hc
  rw [markersFrom, hnone, List.flatMap_nil]

namespace Cancelled

theorem outstanding_eq_nil (h : s.Cancelled []) : s.outstanding s.generation = [] := by
  have hstale := h.stale List.not_mem_nil
  have hplayer : s.player.markersFrom s.generation = [] := by
    unfold Player.markersFrom
    split
    · rename_i stamp chunk hp
      exact if_neg (Nat.not_le_of_lt (hstale.player stamp (by rw [hp]; rfl)))
    · rfl
  have hframes : s.frames.markers = [] := by
    rw [Frame.Queue.markers, (h.purged List.not_mem_nil).1.1]
    rfl
  rw [outstanding, markersFrom_eq_nil hstale.held, markersFrom_eq_nil hstale.shelved, hplayer,
    hframes]
  rfl

theorem owed_eq_zero (h : s.Cancelled []) : s.owed s.generation = 0 := by
  have hstale := h.stale List.not_mem_nil
  have hsynthesizer : s.synthesizer.owes s.generation = 0 := by
    have hs := hstale.synthesizer
    cases hw : s.synthesizer with
    | fetched job =>
      rw [hw] at hs
      exact if_neg (Nat.not_le_of_lt hs)
    | working p tasks =>
      rw [hw] at hs
      exact if_neg (Nat.not_le_of_lt hs.1)
    | idle => rfl
    | exited => rfl
  have hsignals : (s.deferred ++ s.signals).countP (Signal.isPlayFrom s.generation) = 0 := by
    rw [List.countP_eq_zero]
    intro x hx
    cases x with
    | play stamp => simpa [Signal.isPlayFrom] using hstale.signals stamp hx
    | framesReady => simp [Signal.isPlayFrom]
    | shutdown => simp [Signal.isPlayFrom]
  have hplayer : s.player.owes s.generation = 0 := by
    unfold Player.owes
    cases hp : s.player.stamp? with
    | none => rfl
    | some stamp => simpa using hstale.player stamp hp
  rw [owed, h.drained List.not_mem_nil, hsynthesizer, hsignals, hplayer]
  rfl

end Cancelled

end Session

end Elocution.Speech
