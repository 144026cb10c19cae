import Elocution.Proofs.Session.Step

/-!
# What a run never takes back

The log and the frames that have been queued only grow, the generation only advances, and no
step makes a stamp up: all stamps come from the generation at which a call of the host was made.
-/

namespace Elocution.Speech

/-- All stamps of a synthesizer satisfy `P`; it announces no job but its own. -/
def Synthesizer.Stamped (P : Stamp → Prop) : Synthesizer → Prop
  | .fetched job => P job.stamp
  | .working p tasks => P p.stamp ∧ ∀ x, .signal (.play x) ∈ tasks → x = p.stamp
  | .idle | .exited => True

/-- The generation of the job that the player is at. -/
def Player.stamp? : Player → Option Stamp
  | .waiting | .stopped => none
  | .starting x | .opening x | .checking x | .rendering x | .delivering x _ | .testing x
  | .polling x | .draining x | .idling x | .completing x => some x

namespace Task

theorem signal_notMem_ofMarkers (x : Signal) (markers : List Marker) :
    .signal x ∉ ofMarkers markers := by
  cases markers <;> simp [ofMarkers]

theorem signal_notMem_clauses (x : Signal) (prosody : Prosody) (clauses : List Clause) :
    .signal x ∉ clauses.map (Task.clause prosody) := by
  simp

theorem play_notMem_afterStream (x : Stamp) (voiced : Bool) (pause : Option Float32) :
    .signal (.play x) ∉ afterStream voiced pause := by
  cases voiced <;> cases pause <;> simp [afterStream]

theorem play_notMem_ofJob (x : Stamp) (kind : JobKind) :
    .signal (.play x) ∉ ofJob kind := by
  cases kind <;> simp [ofJob, closing]

end Task

/-- A task that queues a frame keeps the stamp and leaves no announcement that was not there. -/
theorem Emits.stamp_eq {p q : Progress} {task : Task} {tasks rest : List Task} {f : Frame}
    (h : Emits p tasks task q f rest) : q.stamp = p.stamp := by
  cases h <;> rfl

theorem Emits.signal_mem {p q : Progress} {task : Task} {tasks rest : List Task} {f : Frame}
    {x : Signal} (h : Emits p tasks task q f rest) (hx : .signal x ∈ rest) :
    .signal x ∈ task :: tasks := by
  cases h <;> simp_all

namespace Session

/-- All stamps of a session satisfy `P`. -/
structure Stamped (P : Stamp → Prop) (s : Session) : Prop where
  jobs : ∀ job ∈ s.jobs.jobs, P job.stamp
  synthesizer : s.synthesizer.Stamped P
  signals : ∀ x, .play x ∈ s.deferred ++ s.signals → P x
  player : ∀ x, s.player.stamp? = some x → P x
  held : ∀ c ∈ s.held, P c.stamp
  shelved : ∀ c ∈ s.shelved, P c.stamp

variable {rig : Rig} {P Q : Stamp → Prop} {s t : Session}

theorem Takes.mem_iff {x y : Signal} {ds ss : List Signal} (h : s.Takes x ds ss) :
    y ∈ s.deferred ++ s.signals ↔ y = x ∨ y ∈ ds ++ ss := by
  rcases h with ⟨hd, hs⟩ | ⟨hd, rfl, hs⟩ <;> simp [hd, hs]

theorem Stamped.mono (h : s.Stamped P) (hpq : ∀ x, P x → Q x) : s.Stamped Q := by
  refine ⟨fun j hj => hpq _ (h.jobs j hj), ?_, fun x hx => hpq _ (h.signals x hx),
    fun x hx => hpq _ (h.player x hx), fun c hc => hpq _ (h.held c hc),
    fun c hc => hpq _ (h.shelved c hc)⟩
  have hs := h.synthesizer
  cases hw : s.synthesizer with
  | fetched job => exact hpq _ (by simpa [hw, Synthesizer.Stamped] using hs)
  | working p tasks =>
    rw [hw] at hs
    exact ⟨hpq _ hs.1, hs.2⟩
  | idle => trivial
  | exited => trivial

theorem Stamped.synthesis (h : s.Stamped P) (hst : Synthesis rig s t) : t.Stamped P := by
  have hs := h.synthesizer
  cases hst with
  | fetch hi ho hj =>
    refine { h with jobs := fun job hm => h.jobs job ?_, synthesizer := h.jobs _ ?_ }
    · rw [hj]
      exact List.mem_cons_of_mem _ hm
    · simp [hj]
  | exit => exact { h with synthesizer := trivial }
  | begin hf hc =>
    rw [hf] at hs
    exact { h with synthesizer := ⟨hs, fun x hx => absurd hx (Task.play_notMem_ofJob x _)⟩ }
  | drop => exact { h with synthesizer := trivial }
  | finish => exact { h with synthesizer := trivial }
  | abandon => exact { h with synthesizer := trivial }
  | @put p q task tasks rest f hw hc he =>
    rw [hw] at hs
    refine { h with synthesizer := ⟨?_, fun x hx => ?_⟩ }
    · exact he.stamp_eq.symm ▸ hs.1
    · have hx' : .signal (.play x) ∈ rest := by
        cases hk : q.kicked <;> simpa [hk] using hx
      exact (hs.2 x (he.signal_mem hx')).trans he.stamp_eq.symm
  | lower hw =>
    rw [hw] at hs
    exact { h with synthesizer := ⟨hs.1, fun x hx => hs.2 x (List.mem_cons_of_mem _ hx)⟩ }
  | block hw hc =>
    rw [hw] at hs
    refine { h with synthesizer := ⟨hs.1, fun x hx => hs.2 x ?_⟩ }
    simp only [List.mem_append, Task.signal_notMem_clauses, Task.signal_notMem_ofMarkers,
      false_or] at hx
    exact List.mem_cons_of_mem _ hx
  | refused hw =>
    rw [hw] at hs
    exact { h with synthesizer := ⟨hs.1, fun x hx => hs.2 x (List.mem_cons_of_mem _ hx)⟩ }
  | answered hw =>
    rw [hw] at hs
    refine { h with synthesizer := ⟨hs.1, fun x hx => hs.2 x ?_⟩ }
    simpa using hx
  | exhaust hw =>
    rw [hw] at hs
    refine { h with synthesizer := ⟨hs.1, fun x hx => hs.2 x ?_⟩ }
    simp only [List.mem_append, Task.play_notMem_afterStream, false_or] at hx
    exact List.mem_cons_of_mem _ hx
  | kick hw =>
    rw [hw] at hs
    refine { h with synthesizer := ⟨hs.1, fun x hx => ?_⟩ }
    simp only [List.mem_cons, Task.signal.injEq, Signal.play.injEq] at hx
    rcases hx with rfl | hx
    · rfl
    · exact hs.2 x (List.mem_cons_of_mem _ hx)
  | withhold hw =>
    rw [hw] at hs
    exact { h with synthesizer := ⟨hs.1, fun x hx => hs.2 x (List.mem_cons_of_mem _ hx)⟩ }
  | @signal p y tasks hw =>
    rw [hw] at hs
    refine { h with
      synthesizer := ⟨hs.1, fun x hx => hs.2 x (List.mem_cons_of_mem _ hx)⟩
      signals := fun x hx => ?_ }
    simp only [List.mem_append, List.mem_singleton] at hx
    rcases hx with hx | hx | rfl
    · exact h.signals x (List.mem_append_left _ hx)
    · exact h.signals x (List.mem_append_right _ hx)
    · rw [hs.2 x (List.mem_cons_self ..)]
      exact hs.1
  | raise hw =>
    rw [hw] at hs
    exact { h with synthesizer := ⟨hs.1, fun x hx => hs.2 x (List.mem_cons_of_mem _ hx)⟩ }

theorem Stamped.playback (h : s.Stamped P) (hst : Playback rig s t) : t.Stamped P := by
  cases hst with
  | turnTo hp hx =>
    refine { h with signals := fun x hm => h.signals x ?_, player := fun x hm => h.signals x ?_ }
    · exact hx.mem_iff.mpr (.inr hm)
    · obtain rfl := Option.some.inj hm
      exact hx.mem_iff.mpr (.inl rfl)
  | disregard hp hx =>
    exact { h with signals := fun x hm => h.signals x (hx.mem_iff.mpr (.inr hm)) }
  | leave hp hx =>
    exact { h with
      signals := fun x hm => h.signals x (hx.mem_iff.mpr (.inr hm)), player := by rintro _ ⟨⟩ }
  | takeUp hp => exact { h with player := fun x hm => h.player x (by rw [hp]; exact hm) }
  | decline => exact { h with player := by rintro _ ⟨⟩ }
  | keepDevice hp => exact { h with player := fun x hm => h.player x (by rw [hp]; exact hm) }
  | missDevice hp => exact { h with player := fun x hm => h.player x (by rw [hp]; exact hm) }
  | switchDevice hp =>
    refine { h with
      player := fun x hm => h.player x (by rw [hp]; exact hm), held := List.forall_mem_nil _
      shelved := fun c hc => ?_ }
    rcases List.mem_append.mp hc with hc | hc
    · exact h.shelved c hc
    · split at hc
      · exact h.held c hc
      · simp at hc
  | look hp => exact { h with player := fun x hm => h.player x (by rw [hp]; exact hm) }
  | lapse => exact { h with player := by rintro _ ⟨⟩ }
  | render hp => exact { h with player := fun x hm => h.player x (by rw [hp]; exact hm) }
  | renderEnd hp => exact { h with player := fun x hm => h.player x (by rw [hp]; exact hm) }
  | renderNone hp => exact { h with player := fun x hm => h.player x (by rw [hp]; exact hm) }
  | hear hp hg hh =>
    refine { h with held := fun c hc => h.held c ?_ }
    rw [hh]
    exact List.mem_cons_of_mem _ hc
  | @feed stamp chunk samples failed calls hp hg hm hl hc hs hf hk =>
    refine { h with player := fun x hm => h.player x ?_, held := fun c hm => ?_ }
    · rw [hp]
      cases hfin : chunk.finished <;> simpa [hfin, Player.stamp?] using hm
    · rcases List.mem_append.mp hm with hm | hm
      · exact h.held c hm
      · rw [hk] at hm
        split at hm
        · simp at hm
        · obtain rfl := List.mem_singleton.mp hm
          exact h.player stamp (by rw [hp]; rfl)
  | discard => exact { h with player := by rintro _ ⟨⟩ }
  | endJob hp => exact { h with player := fun x hm => h.player x (by rw [hp]; exact hm) }
  | await hp => exact { h with player := fun x hm => h.player x (by rw [hp]; exact hm) }
  | putOff hp hx =>
    refine { h with
      player := fun x hm => h.player x (by rw [hp]; exact hm)
      signals := fun x hm => h.signals x ?_ }
    simpa [hx, or_assoc] using hm
  | lookAgain hp hx =>
    refine { h with
      player := fun x hm => h.player x (by rw [hp]; exact hm)
      signals := fun x hm => h.signals x ?_ }
    simpa [hx] using hm
  | quit hp hx =>
    refine { h with player := by rintro _ ⟨⟩, signals := fun x hm => h.signals x ?_ }
    simpa [hx] using hm
  | @idle stamp failed hp hf =>
    refine { h with player := fun x hm => h.player x ?_ }
    rw [hp]
    cases failed <;> simpa [Player.stamp?] using hm
  | idled hp => exact { h with player := fun x hm => h.player x (by rw [hp]; exact hm) }
  | conclude => exact { h with player := by rintro _ ⟨⟩ }
  | forget => exact { h with player := by rintro _ ⟨⟩ }

/-- Only a call that asks for speech brings a stamp in, the generation at that time. -/
theorem Stamped.step {a : Act} (h : s.Stamped P) (hst : Step rig s a t)
    (hg : a.saying?.isSome → P s.generation) : t.Stamped P := by
  cases hst with
  | call hh hc =>
    cases hc with
    | speak ho =>
      refine { h with jobs := fun job hm => ?_ }
      simp only [JobQueue.push] at hm
      split at hm
      · exact h.jobs job hm
      · rcases List.mem_append.mp hm with hm | hm
        · exact h.jobs job hm
        · obtain rfl := List.mem_singleton.mp hm
          exact hg rfl
    | ignore => exact h
    | cancel => exact { h with }
    | terminate => exact { h with }
    | pause => exact { h with }
    | request => exact { h with }
    | configure => exact { h with }
  | @proceed task rest hh =>
    cases task with
    | lowerSpeaking => exact { h with }
    | stopDevice =>
      rw [perform_stopDevice]
      refine { h with held := ?_ }
      change ∀ c ∈ if rig.sticky then s.held else [], P c.stamp
      split
      · exact h.held
      · exact List.forall_mem_nil _
    | advance => exact { h with }
    | armFade => exact { h with }
    | drainJobs => exact { h with jobs := List.forall_mem_nil _ }
    | purgeFrames => exact { h with }
    | closeJobs => exact { h with }
    | shutDown =>
      refine { h with signals := fun x hx => h.signals x ?_ }
      simpa [perform] using hx
  | synthesize hs => exact h.synthesis hs
  | play hp => exact h.playback hp
  | expire hp => exact { h with player := fun x hm => h.player x (by rw [hp]; exact hm) }
  | sound hg hh =>
    refine { h with held := fun c hc => h.held c ?_ }
    rw [hh]
    exact List.mem_cons_of_mem _ hc
  | callBack hg hi =>
    exact { h with shelved := fun c hc => h.shelved c (List.mem_of_mem_eraseIdx hc) }

end Session

namespace Step

open Session

variable {rig : Rig} {s t : Session}

/-- The generation stays, but for the step of a cancellation that advances it. -/
theorem generation_le {a : Act} (h : Step rig s a t) : s.generation ≤ t.generation := by
  cases h with
  | call hh hc => cases hc <;> exact Nat.le_refl _
  | @proceed task rest hh =>
    cases task with
    | advance => exact Nat.le_succ _
    | stopDevice =>
      rw [perform_stopDevice]
    | _ => exact Nat.le_refl _
  | synthesize hs => cases hs <;> exact Nat.le_refl _
  | play hp => cases hp <;> exact Nat.le_refl _
  | _ => exact Nat.le_refl _

/-- The log only grows. -/
theorem log_grows {a : Act} (h : Step rig s a t) : s.log <+: t.log := by
  cases h with
  | call hh hc =>
    cases hc with
    | pause => exact List.prefix_append ..
    | _ => exact List.prefix_rfl
  | @proceed task rest hh =>
    cases task with
    | stopDevice =>
      rw [perform_stopDevice]
      exact List.prefix_append ..
    | _ => exact List.prefix_rfl
  | synthesize hs => cases hs <;> exact List.prefix_rfl
  | play hp =>
    cases hp <;> first | exact List.prefix_rfl | exact List.prefix_append ..
  | expire => exact List.prefix_rfl
  | sound => exact List.prefix_append ..
  | callBack => exact List.prefix_append ..

/-- Frames that have been queued stay on record. -/
theorem queued_grows {a : Act} (h : Step rig s a t) : s.queued <+: t.queued := by
  cases h with
  | call hh hc => cases hc <;> exact List.prefix_rfl
  | @proceed task rest hh =>
    change s.queued <+: (s.perform rig task).queued
    rw [queued_perform]
  | synthesize hs =>
    cases hs with
    | put => exact List.prefix_append ..
    | _ => exact List.prefix_rfl
  | play hp => cases hp <;> exact List.prefix_rfl
  | _ => exact List.prefix_rfl

end Step

namespace Session

variable {rig : Rig} {P : Stamp → Prop} {s t : Session}

namespace Run

variable {step : Act → Session → Option Session} {u : Session} {acts more : List Act} {a : Act}

theorem head (ha : step a s = some t) : Run step s [a] t := .tail (.refl s) ha

theorem trans (h : Run step s acts t) (h' : Run step t more u) : Run step s (acts ++ more) u := by
  induction h' with
  | refl => simpa using h
  | tail _ ha ih =>
    rw [← List.append_assoc]
    exact .tail ih ha

/-- The last step of a run. -/
theorem unsnoc (h : Run step s (acts ++ [a]) t) : ∃ u, Run step s acts u ∧ step a u = some t := by
  generalize hl : acts ++ [a] = all at h
  cases h with
  | refl => simp at hl
  | tail hr ha =>
    obtain ⟨rfl, hb⟩ := List.append_inj' hl rfl
    obtain rfl := List.singleton_inj.mp hb
    exact ⟨_, hr, ha⟩

theorem eq_of_nil (h : Run step s [] t) : s = t := by
  generalize hl : [] = acts at h
  cases h with
  | refl => rfl
  | tail => simp at hl

/-- The first step of a run. -/
theorem uncons (h : Run step s (a :: acts) t) : ∃ u, step a s = some u ∧ Run step u acts t := by
  generalize hl : a :: acts = all at h
  induction h generalizing acts with
  | refl => cases hl
  | @tail t w all b hr hb ih =>
    cases all with
    | nil =>
      obtain ⟨rfl, rfl⟩ := List.cons.inj hl
      obtain rfl := hr.eq_of_nil
      exact ⟨w, hb, .refl w⟩
    | cons c rest =>
      obtain ⟨rfl, rfl⟩ := List.cons.inj hl
      obtain ⟨u, hu, hrest⟩ := ih rfl
      exact ⟨u, hu, .tail hrest hb⟩

theorem mono {step' : Act → Session → Option Session}
    (hs : ∀ a s t, step a s = some t → step' a s = some t) (h : Run step s acts t) :
    Run step' s acts t := by
  induction h with
  | refl => exact .refl _
  | tail _ ha ih => exact .tail ih (hs _ _ _ ha)

/-- The steps one after the other, as long as they can be made. -/
theorem of_foldlM (h : acts.foldlM (fun s a => step a s) s = some t) : Run step s acts t := by
  induction acts generalizing s with
  | nil =>
    obtain rfl := Option.some.inj h
    exact .refl _
  | cons a rest ih =>
    obtain ⟨u, ha, hr⟩ := Option.bind_eq_some_iff.mp (by simpa using h)
    exact (head ha).trans (ih hr)

/-- A whole run is a run. -/
theorem of_whole (h : Run (wholeStep? rig) s acts t) : Run (step? rig) s acts t :=
  h.mono fun _ _ _ => step?_of_wholeStep?

theorem generation_le (h : Run (step? rig) s acts t) : s.generation ≤ t.generation := by
  induction h with
  | refl => exact Nat.le_refl _
  | tail _ ha ih => exact Nat.le_trans ih (step?_cases ha).generation_le

theorem log_grows (h : Run (step? rig) s acts t) : s.log <+: t.log := by
  induction h with
  | refl => exact List.prefix_rfl
  | tail _ ha ih => exact ih.trans (step?_cases ha).log_grows

theorem queued_grows (h : Run (step? rig) s acts t) : s.queued <+: t.queued := by
  induction h with
  | refl => exact List.prefix_rfl
  | tail _ ha ih => exact ih.trans (step?_cases ha).queued_grows

/-- All stamps are generations that have been. -/
theorem stamped_le (h : Run (step? rig) s acts t)
    (hs : s.Stamped (· ≤ s.generation)) : t.Stamped (· ≤ t.generation) := by
  induction h with
  | refl => exact hs
  | tail _ ha ih =>
    have hst := step?_cases ha
    refine (ih.step hst fun _ => Nat.le_refl _).mono fun x hx => ?_
    exact Nat.le_trans hx hst.generation_le

end Run

/-- What is seen of steps, one after the other, as long as they can be made. -/
def observed {α : Type} (rig : Rig) (see : Act → Session → List α) :
    List Act → Session → List α
  | [], _ => []
  | a :: acts, s => see a s ++ ((s.step? rig a).map (observed rig see acts)).getD []

theorem observed_append {α : Type} {see : Act → Session → List α} {acts more : List Act}
    (h : Run (step? rig) s acts t) :
    observed rig see (acts ++ more) s = observed rig see acts s ++ observed rig see more t := by
  induction acts generalizing s with
  | nil =>
    obtain rfl := h.eq_of_nil
    rfl
  | cons a rest ih =>
    obtain ⟨u, hu, hrest⟩ := h.uncons
    simp only [List.cons_append, observed, hu, Option.map_some, Option.getD_some, ih hrest,
      List.append_assoc]

theorem observed_singleton {α : Type} (see : Act → Session → List α) (a : Act) (s : Session) :
    observed rig see [a] s = see a s := by
  cases hs : s.step? rig a <;> simp [observed, hs]

/-- The state after these steps, if all of them can be made. -/
def after (step : Act → Session → Option Session) (acts : List Act) (s : Session) : Session :=
  (acts.foldlM (fun s a => step a s) s).getD s

theorem Run.after {step : Act → Session → Option Session} {acts : List Act}
    (h : (acts.foldlM (fun s a => step a s) s).isSome) : Run step s acts (s.after step acts) := by
  apply Run.of_foldlM
  rw [Session.after, Option.getD_of_ne_none (Option.isSome_iff_ne_none.mp h)]

theorem eq_some_after {step : Act → Session → Option Session} {a : Act}
    (h : (step a s).isSome) : step a s = some (s.after step [a]) := by
  obtain ⟨t, ht⟩ := Option.isSome_iff_exists.mp h
  simp [Session.after, ht]

variable (rig) in
/-- A session at its start. -/
def initial (device : Option String) (settings : VoiceSettings) : Session where
  frames := { rate := rig.rate }
  settings := settings
  slot := { rate := rig.rate, active := device, output := [], requested := device }
  opens := 1
  log := [.opened device]

section Start

variable {device : Option String} {settings : VoiceSettings}

theorem start_eq (h : start rig device settings = .ok s) :
    rig.factory 0 device rig.rate = .ok () ∧ s = initial rig device settings := by
  unfold start Output.Slot.openFirst Rig.openDevice at h
  cases hf : rig.factory 0 device rig.rate with
  | error fault => simp [hf, Except.map, bind, Except.bind] at h
  | ok u =>
    simp only [hf, Except.map, bind, Except.bind, pure, Except.pure, Except.ok.injEq] at h
    exact ⟨rfl, h.symm⟩

theorem stamped_start (h : start rig device settings = .ok s) : s.Stamped P := by
  obtain ⟨-, rfl⟩ := start_eq h
  exact ⟨List.forall_mem_nil _, trivial, by rintro x (⟨⟩ | ⟨⟩), by rintro _ ⟨⟩,
    List.forall_mem_nil _, List.forall_mem_nil _⟩

end Start

end Session

/-- A rig with an engine that has one tone for every clause. -/
def Rig.sample : Rig where
  engine := fun _ _ => .ok [.voiced ⟨100, 0.5⟩ 20 0]
  rate := 1000
  factory := fun _ _ _ => .ok ()

end Elocution.Speech
