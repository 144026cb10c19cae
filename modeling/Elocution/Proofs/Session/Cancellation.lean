import Elocution.Proofs.Frame.Rendering
import Elocution.Proofs.Session.History

/-!
# Cancellation

What a cancellation brings about, task by task, whatever the other parties do meanwhile. Once it
has returned, nothing of the present generation is under way, and what is left of earlier
generations can neither be queued, nor handed to a device, nor reported.
-/

namespace Elocution.Speech.Session

/-- What a cancellation has brought about when these of its tasks are left. -/
structure Cancelled (left : List HostTask) (s : Session) : Prop where
  order : left <:+ HostTask.termination ∨ left <:+ HostTask.cancellation
  silent : .lowerSpeaking ∉ left → s.speaking = false
  stale : .advance ∉ left → s.Stamped (· < s.generation)
  armed : .armFade ∉ left → s.fadeArmed = true
  drained : .drainJobs ∉ left → s.jobs.jobs = []
  purged : .purgeFrames ∉ left → s.frames.IsClear ∧ s.frames.lastMarker = none

variable {rig : Rig} {s t : Session} {left : List HostTask}

theorem Cancelled.mem_tails (h : s.Cancelled left) :
    left ∈ HostTask.termination.tails ++ HostTask.cancellation.tails := by
  simpa [List.mem_tails] using h.order

/-- The gate is held until the generation has been advanced. -/
theorem Cancelled.advance_notMem (h : s.Cancelled s.host) (hg : s.isGated = false)
    (hl : .lowerSpeaking ∉ s.host) : .advance ∉ s.host := by
  have hhead : s.host.head? ≠ some .stopDevice ∧ s.host.head? ≠ some .advance := by
    unfold isGated at hg
    split at hg
    · simp at hg
    · simp at hg
    · rename_i h₁ h₂
      cases hs : s.host with
      | nil => simp
      | cons task rest =>
        constructor
        · rintro ht
          exact h₁ rest (by simp_all)
        · rintro ht
          exact h₂ rest (by simp_all)
  have hall : ∀ left ∈ HostTask.termination.tails ++ HostTask.cancellation.tails,
      left.head? ≠ some .stopDevice ∧ left.head? ≠ some .advance →
      .lowerSpeaking ∉ left → .advance ∉ left := by decide
  exact hall _ h.mem_tails hhead hl

/-- The later tasks of a cancellation come after the generation has been advanced. -/
theorem Cancelled.advance_notMem_of_later (h : s.Cancelled left) {task : HostTask}
    (ht : task = .armFade ∨ task = .purgeFrames) (hp : task ∉ left) : .advance ∉ left := by
  have hall : ∀ left ∈ HostTask.termination.tails ++ HostTask.cancellation.tails,
      .armFade ∉ left ∨ .purgeFrames ∉ left → .advance ∉ left := by decide
  refine hall _ h.mem_tails ?_
  rcases ht with rfl | rfl
  · exact .inl hp
  · exact .inr hp

theorem Cancelled.synthesis (h : s.Cancelled s.host) (hst : Synthesis rig s t) :
    t.Cancelled s.host := by
  have hstale (ha : .advance ∉ s.host) : t.Stamped (· < t.generation) := by
    have hgen : t.generation = s.generation := by cases hst <;> rfl
    rw [hgen]
    exact (h.stale ha).synthesis hst
  cases hst with
  | fetch hi ho hj =>
    refine { h with stale := hstale, drained := fun hd => ?_ }
    simp [h.drained hd] at hj
  | @put p q task tasks rest f hw hc he =>
    refine { h with stale := hstale, purged := fun hp => ?_ }
    -- A job of the present generation would be one that the cancellation has made stale.
    have hlt := (h.stale (h.advance_notMem_of_later (.inr rfl) hp)).synthesizer
    rw [hw] at hlt
    exact absurd hc (Nat.ne_of_gt hlt.1)
  | @kick p tasks hw hg hc =>
    refine { h with stale := hstale, silent := fun hl => ?_ }
    have hlt := (h.stale (h.advance_notMem hg hl)).synthesizer
    rw [hw] at hlt
    exact absurd hc (Nat.ne_of_gt hlt.1)
  | _ => exact { h with stale := hstale }

theorem Cancelled.playback (h : s.Cancelled s.host) (hst : Playback rig s t) :
    t.Cancelled s.host := by
  have hstale (ha : .advance ∉ s.host) : t.Stamped (· < t.generation) := by
    have hgen : t.generation = s.generation := by cases hst <;> rfl
    rw [hgen]
    exact (h.stale ha).playback hst
  have hfresh {stamp : Stamp} (hp : s.player.stamp? = some stamp) (hc : s.generation = stamp) :
      .advance ∈ s.host := by
    by_contra ha
    exact absurd hc (Nat.ne_of_gt ((h.stale ha).player stamp hp))
  have hrender (hp : .purgeFrames ∉ s.host) :
      (s.frames.render rig.chunk).2.IsClear ∧
        (s.frames.render rig.chunk).2.lastMarker = none := by
    rw [Frame.Queue.render_of_isClear (h.purged hp).1]
    exact h.purged hp
  cases hst with
  | takeUp hp hg hc =>
    refine { h with stale := hstale, silent := fun hl => ?_ }
    exact absurd (hfresh (by rw [hp]; rfl) hc) (h.advance_notMem hg hl)
  | render => exact { h with stale := hstale, purged := hrender }
  | renderEnd => exact { h with stale := hstale, purged := hrender }
  | renderNone => exact { h with stale := hstale, purged := hrender }
  | feed hp hg hm hl hc =>
    refine { h with stale := hstale, armed := fun ha => ?_ }
    exact absurd (hfresh (by rw [hp]; rfl) hc) (h.advance_notMem_of_later (.inl rfl) ha)
  | conclude =>
    exact { h with stale := hstale, silent := fun _ => rfl, armed := fun _ => rfl }
  | _ => exact { h with stale := hstale }

section Tasks

variable {task : HostTask}

theorem speaking_perform (h : task = .lowerSpeaking ∨ s.speaking = false) :
    (s.perform rig task).speaking = false := by
  cases task with
  | lowerSpeaking => rfl
  | stopDevice =>
    rw [perform_stopDevice]
    exact h.resolve_left (by simp)
  | _ => exact h.resolve_left (by simp)

theorem fadeArmed_perform (h : task = .armFade ∨ s.fadeArmed = true) :
    (s.perform rig task).fadeArmed = true := by
  cases task with
  | armFade => rfl
  | stopDevice =>
    rw [perform_stopDevice]
    exact h.resolve_left (by simp)
  | _ => exact h.resolve_left (by simp)

theorem jobs_perform (h : task = .drainJobs ∨ s.jobs.jobs = []) :
    (s.perform rig task).jobs.jobs = [] := by
  cases task with
  | drainJobs => rfl
  | stopDevice =>
    rw [perform_stopDevice]
    exact h.resolve_left (by simp)
  | _ => exact h.resolve_left (by simp)

theorem frames_perform
    (h : task = .purgeFrames ∨ s.frames.IsClear ∧ s.frames.lastMarker = none) :
    (s.perform rig task).frames.IsClear ∧ (s.perform rig task).frames.lastMarker = none := by
  cases task with
  | purgeFrames => exact ⟨Frame.Queue.isClear_purge _, rfl⟩
  | stopDevice =>
    rw [perform_stopDevice]
    exact h.resolve_left (by simp)
  | _ => exact h.resolve_left (by simp)

end Tasks

/-- What the next task of a cancellation adds. -/
theorem Cancelled.proceed {task : HostTask} (h : s.Cancelled s.host)
    (hd : s.Stamped (· ≤ s.generation)) (hh : s.host = task :: left) :
    Cancelled left { s.perform rig task with host := left } := by
  rw [hh] at h
  have hstep : Step rig s .proceed { s.perform rig task with host := left } := .proceed hh
  have hsplit {other : HostTask} {P : Prop} (hP : other ∉ task :: left → P)
      (hl : other ∉ left) : task = other ∨ P := by
    by_cases he : task = other
    · exact .inl he
    · exact .inr (hP (by simp [hl, Ne.symm he]))
  refine ⟨h.order.imp (List.suffix_cons ..).trans (List.suffix_cons ..).trans,
    fun hl => speaking_perform (hsplit h.silent hl), fun hl => ?_,
    fun hl => fadeArmed_perform (hsplit h.armed hl),
    fun hl => jobs_perform (hsplit h.drained hl),
    fun hl => frames_perform (hsplit h.purged hl)⟩
  rcases hsplit h.stale hl with rfl | hst
  · exact (hd.step hstep (by simp [Act.saying?])).mono fun x hx => Nat.lt_succ_of_le hx
  · exact (hst.step hstep (by simp [Act.saying?])).mono fun x hx =>
      Nat.lt_of_lt_of_le hx hstep.generation_le

theorem host_synthesis (h : Synthesis rig s t) : t.host = s.host := by
  cases h <;> rfl

theorem host_playback (h : Playback rig s t) : t.host = s.host := by
  cases h <;> rfl

theorem cancelled_cancellation (hh : t.host = HostTask.cancellation) : t.Cancelled t.host := by
  rw [hh]
  refine ⟨.inr List.suffix_rfl, ?_, ?_, ?_, ?_, ?_⟩ <;> exact fun hl => absurd (by decide) hl

theorem cancelled_termination (hh : t.host = HostTask.termination) : t.Cancelled t.host := by
  rw [hh]
  refine ⟨.inl List.suffix_rfl, ?_, ?_, ?_, ?_, ?_⟩ <;> exact fun hl => absurd (by decide) hl

/-- While the host cancels, no step of another party undoes what it has brought about. -/
theorem Cancelled.step {a : Act} (h : s.host ≠ [] → s.Cancelled s.host)
    (hd : s.Stamped (· ≤ s.generation)) (hst : Step rig s a t) (hn : t.host ≠ []) :
    t.Cancelled t.host := by
  cases hst with
  | call hh hc =>
    cases hc with
    | cancel => exact cancelled_cancellation rfl
    | terminate => exact cancelled_termination rfl
    | _ => exact absurd hh hn
  | proceed hh => exact (h (by simp [hh])).proceed hd hh
  | synthesize hs =>
    rw [host_synthesis hs] at hn ⊢
    exact (h hn).synthesis hs
  | play hp =>
    rw [host_playback hp] at hn ⊢
    exact (h hn).playback hp
  | expire hp =>
    have hstep : Step rig s _ _ := .expire hp
    exact { h hn with stale := fun ha => ((h hn).stale ha).step hstep (by simp [Act.saying?]) }
  | sound hg hh =>
    have hstep : Step rig s _ _ := .sound hg hh
    exact { h hn with stale := fun ha => ((h hn).stale ha).step hstep (by simp [Act.saying?]) }
  | callBack hg hi =>
    have hstep : Step rig s _ _ := .callBack hg hi
    exact { h hn with stale := fun ha => ((h hn).stale ha).step hstep (by simp [Act.saying?]) }

section Runs

variable {device : Option String} {settings : VoiceSettings} {acts : List Act}

/-- In every run, a cancellation under way has brought about what its tasks so far stand for. -/
theorem Run.cancelled (hr : Run (step? rig) s acts t) (h₀ : start rig device settings = .ok s) :
    t.host ≠ [] → t.Cancelled t.host := by
  induction hr with
  | refl =>
    obtain ⟨-, rfl⟩ := start_eq h₀
    exact fun hn => absurd rfl hn
  | tail hr ha ih =>
    exact Cancelled.step ih (hr.stamped_le (stamped_start h₀)) (step?_cases ha)

/-- A run up to the return of a cancellation leaves nothing of its generation. -/
theorem cancelled_of_run (h₀ : start rig device settings = .ok s)
    (hr : Run (step? rig) s (acts ++ [.proceed]) t) (hh : t.host = []) : t.Cancelled [] := by
  obtain ⟨u, hu, ha⟩ := hr.unsnoc
  cases step?_cases ha with
  | @proceed task rest hp =>
    obtain rfl : rest = [] := hh
    exact (hu.cancelled h₀ (by simp [hp])).proceed (hu.stamped_le (stamped_start h₀)) hp

end Runs

end Elocution.Speech.Session
