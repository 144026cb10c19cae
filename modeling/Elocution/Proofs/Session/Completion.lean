import Elocution.Proofs.Session.Flow
import Elocution.Speech.Session.Rehearsal

/-!
# Completion

A rehearsal is a whole run, and every run in which nothing is cancelled can be gone on with to a
point at which no party has anything left to do, without any call of the host.
-/

namespace Elocution.Speech

/-- A step of the synthesizer or of the player. -/
def Act.isWork : Act → Bool
  | .synthesize | .play | .expire => true
  | _ => false

namespace Session

/-- The session goes on until the host is to make the next call. -/
def finish (rig : Rig) (s : Session) : Session :=
  ((s.playAll rig).synthesizeAll rig).playAll rig

variable {rig : Rig} {s t : Session}

theorem wholeStep?_play (s : Session) : s.wholeStep? rig .play = s.play? rig := by
  simp [wholeStep?, Act.isPlay, step?]

theorem wholeStep?_of_not_isLooking {a : Act} (hl : s.isLooking = false) :
    s.wholeStep? rig a = s.step? rig a := by
  simp [wholeStep?, hl]

/-- Runs of one step after the other. -/
theorem Run.cons {step : Act → Session → Option Session} {u : Session} {a : Act} {n : Nat}
    (ha : step a s = some t) (hr : Run step t (List.replicate n a) u) :
    Run step s (List.replicate (n + 1) a) u := by
  rw [List.replicate_succ]
  exact (Run.head ha).trans hr

theorem playUntil_eq_self {halt : Session → Bool} (hp : s.play? rig = none) :
    s.playUntil rig halt = s := by
  rw [playUntil]
  split
  · rfl
  · split
    · rfl
    · simp_all

theorem playUntil_of_play? {halt : Session → Bool} (hh : ¬ halt s = true)
    (hp : s.play? rig = some t) : s.playUntil rig halt = t.playUntil rig halt := by
  rw [playUntil, if_neg hh]
  split
  · simp_all
  · rename_i u hu
    rw [Option.some.inj (hp.symm.trans hu)]

theorem playUntil_run (rig : Rig) (halt : Session → Bool) (s : Session) :
    ∃ n, Run (wholeStep? rig) s (List.replicate n .play) (s.playUntil rig halt) := by
  induction s using playUntil.induct rig halt with
  | case1 s hh =>
    rw [playUntil, if_pos hh]
    exact ⟨0, .refl s⟩
  | case2 s hh hp =>
    rw [playUntil_eq_self hp]
    exact ⟨0, .refl s⟩
  | case3 s hh t hp ih =>
    rw [playUntil_of_play? hh hp]
    obtain ⟨n, hn⟩ := ih
    exact ⟨n + 1, .cons ((wholeStep?_play s).trans hp) hn⟩

/-- The player stops only when it has to. -/
theorem play?_playUntil (rig : Rig) (s : Session) :
    (s.playUntil rig fun _ => false).play? rig = none := by
  induction s using playUntil.induct rig fun _ => false with
  | case1 s hh => simp at hh
  | case2 s hh hp => rw [playUntil_eq_self hp, hp]
  | case3 s hh t hp ih => rw [playUntil_of_play? hh hp, ih]

theorem isLooking_synthesize? (h : s.synthesize? rig = some t) : t.isLooking = s.isLooking := by
  have hp : t.player = s.player := by cases synthesize?_cases h <;> rfl
  simp only [isLooking, hp]

theorem synthesizeUntil_eq_self {halt : Session → Bool} (hp : s.synthesize? rig = none) :
    s.synthesizeUntil rig halt = s := by
  rw [synthesizeUntil]
  split
  · rfl
  · split
    · rfl
    · simp_all

theorem synthesizeUntil_of_synthesize? {halt : Session → Bool} (hh : ¬ halt s = true)
    (hp : s.synthesize? rig = some t) :
    s.synthesizeUntil rig halt = t.synthesizeUntil rig halt := by
  rw [synthesizeUntil, if_neg hh]
  split
  · simp_all
  · rename_i u hu
    rw [Option.some.inj (hp.symm.trans hu)]

theorem synthesizeUntil_run (rig : Rig) (halt : Session → Bool) (s : Session)
    (hl : s.isLooking = false) :
    ∃ n, Run (wholeStep? rig) s (List.replicate n .synthesize) (s.synthesizeUntil rig halt) := by
  induction s using synthesizeUntil.induct rig halt with
  | case1 s hh =>
    rw [synthesizeUntil, if_pos hh]
    exact ⟨0, .refl s⟩
  | case2 s hh hp =>
    rw [synthesizeUntil_eq_self hp]
    exact ⟨0, .refl s⟩
  | case3 s hh t hp ih =>
    rw [synthesizeUntil_of_synthesize? hh hp]
    obtain ⟨n, hn⟩ := ih ((isLooking_synthesize? hp).trans hl)
    exact ⟨n + 1, .cons ((wholeStep?_of_not_isLooking hl).trans hp) hn⟩

theorem synthesize?_synthesizeUntil (rig : Rig) (s : Session) :
    (s.synthesizeUntil rig fun _ => false).synthesize? rig = none := by
  induction s using synthesizeUntil.induct rig fun _ => false with
  | case1 s hh => simp at hh
  | case2 s hh hp => rw [synthesizeUntil_eq_self hp, hp]
  | case3 s hh t hp ih => rw [synthesizeUntil_of_synthesize? hh hp, ih]

theorem isLooking_of_play? (h : s.play? rig = none) : s.isLooking = false := by
  by_contra hl
  unfold isLooking at hl
  unfold play? at h
  cases hp : s.player <;> simp [hp] at hl h

theorem isWork_of_mem_replicate {a b : Act} {n : Nat} (hb : b.isWork = true)
    (h : a ∈ List.replicate n b) : a.isWork = true := by
  rw [List.eq_of_mem_replicate h]
  exact hb

/-- A player that waits for more frames looks again. -/
theorem wake_run (rig : Rig) (s : Session) :
    ∃ acts, Run (wholeStep? rig) s acts s.wake ∧ ∀ a ∈ acts, a.isWork = true := by
  cases he : s.expire? with
  | none =>
    refine ⟨[], ?_, by simp⟩
    rw [wake, he]
    exact .refl s
  | some t =>
    have hl : s.isLooking = false := by
      unfold expire? at he
      split at he
      · rename_i hp
        simp [isLooking, hp]
      · simp at he
    refine ⟨[.expire], Run.head ?_, by simp [Act.isWork]⟩
    rw [wholeStep?_of_not_isLooking hl, wake, he]
    exact he

theorem player_wake_ne (s : Session) (stamp : Stamp) : s.wake.player ≠ .polling stamp := by
  unfold wake expire?
  split
  · simp
  · rename_i hp
    exact hp stamp

theorem synthesizer_wake (s : Session) : s.wake.synthesizer = s.synthesizer := by
  unfold wake expire?
  split <;> rfl

theorem jobs_wake (s : Session) : s.wake.jobs = s.jobs := by
  unfold wake expire?
  split <;> rfl

theorem playAll_run (rig : Rig) (s : Session) :
    ∃ acts, Run (wholeStep? rig) s acts (s.playAll rig) ∧ ∀ a ∈ acts, a.isWork = true := by
  obtain ⟨acts, hw, ha⟩ := wake_run rig s
  obtain ⟨n, hn⟩ := playUntil_run rig (fun _ => false) s.wake
  refine ⟨_, hw.trans hn, fun a hm => ?_⟩
  rcases List.mem_append.mp hm with hm | hm
  · exact ha a hm
  · exact isWork_of_mem_replicate rfl hm

theorem play?_playAll (rig : Rig) (s : Session) : (s.playAll rig).play? rig = none :=
  play?_playUntil rig s.wake

theorem synthesizeAll_run (rig : Rig) (s : Session) (hl : s.isLooking = false) :
    ∃ acts, Run (wholeStep? rig) s acts (s.synthesizeAll rig) ∧ ∀ a ∈ acts, a.isWork = true := by
  obtain ⟨n, hn⟩ := synthesizeUntil_run rig (fun _ => false) s hl
  exact ⟨_, hn, fun a ha => isWork_of_mem_replicate rfl ha⟩

theorem finish_run (rig : Rig) (s : Session) :
    ∃ acts, Run (wholeStep? rig) s acts (s.finish rig) ∧ ∀ a ∈ acts, a.isWork = true := by
  obtain ⟨first, h₁, ha₁⟩ := playAll_run rig s
  obtain ⟨second, h₂, ha₂⟩ :=
    synthesizeAll_run rig (s.playAll rig) (isLooking_of_play? (play?_playAll rig s))
  obtain ⟨third, h₃, ha₃⟩ := playAll_run rig ((s.playAll rig).synthesizeAll rig)
  refine ⟨_, (h₁.trans h₂).trans h₃, fun a ha => ?_⟩
  simp only [List.mem_append] at ha
  rcases ha with (ha | ha) | ha
  · exact ha₁ a ha
  · exact ha₂ a ha
  · exact ha₃ a ha

theorem isCancel_of_isWork {a : Act} (h : a.isWork = true) : a.isCancel = false := by
  cases a <;> first | rfl | simp [Act.isWork] at h

/-- The synthesizer being through, the player does not come to wait for more frames. -/
theorem Run.not_polling {acts : List Act} (h : Run (wholeStep? rig) s acts t) (hs : s.Flowing)
    (ho : s.Open) (hn : rig.NeverEnds) (hp : ∀ a ∈ acts, a = .play)
    (hi : s.synthesizer = .idle) (hw : ∀ stamp, s.player ≠ .polling stamp) :
    t.synthesizer = .idle ∧ t.jobs = s.jobs ∧ ∀ stamp, t.player ≠ .polling stamp := by
  induction h with
  | refl => exact ⟨hi, rfl, hw⟩
  | @tail t u acts a hr hst ih =>
    have hacts (b : Act) (hb : b ∈ acts) : b = .play := hp b (by simp [hb])
    have hcancel (b : Act) (hb : b ∈ acts) : b.isCancel = false := by
      rw [hacts b hb]
      rfl
    obtain ⟨hti, htj, htw⟩ := ih hacts
    obtain ⟨ht, hg, -⟩ := hr.flowing hs ho hn hcancel
    obtain rfl := hp a (by simp)
    have hplay := play?_cases ((wholeStep?_play t).symm.trans hst)
    have hkept : u.synthesizer = t.synthesizer ∧ u.jobs = t.jobs := by
      cases hplay <;> exact ⟨rfl, rfl⟩
    refine ⟨hkept.1.trans hti, hkept.2.trans htj, ?_⟩
    cases hplay with
    | await htest hq =>
      -- A job that the player is at without an end in sight would have one to come.
      have hlt := ht.owes_lt_opens htest
      simp [hti, Synthesizer.owes, Synthesizer.opens] at hlt
    | disregard => exact htw
    | hear => exact htw
    | @feed stamp chunk => cases chunk.finished <;> simp
    | @idle stamp failed => cases failed <;> simp
    | _ => simp

/-- Whatever is under way comes to an end. -/
theorem atRest_finish (h : s.Flowing) (ho : s.Open) (hn : rig.NeverEnds) :
    (s.finish rig).AtRest rig := by
  have flowing {s t : Session} {acts : List Act} (hr : Run (wholeStep? rig) s acts t)
      (ha : ∀ a ∈ acts, a.isWork = true) (h : s.Flowing) (ho : s.Open) : t.Flowing ∧ t.Open :=
    ⟨(hr.flowing h ho hn fun a hm => isCancel_of_isWork (ha a hm)).1,
      hr.of_whole.isOpen ho fun a hm => isTerminate_of_isCancel (isCancel_of_isWork (ha a hm))⟩
  obtain ⟨acts₁, h₁, ha₁⟩ := playAll_run rig s
  obtain ⟨acts₂, h₂, ha₂⟩ :=
    synthesizeAll_run rig (s.playAll rig) (isLooking_of_play? (play?_playAll rig s))
  obtain ⟨hu, hou⟩ := flowing h₁ ha₁ h ho
  obtain ⟨hv, hov⟩ := flowing h₂ ha₂ hu hou
  have hsynthesis : ((s.playAll rig).synthesizeAll rig).synthesize? rig = none :=
    synthesize?_synthesizeUntil rig _
  have hgate : ((s.playAll rig).synthesizeAll rig).isGated = false := by simp [isGated, hv.host]
  obtain ⟨hi, hj⟩ := idle_of_synthesize? hov hgate hsynthesis
  obtain ⟨acts₃, h₃, ha₃⟩ := wake_run rig ((s.playAll rig).synthesizeAll rig)
  obtain ⟨n, h₄⟩ :=
    playUntil_run rig (fun _ => false) ((s.playAll rig).synthesizeAll rig).wake
  obtain ⟨hw, how⟩ := flowing h₃ ha₃ hv hov
  have hplay : (s.finish rig).play? rig = none := play?_playAll rig _
  obtain ⟨hx, hox⟩ := flowing h₄ (fun a => isWork_of_mem_replicate rfl) hw how
  obtain ⟨hxi, hxj, hxp⟩ := h₄.not_polling hw how hn (fun a ha => List.eq_of_mem_replicate ha)
    ((synthesizer_wake _).trans hi) (player_wake_ne _)
  have hjobs : (s.finish rig).jobs.jobs = [] := by
    rw [finish, playAll, hxj, jobs_wake]
    exact hj
  refine ⟨hx.host, ?_, hplay, ?_⟩
  · have hidle : (s.finish rig).synthesizer = .idle := hxi
    have hopen : (s.finish rig).jobs.closed = false := hox.jobs
    simp [synthesize?, hidle, JobQueue.pop, hopen, hjobs]
  · unfold expire?
    split
    · rename_i stamp hp
      exact absurd hp (hxp stamp)
    · rfl

end Session

end Elocution.Speech
