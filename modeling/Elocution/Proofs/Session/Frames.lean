import Elocution.Proofs.Frame.Lasting
import Elocution.Proofs.Session.Spelling

/-!
# The frames of a job

What a job queues if it is carried out to its end, told from its tasks alone. Only two things come
from outside: the answers of the engine, and whether audio is flowing when a clause is answered
before the job has had any voice.
-/

namespace Elocution.Speech

variable {rig : Rig} {settings : VoiceSettings} {seen : Bool} {task : Task} {tasks : List Task}
  {frames more : List Frame}

namespace Task

/-- Frames that tasks may queue; `seen` says that the job has had voice before. -/
inductive Queues (rig : Rig) (settings : VoiceSettings) :
    (seen : Bool) → List Task → List Frame → Prop where
  | nil {seen : Bool} : Queues rig settings seen [] []
  | pass {seen : Bool} {task : Task} {tasks : List Task} {frames : List Frame}
      (ht : task.isClosing = true ∨ task = .lowerAllQueued)
      (h : Queues rig settings seen tasks frames) : Queues rig settings seen (task :: tasks) frames
  | emit {seen : Bool} {p q : Progress} {task : Task} {tasks rest : List Task} {f : Frame}
      {frames : List Frame} (he : Emits p tasks task q f rest)
      (h : Queues rig settings seen rest frames) :
      Queues rig settings seen (task :: tasks) (f :: frames)
  | block {seen : Bool} {b : Block} {tasks : List Task} {frames : List Frame}
      (h : Queues rig settings seen
        ((Clause.split settings.pauseMode b.text).map
            (.clause (settings.prosody.offsetPitch b.offset)) ++ ofMarkers b.markers ++ tasks)
        frames) :
      Queues rig settings seen (.block b :: tasks) frames
  | refused {seen : Bool} {prosody : Prosody} {c : Clause} {tasks : List Task}
      {frames : List Frame} {past : List Request} {fault : SynthesisFault}
      (he : rig.engine past (rig.request settings.voice prosody c) = .error fault)
      (h : Queues rig settings seen tasks frames) :
      Queues rig settings seen (.clause prosody c :: tasks) frames
  | answered {seen clip : Bool} {prosody : Prosody} {c : Clause} {tasks : List Task}
      {answer frames : List Frame} {past : List Request}
      (he : rig.engine past (rig.request settings.voice prosody c) = .ok answer)
      (hc : seen = true → clip = true)
      (h : Queues rig settings seen
        (.stream (c.pause.map (· / prosody.speed)) { clipLeading := clip } answer :: tasks)
        frames) :
      Queues rig settings seen (.clause prosody c :: tasks) frames
  | exhaust {seen : Bool} {pause : Option Float32} {shaper next : Frame.Shaper}
      {given rest frames : List Frame} {tasks : List Task}
      (hn : shaper.next given = (none, next, rest))
      (h : Queues rig settings (seen || next.seenVoiced)
        (afterStream next.seenVoiced pause ++ tasks) frames) :
      Queues rig settings seen (.stream pause shaper given :: tasks) frames

theorem Queues.of_nil (h : Queues rig settings seen [] frames) : frames = [] := by
  cases h
  rfl

/-- A task that queues nothing leaves the frames to those after it. -/
theorem Queues.tail (h : Queues rig settings seen (task :: tasks) frames)
    (ht : task.isClosing = true ∨ task = .lowerAllQueued) :
    Queues rig settings seen tasks frames := by
  cases h with
  | pass _ h => exact h
  | emit he =>
    obtain ⟨hno, hnot⟩ := he.not_closing
    rcases ht with ht | ht
    · rw [hno] at ht
      cases ht
    · exact absurd ht hnot
  | _ => rcases ht with ht | ht <;> cases ht

theorem Queues.of_frame {f : Frame} (h : Queues rig settings seen (.frame f :: tasks) frames) :
    ∃ more, frames = f :: more ∧ Queues rig settings seen tasks more := by
  cases h with
  | pass ht => rcases ht with ht | ht <;> cases ht
  | emit he h =>
    cases he
    exact ⟨_, rfl, h⟩

theorem Queues.of_block {b : Block} (h : Queues rig settings seen (.block b :: tasks) frames) :
    Queues rig settings seen
      ((Clause.split settings.pauseMode b.text).map
          (.clause (settings.prosody.offsetPitch b.offset)) ++ ofMarkers b.markers ++ tasks)
      frames := by
  cases h with
  | pass ht => rcases ht with ht | ht <;> cases ht
  | emit he => cases he
  | block h => exact h

/-- The frames of a clause are shaped, and the pause comes after them if there is voice among
them. -/
theorem Queues.of_stream {pause : Option Float32} {shaper : Frame.Shaper} {given : List Frame}
    (h : Queues rig settings seen (.stream pause shaper given :: tasks) frames) :
    ∃ more, frames = shaper.yields given ++ more ∧
      Queues rig settings (seen || (shaper.seenVoiced || given.any Frame.isVoiced))
        (afterStream (shaper.seenVoiced || given.any Frame.isVoiced) pause ++ tasks) more := by
  induction shaper, given using Frame.Shaper.yields.induct generalizing frames with
  | case1 shaper given next rest hn =>
    cases h with
    | pass ht => rcases ht with ht | ht <;> cases ht
    | emit he =>
      cases he with
      | stream hsome =>
        rw [hn] at hsome
        cases hsome
    | exhaust hn' h =>
      rw [Frame.Shaper.seenVoiced_of_next_none hn'] at h
      rw [Frame.Shaper.yields_of_next_none hn]
      exact ⟨frames, rfl, h⟩
  | case2 shaper given f next rest hn ih =>
    cases h with
    | pass ht => rcases ht with ht | ht <;> cases ht
    | emit he h =>
      cases he with
      | stream hsome =>
        obtain ⟨rfl, rfl, rfl⟩ := by simpa using hn.symm.trans hsome
        obtain ⟨more, rfl, hmore⟩ := ih h
        rw [Frame.Shaper.seenVoiced_of_next hn] at hmore
        rw [Frame.Shaper.yields_of_next hn]
        exact ⟨more, rfl, hmore⟩
    | exhaust hnone =>
      rw [hn] at hnone
      cases hnone

/-- The frame of the pause after a clause. -/
def pauseFrames (voiced : Bool) (pause : Option Float32) : List Frame :=
  if voiced then pause.toList.map fun ms => .silence ms Frame.minFadeOut else []

theorem Queues.of_afterStream {voiced : Bool} {pause : Option Float32}
    (h : Queues rig settings seen (afterStream voiced pause ++ tasks) frames) :
    ∃ more, frames = pauseFrames voiced pause ++ more ∧ Queues rig settings seen tasks more := by
  have hafter : Queues rig settings seen
      ((if voiced then pause.toList.map fun ms => .frame (.silence ms Frame.minFadeOut) else []) ++
        tasks) frames := Queues.tail h (.inl rfl)
  cases voiced with
  | false => exact ⟨frames, rfl, hafter⟩
  | true =>
    cases pause with
    | none => exact ⟨frames, rfl, hafter⟩
    | some ms => exact Queues.of_frame hafter

/-- The frames of a clause that the engine answers. -/
theorem Queues.of_clause {prosody : Prosody} {c : Clause}
    (h : Queues rig settings seen (.clause prosody c :: tasks) frames)
    (hanswers : ∀ past, ∃ answer,
      rig.engine past (rig.request settings.voice prosody c) = .ok answer) :
    ∃ past answer clip more,
      rig.engine past (rig.request settings.voice prosody c) = .ok answer ∧
      (seen = true → clip = true) ∧
      frames = Frame.Shaper.yields { clipLeading := clip } answer ++
        (pauseFrames (answer.any Frame.isVoiced) (c.pause.map (· / prosody.speed)) ++ more) ∧
      Queues rig settings (seen || answer.any Frame.isVoiced) tasks more := by
  cases h with
  | pass ht => rcases ht with ht | ht <;> cases ht
  | emit he => cases he
  | @refused _ _ _ _ _ past fault he =>
    obtain ⟨answer, hok⟩ := hanswers past
    rw [hok] at he
    cases he
  | @answered _ clip _ _ _ answer _ past he hc h =>
    obtain ⟨later, rfl, hlater⟩ := h.of_stream
    obtain ⟨more, rfl, hmore⟩ := hlater.of_afterStream
    exact ⟨past, answer, clip, more, he, hc, rfl, hmore⟩

end Task

theorem Emits.seenAudio_eq {p q : Progress} {rest : List Task} {f : Frame}
    (h : Emits p tasks task q f rest) : q.seenAudio = p.seenAudio := by
  cases h <;> rfl

namespace Session

variable {s t : Session} {p : Progress}

/-- At a job that is not cancelled, a step of synthesis queues the first of what the tasks queue and
leaves tasks that queue the rest, or all tasks are done. -/
theorem queues_synthesis (hst : Synthesis rig s t) (hw : s.synthesizer = .working p tasks)
    (hp : p.stamp = s.generation) :
    (t.synthesizer = .idle ∧ t.queued = s.queued ∧ tasks = []) ∨
      ∃ q rest first, t.synthesizer = .working q rest ∧ q.stamp = p.stamp ∧
        q.settings = p.settings ∧ t.queued = s.queued ++ first ∧
        ∀ frames, Task.Queues rig q.settings q.seenAudio rest frames →
          Task.Queues rig p.settings p.seenAudio tasks (first ++ frames) := by
  have hsame {p' : Progress} {tasks' : List Task} (hw' : s.synthesizer = .working p' tasks') :
      p' = p ∧ tasks' = tasks := Synthesizer.working.inj (hw'.symm.trans hw)
  cases hst with
  | fetch hi => simp [hw] at hi
  | exit hi => simp [hw] at hi
  | begin hf => simp [hw] at hf
  | drop hf => simp [hw] at hf
  | finish hw' =>
    obtain ⟨-, rfl⟩ := hsame hw'
    exact .inl ⟨rfl, rfl, rfl⟩
  | abandon hw' hc =>
    obtain ⟨rfl, -⟩ := hsame hw'
    exact absurd hp.symm hc
  | @put _ q task _ rest f hw' hc he =>
    obtain ⟨rfl, rfl⟩ := hsame hw'
    refine .inr ⟨_, _, [f], rfl, he.stamp_eq, he.settings_eq, rfl, fun frames h => .emit he ?_⟩
    have hsettings : (q.noting f).settings = _ := he.settings_eq
    have hseen : (q.noting f).seenAudio = _ := he.seenAudio_eq
    rw [hsettings, hseen] at h
    split at h
    · exact h
    · exact h.tail (.inl rfl)
  | lower hw' =>
    obtain ⟨rfl, rfl⟩ := hsame hw'
    exact .inr ⟨_, _, [], rfl, rfl, rfl, (List.append_nil _).symm, fun _ h => .pass (.inr rfl) h⟩
  | block hw' =>
    obtain ⟨rfl, rfl⟩ := hsame hw'
    exact .inr ⟨_, _, [], rfl, rfl, rfl, (List.append_nil _).symm, fun _ h => .block h⟩
  | refused hw' he =>
    obtain ⟨rfl, rfl⟩ := hsame hw'
    exact .inr ⟨_, _, [], rfl, rfl, rfl, (List.append_nil _).symm, fun _ h => .refused he h⟩
  | answered hw' he =>
    obtain ⟨rfl, rfl⟩ := hsame hw'
    exact .inr ⟨_, _, [], rfl, rfl, rfl, (List.append_nil _).symm,
      fun _ h => .answered he (fun hseen => by rw [hseen]; rfl) h⟩
  | exhaust hw' hn =>
    obtain ⟨rfl, rfl⟩ := hsame hw'
    exact .inr ⟨_, _, [], rfl, rfl, rfl, (List.append_nil _).symm, fun _ h => .exhaust hn h⟩
  | kick hw' =>
    obtain ⟨rfl, rfl⟩ := hsame hw'
    exact .inr ⟨_, _, [], rfl, rfl, rfl, (List.append_nil _).symm,
      fun _ h => .pass (.inl rfl) (h.tail (.inl rfl))⟩
  | withhold hw' =>
    obtain ⟨rfl, rfl⟩ := hsame hw'
    exact .inr ⟨_, _, [], rfl, rfl, rfl, (List.append_nil _).symm, fun _ h => .pass (.inl rfl) h⟩
  | signal hw' =>
    obtain ⟨rfl, rfl⟩ := hsame hw'
    exact .inr ⟨_, _, [], rfl, rfl, rfl, (List.append_nil _).symm, fun _ h => .pass (.inl rfl) h⟩
  | raise hw' =>
    obtain ⟨rfl, rfl⟩ := hsame hw'
    exact .inr ⟨_, _, [], rfl, rfl, rfl, (List.append_nil _).symm, fun _ h => .pass (.inl rfl) h⟩

/-- A job that is carried out to its end queues what its tasks queue, whatever the other parties do
meanwhile. -/
theorem Run.queues {acts : List Act} (hr : Run (jobStep? rig) s acts t)
    (hw : s.synthesizer = .working p tasks) (hp : p.stamp = s.generation)
    (hidle : t.synthesizer = .idle) (hg : t.generation = s.generation) :
    ∃ frames, t.queued = s.queued ++ frames ∧
      Task.Queues rig p.settings p.seenAudio tasks frames := by
  induction acts generalizing s p tasks with
  | nil =>
    obtain rfl := hr.eq_of_nil
    rw [hw] at hidle
    cases hidle
  | cons a acts ih =>
    obtain ⟨u, hstep, hrest⟩ := hr.uncons
    have hst := step?_cases (step?_of_jobStep? hstep).2
    have hu : u.generation = s.generation :=
      Nat.le_antisymm (hg ▸ hrest.of_job.generation_le) hst.generation_le
    by_cases ha : a = .synthesize
    · subst ha
      cases hst with
      | synthesize hs =>
        rcases queues_synthesis hs hw hp with ⟨hdone, hqueued, rfl⟩ |
          ⟨q, rest, first, hq, hstamp, hsettings, hqueued, hqueues⟩
        · cases acts with
          | nil =>
            obtain rfl := hrest.eq_of_nil
            exact ⟨[], by rw [hqueued, List.append_nil], .nil⟩
          | cons b more =>
            obtain ⟨w, hb, -⟩ := hrest.uncons
            exact absurd hdone (step?_of_jobStep? hb).1
        · obtain ⟨frames, hframes, hrest⟩ :=
            ih hrest hq (hstamp.trans (hp.trans hu.symm)) (hg.trans hu.symm)
          refine ⟨first ++ frames, ?_, hqueues frames hrest⟩
          rw [hframes, hqueued, List.append_assoc]
    · obtain ⟨hsynthesizer, -, hqueued⟩ := untouched_of_step hst ha
      rw [← hqueued]
      exact ih hrest (hsynthesizer.trans hw) (hp.trans hu.symm) (hg.trans hu.symm)

/-- A job comes to its end by steps of the synthesizer, unless a cancellation holds the gate. -/
theorem exists_job_run {job : Job} (hs : s.synthesizer = .fetched job) (hg : s.isGated = false) :
    ∃ n t, Run (jobStep? rig) s (.synthesize :: List.replicate n .synthesize) t ∧
      t.synthesizer = .idle ∧ t.generation = s.generation := by
  have hstays : s.synthesizer ≠ .exited := by
    rw [hs]
    rintro ⟨⟩
  obtain ⟨n, t, hrun, hidle, hgen⟩ := exists_idle rig s hg hstays
  cases n with
  | zero =>
    obtain rfl := hrun.eq_of_nil
    rw [hs] at hidle
    cases hidle
  | succ n => exact ⟨n, t, hrun, hidle, hgen⟩

theorem job_queues {job : Job} {acts : List Act} (hs : s.synthesizer = .fetched job)
    (hj : job.stamp = s.generation) (hr : Run (jobStep? rig) s (.synthesize :: acts) t)
    (hidle : t.synthesizer = .idle) (hg : t.generation = s.generation) :
    ∃ frames, t.queued = s.queued ++ frames ∧
      Task.Queues rig s.settings false (Task.ofJob job.kind) frames := by
  obtain ⟨u, hbegin, hrest⟩ := hr.uncons
  have hu : s.begin job = u := by
    have hstep := (step?_of_jobStep? hbegin).2
    simp only [step?, synthesize?, hs] at hstep
    exact Option.some.inj hstep
  subst hu
  rw [begin_eq hj] at hrest
  exact hrest.queues rfl hj hidle hg

end Session

end Elocution.Speech
