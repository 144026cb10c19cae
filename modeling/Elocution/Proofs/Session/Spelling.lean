import Elocution.Proofs.Session.Completion
import Elocution.Proofs.Session.Score
import Elocution.Proofs.Voice.Spelling

/-!
# The letters of a job

While the synthesizer is at a job, what it has asked of the engine and what it still has to ask are
together the requests of the job, and the voices that it has queued and those still to be heard are
together what these requests are answered with. Nothing that other parties do in between matters,
unless the job is cancelled.
-/

namespace Elocution.Speech

/-- The engine answers requests for this voice with the letters of their texts. -/
def Rig.Spells (rig : Rig) (name : String) (v : Voice) : Prop :=
  ∀ past r, r.voice = name →
    ∃ frames, rig.engine past r = .ok frames ∧ frames.filterMap Frame.sound? = v.sounds r

variable {rig : Rig} {v : Voice} {settings : VoiceSettings}

namespace Task

/-- The voices still to be heard of a task. -/
def sounds (rig : Rig) (v : Voice) (settings : VoiceSettings) : Task → List (Tone × Float32)
  | .stream _ shaper frames => shaper.sounds frames
  | .frame f => f.sound?.toList
  | task => (Item.requests (task.items rig settings)).flatMap v.sounds

/-- All that will be heard of a task is what its requests are answered with. -/
def IsAsking (rig : Rig) (v : Voice) (settings : VoiceSettings) (task : Task) : Prop :=
  task.sounds rig v settings = (Item.requests (task.items rig settings)).flatMap v.sounds

theorem sounds_of_isAsking {tasks : List Task} (h : ∀ t ∈ tasks, t.IsAsking rig v settings) :
    tasks.flatMap (sounds rig v settings) =
      (Item.requests (tasks.flatMap (items rig settings))).flatMap v.sounds := by
  induction tasks with
  | nil => rfl
  | cons task rest ih =>
    have hrest := ih fun t ht => h t (List.mem_cons_of_mem _ ht)
    rw [List.flatMap_cons, List.flatMap_cons, Item.requests_append, List.flatMap_append, hrest,
      h task (List.mem_cons_self ..)]

theorem isAsking_block (b : Block) (prosody : Prosody) (clauses : List Clause) :
    ∀ t ∈ clauses.map (Task.clause prosody) ++ ofMarkers b.markers,
      t.IsAsking rig v settings := by
  intro t ht
  rcases List.mem_append.1 ht with ht | ht
  · obtain ⟨c, -, rfl⟩ := List.mem_map.1 ht
    rfl
  · cases hm : b.markers with
    | nil =>
      rw [hm] at ht
      exact absurd ht List.not_mem_nil
    | cons m more =>
      rw [hm] at ht
      rcases List.mem_cons.1 ht with rfl | ht
      · rfl
      · obtain ⟨n, -, rfl⟩ := List.mem_map.1 ht
        rfl

theorem sounds_afterStream (voiced : Bool) (pause : Option Float32) :
    (afterStream voiced pause).flatMap (sounds rig v settings) = [] := by
  cases voiced <;> cases pause <;> rfl

end Task

/-- A task that queues a frame takes the voice of that frame off those still to be heard. -/
theorem Emits.flatMap_sounds {p q : Progress} {task : Task} {tasks rest : List Task} {f : Frame}
    (h : Emits p tasks task q f rest) :
    (task :: tasks).flatMap (Task.sounds rig v settings) =
      f.sound?.toList ++ rest.flatMap (Task.sounds rig v settings) := by
  cases h with
  | stream hn =>
    rw [List.flatMap_cons, List.flatMap_cons, Task.sounds, Task.sounds,
      Frame.Shaper.sounds_next hn, List.append_assoc]
  | marker => rfl
  | frame => rfl

theorem Emits.requests_eq {p q : Progress} {task : Task} {tasks rest : List Task} {f : Frame}
    (h : Emits p tasks task q f rest) :
    Item.requests ((task :: tasks).flatMap (Task.items rig settings)) =
      Item.requests (rest.flatMap (Task.items rig settings)) := by
  have htells (marks : List Marker) :
      Item.requests (marks.map fun m => .tell (some m)) = [] := Item.requests_tells marks some
  cases h with
  | stream hn =>
    rw [List.flatMap_cons, List.flatMap_cons, Task.items, Task.items, Item.requests_append,
      Item.requests_append, htells, htells]
  | marker => rfl
  | @frame f =>
    have hnone : Item.requests (f.marks.map Item.tell) = [] := Item.requests_tells f.marks id
    rw [List.flatMap_cons, Task.items, Item.requests_append, hnone, List.nil_append]

def Synthesizer.sounds (rig : Rig) (v : Voice) : Synthesizer → List (Tone × Float32)
  | .working p tasks => tasks.flatMap (Task.sounds rig v p.settings)
  | .idle | .fetched _ | .exited => []

namespace Session

/-- A step while the synthesizer is at a job. -/
def jobStep? (rig : Rig) (a : Act) (s : Session) : Option Session :=
  if s.synthesizer = .idle then none else s.step? rig a

/-- The synthesizer is at a job with these requests that was begun at `base`, or done with it. -/
structure Spelling (rig : Rig) (v : Voice) (base : Session) (asks : List Request) (s : Session) :
    Prop where
  place : s.synthesizer = .idle ∨ ∃ p tasks, s.synthesizer = .working p tasks ∧
    p.stamp = base.generation ∧ p.settings.voice = base.settings.voice
  requests : ∃ made, s.requests = base.requests ++ made ∧
    made ++ Item.requests (s.synthesizer.items rig) = asks
  queued : ∃ frames, s.queued = base.queued ++ frames ∧
    frames.filterMap Frame.sound? ++ s.synthesizer.sounds rig v = asks.flatMap v.sounds

variable {s t base : Session} {asks : List Request} {a : Act}

/-- Tasks give way to others of which the same is to be asked and heard. -/
theorem Spelling.work (h : Spelling rig v base asks s) {p q : Progress} {tasks rest : List Task}
    {signals : List Signal} {allQueued speaking : Bool} (hw : s.synthesizer = .working p tasks)
    (hq : q.stamp = p.stamp ∧ q.settings = p.settings)
    (hr : Item.requests (rest.flatMap (Task.items rig p.settings)) =
      Item.requests (tasks.flatMap (Task.items rig p.settings)))
    (hs : rest.flatMap (Task.sounds rig v p.settings) =
      tasks.flatMap (Task.sounds rig v p.settings)) :
    Spelling rig v base asks { s with
      signals := signals, allQueued := allQueued, speaking := speaking
      synthesizer := .working q rest } := by
  obtain ⟨hplace, hrequests, hqueued⟩ := h
  rw [hw] at hplace hrequests hqueued
  refine ⟨.inr ⟨q, rest, rfl, ?_⟩, ?_, ?_⟩
  · rcases hplace with hidle | ⟨p', tasks', heq, hstamp, hvoice⟩
    · cases hidle
    · obtain ⟨rfl, rfl⟩ := Synthesizer.working.inj heq
      rw [hq.1, hq.2]
      exact ⟨hstamp, hvoice⟩
  · simpa only [Synthesizer.items, hq.2, hr] using hrequests
  · simpa only [Synthesizer.sounds, hq.2, hs] using hqueued

theorem Spelling.synthesis (h : Spelling rig v base asks s) (hne : s.synthesizer ≠ .idle)
    (hg : s.generation = base.generation) (hspells : rig.Spells base.settings.voice v)
    (hst : Synthesis rig s t) : Spelling rig v base asks t := by
  have hplace {p : Progress} {tasks : List Task} (hw : s.synthesizer = .working p tasks) :
      p.stamp = base.generation ∧ p.settings.voice = base.settings.voice := by
    rcases h.place with hidle | ⟨p', tasks', heq, hp⟩
    · exact absurd hidle hne
    · obtain ⟨rfl, rfl⟩ := Synthesizer.working.inj (hw.symm.trans heq)
      exact hp
  have hfetched {job : Job} (hf : s.synthesizer = .fetched job) : False := by
    rcases h.place with hidle | ⟨p, tasks, heq, -⟩
    · exact hne hidle
    · rw [hf] at heq
      cases heq
  cases hst with
  | fetch hi => exact absurd hi hne
  | exit hi => exact absurd hi hne
  | begin hf => exact (hfetched hf).elim
  | drop hf => exact (hfetched hf).elim
  | finish hw =>
    obtain ⟨-, hrequests, hqueued⟩ := h
    rw [hw] at hrequests hqueued
    exact ⟨.inl rfl, hrequests, hqueued⟩
  | abandon hw hc => exact absurd (hg.trans (hplace hw).1.symm) hc
  | @put p q task tasks rest f hw hc he =>
    obtain ⟨hstamp, hvoice⟩ := hplace hw
    obtain ⟨-, ⟨made, hmade, hasks⟩, frames, hframes, hsounds⟩ := h
    have hkick {α : Type} (view : Task → List α) (hnone : view .kick = []) :
        (if q.kicked then rest else .kick :: rest).flatMap view = rest.flatMap view := by
      split
      · rfl
      · rw [List.flatMap_cons, hnone, List.nil_append]
    have hsettings : (q.noting f).settings = p.settings := he.settings_eq
    refine ⟨.inr ⟨_, _, rfl, he.stamp_eq.trans hstamp, ?_⟩, ⟨made, hmade, ?_⟩,
      frames ++ [f], ?_, ?_⟩
    · rw [hsettings]
      exact hvoice
    · rw [← hasks, hw]
      simp only [Synthesizer.items]
      rw [hsettings, hkick _ rfl, he.requests_eq]
    · rw [hframes, List.append_assoc]
    · rw [← hsounds, hw]
      simp only [Synthesizer.sounds]
      rw [hsettings, hkick _ rfl, he.flatMap_sounds, List.filterMap_append, List.append_assoc,
        List.filterMap_cons, List.filterMap_nil]
      cases f.sound? <;> rfl
  | lower hw => exact h.work hw ⟨rfl, rfl⟩ rfl rfl
  | @block p b tasks hw hc =>
    apply h.work hw ⟨rfl, rfl⟩
    · rw [List.flatMap_append, Task.flatMap_items_block]
      rfl
    · rw [List.flatMap_append, Task.sounds_of_isAsking (Task.isAsking_block b _ _),
        Task.flatMap_items_block]
      rfl
  | refused hw he =>
    obtain ⟨frames, hok, -⟩ := hspells s.requests (rig.request _ _ _) (hplace hw).2
    rw [hok] at he
    cases he
  | @answered p prosody c tasks frames hw he =>
    obtain ⟨hstamp, hvoice⟩ := hplace hw
    obtain ⟨more, hok, hanswer⟩ :=
      hspells s.requests (rig.request p.settings.voice prosody c) hvoice
    obtain rfl : frames = more := Except.ok.inj (he.symm.trans hok)
    obtain ⟨-, ⟨made, hmade, hasks⟩, queued, hqueued, hsounds⟩ := h
    refine ⟨.inr ⟨_, _, rfl, hstamp, hvoice⟩,
      ⟨made ++ [rig.request p.settings.voice prosody c], ?_, ?_⟩, queued, hqueued, ?_⟩
    · rw [hmade, List.append_assoc]
    · rw [← hasks, hw, List.append_assoc]
      simp only [Synthesizer.items, List.flatMap_cons, Task.items, Item.requests_append]
      rw [Item.requests_tells _ some]
      rfl
    · rw [← hsounds, hw]
      simp only [Synthesizer.sounds, List.flatMap_cons]
      congr 2
      exact hanswer.trans (List.append_nil _).symm
  | @exhaust p pause shaper next frames rest tasks hw hn =>
    refine h.work hw ⟨?_, ?_⟩ ?_ ?_
    · rfl
    · rfl
    · rw [List.flatMap_append, Task.flatMap_items_afterStream, List.flatMap_cons, Task.items,
        Item.requests_append, Item.requests_append, Item.requests_tells _ some]
      rfl
    · rw [List.flatMap_append, Task.sounds_afterStream, List.flatMap_cons, Task.sounds,
        Frame.Shaper.sounds_of_next_none hn]
  | kick hw => exact h.work hw ⟨rfl, rfl⟩ rfl rfl
  | withhold hw => exact h.work hw ⟨rfl, rfl⟩ rfl rfl
  | signal hw => exact h.work hw ⟨rfl, rfl⟩ rfl rfl
  | raise hw => exact h.work hw ⟨rfl, rfl⟩ rfl rfl

/-- Only steps of the synthesizer take a job on. -/
theorem untouched_of_step (hst : Step rig s a t) (ha : a ≠ .synthesize) :
    t.synthesizer = s.synthesizer ∧ t.requests = s.requests ∧ t.queued = s.queued := by
  cases hst with
  | call hh hc => cases hc <;> exact ⟨rfl, rfl, rfl⟩
  | @proceed task rest hh =>
    exact ⟨synthesizer_perform rig s task, requests_perform rig s task, queued_perform rig s task⟩
  | synthesize => exact absurd rfl ha
  | play hp => cases hp <;> exact ⟨rfl, rfl, rfl⟩
  | expire => exact ⟨rfl, rfl, rfl⟩
  | sound => exact ⟨rfl, rfl, rfl⟩
  | callBack => exact ⟨rfl, rfl, rfl⟩

theorem Spelling.step (h : Spelling rig v base asks s) (hne : s.synthesizer ≠ .idle)
    (hg : s.generation = base.generation) (hspells : rig.Spells base.settings.voice v)
    (hst : Step rig s a t) : Spelling rig v base asks t := by
  by_cases ha : a = .synthesize
  · subst ha
    cases hst with
    | synthesize hs => exact h.synthesis hne hg hspells hs
  · obtain ⟨hsynthesizer, hrequests, hqueued⟩ := untouched_of_step hst ha
    refine ⟨?_, ?_, ?_⟩
    · rw [hsynthesizer]
      exact h.place
    · rw [hsynthesizer, hrequests]
      exact h.requests
    · rw [hsynthesizer, hqueued]
      exact h.queued

theorem step?_of_jobStep? (h : s.jobStep? rig a = some t) :
    s.synthesizer ≠ .idle ∧ s.step? rig a = some t := by
  unfold jobStep? at h
  split at h
  · cases h
  · rename_i hne
    exact ⟨hne, h⟩

theorem Run.of_job {acts : List Act} (h : Run (jobStep? rig) s acts t) :
    Run (step? rig) s acts t :=
  h.mono fun _ _ _ ha => (step?_of_jobStep? ha).2

theorem begin_eq {job : Job} (hc : job.stamp = s.generation) :
    s.begin job = { s with
      synthesizer :=
        .working { stamp := job.stamp, settings := s.settings } (Task.ofJob job.kind) } := by
  rw [begin, if_pos]
  exact beq_iff_eq.2 hc.symm

/-- At a job, the synthesizer has a step to make unless the gate is held, and does not leave. -/
theorem synthesize?_at_job (rig : Rig) (hg : s.isGated = false) (hidle : s.synthesizer ≠ .idle)
    (hexit : s.synthesizer ≠ .exited) :
    ∃ t, s.synthesize? rig = some t ∧ t.isGated = false ∧ t.synthesizer ≠ .exited ∧
      t.generation = s.generation := by
  have hsome : (s.synthesize? rig).isSome := by
    unfold synthesize?
    cases hw : s.synthesizer with
    | idle => exact absurd hw hidle
    | exited => exact absurd hw hexit
    | fetched job => rfl
    | working p tasks =>
      cases tasks with
      | nil => rfl
      | cons task rest => simp [hg]
  obtain ⟨t, ht⟩ := Option.isSome_iff_exists.1 hsome
  refine ⟨t, ht, ?_⟩
  cases synthesize?_cases ht with
  | exit hi => exact absurd hi hidle
  | _ => exact ⟨hg, by rintro ⟨⟩, rfl⟩

/-- The synthesizer comes to the end of its job by its own steps. -/
theorem exists_idle (rig : Rig) (s : Session) (hg : s.isGated = false)
    (hexit : s.synthesizer ≠ .exited) :
    ∃ n t, Run (jobStep? rig) s (List.replicate n .synthesize) t ∧ t.synthesizer = .idle ∧
      t.generation = s.generation := by
  induction s using synthesizeUntil.induct rig fun s => s.synthesizer = .idle with
  | case1 s hh => exact ⟨0, s, .refl s, by simpa using hh, rfl⟩
  | case2 s hh hp =>
    obtain ⟨t, ht, -⟩ := synthesize?_at_job rig hg (by simpa using hh) hexit
    rw [hp] at ht
    cases ht
  | case3 s hh t hp ih =>
    have hidle : s.synthesizer ≠ .idle := by simpa using hh
    obtain ⟨u, hu, hgate, hstay, hgen⟩ := synthesize?_at_job rig hg hidle hexit
    obtain rfl := Option.some.inj (hp.symm.trans hu)
    obtain ⟨n, w, hrun, hw, hlast⟩ := ih hgate hstay
    have hstep : s.jobStep? rig .synthesize = some t := by
      rw [jobStep?, if_neg hidle]
      exact hp
    exact ⟨n + 1, w, .cons hstep hrun, hw, hlast.trans hgen⟩

end Session

namespace Rig

end Rig

namespace Session

end Session

/-- A rig that speaks in the voices that are always there. -/
def Rig.speller : Rig := { Rig.sample with engine := fun _ => Voice.synthesize .builtin }

namespace Session

end Session

end Elocution.Speech
