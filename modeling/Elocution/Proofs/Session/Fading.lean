import Elocution.Proofs.Chronicle
import Elocution.Proofs.Frame.Fading
import Elocution.Proofs.Session.Spelling

/-!
# Fades in the frames of a job

Wherever voice gives way to silence in the frames queued for a job, the silence glides in over no
less than the least fade: the pause after a clause, the markers of a block and the close of the
job see to it, and within a clause the shaper does. The one place left is a clause that begins in
silence right after the voice of the clause before, of which its shaper knows nothing; there the
fade is the engine's.
-/

namespace Elocution.Speech

namespace Rig

variable (rig : Rig)

/-- What of an answer to a request made after those `earlier` is in the silence before, and that
which is still to leave. -/
structure Opening (earlier requests : List Request) (before lead rest : List Frame) : Prop where
  answer : ∃ past request answer clip, earlier <+: past ∧ past ++ [request] <+: requests ∧
    rig.engine past request = .ok answer ∧
    lead ++ rest = Frame.Shaper.yields { clipLeading := clip } answer
  before : lead <:+ before
  silent : ∀ f ∈ lead, f.isVoiced = false

/-- A silence that takes time is faded if it follows voice, or it leads a clause. -/
def Fades (earlier requests : List Request) (before : List Frame) (f : Frame) : Prop :=
  f.isTimed = true → f.isVoiced = false → Frame.endsVoiced before = true →
    Frame.minFadeOut ≤ f.fade ∨
      ∃ lead rest, rig.Opening earlier requests before lead (f :: rest)

/-- The frames before are in the middle of those that a clause is given, `frames` being left. -/
structure Midway (earlier requests : List Request) (before : List Frame) (shaper : Frame.Shaper)
    (frames : List Frame) : Prop where
  guards : shaper.Guards before
  opening : shaper.seenVoiced = false →
    ∃ lead, rig.Opening earlier requests before lead (shaper.yields frames)

variable {rig} {earlier requests more : List Request} {before lead rest frames : List Frame}
  {f : Frame} {shaper next : Frame.Shaper}

theorem Opening.mono (h : rig.Opening earlier requests before lead rest)
    (hm : requests <+: more) : rig.Opening earlier more before lead rest := by
  obtain ⟨⟨past, request, answer, clip, hpast, hp, hrest⟩, hb, hs⟩ := h
  exact ⟨⟨past, request, answer, clip, hpast, hp.trans hm, hrest⟩, hb, hs⟩

theorem Fades.mono (h : rig.Fades earlier requests before f) (hm : requests <+: more) :
    rig.Fades earlier more before f := by
  intro ht hv he
  refine (h ht hv he).imp_right ?_
  rintro ⟨lead, rest, ho⟩
  exact ⟨lead, rest, ho.mono hm⟩

theorem Midway.mono (h : rig.Midway earlier requests before shaper frames)
    (hm : requests <+: more) : rig.Midway earlier more before shaper frames := by
  refine ⟨h.guards, fun hv => ?_⟩
  obtain ⟨lead, ho⟩ := h.opening hv
  exact ⟨lead, ho.mono hm⟩

/-- A frame leaves the shaper. -/
theorem Midway.of_next (h : rig.Midway earlier requests before shaper frames)
    (hn : shaper.next frames = (some f, next, rest)) :
    rig.Fades earlier requests before f ∧
      rig.Midway earlier requests (before ++ [f]) next rest := by
  obtain ⟨hguards, hvoice, hsilence⟩ := h.guards.of_next hn
  have hyields := Frame.Shaper.yields_of_next hn
  constructor
  · intro ht hv he
    cases hseen : shaper.seenVoiced with
    | true => exact .inl ((hsilence hv).2 hseen he ht)
    | false =>
      obtain ⟨lead, ho⟩ := h.opening hseen
      exact .inr ⟨lead, next.yields rest, hyields ▸ ho⟩
  · refine ⟨hguards, fun hseen => ?_⟩
    have hv : f.isVoiced = false := by
      by_contra hv
      simp [hvoice (by simpa using hv)] at hseen
    obtain ⟨lead, ho⟩ := h.opening ((hsilence hv).1 ▸ hseen)
    rw [hyields] at ho
    obtain ⟨⟨past, request, answer, clip, hpast, hp, he, hy⟩, ⟨start, hb⟩, hs⟩ := ho
    refine ⟨lead ++ [f], ⟨past, request, answer, clip, hpast, hp, he, ?_⟩, ⟨start, ?_⟩, ?_⟩
    · rw [List.append_assoc]
      exact hy
    · rw [← hb, List.append_assoc]
    · exact List.forall_mem_append.mpr ⟨hs, List.forall_mem_singleton.mpr hv⟩

end Rig

namespace Task

/-- Queues silence only, and that with a fade. -/
def IsSteady : Task → Prop
  | .stream .. => False
  | .frame f => f.isVoiced = false ∧ (f.isTimed = true → Frame.minFadeOut ≤ f.fade)
  | _ => True

/-- Of tasks, at most one is the frames of a clause, for which `P` holds, and nothing is queued
before it. -/
inductive Lined (P : Frame.Shaper → List Frame → Prop) : List Task → Prop where
  | steady {tasks : List Task} (h : ∀ t ∈ tasks, t.IsSteady) : Lined P tasks
  | streaming {ahead rest : List Task} {pause : Option Float32} {shaper : Frame.Shaper}
      {frames : List Frame} (ha : ∀ t ∈ ahead, t.isClosing = true) (hp : P shaper frames)
      (hr : ∀ t ∈ rest, t.IsSteady) : Lined P (ahead ++ .stream pause shaper frames :: rest)

variable {P Q : Frame.Shaper → List Frame → Prop} {task : Task} {tasks : List Task}

theorem isSteady_of_isClosing (h : task.isClosing = true) : task.IsSteady := by
  cases task <;> trivial

theorem Lined.mono (h : Lined P tasks) (hpq : ∀ shaper frames, P shaper frames → Q shaper frames) :
    Lined Q tasks := by
  cases h with
  | steady h => exact .steady h
  | streaming ha hp hr => exact .streaming ha (hpq _ _ hp) hr

theorem Lined.cons (h : Lined P tasks) (ht : task.isClosing = true) : Lined P (task :: tasks) := by
  cases h with
  | steady h => exact .steady (List.forall_mem_cons.mpr ⟨isSteady_of_isClosing ht, h⟩)
  | streaming ha hp hr =>
    rw [← List.cons_append]
    exact .streaming (List.forall_mem_cons.mpr ⟨ht, ha⟩) hp hr

/-- A task that is no closing one stands at the head with steady tasks after it, if it is not the
frames of a clause themselves. -/
theorem Lined.head (h : Lined P (task :: tasks)) (ht : task.isClosing = false) :
    (∀ t ∈ tasks, t.IsSteady) ∧
      (task.IsSteady ∨ ∃ pause shaper frames, task = .stream pause shaper frames ∧
        P shaper frames) := by
  generalize hl : task :: tasks = all at h
  cases h with
  | steady h =>
    subst hl
    obtain ⟨hhead, htail⟩ := List.forall_mem_cons.mp h
    exact ⟨htail, .inl hhead⟩
  | @streaming ahead rest pause shaper frames ha hp hr =>
    cases ahead with
    | nil =>
      obtain ⟨rfl, rfl⟩ := List.cons.inj hl
      exact ⟨hr, .inr ⟨pause, shaper, frames, rfl, hp⟩⟩
    | cons a more =>
      obtain ⟨rfl, -⟩ := List.cons.inj hl
      simp [ha _ List.mem_cons_self] at ht

theorem Lined.tail (h : Lined P (task :: tasks))
    (hn : ∀ pause shaper frames, task ≠ .stream pause shaper frames) : Lined P tasks := by
  generalize hl : task :: tasks = all at h
  cases h with
  | steady h =>
    subst hl
    exact .steady (List.forall_mem_cons.mp h).2
  | @streaming ahead rest pause shaper frames ha hp hr =>
    cases ahead with
    | nil =>
      obtain ⟨rfl, -⟩ := List.cons.inj hl
      exact absurd rfl (hn pause shaper frames)
    | cons a more =>
      obtain ⟨-, rfl⟩ := List.cons.inj hl
      exact .streaming (List.forall_mem_cons.mp ha).2 hp hr

theorem isSteady_block (prosody : Prosody) (clauses : List Clause) (markers : List Marker) :
    ∀ t ∈ clauses.map (Task.clause prosody) ++ ofMarkers markers, t.IsSteady := by
  intro t ht
  rcases List.mem_append.mp ht with ht | ht
  · obtain ⟨c, -, rfl⟩ := List.mem_map.mp ht
    trivial
  · cases markers with
    | nil => exact absurd ht List.not_mem_nil
    | cons m rest =>
      rcases List.mem_cons.mp ht with rfl | ht
      · trivial
      · obtain ⟨n, -, rfl⟩ := List.mem_map.mp ht
        trivial

theorem isSteady_afterStream (voiced : Bool) (pause : Option Float32) :
    ∀ t ∈ afterStream voiced pause, t.IsSteady := by
  have hpause (ms : Float32) : (Task.frame (.silence ms Frame.minFadeOut)).IsSteady :=
    ⟨rfl, fun _ => Frame.minFadeOut_le_self⟩
  intro t ht
  rcases List.mem_cons.mp ht with rfl | ht
  · trivial
  · split at ht
    · obtain ⟨ms, -, rfl⟩ := List.mem_map.mp ht
      exact hpause ms
    · exact absurd ht List.not_mem_nil

theorem isSteady_closing {f : Frame} (hv : f.isVoiced = false)
    (ht : f.isTimed = true → Frame.minFadeOut ≤ f.fade) : ∀ t ∈ closing f, t.IsSteady := by
  intro t hm
  simp only [closing, List.mem_cons, List.not_mem_nil, or_false] at hm
  rcases hm with rfl | rfl | rfl
  · exact ⟨hv, ht⟩
  · trivial
  · trivial

theorem isSteady_ofJob (kind : JobKind) : ∀ t ∈ ofJob kind, t.IsSteady := by
  have hnone {f : Frame} (hf : f.isTimed = false) :
      f.isTimed = true → Frame.minFadeOut ≤ f.fade := by
    simp [hf]
  intro t ht
  cases kind with
  | speak blocks =>
    rcases List.mem_cons.mp ht with rfl | ht
    · trivial
    rcases List.mem_append.mp ht with ht | ht
    · obtain ⟨b, -, rfl⟩ := List.mem_map.mp ht
      trivial
    · exact isSteady_closing rfl (fun _ => by decide +kernel) t ht
  | notify markers =>
    rcases List.mem_cons.mp ht with rfl | ht
    · trivial
    rcases List.mem_append.mp ht with ht | ht
    · obtain ⟨m, -, rfl⟩ := List.mem_map.mp ht
      exact ⟨rfl, hnone Frame.isTimed_silence_zero⟩
    · exact isSteady_closing rfl (hnone Frame.isTimed_silence_zero) t ht

end Task

/-- The frame of a marker is faded if it takes any time. -/
theorem isFaded_marker {m : Marker} {fade : Float32} (h : fade = markerFade ∨ fade = 0) :
    ((Frame.silence fade fade).withMarker m).isTimed = true →
      Frame.minFadeOut ≤ ((Frame.silence fade fade).withMarker m).fade := by
  intro ht
  rcases h with rfl | rfl
  · exact Frame.minFadeOut_le_self
  · have hnone : ((Frame.silence 0 0).withMarker m).isTimed = false := Frame.isTimed_silence_zero
    simp [hnone] at ht

section Emission

variable {rig : Rig} {earlier requests : List Request} {before : List Frame} {p q : Progress}
  {task : Task} {tasks rest : List Task} {f : Frame}

/-- A frame is queued. -/
theorem Emits.fades (he : Emits p tasks task q f rest)
    (hl : Task.Lined (rig.Midway earlier requests before) (task :: tasks)) :
    rig.Fades earlier requests before f ∧
      Task.Lined (rig.Midway earlier requests (before ++ [f])) rest := by
  obtain ⟨hrest, hhead⟩ := hl.head he.not_closing.1
  cases he with
  | stream hn =>
    rcases hhead with hno | ⟨pause, shaper, frames, heq, hmid⟩
    · exact hno.elim
    · obtain ⟨-, rfl, rfl⟩ := Task.stream.inj heq
      obtain ⟨hfades, hmid⟩ := hmid.of_next hn
      exact ⟨hfades, .streaming (List.forall_mem_nil _) hmid hrest⟩
  | @marker m first fade hfade =>
    refine ⟨fun ht _ _ => .inl (isFaded_marker ?_ ht), .steady hrest⟩
    rw [hfade]
    split
    · exact .inl rfl
    · exact .inr rfl
  | frame =>
    rcases hhead with hsteady | ⟨_, _, _, heq, -⟩
    · exact ⟨fun ht _ _ => .inl (hsteady.2 ht), .steady hrest⟩
    · cases heq

end Emission

namespace Session

/-- The frames queued since `base` are those of one job, of which these tasks are left. -/
structure Fading (rig : Rig) (base s : Session) : Prop where
  requests : base.requests <+: s.requests
  frames : ∃ frames, s.queued = base.queued ++ frames ∧
    Chronicle (rig.Fades base.requests s.requests) frames ∧
    (s.synthesizer = .idle ∨ ∃ p tasks, s.synthesizer = .working p tasks ∧
      Task.Lined (rig.Midway base.requests s.requests frames) tasks)

variable {rig : Rig} {s t base : Session} {a : Act}

/-- Tasks give way to others, and a request may be made. -/
theorem Fading.work (h : Fading rig base s) {p : Progress} {tasks : List Task}
    (hw : s.synthesizer = .working p tasks) (hq : t.queued = s.queued)
    (hr : s.requests <+: t.requests)
    (ht : ∀ frames, Task.Lined (rig.Midway base.requests s.requests frames) tasks →
      t.synthesizer = .idle ∨ ∃ q rest, t.synthesizer = .working q rest ∧
        Task.Lined (rig.Midway base.requests t.requests frames) rest) : Fading rig base t := by
  obtain ⟨hrequests, frames, hframes, hrecord, hidle | ⟨p', tasks', hw', hlined⟩⟩ := h
  · simp [hidle] at hw
  · obtain ⟨-, rfl⟩ := Synthesizer.working.inj (hw.symm.trans hw')
    exact ⟨hrequests.trans hr, frames, hq.trans hframes, hrecord.mono fun _ _ hf => hf.mono hr,
      ht frames hlined⟩

theorem Fading.synthesis (h : Fading rig base s) (hne : s.synthesizer ≠ .idle)
    (hst : Synthesis rig s t) : Fading rig base t := by
  have hfetched {job : Job} (hf : s.synthesizer = .fetched job) : False := by
    obtain ⟨-, frames, -, -, hidle | ⟨p, tasks, hw, -⟩⟩ := h
    · exact hne hidle
    · simp [hf] at hw
  -- A task that queues nothing gives way to those after it.
  have hskip {q : Progress} {task : Task} {tasks : List Task}
      (hn : ∀ pause shaper frames, task ≠ .stream pause shaper frames) (frames : List Frame)
      (hl : Task.Lined (rig.Midway base.requests s.requests frames) (task :: tasks)) :
      Synthesizer.working q tasks = .idle ∨ ∃ q' rest,
        Synthesizer.working q tasks = .working q' rest ∧
          Task.Lined (rig.Midway base.requests s.requests frames) rest :=
    .inr ⟨q, tasks, rfl, hl.tail hn⟩
  cases hst with
  | fetch hi => exact absurd hi hne
  | exit hi => exact absurd hi hne
  | begin hf => exact (hfetched hf).elim
  | drop hf => exact (hfetched hf).elim
  | finish hw => exact h.work hw rfl List.prefix_rfl fun _ _ => .inl rfl
  | abandon hw => exact h.work hw rfl List.prefix_rfl fun _ _ => .inl rfl
  | @put p q task tasks rest f hw hc he =>
    obtain ⟨hrequests, frames, hframes, hrecord, hidle | ⟨p', tasks', hw', hlined⟩⟩ := h
    · exact absurd hidle hne
    · obtain ⟨-, rfl⟩ := Synthesizer.working.inj (hw.symm.trans hw')
      obtain ⟨hfades, hrest⟩ := he.fades hlined
      refine ⟨hrequests, frames ++ [f], ?_, Chronicle.concat_iff.mpr ⟨hrecord, hfades⟩,
        .inr ⟨_, _, rfl, ?_⟩⟩
      · simp only [hframes, List.append_assoc]
      · split
        · exact hrest
        · exact hrest.cons rfl
  | lower hw => exact h.work hw rfl List.prefix_rfl (hskip (by simp))
  | block hw =>
    refine h.work hw rfl List.prefix_rfl fun frames hl => .inr ⟨_, _, rfl, .steady fun t ht => ?_⟩
    rcases List.mem_append.mp ht with ht | ht
    · exact Task.isSteady_block _ _ _ t ht
    · exact (hl.head rfl).1 t ht
  | refused hw =>
    refine h.work hw rfl (List.prefix_append ..) fun frames hl => .inr ⟨_, _, rfl, ?_⟩
    exact (hl.tail (by simp)).mono fun _ _ hm => hm.mono (List.prefix_append ..)
  | @answered p prosody c tasks frames hw he =>
    refine h.work hw rfl (List.prefix_append ..) fun before hl => .inr ⟨_, _, rfl, ?_⟩
    refine .streaming (List.forall_mem_nil _)
      ⟨Frame.Shaper.guards_fresh _ before, fun _ => ⟨[], ⟨?_, List.nil_suffix, by simp⟩⟩⟩
      (hl.head rfl).1
    exact ⟨s.requests, _, frames, _, h.requests, List.prefix_rfl, he, rfl⟩
  | exhaust hw =>
    refine h.work hw rfl List.prefix_rfl fun frames hl => .inr ⟨_, _, rfl, .steady fun t ht => ?_⟩
    rcases List.mem_append.mp ht with ht | ht
    · exact Task.isSteady_afterStream _ _ t ht
    · exact (hl.head rfl).1 t ht
  | kick hw =>
    exact h.work hw rfl List.prefix_rfl fun frames hl =>
      .inr ⟨_, _, rfl, (hl.tail (by simp)).cons rfl⟩
  | withhold hw => exact h.work hw rfl List.prefix_rfl (hskip (by simp))
  | signal hw => exact h.work hw rfl List.prefix_rfl (hskip (by simp))
  | raise hw => exact h.work hw rfl List.prefix_rfl (hskip (by simp))

theorem Fading.step (h : Fading rig base s) (hne : s.synthesizer ≠ .idle)
    (hst : Step rig s a t) : Fading rig base t := by
  by_cases ha : a = .synthesize
  · subst ha
    cases hst with
    | synthesize hs => exact h.synthesis hne hs
  · obtain ⟨hsynthesizer, hrequests, hqueued⟩ := untouched_of_step hst ha
    obtain ⟨hgrown, frames, hframes⟩ := h
    rw [← hsynthesizer, ← hrequests, ← hqueued] at hframes
    exact ⟨hrequests ▸ hgrown, frames, hframes⟩

theorem fading_begin (rig : Rig) (job : Job) (s : Session) : Fading rig s (s.begin job) := by
  unfold begin
  split
  · exact ⟨List.prefix_rfl, [], by simp, .nil,
      .inr ⟨_, _, rfl, .steady (Task.isSteady_ofJob job.kind)⟩⟩
  · exact ⟨List.prefix_rfl, [], by simp, .nil, .inl rfl⟩

theorem Run.fading {acts : List Act} (hr : Run (jobStep? rig) s acts t)
    (h : Fading rig base s) : Fading rig base t := by
  induction hr with
  | refl => exact h
  | tail _ ha ih =>
    obtain ⟨hne, hstep⟩ := step?_of_jobStep? ha
    exact ih.step hne (step?_cases hstep)

/-- Of the frames queued for a job, a silence that takes time and follows voice has a fade no less
than the least one, except where it is the first frame to take time of those that a clause
is given: the clause before has then ended in voice, and the fade is what the engine asked for. -/
theorem fades_after_voice {job : Job} {acts : List Act} (hs : s.synthesizer = .fetched job)
    (hr : Run (jobStep? rig) s (.synthesize :: acts) t) :
    ∃ frames, t.queued = s.queued ++ frames ∧
      ∀ before f, before ++ [f] <+: frames → f.isTimed = true → f.isVoiced = false →
        Frame.endsVoiced before = true →
        Frame.minFadeOut ≤ f.fade ∨
          ∃ past request answer clip earlier lead,
            s.requests <+: past ∧ past ++ [request] <+: t.requests ∧
            rig.engine past request = .ok answer ∧
            before = earlier ++ lead ∧ Frame.endsVoiced earlier = true ∧
            (∀ g ∈ lead, g.isVoiced = false ∧ g.isTimed = false) ∧
            lead ++ [f] <+: Frame.Shaper.yields { clipLeading := clip } answer := by
  obtain ⟨u, hbegin, hrest⟩ := hr.uncons
  have hu : s.begin job = u := by
    have hstep := (step?_of_jobStep? hbegin).2
    simp only [step?, synthesize?, hs] at hstep
    exact Option.some.inj hstep
  subst hu
  obtain ⟨-, frames, hframes, hrecord, -⟩ := hrest.fading (fading_begin rig job s)
  refine ⟨frames, hframes, fun before f hp ht hv he => ?_⟩
  refine (hrecord before f hp ht hv he).imp_right ?_
  rintro ⟨lead, rest, ⟨past, request, answer, clip, hpast, hprefix, hanswer, hyields⟩,
    ⟨earlier, rfl⟩, hsilent⟩
  obtain ⟨hearlier, huntimed⟩ := Frame.endsVoiced_append hsilent he
  refine ⟨past, request, answer, clip, earlier, lead, hpast, hprefix, hanswer, rfl, hearlier,
    fun g hg => ⟨hsilent g hg, huntimed g hg⟩, ?_⟩
  rw [← hyields]
  exact ⟨rest, (List.append_cons ..).symm⟩

end Session

/-- A rig with an engine that has silence and then one tone for every clause. -/
def Rig.pausing : Rig :=
  { Rig.sample with engine := fun _ _ => .ok [.silence 20 0, .voiced ⟨100, 0.5⟩ 20 0] }

namespace Session

/-- Of two letters, the second one higher, the voice of the first breaks off: the silence that leads
the second takes time and has no fade, though the job runs to its end and is not cancelled. -/
theorem voice_breaks_off :
    ∃ job s t before f, Run (step? Rig.pausing) (initial Rig.pausing none {})
        [.call (.speak [.text ['a'], .offset 5, .text ['b']] false), .synthesize] s ∧
      s.synthesizer = .fetched job ∧ s.queued = [] ∧
      Run (jobStep? Rig.pausing) s (List.replicate 20 .synthesize) t ∧
      t.synthesizer = .idle ∧ t.generation = job.stamp ∧
      before ++ [f] <+: t.queued ∧ f.isTimed = true ∧ f.isVoiced = false ∧
      Frame.endsVoiced before = true ∧ ¬Frame.minFadeOut ≤ f.fade := by
  let s := (initial Rig.pausing none {}).after (step? Rig.pausing)
    [.call (.speak [.text ['a'], .offset 5, .text ['b']] false), .synthesize]
  let t := s.after (jobStep? Rig.pausing) (List.replicate 20 .synthesize)
  refine ⟨_, s, t, [.silence 20 0, .voiced ⟨100, 0.5⟩ 20 5], .silence 10 0, .after rfl, rfl, rfl,
    .after ?_, ?_, ?_, ?_, ?_, rfl, ?_, ?_⟩ <;> decide +kernel

/-- That silence is the first frame of the second clause. -/
theorem fades_after_voice_pausing :
    ∃ job s t, s.synthesizer = .fetched job ∧
      Run (jobStep? Rig.pausing) s (.synthesize :: List.replicate 19 .synthesize) t ∧
      [Frame.silence 20 0, .voiced ⟨100, 0.5⟩ 20 5] ++ [.silence 10 0] <+: t.queued ∧
      ∃ past request answer clip lead,
        past ++ [request] <+: t.requests ∧ Rig.pausing.engine past request = .ok answer ∧
        (∀ g ∈ lead, g.isVoiced = false ∧ g.isTimed = false) ∧
        lead ++ [.silence 10 0] <+: Frame.Shaper.yields { clipLeading := clip } answer := by
  let s := (initial Rig.pausing none {}).after (step? Rig.pausing)
    [.call (.speak [.text ['a'], .offset 5, .text ['b']] false), .synthesize]
  let t := s.after (jobStep? Rig.pausing) (.synthesize :: List.replicate 19 .synthesize)
  have hr : Run (jobStep? Rig.pausing) s (.synthesize :: List.replicate 19 .synthesize) t :=
    .after (by decide +kernel)
  have hp : [Frame.silence 20 0, .voiced ⟨100, 0.5⟩ 20 5] ++ [.silence 10 0] <+: t.queued := by
    decide +kernel
  obtain ⟨job, hs⟩ : ∃ job, s.synthesizer = .fetched job := ⟨_, rfl⟩
  obtain ⟨frames, hframes, hall⟩ := fades_after_voice hs hr
  replace hframes : t.queued = frames := hframes
  refine ⟨job, s, t, hs, hr, hp, ?_⟩
  rcases hall _ _ (hframes ▸ hp) (by decide +kernel) rfl (by decide +kernel) with
    hle | ⟨past, request, answer, clip, -, lead, -, hpast, hanswer, -, -, hlead, hyields⟩
  · exact absurd hle (by decide +kernel)
  · exact ⟨past, request, answer, clip, lead, hpast, hanswer, hlead, hyields⟩

end Session

end Elocution.Speech
