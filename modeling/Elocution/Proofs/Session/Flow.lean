import Elocution.Proofs.Frame.Shaping
import Elocution.Proofs.Session.Accounts

/-!
# The flow of jobs

From a point at which nothing is under way, and as long as nothing is cancelled, jobs flow through
the session in order and none is cut short. Each is announced once and ended once, and the end is
queued before the synthesizer says that all is queued, so that a player which finds nothing to
render and no end has one to wait for.
-/

namespace Elocution.Speech

/-- The engine leaves the end of an utterance to the session. -/
def Rig.NeverEnds (rig : Rig) : Prop :=
  ∀ past request frames, rig.engine past request = .ok frames →
    ∀ f ∈ frames, f.endsUtterance = false

theorem Rig.neverEnds_sample : Rig.sample.NeverEnds := by
  intro past request frames h f hf
  obtain rfl := Except.ok.inj h
  rw [List.mem_singleton.mp hf]
  rfl

namespace Task

/-- Queues the end of a job. -/
def ends : Task → Bool
  | .frame f => f.endsUtterance
  | _ => false

/-- Queues no frame, and says nothing of what is still to be queued. -/
def isClosing : Task → Bool
  | .kick | .signal _ | .raiseAllQueued => true
  | _ => false

/-- May stand ahead of the last tasks of a job. -/
def IsNeutral : Task → Prop
  | .block _ | .clause _ _ | .marker _ _ | .kick | .signal _ => True
  | .stream _ shaper frames => shaper.IsPlain frames
  | .frame f => f.endsUtterance = false
  | .lowerAllQueued | .raiseAllQueued => False

theorem ends_of_isNeutral {task : Task} (h : task.IsNeutral) : task.ends = false := by
  cases task <;> first | rfl | exact h

theorem ends_of_isClosing {task : Task} (h : task.isClosing = true) : task.ends = false := by
  cases task <;> first | rfl | simp [isClosing] at h

/-- Tasks of a job that has been begun, in the light of whether all is said to be queued. -/
inductive Staged (allQueued : Bool) (p : Progress) : List Task → Prop where
  /-- Nothing has been done. -/
  | fresh {kind : JobKind} (hk : p.kicked = false) : Staged allQueued p (ofJob kind)
  /-- The end is still to be queued. -/
  | underway {body : List Task} {f : Frame} (hb : ∀ task ∈ body, task.IsNeutral)
      (hq : allQueued = false) : Staged allQueued p (body ++ closing f)
  /-- The end has been queued. -/
  | closed {tasks : List Task} (hk : p.kicked = true) (hc : ∀ task ∈ tasks, task.isClosing = true) :
    Staged allQueued p tasks

variable {q : Bool} {p : Progress} {task : Task} {tasks more : List Task}

theorem isNeutral_ofMarkers (markers : List Marker) : ∀ t ∈ ofMarkers markers, t.IsNeutral := by
  cases markers with
  | nil => exact fun _ hf => absurd hf List.not_mem_nil
  | cons m rest =>
    intro t ht
    simp only [ofMarkers, List.mem_cons, List.mem_map] at ht
    rcases ht with rfl | ⟨n, -, rfl⟩ <;> trivial

theorem isNeutral_clauses_ofMarkers (prosody : Prosody) (clauses : List Clause)
    (markers : List Marker) :
    ∀ t ∈ clauses.map (Task.clause prosody) ++ ofMarkers markers, t.IsNeutral := by
  intro t ht
  rcases List.mem_append.mp ht with ht | ht
  · obtain ⟨c, -, rfl⟩ := List.mem_map.mp ht
    trivial
  · exact isNeutral_ofMarkers markers t ht

theorem isNeutral_afterStream (voiced : Bool) (pause : Option Float32) :
    ∀ t ∈ afterStream voiced pause, t.IsNeutral := by
  intro t ht
  cases voiced <;> cases pause <;> simp [afterStream] at ht
  · exact ht ▸ trivial
  · exact ht ▸ trivial
  · exact ht ▸ trivial
  · rcases ht with rfl | rfl
    · trivial
    · rfl

/-- The tasks of a job but the first. -/
theorem ofJob_eq (kind : JobKind) :
    ∃ body f, ofJob kind = .lowerAllQueued :: (body ++ closing f) ∧ ∀ t ∈ body, t.IsNeutral := by
  cases kind with
  | speak blocks =>
    refine ⟨_, _, rfl, fun t ht => ?_⟩
    obtain ⟨b, -, rfl⟩ := List.mem_map.mp ht
    trivial
  | notify markers =>
    refine ⟨_, _, rfl, fun t ht => ?_⟩
    obtain ⟨m, -, rfl⟩ := List.mem_map.mp ht
    rfl

theorem countP_ends_of_isNeutral (h : ∀ t ∈ tasks, t.IsNeutral) : tasks.countP ends = 0 := by
  rw [List.countP_eq_zero]
  exact fun t ht => by simp [ends_of_isNeutral (h t ht)]

theorem countP_ends_closing (f : Frame) : (closing f).countP ends = 1 := rfl

theorem countP_ends_ofJob (kind : JobKind) : (ofJob kind).countP ends = 1 := by
  obtain ⟨body, f, hj, hb⟩ := ofJob_eq kind
  rw [hj, List.countP_cons_of_neg (by simp [ends]), List.countP_append,
    countP_ends_of_isNeutral hb, countP_ends_closing]

/-- What the first task can be, and what is left after it. -/
theorem Staged.cons (h : Staged q p (task :: tasks)) :
    (task = .lowerAllQueued ∧ p.kicked = false ∧
      ∃ body f, tasks = body ++ closing f ∧ ∀ t ∈ body, t.IsNeutral) ∨
    (task.IsNeutral ∧ q = false ∧
      ∃ body f, tasks = body ++ closing f ∧ ∀ t ∈ body, t.IsNeutral) ∨
    (q = false ∧ ∃ f : Frame, task = .frame f.ending ∧ ∀ t ∈ tasks, t.isClosing = true) ∨
    (p.kicked = true ∧ task.isClosing = true ∧ ∀ t ∈ tasks, t.isClosing = true) := by
  generalize hl : task :: tasks = all at h
  cases h with
  | @fresh kind hk =>
    obtain ⟨body, f, hj, hb⟩ := ofJob_eq kind
    rw [hj] at hl
    obtain ⟨rfl, rfl⟩ := List.cons.inj hl
    exact .inl ⟨rfl, hk, body, f, rfl, hb⟩
  | @underway body f hb hq =>
    cases body with
    | nil =>
      obtain ⟨rfl, rfl⟩ := List.cons.inj hl
      refine .inr (.inr (.inl ⟨hq, f, rfl, ?_⟩))
      simp [isClosing]
    | cons t body =>
      obtain ⟨rfl, rfl⟩ := List.cons.inj hl
      exact .inr (.inl ⟨hb _ (List.mem_cons_self ..), hq, body, f, rfl,
        fun t ht => hb t (List.mem_cons_of_mem _ ht)⟩)
  | closed hk hc =>
    subst hl
    exact .inr (.inr (.inr ⟨hk, hc _ (List.mem_cons_self ..),
      fun t ht => hc t (List.mem_cons_of_mem _ ht)⟩))

theorem Staged.kicked_of_nil (h : Staged q p []) : p.kicked = true := by
  generalize hl : [] = tasks at h
  cases h with
  | @fresh kind hk =>
    obtain ⟨body, f, hj, -⟩ := ofJob_eq kind
    simp [hj] at hl
  | underway hb hq => simp [closing] at hl
  | closed hk hc => exact hk

/-- A task gives way to others of its kind. -/
theorem Staged.expand {p' : Progress} (h : Staged q p (task :: tasks))
    (hl : task ≠ .lowerAllQueued) (he : task.ends = false) (hn : ∀ t ∈ more, t.IsNeutral)
    (hc : task.isClosing = true → ∀ t ∈ more, t.isClosing = true)
    (hk : p.kicked = true → p'.kicked = true) : Staged q p' (more ++ tasks) := by
  obtain ⟨rfl, -⟩ | ⟨-, hq, body, f, rfl, hb⟩ | ⟨-, f, rfl, -⟩ | ⟨hkicked, hclosing, hrest⟩ :=
    h.cons
  · exact absurd rfl hl
  · rw [← List.append_assoc]
    refine .underway (fun t ht => ?_) hq
    exact (List.mem_append.mp ht).elim (hn t) (hb t)
  · simp [ends, Frame.ending] at he
  · refine .closed (hk hkicked) fun t ht => ?_
    exact (List.mem_append.mp ht).elim (hc hclosing t) (hrest t)

theorem Staged.tail (h : Staged q p (task :: tasks)) (hl : task ≠ .lowerAllQueued)
    (he : task.ends = false) : Staged q p tasks :=
  h.expand hl he (List.forall_mem_nil _) (fun _ => List.forall_mem_nil _) id

theorem Staged.swap {other : Task} (h : Staged q p (task :: tasks))
    (hl : task ≠ .lowerAllQueued) (he : task.ends = false) (hn : other.IsNeutral)
    (hc : task.isClosing = true → other.isClosing = true) : Staged q p (other :: tasks) := by
  rw [← List.singleton_append]
  exact h.expand hl he (List.forall_mem_singleton.mpr hn)
    (fun h => List.forall_mem_singleton.mpr (hc h)) id

end Task

/-- A task that queues a frame gives way to none but neutral tasks. -/
theorem Emits.expand {p q : Progress} {task : Task} {tasks rest : List Task} {f : Frame}
    (h : Emits p tasks task q f rest) (hn : task.IsNeutral) :
    f.endsUtterance = false ∧ ∃ more, rest = more ++ tasks ∧ ∀ t ∈ more, t.IsNeutral := by
  cases h with
  | @stream pause shaper next frames rest f h =>
    obtain ⟨-, hf, hp⟩ := Frame.Shaper.due_next hn h
    exact ⟨hf, [_], rfl, List.forall_mem_singleton.mpr hp⟩
  | marker => exact ⟨rfl, [], rfl, by simp⟩
  | frame => exact ⟨hn, [], rfl, by simp⟩

theorem Emits.not_closing {p q : Progress} {task : Task} {tasks rest : List Task} {f : Frame}
    (h : Emits p tasks task q f rest) : task.isClosing = false ∧ task ≠ .lowerAllQueued := by
  cases h <;> exact ⟨rfl, by rintro ⟨⟩⟩

/-- A frame is queued while the end is to come; if it is the end, none is to come any more. -/
theorem Task.Staged.put {a : Bool} {p q : Progress} {task : Task} {tasks rest : List Task}
    {f : Frame} (h : Task.Staged a p (task :: tasks)) (he : Emits p tasks task q f rest) :
    Task.Staged a (q.noting f) (if q.kicked then rest else .kick :: rest) ∧
      (task :: tasks).countP Task.ends = 1 ∧
      (if q.kicked then rest else .kick :: rest).countP Task.ends =
        if f.endsUtterance then 0 else 1 := by
  have hkick : (if q.kicked then rest else .kick :: rest).countP Task.ends =
      rest.countP Task.ends := by
    split <;> simp [Task.ends]
  rw [hkick]
  obtain ⟨rfl, -⟩ | ⟨hn, ha, body, g, rfl, hb⟩ | ⟨-, g, rfl, hc⟩ | ⟨-, hc, -⟩ := h.cons
  · cases he
  · obtain ⟨hf, more, rfl, hm⟩ := he.expand hn
    have hbody : ∀ t ∈ more ++ body, t.IsNeutral := fun t ht =>
      (List.mem_append.mp ht).elim (hm t) (hb t)
    refine ⟨?_, ?_, ?_⟩
    · split
      · rw [← List.append_assoc]
        exact .underway hbody ha
      · rw [← List.append_assoc, ← List.cons_append]
        exact .underway (List.forall_mem_cons.mpr ⟨trivial, hbody⟩) ha
    · rw [← List.cons_append, List.countP_append,
        Task.countP_ends_of_isNeutral (List.forall_mem_cons.mpr ⟨hn, hb⟩), Task.countP_ends_closing]
    · rw [← List.append_assoc, List.countP_append, Task.countP_ends_of_isNeutral hbody,
        Task.countP_ends_closing, hf]
      rfl
  · cases he
    have hnone : tasks.countP Task.ends = 0 := by
      rw [List.countP_eq_zero]
      exact fun t ht => by simp [Task.ends_of_isClosing (hc t ht)]
    refine ⟨?_, ?_, hnone⟩
    · split
      · exact .closed rfl hc
      · exact .closed rfl (List.forall_mem_cons.mpr ⟨rfl, hc⟩)
    · rw [List.countP_cons, hnone]
      rfl
  · exact absurd hc (by simp [he.not_closing.1])

theorem Task.Staged.isNeutral_or_ends {a : Bool} {p q : Progress} {task : Task}
    {tasks rest : List Task} {f : Frame} (h : Task.Staged a p (task :: tasks))
    (he : Emits p tasks task q f rest) : task.IsNeutral ∨ task.ends = true := by
  obtain ⟨rfl, -⟩ | ⟨hn, -⟩ | ⟨-, g, rfl, -⟩ | ⟨-, hc, -⟩ := h.cons
  · cases he
  · exact .inl hn
  · exact .inr rfl
  · exact absurd hc (by simp [he.not_closing.1])

/-- The jobs begun from generation `g` on whose end is still to be queued. -/
def Synthesizer.opens (g : Stamp) : Synthesizer → Nat
  | .fetched job => if g ≤ job.stamp then 1 else 0
  | .working p tasks => if g ≤ p.stamp then tasks.countP Task.ends else 0
  | .idle | .exited => 0

/-- Whether the end of the job that the player is at has been rendered. -/
def Player.past (g : Stamp) : Player → Nat
  | .delivering stamp chunk => if g ≤ stamp ∧ chunk.finished = true then 1 else 0
  | .draining stamp | .idling stamp | .completing stamp => if g ≤ stamp then 1 else 0
  | _ => 0

theorem Player.past_le_owes (g : Stamp) (p : Player) : p.past g ≤ p.owes g := by
  cases p <;> simp only [Player.past, Player.owes, Player.stamp?, Option.any] <;> grind

theorem Player.owes_of_stamp {g : Stamp} {p : Player} (h : p.stamp? = some g) : p.owes g = 1 := by
  simp [Player.owes, h]

theorem Player.stamp_of_taken {g : Stamp} {p : Player} (h : p.taken? = some g) :
    p.stamp? = some g := by
  cases p <;> first | exact h | exact absurd h (by rintro ⟨⟩)

theorem Synthesizer.opens_eq_zero {g : Stamp} {w : Synthesizer} (h : w.Stamped (· < g)) :
    w.opens g = 0 := by
  cases w with
  | fetched job => exact if_neg (Nat.not_le_of_lt h)
  | working p tasks => exact if_neg (Nat.not_le_of_lt h.1)
  | idle => rfl
  | exited => rfl

namespace Session

/-- The jobs from generation `g` on whose end has not been reported, by where that end is. -/
def unended (g : Stamp) (s : Session) : Nat :=
  s.jobs.jobs.countP (g ≤ ·.stamp) + s.synthesizer.opens g + s.frames.ends + s.player.past g

/-- Nobody has been told that the session ends. -/
structure Open (s : Session) : Prop where
  lasts : s.ended = false
  jobs : s.jobs.closed = false
  signals : .shutdown ∉ s.deferred ++ s.signals
  tasks : ∀ p tasks, s.synthesizer = .working p tasks → .signal .shutdown ∉ tasks
  synthesizer : s.synthesizer ≠ .exited
  player : s.player ≠ .stopped
  host : .closeJobs ∉ s.host ∧ .shutDown ∉ s.host

/-- Jobs of the present generation are under way, and nothing gets into their way. -/
structure Flowing (s : Session) : Prop where
  host : s.host = []
  dated : s.Stamped (· ≤ s.generation)
  jobs : ∀ job ∈ s.jobs.jobs, job.stamp = s.generation
  staged : ∀ p tasks, s.synthesizer = .working p tasks → p.stamp = s.generation →
    Task.Staged s.allQueued p tasks
  closed : (∀ p tasks, s.synthesizer = .working p tasks → p.stamp = s.generation →
    tasks.countP Task.ends = 0) → s.frames.IsClosed
  /-- Each job is announced and ended once. -/
  balance : s.owed s.generation = s.unended s.generation
  audible : s.player.taken? = some s.generation → s.speaking = true
  silent : s.speaking = true → 0 < s.owed s.generation
  armed : s.fadeArmed = false → s.player.taken? = some s.generation
  looking : s.isLooking = true → s.player.taken? = some s.generation
  testing : ∀ stamp, s.player = .testing stamp → s.frames.IsClear
  ended : s.player.past s.generation = 1 → s.frames.playing = none

variable {rig : Rig} {s t : Session}

theorem Open.synthesis (h : s.Open) (hst : Synthesis rig s t) : t.Open := by
  have hwork {p q : Progress} {tasks rest : List Task} (hw : s.synthesizer = .working p tasks)
      (hm : .signal .shutdown ∈ rest → .signal .shutdown ∈ tasks) :
      ∀ q' rest', Synthesizer.working q rest = .working q' rest' →
        .signal .shutdown ∉ rest' := by
    rintro q' rest' heq
    obtain ⟨-, rfl⟩ := Synthesizer.working.inj heq
    exact fun hr => h.tasks p _ hw (hm hr)
  cases hst with
  | fetch => exact { h with tasks := by simp, synthesizer := by simp }
  | exit hi hc => simp [h.jobs] at hc
  | @begin job hf hc =>
    refine { h with tasks := fun p tasks hw => ?_, synthesizer := by rintro ⟨⟩ }
    obtain ⟨-, rfl⟩ := Synthesizer.working.inj hw
    cases job.kind <;> simp [Task.ofJob, Task.closing]
  | drop => exact { h with tasks := by simp, synthesizer := by simp }
  | finish => exact { h with tasks := by simp, synthesizer := by simp }
  | abandon => exact { h with tasks := by simp, synthesizer := by simp }
  | @put p q task tasks rest f hw hc he =>
    refine { h with tasks := hwork hw fun hr => he.signal_mem ?_, synthesizer := by rintro ⟨⟩ }
    cases hk : q.kicked <;> simpa [hk] using hr
  | block hw =>
    refine { h with tasks := hwork hw fun hr => ?_, synthesizer := by rintro ⟨⟩ }
    simpa [Task.signal_notMem_ofMarkers] using hr
  | @exhaust p pause shaper next frames rest tasks hw =>
    refine { h with tasks := hwork hw fun hr => ?_, synthesizer := by rintro ⟨⟩ }
    cases hv : next.seenVoiced <;> cases pause <;> simpa [Task.afterStream, hv] using hr
  | @signal p x tasks hw =>
    have hno := h.tasks p _ hw
    simp only [List.mem_cons, not_or] at hno
    refine { h with
      tasks := hwork hw (List.mem_cons_of_mem _), synthesizer := by rintro ⟨⟩, signals := ?_ }
    have hx : .shutdown ≠ x := fun hx => hno.1 (hx ▸ rfl)
    simpa [hx] using h.signals
  | answered hw => exact { h with tasks := hwork hw (by simp), synthesizer := by rintro ⟨⟩ }
  | kick hw => exact { h with tasks := hwork hw (by simp), synthesizer := by rintro ⟨⟩ }
  | lower hw => exact { h with tasks := hwork hw (by simp), synthesizer := by rintro ⟨⟩ }
  | refused hw => exact { h with tasks := hwork hw (by simp), synthesizer := by rintro ⟨⟩ }
  | withhold hw => exact { h with tasks := hwork hw (by simp), synthesizer := by rintro ⟨⟩ }
  | raise hw => exact { h with tasks := hwork hw (by simp), synthesizer := by rintro ⟨⟩ }

theorem Open.playback (h : s.Open) (hst : Playback rig s t) : t.Open := by
  cases hst with
  | turnTo hp hx =>
    exact { h with
      signals := fun hy => h.signals (hx.mem_iff.mpr (.inr hy)), player := by rintro ⟨⟩ }
  | disregard hp hx => exact { h with signals := fun hy => h.signals (hx.mem_iff.mpr (.inr hy)) }
  | leave hp hx => exact absurd (hx.mem_iff.mpr (.inl rfl)) h.signals
  | putOff hp hx =>
    refine { h with signals := fun hy => h.signals ?_, player := by rintro ⟨⟩ }
    simpa [hx] using hy
  | lookAgain hp hx =>
    refine { h with signals := fun hy => h.signals ?_, player := by rintro ⟨⟩ }
    simpa [hx] using hy
  | quit hp hx => exact absurd (by simp [hx]) h.signals
  | hear => exact { h with }
  | @feed stamp chunk =>
    refine { h with player := ?_ }
    cases chunk.finished <;> simp
  | @idle stamp failed =>
    refine { h with player := ?_ }
    cases failed <;> simp
  | _ => exact { h with player := by rintro ⟨⟩ }

theorem Open.step {a : Act} (h : s.Open) (hst : Step rig s a t) (ha : a.isTerminate = false) :
    t.Open := by
  cases hst with
  | call hh hc =>
    cases hc with
    | speak ho =>
      refine { h with jobs := ?_ }
      simp only [JobQueue.push, h.jobs, Bool.false_eq_true, if_false]
    | cancel => exact { h with host := by simp [HostTask.cancellation] }
    | terminate => simp [Act.isTerminate] at ha
    | _ => exact { h with }
  | @proceed task rest hh =>
    have hhost := h.host
    simp only [hh, List.mem_cons, not_or] at hhost
    cases task with
    | stopDevice =>
      rw [perform_stopDevice]
      exact { h with host := ⟨hhost.1.2, hhost.2.2⟩ }
    | closeJobs => exact absurd rfl hhost.1.1
    | shutDown => exact absurd rfl hhost.2.1
    | _ => exact { h with host := ⟨hhost.1.2, hhost.2.2⟩ }
  | synthesize hs => exact h.synthesis hs
  | play hp => exact h.playback hp
  | expire => exact { h with player := by rintro ⟨⟩ }
  | sound => exact { h with }
  | callBack => exact { h with }

/-- A synthesizer at a job that is not of an earlier generation is at one of the present. -/
theorem Flowing.stamp_eq (h : s.Flowing) {p : Progress} {tasks : List Task}
    (hw : s.synthesizer = .working p tasks) (hc : s.generation ≤ p.stamp) :
    p.stamp = s.generation := by
  have hle := h.dated.synthesizer
  rw [hw] at hle
  exact Nat.le_antisymm hle.1 hc

/-- Tasks give way to others that announce and end as much. -/
theorem Flowing.work (h : s.Flowing) {a : Bool} {p q : Progress} {tasks rest : List Task}
    {requests : List Request} (hw : s.synthesizer = .working p tasks)
    (hd : Stamped (· ≤ s.generation)
      { s with allQueued := a, requests := requests, synthesizer := .working q rest })
    (hq : q.stamp = p.stamp)
    (hlive : p.stamp = s.generation → Task.Staged s.allQueued p tasks →
      Task.Staged a q rest ∧ q.kicked = p.kicked ∧
        rest.countP Task.announces = tasks.countP Task.announces ∧
        rest.countP Task.ends = tasks.countP Task.ends) :
    Flowing { s with allQueued := a, requests := requests, synthesizer := .working q rest } := by
  have hpresent (hc : p.stamp = s.generation) := hlive hc (h.staged p tasks hw hc)
  have howes : (Synthesizer.working q rest).owes s.generation =
      (Synthesizer.working p tasks).owes s.generation := by
    simp only [Synthesizer.owes, hq]
    split
    · rename_i hc
      obtain ⟨-, hk, ha, -⟩ := hpresent (h.stamp_eq hw hc)
      rw [hk, ha]
    · rfl
  have hopens : (Synthesizer.working q rest).opens s.generation =
      (Synthesizer.working p tasks).opens s.generation := by
    simp only [Synthesizer.opens, hq]
    split
    · rename_i hc
      exact (hpresent (h.stamp_eq hw hc)).2.2.2
    · rfl
  have hbalance := h.balance
  have hsilent := h.silent
  simp only [owed, unended, hw, ← howes, ← hopens] at hbalance hsilent
  refine { h with
    dated := hd, staged := fun q' rest' heq hc => ?_, closed := fun hall => h.closed ?_,
    balance := hbalance, silent := hsilent }
  · obtain ⟨rfl, rfl⟩ := Synthesizer.working.inj heq
    exact (hpresent (hq.symm.trans hc)).1
  · rintro p' tasks' hw' hc
    obtain ⟨rfl, rfl⟩ := Synthesizer.working.inj (hw.symm.trans hw')
    rw [← (hpresent hc).2.2.2]
    exact hall q rest rfl (hq.trans hc)

/-- The session speaks while a job is owed. -/
theorem Flowing.speak (h : s.Flowing) (ho : 0 < s.owed s.generation) :
    Flowing { s with speaking := true } :=
  { h with dated := { h.dated with }, audible := fun _ => rfl, silent := fun _ => ho }

/-- The synthesizer is through with a job, or drops one that owes nothing. -/
theorem Flowing.toIdle (h : s.Flowing) (howes : s.synthesizer.owes s.generation = 0)
    (hopens : ∀ p tasks, s.synthesizer = .working p tasks → p.stamp = s.generation →
      tasks.countP Task.ends = 0) (hd : Stamped (· ≤ s.generation) { s with synthesizer := .idle })
    (hf : ∀ job, s.synthesizer = .fetched job → job.stamp ≠ s.generation) :
    Flowing { s with synthesizer := .idle } := by
  have hzero : s.synthesizer.opens s.generation = 0 := by
    cases hs : s.synthesizer with
    | fetched job =>
      have hle := h.dated.synthesizer
      rw [hs] at hle
      exact if_neg fun hge => hf job hs (Nat.le_antisymm hle hge)
    | working p tasks =>
      simp only [Synthesizer.opens]
      split
      · rename_i hc
        exact hopens p tasks hs (h.stamp_eq hs hc)
      · rfl
    | idle => rfl
    | exited => rfl
  have hbalance := h.balance
  have hsilent := h.silent
  simp only [owed, unended, howes, hzero] at hbalance hsilent
  exact { h with
    dated := hd, staged := by simp, closed := fun _ => h.closed hopens, balance := hbalance,
    silent := hsilent }

/-- A synthesizer that leaves its job owes nothing. -/
theorem Flowing.owes_of_leaves (h : s.Flowing) (hl : s.synthesizer.Leaves s.generation) :
    s.synthesizer.owes s.generation = 0 := by
  cases hs : s.synthesizer with
  | fetched job =>
    have hle := h.dated.synthesizer
    rw [hs] at hl hle
    exact if_neg fun hge => hl (Nat.le_antisymm hge hle)
  | working p tasks =>
    rw [hs] at hl
    obtain rfl | hc := hl
    · simp only [Synthesizer.owes]
      split
      · rename_i hc
        rw [(h.staged p [] hs (h.stamp_eq hs hc)).kicked_of_nil]
        rfl
      · rfl
    · exact if_neg fun hge => hc (h.stamp_eq hs hge).symm
  | idle => rfl
  | exited => rfl

/-- No job that is owed is dropped by the synthesizer. -/
theorem Flowing.owed_synthesis (h : s.Flowing) (hst : Synthesis rig s t) :
    t.owed s.generation = s.owed s.generation := by
  obtain heq | ⟨hleaves, hle, hge⟩ :=
    owed_synthesis_cases (g := s.generation) hst (h.dated.mono fun _ _ => trivial)
  · exact heq
  · rw [h.owes_of_leaves hleaves] at hge
    exact Nat.le_antisymm hle hge

theorem Flowing.synthesis (h : s.Flowing) (ho : s.Open) (hn : rig.NeverEnds)
    (hl : s.isLooking = false) (hst : Synthesis rig s t) : t.Flowing := by
  have hd : t.Stamped (· ≤ s.generation) := h.dated.synthesis hst
  have howed : t.owed s.generation = s.owed s.generation := h.owed_synthesis hst
  have hbalance : t.owed s.generation = s.unended s.generation := howed.trans h.balance
  have hsilent (hs : s.speaking = true) : 0 < t.owed s.generation := howed ▸ h.silent hs
  have hlook (stamp : Stamp) : s.player ≠ .testing stamp := by
    intro hp
    simp [isLooking, hp] at hl
  cases hst with
  | @fetch job rest hi hopen hj =>
    have hjob : s.generation ≤ job.stamp := Nat.le_of_eq (h.jobs job (by simp [hj])).symm
    refine { h with
      dated := hd, jobs := fun j hm => h.jobs j (by simp [hj, hm]), staged := by simp
      closed := fun _ => h.closed (by simp [hi]), balance := hbalance.trans ?_, silent := hsilent }
    simp only [unended, hi, hj, Synthesizer.opens, List.countP_cons, hjob, decide_true, if_true]
  | exit hi hc => simp [ho.jobs] at hc
  | @begin job hf hc =>
    have hjob : s.generation ≤ job.stamp := Nat.le_of_eq hc
    refine { h with
      dated := hd, staged := fun p tasks hw _ => ?_, closed := fun hall => ?_,
      balance := hbalance.trans ?_, silent := hsilent }
    · obtain ⟨rfl, rfl⟩ := Synthesizer.working.inj hw
      exact .fresh rfl
    · have hnone := hall _ _ rfl hc.symm
      rw [Task.countP_ends_ofJob] at hnone
      simp at hnone
    · simp only [unended, hf, Synthesizer.opens, hjob, if_true, Task.countP_ends_ofJob]
  | @drop job hf hc =>
    refine h.toIdle (h.owes_of_leaves (by rw [hf]; exact hc)) (by simp [hf]) hd fun j hj => ?_
    obtain rfl := Synthesizer.fetched.inj (hf.symm.trans hj)
    exact fun he => hc he.symm
  | @finish p hw =>
    refine h.toIdle (h.owes_of_leaves (by rw [hw]; exact .inl rfl)) (fun p' tasks hw' _ => ?_) hd
      (by simp [hw])
    obtain ⟨rfl, rfl⟩ := Synthesizer.working.inj (hw.symm.trans hw')
    rfl
  | @abandon p task tasks hw hc =>
    refine h.toIdle (h.owes_of_leaves (by rw [hw]; exact .inr hc)) (fun p' tasks' hw' hc' => ?_) hd
      (by simp [hw])
    obtain ⟨rfl, rfl⟩ := Synthesizer.working.inj (hw.symm.trans hw')
    exact absurd hc'.symm hc
  | @put p q task tasks rest f hw hc he =>
    have hlive : s.generation ≤ p.stamp := Nat.le_of_eq hc
    obtain ⟨hnew, hbefore, hafter⟩ := (h.staged p _ hw hc.symm).put he
    have hstamp : (q.noting f).stamp = p.stamp := he.stamp_eq
    refine { h with
      dated := hd, staged := fun p' tasks' heq hc' => ?_, closed := fun hall => ?_,
      balance := hbalance.trans ?_, silent := hsilent,
      testing := fun stamp hp => absurd hp (hlook stamp) }
    · obtain ⟨rfl, rfl⟩ := Synthesizer.working.inj heq
      exact hnew
    · apply Frame.Queue.isClosed_enqueue
      have hnone := hall _ _ rfl (hstamp.trans hc.symm)
      rw [hafter] at hnone
      by_contra hf
      simp [hf] at hnone
    · have hone : (if f.endsUtterance then 0 else 1) + (if f.endsUtterance then 1 else 0) = 1 := by
        cases f.endsUtterance <;> rfl
      simp only [unended, hw, Synthesizer.opens, hstamp, hlive, if_true, hbefore, hafter,
        Frame.Queue.ends_enqueue]
      omega
  | @lower p tasks hw =>
    refine h.work hw hd rfl fun hc hs => ?_
    obtain ⟨-, -, body, f, rfl, hb⟩ | ⟨hno, -⟩ | ⟨-, f, hno, -⟩ | ⟨-, hno, -⟩ := hs.cons
    · exact ⟨.underway hb rfl, rfl, rfl, rfl⟩
    · exact hno.elim
    · simp at hno
    · simp [Task.isClosing] at hno
  | @block p b tasks hw hc =>
    have hneutral := Task.isNeutral_clauses_ofMarkers
      (p.settings.prosody.offsetPitch b.offset) (Clause.split p.settings.pauseMode b.text) b.markers
    refine h.work hw hd rfl fun hc hs =>
      ⟨hs.expand (by rintro ⟨⟩) rfl hneutral (by rintro ⟨⟩) id, rfl, ?_, ?_⟩
    · rw [List.countP_append, List.countP_append, Task.countP_announces_clauses,
        Task.countP_announces_ofMarkers, Nat.zero_add]
      rfl
    · rw [List.countP_append, Task.countP_ends_of_isNeutral hneutral, Nat.zero_add]
      rfl
  | refused hw he =>
    exact h.work hw hd rfl fun hc hs => ⟨hs.tail (by rintro ⟨⟩) rfl, rfl, rfl, rfl⟩
  | answered hw he =>
    refine h.work hw hd rfl fun hc hs =>
      ⟨hs.swap (by rintro ⟨⟩) rfl ?_ (by rintro ⟨⟩), rfl, rfl, rfl⟩
    exact ⟨by simp, by simp, hn _ _ _ he⟩
  | @exhaust p pause shaper next frames rest tasks hw hnext =>
    have hneutral := Task.isNeutral_afterStream next.seenVoiced pause
    refine h.work hw hd rfl fun hc hs =>
      ⟨hs.expand (by rintro ⟨⟩) rfl hneutral (by rintro ⟨⟩) id, rfl, ?_, ?_⟩
    · rw [List.countP_append, Task.countP_announces_afterStream, Nat.zero_add]
      rfl
    · rw [List.countP_append, Task.countP_ends_of_isNeutral hneutral, Nat.zero_add]
      rfl
  | withhold hw hc =>
    exact h.work hw hd rfl fun hc' => absurd hc'.symm hc
  | raise hw =>
    refine h.work hw hd rfl fun hc hs => ⟨?_, rfl, rfl, rfl⟩
    obtain ⟨hno, -⟩ | ⟨hno, -⟩ | ⟨-, f, hno, -⟩ | ⟨hk, -, hrest⟩ := hs.cons
    · simp at hno
    · exact hno.elim
    · simp at hno
    · exact .closed hk hrest
  | @kick p tasks hw hg hc =>
    have hwork : Flowing { s with synthesizer := .working p (.signal (.play p.stamp) :: tasks) } :=
      h.work hw { hd with } rfl fun hc hs =>
        ⟨hs.swap (by rintro ⟨⟩) rfl trivial fun _ => rfl, rfl,
          by simp [List.countP_cons, Task.announces], rfl⟩
    refine hwork.speak ?_
    have hle : s.generation ≤ p.stamp := Nat.le_of_eq hc
    simp only [owed, Synthesizer.owes, hle, if_true, List.countP_cons, Task.announces]
    omega
  | @signal p x tasks hw =>
    refine { h with
      dated := hd, staged := fun p' tasks' heq hc => ?_, closed := fun hall => ?_,
      balance := hbalance.trans ?_, silent := hsilent }
    · obtain ⟨rfl, rfl⟩ := Synthesizer.working.inj heq
      exact (h.staged _ _ hw hc).tail (by rintro ⟨⟩) rfl
    · refine h.closed fun p' tasks' hw' hc => ?_
      obtain ⟨rfl, rfl⟩ := Synthesizer.working.inj (hw.symm.trans hw')
      have hnone : tasks.countP Task.ends = 0 := hall _ _ rfl hc
      exact hnone
    · rw [unended, hw]
      rfl

/-- If all is said to be queued, the synthesizer is not between the announcement of a job and
its end. -/
theorem Flowing.opens_le_owes (h : s.Flowing) (hq : s.allQueued = true) :
    s.synthesizer.opens s.generation ≤ s.synthesizer.owes s.generation := by
  cases hs : s.synthesizer with
  | fetched job => exact Nat.le_refl _
  | working p tasks =>
    simp only [Synthesizer.opens, Synthesizer.owes]
    split
    · rename_i hc
      have hstaged := h.staged p tasks hs (h.stamp_eq hs hc)
      cases hstaged with
      | fresh hk =>
        rw [Task.countP_ends_ofJob, hk]
        simp
      | underway hb hno => simp [hq] at hno
      | closed hk hc =>
        rw [List.countP_eq_zero.mpr fun t ht => by simp [Task.ends_of_isClosing (hc t ht)]]
        exact Nat.zero_le _
    · exact Nat.le_refl _
  | idle => exact Nat.le_refl _
  | exited => exact Nat.le_refl _

/-- When the player finds nothing to render, the end of its job is still to be queued. -/
theorem Flowing.owes_lt_opens (h : s.Flowing) {stamp : Stamp} (hp : s.player = .testing stamp) :
    s.synthesizer.owes s.generation < s.synthesizer.opens s.generation := by
  have hlook := h.looking (by simp [isLooking, hp])
  rw [hp] at hlook
  obtain rfl := Option.some.inj hlook
  have hends := Frame.Queue.ends_of_isClear (h.testing _ hp)
  have howes : (Player.testing s.generation).owes s.generation = 1 := Player.owes_of_stamp rfl
  have hbalance := h.balance
  simp only [owed, unended, hends, hp, howes, Player.past] at hbalance
  omega

/-- A player that finds nothing to render does not take its job for ended. -/
theorem Flowing.not_allQueued (h : s.Flowing) {stamp : Stamp} (hp : s.player = .testing stamp) :
    s.allQueued = false := by
  by_contra hq
  exact absurd (h.owes_lt_opens hp) (Nat.not_lt_of_le (h.opens_le_owes (by simpa using hq)))

/-- The player goes on with its job. -/
theorem Flowing.move (h : s.Flowing) {p : Player} (hs : p.stamp? = s.player.stamp?)
    (hpast : p.past s.generation = s.player.past s.generation)
    (htaken : p.taken? = s.player.taken?)
    (hlook : isLooking { s with player := p } = true → p.taken? = some s.generation)
    (htest : ∀ stamp, p = .testing stamp → s.frames.IsClear) :
    Flowing { s with player := p } := by
  have howes : p.owes s.generation = s.player.owes s.generation := by
    simp only [Player.owes, hs]
  have hbalance := h.balance
  have hsilent := h.silent
  have haudible := h.audible
  have harmed := h.armed
  have hended := h.ended
  simp only [owed, unended, ← howes, ← hpast, ← htaken] at hbalance hsilent haudible harmed hended
  exact { h with
    dated := { h.dated with player := fun x hx => h.dated.player x (hs ▸ hx) }
    balance := hbalance, audible := haudible, silent := hsilent, armed := harmed,
    looking := hlook, testing := htest, ended := hended }

/-- The player goes on with its job and does not look at the queue. -/
theorem Flowing.turn (h : s.Flowing) {p : Player} (hs : p.stamp? = s.player.stamp?)
    (hpast : p.past s.generation = s.player.past s.generation)
    (htaken : p.taken? = s.player.taken?) (hl : isLooking { s with player := p } = false) :
    Flowing { s with player := p } := by
  refine h.move hs hpast htaken (fun hlook => ?_) fun stamp hp => ?_
  · rw [hl] at hlook
    cases hlook
  · rw [hp] at hl
    cases hl

/-- The player drops a job of an earlier generation. -/
theorem Flowing.toWaiting (h : s.Flowing) (hs : s.player.owes s.generation = 0) :
    Flowing { s with player := .waiting } := by
  have hpast : s.player.past s.generation = 0 :=
    Nat.le_zero.mp (hs ▸ Player.past_le_owes ..)
  have hbalance := h.balance
  have hsilent := h.silent
  simp only [owed, unended, hs, hpast] at hbalance hsilent
  refine { h with
    dated := { h.dated with player := by rintro _ ⟨⟩ }
    balance := hbalance, audible := by rintro ⟨⟩, silent := hsilent, armed := fun hf => ?_,
    looking := by rintro ⟨⟩, testing := by rintro _ ⟨⟩, ended := by rintro ⟨⟩ }
  have hone := Player.owes_of_stamp (Player.stamp_of_taken (h.armed hf))
  rw [hs] at hone
  simp at hone

/-- A player that is not at a job of the present generation owes nothing. -/
theorem Flowing.owes_eq_zero (h : s.Flowing) {stamp : Stamp} (hp : s.player.stamp? = some stamp)
    (hc : s.generation ≠ stamp) : s.player.owes s.generation = 0 := by
  have hle := h.dated.player stamp hp
  have hlt : ¬ s.generation ≤ stamp := fun hge => hc (Nat.le_antisymm hge hle)
  simp [Player.owes, hp, hlt]

/-- A player that has taken a job of the present generation up finds it alive. -/
theorem Flowing.not_live (h : s.Flowing) {stamp : Stamp} (hp : s.player.taken? = some stamp)
    (hl : s.isLive stamp = false) : s.player.owes s.generation = 0 := by
  refine h.owes_eq_zero (Player.stamp_of_taken hp) fun hc => ?_
  subst hc
  simp [isLive, isCurrent, h.audible hp] at hl

/-- The signals are those that were there, less wake-ups. -/
theorem Flowing.resort (h : s.Flowing) {ds ss : List Signal}
    (hx : ∀ y, .play y ∈ ds ++ ss → .play y ∈ s.deferred ++ s.signals)
    (hc : (ds ++ ss).countP (Signal.isPlayFrom s.generation) =
      (s.deferred ++ s.signals).countP (Signal.isPlayFrom s.generation)) :
    Flowing { s with deferred := ds, signals := ss } := by
  have hbalance := h.balance
  have hsilent := h.silent
  simp only [owed, unended, ← hc] at hbalance hsilent
  exact { h with
    dated := { h.dated with signals := fun y hy => h.dated.signals y (hx y hy) }
    balance := hbalance, silent := hsilent }

/-- The player renders: the end of the job, if it has come up, passes from the queue to it. -/
theorem Flowing.render (h : s.Flowing) {stamp : Stamp} {p : Player}
    (hp : s.player = .rendering stamp) (hs : p.stamp? = some stamp) (ht : p.taken? = some stamp)
    (hpast : p.past stamp = if (s.frames.render rig.chunk).1.finished then 1 else 0)
    (htest : ∀ x, p = .testing x → (s.frames.render rig.chunk).2.IsClear) :
    Flowing { s with frames := (s.frames.render rig.chunk).2, player := p } := by
  have hlook := h.looking (by simp [isLooking, hp])
  rw [hp] at hlook
  obtain rfl := Option.some.inj hlook
  have howes : p.owes s.generation = 1 := Player.owes_of_stamp hs
  have hrendering : (Player.rendering s.generation).owes s.generation = 1 :=
    Player.owes_of_stamp rfl
  have hends := s.frames.ends_render rig.chunk
  have hbalance := h.balance
  simp only [owed, unended, hp, hrendering, Player.past] at hbalance
  refine { h with
    dated := { h.dated with player := fun x hx => ?_ }
    closed := fun hall => Frame.Queue.isClosed_render (h.closed hall) _
    balance := ?_, audible := fun _ => h.audible (by rw [hp]; rfl), silent := fun _ => ?_,
    armed := fun _ => ht, looking := fun _ => ht, testing := htest, ended := fun hone => ?_ }
  · rw [hs] at hx
    exact Nat.le_of_eq (Option.some.inj hx).symm
  · simp only [owed, unended, howes, hpast]
    omega
  · simp only [owed, howes]
    omega
  · apply Frame.Queue.playing_of_finished
    by_contra hf
    simp [hpast, hf] at hone

theorem Flowing.playback (h : s.Flowing) (ho : s.Open) (hst : Playback rig s t) : t.Flowing := by
  have hd : t.Stamped (· ≤ s.generation) := h.dated.playback hst
  have hbalance := h.balance
  have hsilent := h.silent
  cases hst with
  | @turnTo stamp ds ss hp hx =>
    have hcount := hx.countP_isPlayFrom (g := s.generation)
    simp only [owed, unended, hp, hcount, Player.owes, Player.past, Player.stamp?, Option.any,
      Signal.isPlayFrom, decide_eq_true_eq, Bool.false_eq_true, if_false] at hbalance hsilent
    refine { h with
      dated := hd, balance := ?_, audible := by rintro ⟨⟩, silent := fun hs => ?_
      armed := fun hf => absurd (h.armed hf) (by rw [hp]; rintro ⟨⟩)
      looking := by rintro ⟨⟩, testing := by rintro _ ⟨⟩, ended := by rintro ⟨⟩ }
    · simp only [owed, unended, Player.owes, Player.past, Player.stamp?, Option.any,
        decide_eq_true_eq]
      omega
    · have hpositive := hsilent hs
      simp only [owed, Player.owes, Player.stamp?, Option.any, decide_eq_true_eq]
      omega
  | disregard hp hx =>
    have hcount := hx.countP_isPlayFrom (g := s.generation)
    simp only [owed, unended, hcount, Signal.isPlayFrom, Bool.false_eq_true, if_false,
      Nat.add_zero] at hbalance hsilent
    exact { h with dated := hd, balance := hbalance, silent := hsilent }
  | leave hp hx => exact absurd (hx.mem_iff.mpr (.inl rfl)) ho.signals
  | @takeUp stamp hp hg hc =>
    have hstarting : (Player.starting stamp).owes s.generation = 1 :=
      Player.owes_of_stamp (by rw [hc]; rfl)
    have hopening : (Player.opening stamp).owes s.generation = 1 :=
      Player.owes_of_stamp (by rw [hc]; rfl)
    simp only [owed, unended, hp, hstarting, Player.past] at hbalance
    refine { h with
      dated := hd, balance := ?_, audible := fun _ => rfl, silent := fun _ => ?_
      armed := fun _ => by rw [hc]; rfl
      looking := by rintro ⟨⟩, testing := by rintro _ ⟨⟩, ended := by rintro ⟨⟩ }
    · simp only [owed, unended, hopening, Player.past]
      exact hbalance
    · simp only [owed, hopening]
      omega
  | decline hp hc => exact h.toWaiting (h.owes_eq_zero (by rw [hp]; rfl) hc)
  | keepDevice hp => exact h.turn (by rw [hp]; rfl) (by rw [hp]; rfl) (by rw [hp]; rfl) rfl
  | @missDevice stamp fault hp =>
    have hmove : Flowing { s with player := .checking stamp } :=
      h.turn (by rw [hp]; rfl) (by rw [hp]; rfl) (by rw [hp]; rfl) rfl
    exact { hmove with dated := hd }
  | @switchDevice stamp hp =>
    have hmove : Flowing { s with player := .checking stamp } :=
      h.turn (by rw [hp]; rfl) (by rw [hp]; rfl) (by rw [hp]; rfl) rfl
    exact { hmove with dated := hd }
  | look hp hl hc =>
    refine h.move (by rw [hp]; rfl) (by rw [hp]; rfl) (by rw [hp]; rfl) (fun _ => ?_)
      (by rintro _ ⟨⟩)
    rw [hc]
    rfl
  | lapse hp hl => exact h.toWaiting (h.not_live (by rw [hp]; rfl) hl)
  | render hp he => exact h.render hp rfl rfl (by simp [Player.past]) (by rintro _ ⟨⟩)
  | renderEnd hp he hf => exact h.render hp rfl rfl (by simp [Player.past, hf]) (by rintro _ ⟨⟩)
  | renderNone hp he hf =>
    exact h.render hp rfl rfl (by simp [Player.past, hf])
      fun _ _ => Frame.Queue.isClear_render rig.chunk_pos he hf
  | hear => exact { h with dated := hd }
  | @feed stamp chunk samples failed calls hp hg hm hl hc =>
    have hmove : Flowing { s with
        player := if chunk.finished then .draining stamp else .checking stamp } := by
      cases hf : chunk.finished <;>
        exact h.turn (by rw [hp]; rfl) (by simp [hp, hf, Player.past]) (by rw [hp]; rfl) rfl
    refine { hmove with dated := hd, armed := fun _ => ?_ }
    rw [hc]
    cases chunk.finished <;> rfl
  | discard hp hl => exact h.toWaiting (h.not_live (by rw [hp]; rfl) hl)
  | endJob hp hq => simp [h.not_allQueued hp] at hq
  | await hp => exact h.turn (by rw [hp]; rfl) (by rw [hp]; rfl) (by rw [hp]; rfl) rfl
  | @putOff stamp other rest hp hx =>
    have hmove : Flowing { s with player := .checking stamp } :=
      h.turn (by rw [hp]; rfl) (by rw [hp]; rfl) (by rw [hp]; rfl) rfl
    refine hmove.resort (fun y hy => ?_) ?_
    · simpa [hx, or_assoc] using hy
    · simp [hx]
  | @lookAgain stamp rest hp hx =>
    have hmove : Flowing { s with player := .checking stamp } :=
      h.turn (by rw [hp]; rfl) (by rw [hp]; rfl) (by rw [hp]; rfl) rfl
    refine hmove.resort (fun y hy => ?_) ?_
    · simpa [hx] using hy
    · simp [hx, Signal.isPlayFrom]
  | quit hp hx => exact absurd (by simp [hx]) ho.signals
  | @idle stamp failed hp hf =>
    have hmove : Flowing { s with
        player := if failed then .completing stamp else .idling stamp } := by
      cases failed <;>
        exact h.turn (by rw [hp]; rfl) (by rw [hp]; rfl) (by rw [hp]; rfl) rfl
    exact { hmove with dated := hd }
  | idled hp => exact h.turn (by rw [hp]; rfl) (by rw [hp]; rfl) (by rw [hp]; rfl) rfl
  | @conclude stamp hp hg hl hc =>
    subst hc
    have howes : (Player.completing s.generation).owes s.generation = 1 :=
      Player.owes_of_stamp rfl
    have hpast : (Player.completing s.generation).past s.generation = 1 := by simp [Player.past]
    have hwaiting : Player.waiting.owes s.generation = 0 := rfl
    simp only [owed, unended, hp, howes, hpast] at hbalance
    refine { h with
      dated := hd, balance := ?_, audible := by rintro ⟨⟩, silent := by rintro ⟨⟩,
      armed := by rintro ⟨⟩, looking := by rintro ⟨⟩, testing := by rintro _ ⟨⟩,
      ended := by rintro ⟨⟩ }
    simp only [owed, unended, hwaiting, Player.past]
    omega
  | forget hp hl => exact h.toWaiting (h.not_live (by rw [hp]; rfl) hl)

/-- No job that is owed is dropped by the player: it is done, or still owed. -/
theorem Flowing.le_owed_playback (h : s.Flowing) (ho : s.Open) (hst : Playback rig s t) :
    s.done + s.owed s.generation ≤ t.done + t.owed s.generation := by
  obtain heq | ⟨hdrops, heq⟩ := owed_playback_cases hst (Nat.le_refl _)
  · exact Nat.le_of_eq heq.symm
  · have hnone : s.player.owes s.generation = 0 := by
      cases hdrops with
      | overtaken hp hc => exact h.owes_eq_zero (by rw [hp]; rfl) hc
      | hushed hp hl => exact h.not_live hp hl
      | ended hx => exact absurd hx ho.signals
    omega

/-- A step that does not break into a look at the queue and cancels nothing keeps the jobs
flowing. -/
theorem Flowing.advance {a : Act} (h : s.Flowing) (ho : s.Open) (hn : rig.NeverEnds)
    (hlook : a ≠ .play → s.isLooking = false) (hstep : Step rig s a t)
    (ha : a.isCancel = false) : t.Flowing := by
  have hbalance := h.balance
  have hsilent := h.silent
  have hd : t.Stamped (· ≤ s.generation) := h.dated.step hstep fun _ => Nat.le_refl _
  cases hstep with
  | call hh hc =>
    cases hc with
    | @speak commands paged hlasts =>
      have hpush (job : Job) : (s.jobs.push job).jobs = s.jobs.jobs ++ [job] := by
        simp [JobQueue.push, ho.jobs]
      refine { h with
        dated := hd, jobs := fun job hm => ?_, balance := ?_, silent := fun hs => ?_ }
      · rw [hpush] at hm
        rcases List.mem_append.mp hm with hm | hm
        · exact h.jobs job hm
        · obtain rfl := List.mem_singleton.mp hm
          rfl
      · simp only [owed, unended, hpush, List.countP_append] at hbalance ⊢
        omega
      · have hpositive := hsilent hs
        simp only [owed, hpush, List.countP_append] at hpositive ⊢
        omega
    | ignore => exact h
    | cancel => simp [Act.isCancel] at ha
    | terminate => simp [Act.isCancel] at ha
    | _ => exact { h with dated := hd }
  | proceed hh => simp [h.host] at hh
  | synthesize hs => exact h.synthesis ho hn (hlook (by rintro ⟨⟩)) hs
  | play hp => exact h.playback ho hp
  | expire hp => exact h.turn (by rw [hp]; rfl) (by rw [hp]; rfl) (by rw [hp]; rfl) rfl
  | sound hg hh => exact { h with dated := hd }
  | callBack hg hi => exact { h with dated := hd }

/-- A step of a whole run in which nothing is cancelled keeps the jobs flowing. -/
theorem Flowing.step {a : Act} (h : s.Flowing) (ho : s.Open) (hn : rig.NeverEnds)
    (hst : s.wholeStep? rig a = some t) (ha : a.isCancel = false) : t.Flowing := by
  refine h.advance ho hn (fun hp => ?_) (step?_cases (step?_of_wholeStep? hst)) ha
  by_contra hl
  exact hp (isPlay_of_isLooking hst (by simpa using hl))

/-- In such a run a job is done or owed, and only a call that asks for speech adds one. -/
theorem Flowing.done_add_owed {a : Act} (h : s.Flowing) (ho : s.Open)
    (hst : Step rig s a t) (ha : a.isCancel = false) :
    t.done + t.owed s.generation =
      s.done + s.owed s.generation + if a.saying?.isSome then 1 else 0 := by
  have hle := owed_step (g := s.generation) hst (h.dated.mono fun _ _ => trivial) (Nat.le_refl _)
  apply Nat.le_antisymm hle
  cases hst with
  | call hh hc =>
    cases hc with
    | speak hlasts =>
      simp only [done, owed, JobQueue.push, ho.jobs, Bool.false_eq_true, if_false,
        List.countP_append, List.countP_singleton, Nat.le_refl, decide_true, if_true,
        Act.saying?, Option.isSome_some]
      omega
    | ignore hlasts => simp [ho.lasts] at hlasts
    | cancel => simp [Act.isCancel] at ha
    | terminate => simp [Act.isCancel] at ha
    | pause => simp [done, owed, Act.saying?, List.count_append]
    | request => exact Nat.le_refl _
    | configure => exact Nat.le_refl _
  | proceed hh => simp [h.host] at hh
  | synthesize hs =>
    have hl : t.done = s.done := by cases hs <;> rfl
    have howed := h.owed_synthesis hs
    simp only [hl, howed, Act.saying?, Option.isSome_none, Bool.false_eq_true, if_false]
    omega
  | play hp => exact h.le_owed_playback ho hp
  | @expire stamp hp =>
    have hstay := done_owed_of_stay (s := s) (t := { s with player := .checking stamp })
      (g := s.generation) rfl rfl rfl rfl (by rw [hp]; rfl)
    exact Nat.le_of_eq hstay.symm
  | sound hg hh =>
    simp only [done, owed, List.count_append, count_done_reports]
    exact Nat.le_refl _
  | callBack hg hi =>
    simp only [done, owed, List.count_append, count_done_reports]
    exact Nat.le_refl _

theorem generation_of_step {a : Act} (hh : s.host = []) (hst : Step rig s a t) :
    t.generation = s.generation := by
  cases hst with
  | call _ hc => cases hc <;> rfl
  | proceed hp => simp [hh] at hp
  | synthesize hs => cases hs <;> rfl
  | play hp => cases hp <;> rfl
  | _ => rfl

/-- A session just after a cancellation, or at its start. -/
theorem Cancelled.flowing (h : s.Cancelled []) (hh : s.host = []) (hl : s.isLooking = false) :
    s.Flowing := by
  have hstale := h.stale List.not_mem_nil
  have hpurged := h.purged List.not_mem_nil
  have hjobs := h.drained List.not_mem_nil
  have hworking {p : Progress} {tasks : List Task} (hw : s.synthesizer = .working p tasks) :
      p.stamp ≠ s.generation := by
    have hlt := hstale.synthesizer
    rw [hw] at hlt
    exact Nat.ne_of_lt hlt.1
  have howed := h.owed_eq_zero
  have hplayer (hp : s.player.stamp? = some s.generation) : False :=
    Nat.lt_irrefl _ (hstale.player _ hp)
  have hunended : s.unended s.generation = 0 := by
    have hopens := Synthesizer.opens_eq_zero hstale.synthesizer
    have hpast := s.player.past_le_owes s.generation
    simp only [owed, unended, hjobs, List.countP_nil, hopens,
      Frame.Queue.ends_of_isClear hpurged.1] at howed ⊢
    omega
  refine ⟨hh, hstale.mono fun _ => Nat.le_of_lt, by simp [hjobs], fun p tasks hw hc => ?_,
    fun _ => Frame.Queue.isClosed_of_isClear hpurged.1, howed.trans hunended.symm,
    fun ht => (hplayer (Player.stamp_of_taken ht)).elim, fun hs => ?_, fun hf => ?_,
    fun hlook => ?_, fun _ _ => hpurged.1, fun hpast => ?_⟩
  · exact absurd hc (hworking hw)
  · simp [h.silent List.not_mem_nil] at hs
  · simp [h.armed List.not_mem_nil] at hf
  · simp [hl] at hlook
  · exact hpurged.1.2

theorem isTerminate_of_isCancel {a : Act} (h : a.isCancel = false) : a.isTerminate = false := by
  cases a with
  | call c => cases c <;> first | rfl | simp [Act.isCancel] at h
  | _ => rfl

namespace Run

variable {acts : List Act}

theorem isOpen (h : Run (step? rig) s acts t) (ho : s.Open)
    (ha : ∀ a ∈ acts, a.isTerminate = false) : t.Open := by
  induction h with
  | refl => exact ho
  | tail hr hst ih =>
    exact (ih fun a hm => ha a (by simp [hm])).step (step?_cases hst) (ha _ (by simp))

/-- As long as nothing is cancelled jobs flow, and each is done or owed. -/
theorem flowing (h : Run (wholeStep? rig) s acts t) (hs : s.Flowing) (ho : s.Open)
    (hn : rig.NeverEnds) (ha : ∀ a ∈ acts, a.isCancel = false) :
    t.Flowing ∧ t.generation = s.generation ∧
      t.done + t.owed s.generation =
        s.done + s.owed s.generation + acts.countP (·.saying?.isSome) := by
  induction h with
  | refl => exact ⟨hs, rfl, rfl⟩
  | @tail t u acts a hr hst ih =>
    have hacts (b : Act) (hb : b ∈ acts) : b.isCancel = false := ha b (by simp [hb])
    obtain ⟨ht, hg, hcount⟩ := ih hacts
    have hopen : t.Open :=
      hr.of_whole.isOpen ho fun b hb => isTerminate_of_isCancel (hacts b hb)
    have hstep := step?_cases (step?_of_wholeStep? hst)
    have hcancel := ha a (by simp)
    have hone := ht.done_add_owed hopen hstep hcancel
    refine ⟨ht.step hopen hn hst hcancel, (generation_of_step ht.host hstep).trans hg, ?_⟩
    rw [List.countP_append, List.countP_singleton]
    rw [hg] at hone
    omega

/-- A run in which nobody breaks into a look is one of any steps that are there where jobs flow. -/
theorem steps_of_whole {steps : Act → Session → Option Session} (h : Run (wholeStep? rig) s acts t)
    (hs : s.Flowing) (ho : s.Open) (hn : rig.NeverEnds) (ha : ∀ a ∈ acts, a.isCancel = false)
    (hsteps : ∀ {u v a}, u.Flowing → u.step? rig a = some v → steps a u = some v) :
    Run steps s acts t := by
  induction h with
  | refl => exact .refl s
  | @tail t u acts a hr hst ih =>
    have hacts (b : Act) (hb : b ∈ acts) : b.isCancel = false := ha b (by simp [hb])
    have hflow := (hr.flowing hs ho hn hacts).1
    exact (ih hacts).tail (hsteps hflow (step?_of_wholeStep? hst))

end Run

/-- The synthesizer has nothing to do once all jobs are queued. -/
theorem idle_of_synthesize? (ho : s.Open) (hg : s.isGated = false)
    (h : s.synthesize? rig = none) : s.synthesizer = .idle ∧ s.jobs.jobs = [] := by
  unfold synthesize? at h
  split at h
  · rename_i hi
    refine ⟨hi, ?_⟩
    unfold JobQueue.pop at h
    rw [ho.jobs] at h
    cases hj : s.jobs.jobs with
    | nil => rfl
    | cons job rest => simp [hj] at h
  · simp at h
  · simp at h
  · simp [hg] at h
  · rename_i hx
    exact absurd hx ho.synthesizer

/-- The player has nothing to do while it waits for a signal. -/
theorem waiting_of_play? (ho : s.Open) (hg : s.isGated = false) (h : s.play? rig = none) :
    (s.player = .waiting ∧ s.deferred = [] ∨ ∃ stamp, s.player = .polling stamp) ∧
      s.signals = [] := by
  unfold play? at h
  cases hp : s.player with
  | waiting =>
    cases hd : s.deferred with
    | nil =>
      cases hx : s.signals with
      | nil => exact ⟨.inl ⟨rfl, rfl⟩, rfl⟩
      | cons x rest => simp [hp, hd, hx] at h
    | cons x rest => simp [hp, hd] at h
  | polling stamp =>
    cases hx : s.signals with
    | nil => exact ⟨.inr ⟨stamp, rfl⟩, rfl⟩
    | cons x rest => simp [hp, hx] at h
  | idling stamp =>
    simp only [hp, hg] at h
    split at h <;> simp at h
  | delivering stamp chunk =>
    simp only [hp, hg, Bool.false_eq_true, if_false] at h
    split at h <;> simp at h
  | stopped => exact absurd hp ho.player
  | _ => simp [hp, hg] at h

/-- Nothing is owed when there is nothing left to do. -/
theorem owed_of_atRest (ho : s.Open) (hr : s.AtRest rig) : s.owed s.generation = 0 := by
  have hg : s.isGated = false := by simp [isGated, hr.host]
  obtain ⟨hi, hj⟩ := idle_of_synthesize? ho hg hr.synthesis
  obtain ⟨⟨hp, hd⟩ | ⟨stamp, hp⟩, hx⟩ := waiting_of_play? ho hg hr.playback
  · simp [owed, hi, hj, hp, hd, hx, Synthesizer.owes, Player.owes, Player.stamp?]
  · have hpatience := hr.patience
    simp [expire?, hp] at hpatience

end Session

end Elocution.Speech
