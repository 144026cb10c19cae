import Elocution.Proofs.Frame.Likeness
import Elocution.Proofs.Session.Delivery

/-!
# Sessions alike

A session with a history beside one without: the stamps of the one are later, its engine has had
more requests, its voice source is in another state, and each party may still be at a job that has
been done or cancelled. Nothing else tells them apart. A party that is at the same job in both does
the same, and what one does at an earlier job does not show.
-/

namespace Elocution.Speech

/-- The rig as it goes on when these requests have been made. -/
def Rig.onward (rig : Rig) (past : List Request) : Rig :=
  { rig with engine := fun more q => rig.engine (past ++ more) q }

/-- What shows of an event: what the host is told, and the audio that is fed. -/
def Event.shown? : Event → Option (Option Marker ⊕ List Int16)
  | .reached m => some (.inl (some m))
  | .done => some (.inl none)
  | .fed samples _ _ => some (.inr samples)
  | _ => none

def showing (events : List Event) : List (Option Marker ⊕ List Int16) :=
  events.filterMap Event.shown?

/-- What shows, of the audio only the lengths. -/
def outline (events : List Event) : List (Option Marker ⊕ Nat) :=
  (showing events).map (Sum.map id List.length)

/-- The same shows, but for the values of the samples, and these too if `same` holds. -/
def ShownAlike (same : Prop) (events events' : List Event) : Prop :=
  outline events = outline events' ∧ (same → showing events = showing events')

def Call.shift (g : Stamp) (c : Call) : Call := { c with stamp := c.stamp + g }

def Job.shift (g : Stamp) (job : Job) : Job := { job with stamp := job.stamp + g }

def JobQueue.shift (g : Stamp) (q : JobQueue) : JobQueue :=
  { q with jobs := q.jobs.map (Job.shift g) }

def Signal.shift (g : Stamp) : Signal → Signal
  | .play stamp => .play (stamp + g)
  | x => x

def Progress.shift (g : Stamp) (p : Progress) : Progress := { p with stamp := p.stamp + g }

def Task.shift (g : Stamp) : Task → Task
  | .signal x => .signal (x.shift g)
  | task => task

def Synthesizer.shift (g : Stamp) : Synthesizer → Synthesizer
  | .fetched job => .fetched (job.shift g)
  | .working p tasks => .working (p.shift g) (tasks.map (Task.shift g))
  | .idle => .idle
  | .exited => .exited

/-- The job that a signal announces. -/
def Signal.announced? : Signal → Option Stamp
  | .play stamp => some stamp
  | _ => none

/-- From generation `g` on the synthesizer has no job to announce or to end. -/
def Synthesizer.IsSpent (g : Stamp) (w : Synthesizer) : Prop := w.owes g = 0 ∧ w.opens g = 0

/-- The same phase of a job with a later stamp, at a chunk that is alike; or the player of the later
session is still at an earlier job. -/
inductive Player.Alike (same : Prop) (g : Stamp) : Player → Player → Prop where
  | waiting : Alike same g .waiting .waiting
  | late {p : Player} {x : Stamp} (hs : p.stamp? = some x) (hx : x < g) (hr : p ≠ .rendering x)
      (ht : p ≠ .testing x) : Alike same g p .waiting
  | starting (x : Stamp) : Alike same g (.starting (x + g)) (.starting x)
  | opening (x : Stamp) : Alike same g (.opening (x + g)) (.opening x)
  | checking (x : Stamp) : Alike same g (.checking (x + g)) (.checking x)
  | rendering (x : Stamp) : Alike same g (.rendering (x + g)) (.rendering x)
  | delivering (x : Stamp) {c d : Frame.Chunk} (h : c.Alike same d) :
    Alike same g (.delivering (x + g) c) (.delivering x d)
  | testing (x : Stamp) : Alike same g (.testing (x + g)) (.testing x)
  | polling (x : Stamp) : Alike same g (.polling (x + g)) (.polling x)
  | draining (x : Stamp) : Alike same g (.draining (x + g)) (.draining x)
  | idling (x : Stamp) : Alike same g (.idling (x + g)) (.idling x)
  | completing (x : Stamp) : Alike same g (.completing (x + g)) (.completing x)
  | stopped : Alike same g .stopped .stopped

/-- The call of the host that an act begins. -/
def Act.call? : Act → Option HostCall
  | .call c => some c
  | _ => none

variable {same : Prop} {g : Stamp}

section Shown

variable {e e' m m' : List Event}

theorem showing_append : showing (e ++ m) = showing e ++ showing m := List.filterMap_append

theorem outline_append : outline (e ++ m) = outline e ++ outline m := by
  rw [outline, showing_append, List.map_append]
  rfl

theorem ShownAlike.refl (e : List Event) : ShownAlike same e e := ⟨rfl, fun _ => rfl⟩

theorem ShownAlike.append (h : ShownAlike same e e') (hm : ShownAlike same m m') :
    ShownAlike same (e ++ m) (e' ++ m') :=
  ⟨by rw [outline_append, outline_append, h.1, hm.1],
    fun hs => by rw [showing_append, showing_append, h.2 hs, hm.2 hs]⟩

/-- Nothing shows. -/
theorem ShownAlike.of_nil (h : showing m = []) (h' : showing m' = []) : ShownAlike same m m' :=
  ⟨by rw [outline, outline, h, h'], fun _ => h.trans h'.symm⟩

end Shown

@[simp]
theorem Signal.announced?_play (x : Stamp) : (play x).announced? = some x := rfl

@[simp]
theorem Signal.announced?_framesReady : framesReady.announced? = none := rfl

/-- Of what is kept of a list the first comes first, unless it is not kept. -/
theorem filter_cons_eq_map {α β : Type} {p : α → Bool} {k : β → α} {a : α} {rest : List α}
    {bs : List β} (h : (a :: rest).filter p = bs.map k) :
    p a = false ∧ rest.filter p = bs.map k ∨
      ∃ b more, bs = b :: more ∧ a = k b ∧ rest.filter p = more.map k := by
  rw [List.filter_cons] at h
  split at h
  · obtain ⟨b, more, hbs, hb, hmore⟩ := List.map_eq_cons_iff.mp h.symm
    exact .inr ⟨b, more, hbs, hb.symm, hmore.symm⟩
  · rename_i ha
    exact .inl ⟨by simpa using ha, h⟩

/-- Tasks that announce no job are the same for all stamps. -/
theorem Task.map_shift {tasks : List Task} (h : ∀ x, .signal (.play x) ∉ tasks) :
    tasks.map (Task.shift g) = tasks := by
  refine (List.map_congr_left fun task ht => ?_).trans (List.map_id tasks)
  cases task with
  | signal x =>
    cases x with
    | play stamp => exact absurd ht (h stamp)
    | framesReady => rfl
    | shutdown => rfl
  | _ => rfl

theorem Synthesizer.isSpent_of_lt {p : Progress} {tasks : List Task} (h : p.stamp < g) :
    (Synthesizer.working p tasks).IsSpent g :=
  ⟨if_neg (Nat.not_le_of_lt h), if_neg (Nat.not_le_of_lt h)⟩

theorem Synthesizer.IsSpent.fetched {job : Job} (h : (Synthesizer.fetched job).IsSpent g) :
    job.stamp < g := by
  by_contra hg
  have howes := h.1
  rw [Synthesizer.owes, if_pos (Nat.le_of_not_lt hg)] at howes
  exact Nat.one_ne_zero howes

/-- Of a job that has been announced and ended only closing tasks are left. -/
theorem Synthesizer.IsSpent.working {q : Bool} {p : Progress} {task : Task} {tasks : List Task}
    (h : (Synthesizer.working p (task :: tasks)).IsSpent g)
    (hs : g ≤ p.stamp → Task.Staged q p (task :: tasks)) :
    p.stamp < g ∨ g ≤ p.stamp ∧ task.isClosing = true ∧ task.announces = false ∧
      (Synthesizer.working p tasks).IsSpent g := by
  by_cases hg : g ≤ p.stamp
  · obtain ⟨howes, hopens⟩ := h
    simp only [owes, opens, if_pos hg, List.countP_cons] at howes hopens
    have hquiet : task.announces = false := by
      by_contra ha
      simp [ha] at howes
    have hspent : (Synthesizer.working p tasks).IsSpent g := by
      simp only [IsSpent, owes, opens, if_pos hg]
      omega
    obtain ⟨rfl, hk, -⟩ | ⟨-, -, body, f, rfl, -⟩ | ⟨-, f, rfl, -⟩ | ⟨-, hc, -⟩ := (hs hg).cons
    · simp [hk] at howes
    · simp [Task.countP_ends_closing] at hopens
    · simp [Task.ends, Frame.ending] at hopens
    · exact .inr ⟨hg, hc, hquiet, hspent⟩
  · exact .inl (Nat.lt_of_not_le hg)

namespace Session

/-- The jobs that have been announced to the player and that it has not turned to. -/
def announced (s : Session) : List Stamp := (s.deferred ++ s.signals).filterMap Signal.announced?

/-- A session beside a later one that has made the requests in `past` besides, each with the point
`r₀` or `f₀` from which it is looked at. -/
structure Alike (same : Prop) (r₀ f₀ : Session) (past : List Request) (r f : Session) : Prop where
  generation : r.generation = f.generation + r₀.generation
  speaking : r.speaking = f.speaking
  fadeArmed : r.fadeArmed = f.fadeArmed
  frames : r.frames.Alike same f.frames
  jobs : r.jobs = f.jobs.shift r₀.generation
  settings : r.settings = f.settings
  held : r.held.filter (r₀.generation ≤ ·.stamp) = f.held.map (Call.shift r₀.generation)
  shelved : (∀ c ∈ r.shelved, c.stamp < r₀.generation) ∧ f.shelved = []
  announced : r.announced.filter (r₀.generation ≤ ·) = f.announced.map (· + r₀.generation)
  host : r.host = [] ∧ f.host = []
  /-- The synthesizer of the later session may still be at a job that is as good as done. -/
  synthesizer : r.synthesizer = f.synthesizer.shift r₀.generation ∨
    f.synthesizer = .idle ∧ f.requests = [] ∧ r.synthesizer.IsSpent r₀.generation
  player : Player.Alike same r₀.generation r.player f.player
  ended : r.ended = f.ended
  requests : r.requests = past ++ f.requests
  log : ∃ e e', r.log = r₀.log ++ e ∧ f.log = f₀.log ++ e' ∧ ShownAlike same e e'

/-- The synthesizers are at the same job. -/
structure Abreast (same : Prop) (r₀ f₀ : Session) (past : List Request) (r f : Session) : Prop
    extends Alike same r₀ f₀ past r f where
  abreast : r.synthesizer = f.synthesizer.shift r₀.generation

variable {rig : Rig} {r₀ f₀ r f t : Session} {past other : List Request}

/-- What a look for another device changes; nothing of it shows. -/
theorem refresh_eq (rig : Rig) (s : Session) :
    ∃ slot kept opens events, s.refresh rig = { s with
      slot := slot, shelved := s.shelved ++ kept, opens := opens, log := s.log ++ events } ∧
      (slot.output = s.held ∧ kept = [] ∨ slot.output = [] ∧ ∀ c ∈ kept, c ∈ s.held) ∧
      showing events = [] := by
  by_cases hs : s.slot.active = s.slot.requested ∨ s.slot.failed = some s.slot.requested
  · refine ⟨s.slot, [], s.opens, [], ?_, .inl ⟨rfl, rfl⟩, rfl⟩
    simp [refresh, Output.Slot.refresh, hs, report]
  · cases hf : rig.factory s.opens s.slot.requested s.slot.rate with
    | error fault =>
      refine ⟨{ s.slot with failed := some s.slot.requested }, [], s.opens + 1,
        [.openFailed s.slot.requested], ?_, .inl ⟨rfl, rfl⟩, rfl⟩
      simp [refresh, Output.Slot.refresh, hs, Rig.openDevice, hf, Except.map, report,
        Event.ofAction]
    | ok u =>
      refine ⟨{ s.slot with active := s.slot.requested, output := [], failed := none },
        if rig.sticky then s.held else [], s.opens + 1,
        [.opened s.slot.requested, .stopped], ?_, .inr ⟨rfl, fun c hc => ?_⟩, rfl⟩
      · simp [refresh, Output.Slot.refresh, hs, Rig.openDevice, hf, Except.map, report,
          Event.ofAction]
      · split at hc
        · exact hc
        · simp at hc

theorem announced_signal (s : Session) (x : Signal) :
    announced { s with signals := s.signals ++ [x] } = s.announced ++ x.announced?.toList := by
  simp only [announced]
  rw [← List.append_assoc, List.filterMap_append]
  cases x <;> rfl

namespace Alike

theorem isCurrent_eq (h : Alike same r₀ f₀ past r f) (x : Stamp) :
    r.isCurrent (x + r₀.generation) = f.isCurrent x := by
  simp [isCurrent, h.generation, Bool.beq_eq_decide_eq]

theorem isLive_eq (h : Alike same r₀ f₀ past r f) (x : Stamp) :
    r.isLive (x + r₀.generation) = f.isLive x := by
  rw [isLive, isLive, h.speaking, h.isCurrent_eq]

theorem generation_ne (h : Alike same r₀ f₀ past r f) {x : Stamp} (hx : x < r₀.generation) :
    r.generation ≠ x := by
  have hle : r₀.generation ≤ r.generation := h.generation ▸ Nat.le_add_left ..
  exact Nat.ne_of_gt (Nat.lt_of_lt_of_le hx hle)

theorem isGated_eq (h : Alike same r₀ f₀ past r f) : r.isGated = false ∧ f.isGated = false := by
  simp [isGated, h.host.1, h.host.2]

theorem log_append (h : Alike same r₀ f₀ past r f) {m m' : List Event}
    (hm : ShownAlike same m m') :
    ∃ e e', r.log ++ m = r₀.log ++ e ∧ f.log ++ m' = f₀.log ++ e' ∧ ShownAlike same e e' := by
  obtain ⟨e, e', hr, hf, he⟩ := h.log
  exact ⟨e ++ m, e' ++ m', by rw [hr, List.append_assoc], by rw [hf, List.append_assoc],
    he.append hm⟩

/-- The later session reports something that does not show. -/
theorem log_append_left (h : Alike same r₀ f₀ past r f) {m : List Event} (hm : showing m = []) :
    ∃ e e', r.log ++ m = r₀.log ++ e ∧ f.log = f₀.log ++ e' ∧ ShownAlike same e e' := by
  have hlog := h.log_append (ShownAlike.of_nil hm (rfl : showing [] = []))
  rwa [List.append_nil] at hlog

theorem announce (h : Alike same r₀ f₀ past r f) (x : Signal) :
    (Session.announced { r with signals := r.signals ++ [x.shift r₀.generation] }).filter
      (r₀.generation ≤ ·) =
      (Session.announced { f with signals := f.signals ++ [x] }).map (· + r₀.generation) := by
  rw [announced_signal, announced_signal, List.filter_append, List.map_append, h.announced]
  cases x <;> simp [Signal.shift, Signal.announced?]

/-- What the synthesizer still does at a job that is as good as done makes no difference. -/
theorem synthesize_spent (h : Alike same r₀ f₀ past r f) (hr : r.Flowing)
    (hz : f.generation = 0) (hf : f.synthesizer = .idle) (hq : f.requests = [])
    (hs : r.synthesizer.IsSpent r₀.generation) (hi : r.synthesizer ≠ .idle)
    (hst : Synthesis rig r t) : ∃ more, Alike same r₀ f₀ (past ++ more) t f := by
  have hg : r.generation = r₀.generation := by rw [h.generation, hz, Nat.zero_add]
  have hidle : Synthesizer.idle = f.synthesizer.shift r₀.generation := by rw [hf]; rfl
  have hrequests (more : List Request) : r.requests ++ more = (past ++ more) ++ f.requests := by
    rw [h.requests, hq, List.append_nil, List.append_nil]
  have hpast : r.requests = (past ++ []) ++ f.requests := by rw [List.append_nil, h.requests]
  have hdated := hr.dated.synthesizer
  have hworking {p : Progress} {task : Task} {tasks : List Task}
      (hw : r.synthesizer = .working p (task :: tasks)) :=
    (hw ▸ hs).working fun hp => hr.staged p _ hw (hr.stamp_eq hw (hg ▸ hp))
  have hgone {p : Progress} {task : Task} {tasks : List Task}
      (hw : r.synthesizer = .working p (task :: tasks))
      (ht : task.isClosing = false ∨ task.announces = true) : p.stamp < r₀.generation := by
    rcases hworking hw with hlt | ⟨-, hc, ha, -⟩
    · exact hlt
    · simp [hc, ha] at ht
  have hrest {p : Progress} {task : Task} {tasks : List Task}
      (hw : r.synthesizer = .working p (task :: tasks)) :
      (Synthesizer.working p tasks).IsSpent r₀.generation := by
    rcases hworking hw with hlt | ⟨-, -, -, hspent⟩
    · exact Synthesizer.isSpent_of_lt hlt
    · exact hspent
  cases hst with
  | fetch hidle => exact absurd hidle hi
  | exit hidle => exact absurd hidle hi
  | begin hw hc => exact absurd hc (h.generation_ne (hw ▸ hs).fetched)
  | put hw hc he => exact absurd hc (h.generation_ne (hgone hw (.inl he.not_closing.1)))
  | block hw hc => exact absurd hc (h.generation_ne (hgone hw (.inl rfl)))
  | kick hw hgate hc => exact absurd hc (h.generation_ne (hgone hw (.inr rfl)))
  | drop => exact ⟨[], { h with requests := hpast, synthesizer := .inl hidle }⟩
  | finish => exact ⟨[], { h with requests := hpast, synthesizer := .inl hidle }⟩
  | abandon => exact ⟨[], { h with requests := hpast, synthesizer := .inl hidle }⟩
  | lower hw =>
    exact ⟨[], { h with requests := hpast, synthesizer := .inr ⟨hf, hq, hrest hw⟩ }⟩
  | withhold hw =>
    exact ⟨[], { h with requests := hpast, synthesizer := .inr ⟨hf, hq, hrest hw⟩ }⟩
  | raise hw =>
    exact ⟨[], { h with requests := hpast, synthesizer := .inr ⟨hf, hq, hrest hw⟩ }⟩
  | refused hw =>
    exact ⟨[_], { h with
      requests := hrequests _, synthesizer := .inr ⟨hf, hq, hrest hw⟩ }⟩
  | answered hw =>
    exact ⟨[_], { h with
      requests := hrequests _
      synthesizer := .inr ⟨hf, hq, Synthesizer.isSpent_of_lt (hgone hw (.inl rfl))⟩ }⟩
  | @exhaust p pause shaper next frames rest tasks hw =>
    have hlt : p.stamp < r₀.generation := hgone hw (.inl rfl)
    exact ⟨[], { h with
      requests := hpast
      synthesizer := .inr ⟨hf, hq, Synthesizer.isSpent_of_lt hlt⟩ }⟩
  | @signal p x tasks hw =>
    have hlate : x.announced?.toList.filter (r₀.generation ≤ ·) = [] := by
      cases x with
      | play stamp =>
        have hlt := hgone hw (.inr rfl)
        rw [hw] at hdated
        obtain rfl := hdated.2 stamp (List.mem_cons_self ..)
        simpa [Signal.announced?] using hlt
      | _ => rfl
    refine ⟨[], { h with
      requests := hpast, announced := ?_, synthesizer := .inr ⟨hf, hq, hrest hw⟩ }⟩
    have hannounced := announced_signal r x
    simp only [Session.announced] at hannounced ⊢
    rw [hannounced, List.filter_append, hlate, List.append_nil]
    exact h.announced

end Alike

namespace Abreast

theorem put (h : Abreast same r₀ f₀ past r f) (p : Progress) (x : Frame) (tasks : List Task) :
    Abreast same r₀ f₀ past
      (r.put (p.shift r₀.generation) x (tasks.map (Task.shift r₀.generation)))
      (f.put p x tasks) := by
  have hcurrent : r.isCurrent (p.shift r₀.generation).stamp = f.isCurrent p.stamp :=
    h.isCurrent_eq p.stamp
  unfold Session.put
  rw [hcurrent]
  split
  · have hnext : Synthesizer.working
        { p.shift r₀.generation with
          kicked := true, lastVoiced := if x.isTimed then x.isVoiced else p.lastVoiced }
        (if p.kicked then tasks.map (Task.shift r₀.generation)
          else .kick :: tasks.map (Task.shift r₀.generation)) =
        (Synthesizer.working
          { p with kicked := true, lastVoiced := if x.isTimed then x.isVoiced else p.lastVoiced }
          (if p.kicked then tasks else .kick :: tasks)).shift r₀.generation := by
      cases hk : p.kicked <;> simp [Synthesizer.shift, Progress.shift, Task.shift]
    exact { h with
      frames := h.frames.enqueue x, synthesizer := .inl hnext, abreast := hnext }
  · exact { h with synthesizer := .inl rfl, abreast := rfl }

theorem carryOut (h : Abreast same r₀ f₀ past r f) (p : Progress) (task : Task)
    (tasks : List Task) :
    Abreast same r₀ f₀ past
      (r.carryOut rig (p.shift r₀.generation) (task.shift r₀.generation)
        (tasks.map (Task.shift r₀.generation)))
      (f.carryOut (rig.onward past) p task tasks) := by
  have hcurrent : r.isCurrent (p.shift r₀.generation).stamp = f.isCurrent p.stamp :=
    h.isCurrent_eq p.stamp
  cases task with
  | lowerAllQueued => exact { h with synthesizer := .inl rfl, abreast := rfl }
  | block b =>
    have htasks : ((Clause.split p.settings.pauseMode b.text).map
        (Task.clause (p.settings.prosody.offsetPitch b.offset)) ++
          Task.ofMarkers b.markers).map (Task.shift r₀.generation) =
        (Clause.split p.settings.pauseMode b.text).map
          (Task.clause (p.settings.prosody.offsetPitch b.offset)) ++ Task.ofMarkers b.markers :=
      Task.map_shift fun x => by
        simp [Task.signal_notMem_clauses, Task.signal_notMem_ofMarkers]
    have hnext := congrArg (Synthesizer.working (p.shift r₀.generation))
      (congrArg (· ++ tasks.map (Task.shift r₀.generation)) htasks.symm)
    simp only [← List.map_append] at hnext
    simp only [Session.carryOut, Task.shift, hcurrent]
    split
    · exact { h with synthesizer := .inl hnext, abreast := hnext }
    · exact { h with synthesizer := .inl rfl, abreast := rfl }
  | clause prosody c =>
    have hrequests (q : Request) : r.requests ++ [q] = past ++ (f.requests ++ [q]) := by
      rw [h.requests, List.append_assoc]
    simp only [Session.carryOut, Task.shift, Rig.onward, ← h.requests, h.speaking, Progress.shift]
    split
    · exact { h with
        speaking := rfl, requests := hrequests _, synthesizer := .inl rfl, abreast := rfl }
    · exact { h with
        speaking := rfl, requests := hrequests _, synthesizer := .inl rfl, abreast := rfl }
  | stream pause shaper frames =>
    simp only [Session.carryOut, Task.shift]
    split
    · rename_i x next rest _
      exact put h { p with pulled := p.pulled + (frames.length - rest.length) } x
        (.stream pause next rest :: tasks)
    · rename_i next _ _
      have htasks : (Task.afterStream next.seenVoiced pause).map (Task.shift r₀.generation) =
          Task.afterStream next.seenVoiced pause :=
        Task.map_shift fun x => Task.play_notMem_afterStream x next.seenVoiced pause
      have hnext := congrArg (Synthesizer.working
          { p.shift r₀.generation with seenAudio := p.seenAudio || next.seenVoiced })
        (congrArg (· ++ tasks.map (Task.shift r₀.generation)) htasks.symm)
      simp only [← List.map_append] at hnext
      exact { h with synthesizer := .inl hnext, abreast := hnext }
  | marker m first => exact put h p _ tasks
  | frame x => exact put h p x tasks
  | kick =>
    simp only [Session.carryOut, Task.shift, hcurrent]
    split
    · exact { h with speaking := rfl, synthesizer := .inl rfl, abreast := rfl }
    · exact { h with synthesizer := .inl rfl, abreast := rfl }
  | signal x =>
    exact { h with announced := h.toAlike.announce x, synthesizer := .inl rfl, abreast := rfl }
  | raiseAllQueued => exact { h with synthesizer := .inl rfl, abreast := rfl }

theorem begin (h : Abreast same r₀ f₀ past r f) (job : Job) :
    Abreast same r₀ f₀ past (r.begin (job.shift r₀.generation)) (f.begin job) := by
  have hcurrent : r.isCurrent (job.shift r₀.generation).stamp = f.isCurrent job.stamp :=
    h.isCurrent_eq job.stamp
  have hnext : Synthesizer.working
      { stamp := (job.shift r₀.generation).stamp, settings := r.settings } (Task.ofJob job.kind) =
      (Synthesizer.working { stamp := job.stamp, settings := f.settings }
        (Task.ofJob job.kind)).shift r₀.generation := by
    rw [Synthesizer.shift, Task.map_shift fun x => Task.play_notMem_ofJob x job.kind, h.settings]
    rfl
  unfold Session.begin
  rw [hcurrent]
  split
  · exact { h with synthesizer := .inl hnext, abreast := hnext }
  · exact { h with synthesizer := .inl rfl, abreast := rfl }

variable (rig) in
/-- The synthesizers do the same if they are at the same job. -/
theorem synthesize (h : Abreast same r₀ f₀ past r f) :
    Option.Rel (Abreast same r₀ f₀ past) (r.synthesize? rig)
      (f.synthesize? (rig.onward past)) := by
  unfold synthesize?
  rw [h.abreast]
  cases hs : f.synthesizer with
  | idle =>
    simp only [Synthesizer.shift, JobQueue.pop, h.jobs, JobQueue.shift]
    cases hc : f.jobs.closed with
    | true =>
      refine .some { h with jobs := ?_, synthesizer := .inl rfl, abreast := rfl }
      simp [JobQueue.shift, hc]
    | false =>
      cases hj : f.jobs.jobs with
      | nil => exact .none
      | cons job rest =>
        exact .some { h with jobs := rfl, synthesizer := .inl rfl, abreast := rfl }
  | fetched job => exact .some (begin h job)
  | working p tasks =>
    cases tasks with
    | nil => exact .some { h with synthesizer := .inl rfl, abreast := rfl }
    | cons task tasks =>
      obtain ⟨hr, hf⟩ := h.isGated_eq
      simp only [Synthesizer.shift, List.map_cons, hr, hf, Bool.and_false, Bool.false_eq_true,
        if_false]
      exact .some (carryOut h p task tasks)
  | exited => exact .none

end Abreast

namespace Alike

section Calls

variable {c d : Call} {rest more : List Call}

theorem held_eq_nil (h : Alike same r₀ f₀ past r f) (hr : r.held = []) : f.held = [] := by
  have hheld := h.held
  rw [hr] at hheld
  exact List.map_eq_nil_iff.mp hheld.symm

/-- Where the one device holds no calls, the other holds calls of earlier jobs at most. -/
theorem late_of_mem_held (h : Alike same r₀ f₀ past r f) (hf : f.held = []) (hc : c ∈ r.held) :
    c.stamp < r₀.generation := by
  have hheld := h.held
  rw [hf, List.map_nil, List.filter_eq_nil_iff] at hheld
  simpa using hheld c hc

/-- The first call is one of an earlier job, or the first of the other device. -/
theorem held_cons (h : Alike same r₀ f₀ past r f) (hc : r.held = c :: rest) :
    c.stamp < r₀.generation ∧ rest.filter (r₀.generation ≤ ·.stamp) =
      f.held.map (Call.shift r₀.generation) ∨
    ∃ d more, f.held = d :: more ∧ c = d.shift r₀.generation ∧
      rest.filter (r₀.generation ≤ ·.stamp) = more.map (Call.shift r₀.generation) := by
  have hheld := h.held
  rw [hc] at hheld
  exact (filter_cons_eq_map hheld).imp_left (And.imp_left (by simp))

/-- A call of an earlier job is made, and nothing of it shows. -/
theorem makeCall_late (h : Alike same r₀ f₀ past r f) (hc : r.held = c :: rest)
    (hl : c.stamp < r₀.generation)
    (hrest : rest.filter (r₀.generation ≤ ·.stamp) = f.held.map (Call.shift r₀.generation)) :
    Alike same r₀ f₀ past r.makeCall f := by
  have hcurrent : (r.hold rest).isCurrent c.stamp = false :=
    beq_eq_false_iff_ne.mpr (h.generation_ne hl)
  have hcall : r.makeCall = (r.hold rest).report [] := by
    simp [Session.makeCall, hc, answer, hcurrent]
  rw [hcall]
  exact { h with held := hrest, log := h.log_append_left rfl }

/-- Both devices make their first call. -/
theorem makeCall (h : Alike same r₀ f₀ past r f) (hc : r.held = c :: rest)
    (hd : f.held = d :: more) (heq : c = d.shift r₀.generation)
    (hrest : rest.filter (r₀.generation ≤ ·.stamp) = more.map (Call.shift r₀.generation)) :
    Alike same r₀ f₀ past r.makeCall f.makeCall := by
  subst heq
  have hcurrent : r.isCurrent (d.shift r₀.generation).stamp = f.isCurrent d.stamp :=
    h.isCurrent_eq d.stamp
  have hshown : ShownAlike same
      (if r.isCurrent (d.shift r₀.generation).stamp then
        (d.shift r₀.generation).markers.map Event.reached else [])
      (if f.isCurrent d.stamp then d.markers.map .reached else []) := by
    rw [hcurrent]
    exact ShownAlike.refl _
  simp only [Session.makeCall, hc, hd]
  exact { h with held := hrest, log := h.log_append hshown }

/-- A device that is no longer in use holds calls of earlier jobs at most. -/
theorem callBack (h : Alike same r₀ f₀ past r f) {i : Nat} (ht : r.callBack? i = some t) :
    Alike same r₀ f₀ past t f := by
  unfold callBack? at ht
  rw [h.isGated_eq.1] at ht
  obtain ⟨c, hc, rfl⟩ := Option.map_eq_some_iff.mp ht
  have hlate := h.shelved.1 c (List.mem_of_getElem? hc)
  have hnone : (if r.isCurrent c.stamp then c.markers.map Event.reached else []) = [] :=
    if_neg (by simpa [isCurrent] using h.generation_ne hlate)
  have hlog := h.log_append_left (congrArg showing hnone)
  exact { h with
    shelved := ⟨fun d hd => h.shelved.1 d (List.mem_of_mem_eraseIdx hd), h.shelved.2⟩
    log := hlog }

end Calls

section Playback

variable {x : Stamp}

/-- What the player still does at an earlier job makes no difference. -/
theorem play_late (h : Alike same r₀ f₀ past r f) (ho : r.Open)
    (hf : f.player = .waiting) (hheld : f.held = []) (hs : r.player.stamp? = some x)
    (hx : x < r₀.generation) (hr : r.player ≠ .rendering x) (ht : r.player ≠ .testing x)
    (hst : Playback rig r t) : Alike same r₀ f₀ past t f := by
  have hne := h.generation_ne hx
  have hwaiting : Player.Alike same r₀.generation .waiting f.player := by
    rw [hf]
    exact .waiting
  have hlate {p : Player} (hp : r.player.stamp? = p.stamp?) (hr : p ≠ .rendering x)
      (ht : p ≠ .testing x) : Player.Alike same r₀.generation p f.player := by
    rw [hf]
    exact .late (hp ▸ hs) hx hr ht
  cases hst with
  | turnTo hp => simp [hp, Player.stamp?] at hs
  | disregard hp => simp [hp, Player.stamp?] at hs
  | leave hp => simp [hp, Player.stamp?] at hs
  | takeUp hp hg hc => simp_all [Player.stamp?]
  | look hp hl hc => simp_all [Player.stamp?]
  | feed hp hg hm hl hc => simp_all [Player.stamp?]
  | conclude hp hg hl hc => simp_all [Player.stamp?]
  | render hp => simp_all [Player.stamp?]
  | renderEnd hp => simp_all [Player.stamp?]
  | renderNone hp => simp_all [Player.stamp?]
  | endJob hp => simp_all [Player.stamp?]
  | await hp => simp_all [Player.stamp?]
  | decline => exact { h with player := hwaiting }
  | lapse => exact { h with player := hwaiting }
  | discard => exact { h with player := hwaiting }
  | forget => exact { h with player := hwaiting }
  | keepDevice hp => exact { h with player := hlate (by rw [hp]; rfl) (by simp) (by simp) }
  | missDevice hp =>
    exact { h with
      player := hlate (by rw [hp]; rfl) (by simp) (by simp), log := h.log_append_left rfl }
  | switchDevice hp =>
    refine { h with
      held := ?_, shelved := ⟨fun c hc => ?_, h.shelved.2⟩
      player := hlate (by rw [hp]; rfl) (by simp) (by simp), log := h.log_append_left rfl }
    · rw [hheld]
      rfl
    · rcases List.mem_append.mp hc with hc | hc
      · exact h.shelved.1 c hc
      · split at hc
        · exact h.late_of_mem_held hheld hc
        · simp at hc
  | @hear c rest hp hg hc =>
    have hlate := h.late_of_mem_held hheld (c := c) (by simp [hc])
    have hnone : r.reports c = [] := if_neg (h.generation_ne hlate)
    rcases h.held_cons hc with ⟨-, hrest⟩ | ⟨d, more, hd, -⟩
    · exact { h with held := hrest, log := h.log_append_left (congrArg showing hnone) }
    · simp [hheld] at hd
  | putOff hp hx' =>
    refine { h with announced := ?_, player := hlate (by rw [hp]; rfl) (by simp) (by simp) }
    have hannounced := h.announced
    simpa [Session.announced, hx'] using hannounced
  | lookAgain hp hx' =>
    refine { h with announced := ?_, player := hlate (by rw [hp]; rfl) (by simp) (by simp) }
    have hannounced := h.announced
    simpa [Session.announced, hx', List.filterMap_cons] using hannounced
  | quit hp hx' => exact absurd (by simp [hx']) ho.signals
  | @idle stamp failed hp =>
    refine { h with player := hlate ?_ ?_ ?_, log := h.log_append_left rfl }
    · rw [hp]
      cases failed <;> rfl
    · cases failed <;> simp
    · cases failed <;> simp
  | idled hp => exact { h with player := hlate (by rw [hp]; rfl) (by simp) (by simp) }

theorem takeUp (h : Alike same r₀ f₀ past r f) (x : Stamp) :
    Alike same r₀ f₀ past (r.takeUp (x + r₀.generation)) (f.takeUp x) := by
  unfold Session.takeUp
  rw [h.isCurrent_eq]
  split
  · exact { h with speaking := rfl, player := .opening x }
  · exact { h with player := .waiting }

theorem refresh (h : Alike same r₀ f₀ past r f) (hf : f.held = []) (x : Stamp) :
    Alike same r₀ f₀ past { r.refresh rig with player := .checking (x + r₀.generation) }
      { f.refresh rig with player := .checking x } := by
  obtain ⟨sr, kr, nr, er, hr, hheld, hshow⟩ := r.refresh_eq rig
  obtain ⟨sf, kf, nf, ef, hrf, hheld', hshow'⟩ := f.refresh_eq rig
  have hfresh : sf.output = [] ∧ kf = [] := by
    rcases hheld' with ⟨ho, hk⟩ | ⟨ho, hk⟩
    · exact ⟨ho.trans hf, hk⟩
    · exact ⟨ho, List.eq_nil_iff_forall_not_mem.mpr fun c hc => by simpa [hf] using hk c hc⟩
  have hout : sr.output.filter (r₀.generation ≤ ·.stamp) = [] := by
    rcases hheld with ⟨ho, -⟩ | ⟨ho, -⟩
    · rw [ho, h.held, hf]
      rfl
    · rw [ho]
      rfl
  have hkept : ∀ c ∈ kr, c ∈ r.held := by
    rcases hheld with ⟨-, rfl⟩ | ⟨-, hk⟩
    · simp
    · exact hk
  rw [hr, hrf]
  refine { h with
    held := ?_, shelved := ⟨fun c hc => ?_, ?_⟩, player := .checking x
    log := h.log_append (ShownAlike.of_nil hshow hshow') }
  · simp only [Session.held, hfresh.1, List.map_nil]
    exact hout
  · rcases List.mem_append.mp hc with hc | hc
    · exact h.shelved.1 c hc
    · exact h.late_of_mem_held hf (hkept c hc)
  · rw [hfresh.2, List.append_nil]
    exact h.shelved.2

theorem render (h : Alike same r₀ f₀ past r f) (x : Stamp) :
    Alike same r₀ f₀ past (r.render rig (x + r₀.generation))
      (f.render rig x) := by
  obtain ⟨hchunk, hframes⟩ := h.frames.render rig.chunk
  refine { h with frames := hframes, player := ?_ }
  simp only [Session.render, hchunk.isEmpty, hchunk.finished]
  split
  · exact .delivering x hchunk
  · split
    · exact .draining x
    · exact .testing x

theorem conclude (h : Alike same r₀ f₀ past r f) (x : Stamp) :
    Alike same r₀ f₀ past (r.conclude (x + r₀.generation)) (f.conclude x) := by
  unfold Session.conclude
  rw [h.isLive_eq]
  split
  · exact { h with
      speaking := rfl, fadeArmed := rfl, player := .waiting
      log := h.log_append (ShownAlike.refl [.done]) }
  · exact { h with player := .waiting }

theorem idle (h : Alike same r₀ f₀ past r f) (hr : rig.Faultless) (x : Stamp) :
    Alike same r₀ f₀ past (r.idle rig (x + r₀.generation)) (f.idle rig x) := by
  simp only [Session.idle, hr.idles, Bool.false_eq_true, if_false]
  exact { h with player := .idling x, log := h.log_append (ShownAlike.refl [.idled false]) }

theorem feed (h : Alike same r₀ f₀ past r f) (hr : rig.Faultless) (x : Stamp)
    {c d : Frame.Chunk} (hc : c.Alike same d) :
    Alike same r₀ f₀ past (r.feed rig (x + r₀.generation) c)
      (f.feed rig x d) := by
  have hempty : c.samples.isEmpty = d.samples.isEmpty := by
    rw [Bool.eq_iff_iff, List.isEmpty_iff, List.isEmpty_iff, ← List.length_eq_zero_iff,
      ← List.length_eq_zero_iff, hc.length]
  have hfaded (fades called : Bool) : ShownAlike same
      [.fed (if fades then Output.fadeIn rig.ramp c.samples else c.samples) called false]
      [.fed (if fades then Output.fadeIn rig.ramp d.samples else d.samples) called false] := by
    refine ⟨?_, fun hs => ?_⟩
    · cases fades <;> simp [outline, showing, Event.shown?, Output.length_fadeIn, hc.length]
    · simp [showing, Event.shown?, hc.samples hs]
  have hlog := h.log_append (hfaded (f.fadeArmed && !d.samples.isEmpty) (!d.markers.isEmpty))
  have hnext : Player.Alike same r₀.generation
      (if d.finished then .draining (x + r₀.generation) else .checking (x + r₀.generation))
      (if d.finished then .draining x else .checking x) := by
    cases d.finished
    · exact .checking x
    · exact .draining x
  have hcalls : (r.held ++ if d.markers.isEmpty then [] else
      [Call.mk (x + r₀.generation) d.markers]).filter (r₀.generation ≤ ·.stamp) =
      (f.held ++ if d.markers.isEmpty then [] else [Call.mk x d.markers]).map
        (Call.shift r₀.generation) := by
    rw [List.filter_append, List.map_append, h.held]
    cases d.markers.isEmpty <;> simp [Call.shift]
  unfold Session.feed
  rw [h.isLive_eq]
  split
  · simp only [hr.feeds, h.fadeArmed, hempty, hc.finished, hc.markers,
      Bool.false_eq_true, if_false, Session.hold, Session.report]
    exact { h with fadeArmed := rfl, held := hcalls, player := hnext, log := hlog }
  · exact { h with player := .waiting }

/-- A player at a job does the same in both sessions, but for a device that makes a call of an
earlier job first. -/
theorem play_at (h : Alike same r₀ f₀ past r f) (hr : rig.Faultless)
    (hq : ∀ x, f.player = .testing x → r.allQueued = false ∧ f.allQueued = false)
    (ho : ∀ x, f.player = .opening x → f.held = []) (hw : f.player ≠ .waiting)
    (hp : ∀ x, f.player ≠ .polling x) :
    (∃ c rest, r.held = c :: rest ∧ c.stamp < r₀.generation ∧ r.play? rig = some r.makeCall ∧
      Alike same r₀ f₀ past r.makeCall f) ∨
    Option.Rel (Alike same r₀ f₀ past) (r.play? rig) (f.play? rig) := by
  obtain ⟨hgr, hgf⟩ := h.isGated_eq
  have hplayer := h.player
  unfold play?
  generalize hpr : r.player = p at hplayer
  generalize hpf : f.player = p' at hplayer
  cases hplayer with
  | waiting => exact absurd hpf hw
  | late => exact absurd hpf hw
  | polling x => exact absurd hpf (hp x)
  | starting x =>
    right
    simp only [hgr, hgf, Bool.false_eq_true, if_false]
    exact .some (h.takeUp x)
  | opening x => exact .inr (.some (h.refresh (ho x hpf) x))
  | checking x =>
    right
    simp only [h.isLive_eq]
    refine .some { h with player := ?_ }
    cases f.isLive x
    · exact .waiting
    · exact .rendering x
  | rendering x => exact .inr (.some (h.render x))
  | @delivering x c d hc =>
    simp only [hgr, hgf, Bool.false_eq_true, if_false]
    have hfed := h.feed hr x hc
    simp only [makesRoom]
    by_cases hcalls : rig.callsOnRoom = true
    · by_cases hheld : r.held = []
      · right
        simp only [hheld, h.held_eq_nil hheld, List.isEmpty_nil, Bool.not_true, Bool.and_false,
          Bool.false_eq_true, if_false]
        exact .some hfed
      · obtain ⟨c, rest, hheld⟩ := List.exists_cons_of_ne_nil hheld
        simp only [hcalls, hheld, List.isEmpty_cons, Bool.not_false, Bool.and_self, if_true]
        rcases h.held_cons hheld with ⟨hlate, hrest⟩ | ⟨d, more, hd, heq, hrest⟩
        · exact .inl ⟨c, rest, rfl, hlate, trivial, h.makeCall_late hheld hlate hrest⟩
        · right
          simp only [hd, List.isEmpty_cons, Bool.not_false]
          exact .some (h.makeCall hheld hd heq hrest)
    · right
      simp only [hcalls, Bool.false_and, Bool.false_eq_true, if_false]
      exact .some hfed
  | testing x =>
    right
    obtain ⟨hqr, hqf⟩ := hq x hpf
    simp only [hqr, hqf, Bool.false_eq_true, if_false]
    exact .some { h with player := .polling x }
  | draining x => exact .inr (.some (h.idle hr x))
  | idling x =>
    simp only [hgr, hgf, Bool.false_eq_true, if_false]
    cases hheld : r.held with
    | nil =>
      rw [h.held_eq_nil hheld]
      exact .inr (.some { h with player := .completing x })
    | cons c rest =>
      rcases h.held_cons hheld with ⟨hlate, hrest⟩ | ⟨d, more, hd, heq, hrest⟩
      · exact .inl ⟨c, rest, rfl, hlate, rfl, h.makeCall_late hheld hlate hrest⟩
      · rw [hd]
        exact .inr (.some (h.makeCall hheld hd heq hrest))
  | completing x =>
    right
    simp only [hgr, hgf, Bool.false_eq_true, if_false]
    exact .some (h.conclude x)
  | stopped => exact .inr .none

end Playback

theorem isLooking_eq (h : Alike same r₀ f₀ past r f) : r.isLooking = f.isLooking := by
  have hplayer := h.player
  unfold isLooking
  generalize r.player = p at hplayer
  generalize f.player = p' at hplayer
  cases hplayer with
  | @late x hs hx hr ht => cases p <;> simp_all [Player.stamp?]
  | _ => rfl

theorem submit (h : Alike same r₀ f₀ past r f) (commands : List Command) (paged : Bool) :
    Alike same r₀ f₀ past (r.submit rig commands paged)
      (f.submit rig commands paged) := by
  unfold Session.submit
  rw [h.ended]
  split
  · exact h
  · refine { h with ended := rfl, jobs := ?_ }
    simp only [JobQueue.push, h.jobs, JobQueue.shift, h.generation]
    split
    · rfl
    · simp [Job.shift]

variable (rig) in
theorem call (h : Alike same r₀ f₀ past r f) {c : HostCall}
    (hc : (Act.call c).isCancel = false) :
    Option.Rel (fun r' f' => Alike same r₀ f₀ past r' f' ∧
      r'.synthesizer = r.synthesizer ∧ f'.synthesizer = f.synthesizer)
      (r.call? rig c) (f.call? rig c) := by
  obtain ⟨hhr, hhf⟩ := h.host
  unfold call?
  rw [hhr, hhf]
  cases c with
  | speak commands paged =>
    have hsynthesizer (s : Session) :
        (s.submit rig commands paged).synthesizer = s.synthesizer := by
      unfold Session.submit
      split <;> rfl
    exact .some ⟨h.submit commands paged, hsynthesizer r, hsynthesizer f⟩
  | cancel => simp [Act.isCancel] at hc
  | terminate => simp [Act.isCancel] at hc
  | pause on => exact .some ⟨{ h with log := h.log_append (ShownAlike.refl _) }, rfl, rfl⟩
  | request device => exact .some ⟨{ h with host := ⟨rfl, rfl⟩ }, rfl, rfl⟩
  | configure settings =>
    exact .some ⟨{ h with host := ⟨rfl, rfl⟩, settings := rfl }, rfl, rfl⟩

theorem announced_cons (h : Alike same r₀ f₀ past r f) {x : Stamp} {rest : List Stamp}
    (hx : r.announced = x :: rest) :
    x < r₀.generation ∧ rest.filter (r₀.generation ≤ ·) = f.announced.map (· + r₀.generation) ∨
    ∃ y later, f.announced = y :: later ∧ x = y + r₀.generation ∧
      rest.filter (r₀.generation ≤ ·) = later.map (· + r₀.generation) := by
  have hannounced := h.announced
  rw [hx] at hannounced
  exact (filter_cons_eq_map hannounced).imp_left (And.imp_left (by simp))

theorem allQueued_eq (h : Alike same r₀ f₀ past r f) (hr : r.Flowing) (hf : f.Flowing) (x : Stamp)
    (hp : f.player = .testing x) : r.allQueued = false ∧ f.allQueued = false := by
  have hplayer := h.player
  rw [hp] at hplayer
  generalize hp' : r.player = p at hplayer
  cases hplayer with
  | testing => exact ⟨hr.not_allQueued hp', hf.not_allQueued hp⟩

end Alike

end Session

end Elocution.Speech
