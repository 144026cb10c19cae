import Elocution.Proofs.Session.Heed

/-!
# Renewal

A session in which every call has been done or cancelled goes on as one that has just been started
under its settings: of what has been before only the state of the voice source makes a difference,
and that to the values of samples alone.
-/

namespace Elocution.Speech.Session

/-- Each of the calls so far has been done or cancelled: however the parties have taken turns up to
the start of it, in the run since the last cancellation has returned, or since the start of the
session, nothing has been cancelled and as many calls have been done as made. -/
inductive Settled (rig : Rig) (s : Session) : Prop where
  | since {device : Option String} {settings : VoiceSettings} {s₀ base : Session}
      {before after : List Act} (h₀ : start rig device settings = .ok s₀)
      (hb : Run (step? rig) s₀ before base)
      (hl : before = [] ∨ ∃ early, before = early ++ [.proceed]) (hh : base.host = [])
      (ht : ∀ a ∈ before, a.isTerminate = false) (hr : Run (heedfulStep? rig) base after s)
      (ha : ∀ a ∈ after, a.isCancel = false)
      (hd : s.done = base.done + after.countP (·.saying?.isSome)) : Settled rig s

/-- The session with its voice source in another state. -/
def withVoice (voice : Frame.Oscillator) (s : Session) : Session :=
  { s with frames := { s.frames with voice } }

variable {rig : Rig} {s t : Session}

theorem rate_step {a : Act} (h : Step rig s a t) : t.frames.rate = s.frames.rate := by
  cases h with
  | call hh hc => cases hc <;> rfl
  | @proceed task rest hh =>
    cases task with
    | stopDevice =>
      rw [perform_stopDevice]
    | _ => rfl
  | synthesize hs => cases hs <;> rfl
  | play hp =>
    cases hp with
    | render => exact Frame.Queue.rate_render ..
    | renderEnd => exact Frame.Queue.rate_render ..
    | renderNone => exact Frame.Queue.rate_render ..
    | _ => rfl
  | _ => rfl

namespace Run

variable {acts : List Act}

theorem rate_eq (h : Run (step? rig) s acts t) : t.frames.rate = s.frames.rate := by
  induction h with
  | refl => rfl
  | tail _ ha ih => exact (rate_step (step?_cases ha)).trans ih

end Run

/-- What a settled session, the player looking anew, has in common with one at its start. -/
structure Quiescent (rig : Rig) (s : Session) : Prop extends s.Unbroken where
  even : s.owed s.generation = 0
  rate : s.frames.rate = rig.rate

theorem Cancelled.anew (h : s.Cancelled []) : s.anew.Cancelled [] := by
  have hstamp : s.player.anew.stamp? = s.player.stamp? := by cases s.player <;> rfl
  have hstale := h.stale List.not_mem_nil
  exact { h with stale := fun _ => { hstale with
    player := fun x hx => hstale.player x (hstamp.symm.trans hx) } }

theorem Settled.quiescent (h : s.Settled rig) (hn : rig.NeverEnds) (hless : rig.Faultless) :
    s.anew.Quiescent rig := by
  obtain @⟨device, settings, s₀, base, before, after, h₀, hb, hl, hh, ht, hr, ha, hd⟩ := h
  have hcancelled := (cancelled_of_return h₀ hb hl hh).anew
  have hbase := isOpen_anew.mpr (hb.isOpen (isOpen_start h₀) ht)
  obtain ⟨hs, hg, hcount⟩ := hr.heeded
    ⟨hcancelled.flowing hh (isLooking_anew _), hbase, hcancelled.heard⟩ hn hless ha
  refine ⟨hs, ?_, ?_⟩
  · have hnone : base.owed base.generation = 0 := by
      rw [← owed_anew]
      exact hcancelled.owed_eq_zero
    rw [owed_anew]
    change s.owed s.generation = 0
    rw [hg]
    omega
  · change s.frames.rate = rig.rate
    rw [hr.of_heedful.rate_eq, hb.rate_eq]
    obtain ⟨-, rfl⟩ := start_eq h₀
    rfl

/-- The player is at a job of an earlier generation, if at any. -/
theorem Quiescent.stamp_lt (h : s.Quiescent rig) {x : Stamp} (hx : s.player.stamp? = some x) :
    x < s.generation := by
  by_contra hlt
  have howes : s.player.owes s.generation = 1 := by
    simp [Player.owes, hx, Nat.le_of_not_lt hlt]
  have howed := h.even
  simp only [owed] at howed
  omega

/-- No flag and no frame is left behind. -/
theorem Quiescent.clear (h : s.Quiescent rig) :
    s.speaking = false ∧ s.jobs.jobs = [] ∧ s.frames.IsClear ∧ s.fadeArmed = true := by
  obtain ⟨⟨hf, -, -⟩, howed, -⟩ := h
  have hbalance := hf.balance
  rw [howed] at hbalance
  simp only [owed, unended] at howed hbalance
  have hjobs : s.jobs.jobs = [] := by
    have hnone : s.jobs.jobs.countP (s.generation ≤ ·.stamp) = 0 := by omega
    rw [List.countP_eq_zero] at hnone
    refine List.eq_nil_iff_forall_not_mem.mpr fun job hm => hnone job hm ?_
    simp [hf.jobs job hm]
  refine ⟨?_, hjobs, (hf.closed fun p tasks hw hc => ?_).isClear (by omega), ?_⟩
  · by_contra hs
    have hpositive := hf.silent (by simpa using hs)
    simp only [owed] at hpositive
    omega
  · have hopens : s.synthesizer.opens s.generation = 0 := by omega
    rw [hw, Synthesizer.opens, if_pos (Nat.le_of_eq hc.symm)] at hopens
    exact hopens
  · by_contra hs
    have htaken := hf.armed (by simpa using hs)
    have howes := Player.owes_of_stamp (Player.stamp_of_taken htaken)
    omega

/-- A player in the midst of a look, which is for a job that is not wanted any more, finds nothing
and is soon done with it. -/
theorem Quiescent.settle (h : s.anew.Quiescent rig) :
    ∃ work t, Run (heedfulStep? rig) s work t ∧ (∀ a ∈ work, a.isWork = true) ∧
      t.isLooking = false := by
  have hstale {x : Stamp} (hp : s.player.anew = .checking x) : s.generation ≠ x :=
    Nat.ne_of_gt (h.stamp_lt (by rw [anew, hp]; rfl))
  have htest {u : Session} {x : Stamp} (hp : u.player = .testing x) (hc : u.generation ≠ x) :
      ∃ v, u.heedfulStep? rig .play = some v ∧ v.isLooking = false := by
    have hheed : u.isHeedless = false := by simp [isHeedless, hp, isCurrent, hc]
    refine ⟨{ u with player := if u.allQueued then .draining x else .polling x }, ?_, ?_⟩
    · rw [heedfulStep?_of_not_isHeedless hheed]
      simp [step?, play?, hp]
    · cases hq : u.allQueued <;> simp [isLooking]
  cases hp : s.player with
  | testing x =>
    obtain ⟨v, hst, hl⟩ := htest hp (hstale (by rw [hp]; rfl))
    exact ⟨[.play], v, .head hst, by simp [Act.isWork], hl⟩
  | rendering x =>
    have hclear : s.frames.IsClear := h.clear.2.2.1
    have hheed : s.isHeedless = false := by simp [isHeedless, hp, hclear]
    have hlook : s.heedfulStep? rig .play = some { s with player := .testing x } := by
      have hempty : ({} : Frame.Chunk).isEmpty = true := rfl
      rw [heedfulStep?_of_not_isHeedless hheed]
      simp [step?, play?, hp, render, Frame.Queue.render_of_isClear hclear, hempty]
    obtain ⟨v, hst, hl⟩ := htest (u := { s with player := .testing x }) rfl
      (hstale (by rw [hp]; rfl))
    exact ⟨[.play] ++ [.play], v, (Run.head hlook).trans (.head hst), by simp [Act.isWork], hl⟩
  | _ => exact ⟨[], s, .refl s, by simp, by simp [isLooking, hp]⟩

section Renewed

variable {device : Option String} {settings : VoiceSettings} {f : Session}
  {voice : Frame.Oscillator}

variable (voice) in
/-- Such a session is like one at its start. -/
theorem Quiescent.alike (h : s.Quiescent rig)
    (h₀ : start rig device s.settings = .ok f) :
    Alike (s.frames.voice = voice) s (f.withVoice voice) s.requests s (f.withVoice voice) := by
  obtain ⟨hspeaking, hjobs, hclear, harmed⟩ := h.clear
  have hplayer (x : Stamp) (hx : s.player.stamp? = some x) : x < s.generation := h.stamp_lt hx
  obtain ⟨⟨hf, ho, hheard⟩, howed, hrate⟩ := h
  have hopens : s.unended s.generation = 0 := by rw [← hf.balance, howed]
  simp only [owed, unended] at howed hopens
  obtain ⟨-, rfl⟩ := start_eq h₀
  refine ⟨(Nat.zero_add _).symm, hspeaking, harmed, ?_, ?_, rfl, ?_, ⟨fun c hc => ?_, rfl⟩, ?_,
    ⟨hf.host, rfl⟩, .inr ⟨rfl, rfl, ?_, ?_⟩, ?_, ho.lasts, (List.append_nil _).symm,
    [], [], (List.append_nil _).symm, (List.append_nil _).symm, ShownAlike.refl _⟩
  · exact Frame.Queue.alike_of_isClear hclear ⟨rfl, rfl⟩ hrate id
  · cases hs : s.jobs with
    | mk jobs closed =>
      have hlasts := ho.jobs
      rw [hs] at hjobs hlasts
      obtain rfl : jobs = [] := hjobs
      obtain rfl : closed = false := hlasts
      rfl
  · refine List.filter_eq_nil_iff.mpr fun c hc => ?_
    have hstamp : c.stamp ≠ s.generation := fun hstamp => by
      have htaken := (hheard.held c hc hstamp).1
      exact Nat.lt_irrefl _ (hplayer _ (Player.stamp_of_taken htaken))
    simpa using Nat.lt_of_le_of_ne (hf.dated.held c hc) hstamp
  · exact Nat.lt_of_le_of_ne (hf.dated.shelved c hc) (hheard.shelved c hc)
  · refine List.filter_eq_nil_iff.mpr fun x hx => ?_
    have hnone : (s.deferred ++ s.signals).countP (Signal.isPlayFrom s.generation) = 0 := by omega
    exact List.countP_eq_zero.mp hnone _ (mem_announced.mp hx)
  · omega
  · omega
  · cases hx : s.player.stamp? with
    | none =>
      have hwaiting : s.player = .waiting := by
        cases hp : s.player with
        | waiting => rfl
        | stopped => exact absurd hp ho.player
        | _ => simp [hp, Player.stamp?] at hx
      rw [hwaiting]
      exact .waiting
    | some x =>
      have hlook : s.player = .rendering x ∨ s.player = .testing x → False := fun hp => by
        have htaken := hf.looking (by rcases hp with hp | hp <;> simp [isLooking, hp])
        exact Nat.lt_irrefl _ (hplayer _ (Player.stamp_of_taken htaken))
      exact .late hx (hplayer x hx) (fun hp => hlook (.inl hp)) (fun hp => hlook (.inr hp))

variable (voice) in
theorem unbroken_start (h₀ : start rig device settings = .ok f) :
    (f.withVoice voice).Unbroken ∧ (f.withVoice voice).generation = 0 := by
  have hf := flowing_start h₀
  have hflow : (f.withVoice voice).Flowing := { hf with dated := { hf.dated with } }
  have hopen : (f.withVoice voice).Open := { isOpen_start h₀ with }
  have hheard : (f.withVoice voice).Heard := { (cancelled_start h₀).heard with }
  refine ⟨⟨hflow, hopen, hheard⟩, ?_⟩
  obtain ⟨-, rfl⟩ := start_eq h₀
  rfl

/-- A session at its start waits for the host. -/
theorem call?_of_start (h₀ : start rig device settings = .ok f) {a : Act}
    (ht : (f.withVoice voice).wholeStep? rig a = some t) : a.call?.isSome := by
  obtain ⟨-, rfl⟩ := start_eq h₀
  cases a with
  | call c => rfl
  | _ =>
    have hnone := step?_of_wholeStep? ht
    simp [step?, proceed?, synthesize?, play?, expire?, sound?, callBack?, JobQueue.pop, held,
      initial, withVoice] at hnone

theorem eq_of_start {acts : List Act} (h₀ : start rig device settings = .ok f)
    (hr : Run (wholeStep? rig) (f.withVoice voice) acts t)
    (ha : acts.filterMap Act.call? = []) : t = f.withVoice voice := by
  induction hr with
  | refl => rfl
  | @tail t u acts a hr hst ih =>
    rw [List.filterMap_append, List.append_eq_nil_iff] at ha
    obtain rfl := ih ha.1
    have hcall := call?_of_start h₀ hst
    cases hc : a.call? with
    | none => simp [hc] at hcall
    | some c => simp [hc] at ha

end Renewed

/-- A run `acts` from `s` to `t` and one `acts'` from `f` to `u`, of which the former has the
requests in `past` behind it: the host makes the same calls, the engine is asked for the same, and
the same shows, but for the values of samples, and these too if `same` holds. -/
structure Counterpart (same : Prop) (s : Session) (acts : List Act) (t : Session)
    (past : List Request) (f : Session) (acts' : List Act) (u : Session) : Prop where
  calls : acts.filterMap Act.call? = acts'.filterMap Act.call?
  requests : t.requests = past ++ u.requests
  shown : ShownAlike same (t.log.drop s.log.length) (u.log.drop f.log.length)

section Counterparts

variable {same : Prop} {f u : Session} {past : List Request} {acts acts' : List Act}

theorem Alike.counterpart (h : Alike same s.anew f past t u)
    (hc : acts.filterMap Act.call? = acts'.filterMap Act.call?) :
    Counterpart same s acts t past f acts' u := by
  obtain ⟨e, e', ht, hu, hshown⟩ := h.log
  change t.log = s.log ++ e at ht
  refine ⟨hc, h.requests, ?_⟩
  rw [ht, hu, List.drop_left, List.drop_left]
  exact hshown

theorem call?_of_isWork {a : Act} (h : a.isWork = true) : a.call? = none := by
  cases a <;> first | rfl | exact absurd h (by rintro ⟨⟩)

theorem filterMap_call?_of_isWork {acts : List Act} (h : ∀ a ∈ acts, a.isWork = true) :
    acts.filterMap Act.call? = [] :=
  List.filterMap_eq_nil_iff.mpr fun a ha => call?_of_isWork (h a ha)

/-- The player is done with a look at an earlier job, and then all parties finish. -/
theorem Quiescent.exists_atRest (h : s.anew.Quiescent rig) (hn : rig.NeverEnds)
    (hless : rig.Faultless) :
    ∃ work t, Run (heedfulStep? rig) s work t ∧ (∀ a ∈ work, a.isWork = true) ∧ t.AtRest rig := by
  obtain ⟨early, s', hearly, hplays, hl⟩ := h.settle
  obtain ⟨hs', -⟩ := hearly.heeded h.toUnbroken hn hless fun a ha =>
    isCancel_of_isWork (hplays a ha)
  have hflow : s'.Flowing := hs'.flowing.of_anew hl
  have hopen : s'.Open := isOpen_anew.mp hs'.lasts
  obtain ⟨late, hlate, hacts⟩ := finish_run rig s'
  refine ⟨early ++ late, s'.finish rig, hearly.trans ?_, fun a ha => ?_,
    atRest_finish hflow hopen hn⟩
  · exact hlate.heedful_of_whole hflow hopen hn fun a ha => isCancel_of_isWork (hacts a ha)
  · exact (List.mem_append.mp ha).elim (hplays a) (hacts a)

/-- The later session comes to rest, and nothing of earlier jobs is left in it. -/
theorem Alike.renewed {device : Option String} {settings : VoiceSettings}
    {voice : Frame.Oscillator}
    (h : Alike same s.anew (f.withVoice voice) past s.anew (f.withVoice voice))
    (h₀ : start rig device settings = .ok f) (hn : rig.NeverEnds) (hless : rig.Faultless)
    (hq : s.anew.Quiescent rig) :
    ∃ more work r, (InStep s.generation s (f.withVoice voice) → more = []) ∧
      Run (heedfulStep? rig) s work r ∧ work.filterMap Act.call? = [] ∧ r.Unbroken ∧
      InStep s.generation r (f.withVoice voice) ∧ r.Stamped (s.generation ≤ ·) ∧
      Alike same s.anew (f.withVoice voice) (past ++ more) r (f.withVoice voice) := by
  obtain ⟨hf, hz⟩ := unbroken_start voice h₀
  have hheld : (f.withVoice voice).held = [] ∧ (f.withVoice voice).synthesizer = .idle := by
    obtain ⟨-, rfl⟩ := start_eq h₀
    exact ⟨rfl, rfl⟩
  obtain ⟨work, t, hrun, hwork, hrest⟩ := hq.exists_atRest hn hless
  have hcancel (a : Act) (ha : a ∈ work) : a.isCancel = false := isCancel_of_isWork (hwork a ha)
  have hcalls : work.filterMap Act.call? = [] := filterMap_call?_of_isWork hwork
  obtain ⟨more, acts', u, hin, hfollow, hcalls', hlike⟩ :=
    h.follows_heedful hn hless hq.toUnbroken hf hz hrun hcancel
  obtain ⟨hr, -⟩ := hrun.heeded hq.toUnbroken hn hless hcancel
  rw [anew_of_atRest hrest] at hlike hin hr
  have hstart : start (rig.onward (past ++ more ++ [])) device settings = .ok f := h₀
  obtain rfl := eq_of_start hstart (hfollow [] fun _ => rfl) (hcalls'.trans hcalls)
  obtain ⟨hi, hj, hp, -⟩ := hr.flowing.clear_of_atRest hr.lasts hrest
  have hlook : t.isLooking = false := by simp [isLooking, hp]
  -- What the devices hold of earlier jobs is played out.
  obtain ⟨slot, log, hout, ⟨acts₁, hrun₁, hacts₁⟩, hlike₁⟩ := hlike.reaches_sounded rig hlook
    hheld.1
  obtain ⟨log', ⟨acts₂, hrun₂, hacts₂⟩, hlike₂⟩ := hlike₁.reaches_calledBack rig hlook
  have hquiet : (acts₁ ++ acts₂).filterMap Act.call? = [] := by
    rw [List.filterMap_append, filterMap_call?_of_isPlayback hacts₁,
      filterMap_call?_of_isPlayback hacts₂]
    rfl
  have hnone : ∀ a ∈ acts₁ ++ acts₂, a.isCancel = false :=
    isCancel_of_filterMap (hquiet.trans (List.filterMap_nil ..).symm) (by simp)
  refine ⟨more, work ++ (acts₁ ++ acts₂), _, fun h₁ => (hin h₁).1,
    hrun.trans ((hrun₁.trans hrun₂).heedful_of_whole hr.flowing hr.lasts hn hnone), ?_,
    (hr.run hn hless (hrun₁.trans hrun₂) hnone).1, ?_, ?_, hlike₂⟩
  · rw [List.filterMap_append, hcalls, hquiet]
    rfl
  · exact hi.trans (by rw [hheld.2]; rfl)
  · refine ⟨fun job hm => ?_, ?_, fun x hx => ?_, fun x hx => ?_, fun c hc => ?_, by simp⟩
    · simp [hj] at hm
    · rw [hi]
      trivial
    · have hmem : x ∈ t.announced := mem_announced.mpr hx
      simp [announced_of_atRest hr.flowing hr.lasts hrest] at hmem
    · simp [hp, Player.stamp?] at hx
    · have hmem : c ∈ slot.output := hc
      simp [hout] at hmem

/-- It makes no difference where the player has got to with its look. -/
theorem Counterpart.of_anew (h : Counterpart same s acts t.anew past f acts' u) :
    Counterpart same s acts t past f acts' u :=
  ⟨h.calls, h.requests, h.shown⟩

/-- Of two runs from the same start that are counterparts of each other, each is one of what the
other is one of. -/
theorem Counterpart.exchange {more : List Act} {v : Session} {other : Prop}
    (h : Counterpart same s acts t past f acts' u)
    (h' : Counterpart other f more v [] f acts' u) (ho : other) :
    Counterpart same s acts t past f more v := by
  obtain ⟨hcalls, hrequests, hlengths, hvalues⟩ := h
  obtain ⟨hcalls', hrequests', hlengths', hvalues'⟩ := h'
  exact ⟨hcalls.trans hcalls'.symm, by rw [hrequests, hrequests', List.nil_append],
    hlengths.trans hlengths'.symm, fun hs => (hvalues hs).trans (hvalues' ho).symm⟩

end Counterparts

section Fresh

variable {device : Option String} {f : Session} (voice : Frame.Oscillator)

theorem anew_start {settings : VoiceSettings} (h₀ : start rig device settings = .ok f) :
    (f.withVoice voice).anew = f.withVoice voice := by
  obtain ⟨-, rfl⟩ := start_eq h₀
  rfl

theorem quiescent_start {settings : VoiceSettings} (h₀ : start rig device settings = .ok f) :
    (f.withVoice voice).Quiescent rig := by
  obtain ⟨hf, -⟩ := unbroken_start voice h₀
  have hnone : (f.withVoice voice).owed (f.withVoice voice).generation = 0 :=
    (cancelled_start h₀).owed_eq_zero
  refine ⟨hf, hnone, ?_⟩
  obtain ⟨-, rfl⟩ := start_eq h₀
  rfl

/-- What is done in a session in which all has been done, a new one can do as well, and that without
anybody breaking into a look. -/
theorem Quiescent.follow (hq : s.anew.Quiescent rig) (hn : rig.NeverEnds) (hless : rig.Faultless)
    (h₀ : start rig device s.settings = .ok f) {acts : List Act}
    (hrun : Run (heedfulStep? rig) s acts t) (ha : ∀ a ∈ acts, a.isCancel = false) :
    ∃ past acts' u, s.requests <+: past ∧ (s.synthesizer = .idle → past = s.requests) ∧
      Run (wholeStep? (rig.onward past)) (f.withVoice voice) acts' u ∧
      Counterpart (s.frames.voice = voice) s acts t past (f.withVoice voice) acts' u ∧
      (t.AtRest rig → u.AtRest (rig.onward past)) := by
  have hu := hq.toUnbroken
  have hlike : Alike (s.frames.voice = voice) s.anew (f.withVoice voice) s.requests s.anew
      (f.withVoice voice) := hq.alike voice h₀
  obtain ⟨hf, hz⟩ := unbroken_start voice h₀
  obtain ⟨more, acts', u, hin, hrun', hcalls, hlike'⟩ :=
    hlike.follows_heedful hn hless hu hf hz hrun ha
  have hrun₀ : Run (wholeStep? (rig.onward (s.requests ++ more))) (f.withVoice voice) acts' u := by
    simpa using hrun' [] fun _ => rfl
  have hpast (hi : s.synthesizer = .idle) : s.requests ++ more = s.requests := by
    have hstep : InStep s.generation s (f.withVoice voice) := by
      obtain ⟨-, rfl⟩ := start_eq h₀
      exact hi
    rw [(hin hstep).1, List.append_nil]
  by_cases hrest : t.AtRest rig
  · obtain ⟨ht, -⟩ := hrun.heeded hu hn hless ha
    rw [anew_of_atRest hrest] at hlike' ht
    obtain ⟨hu', -⟩ := hf.run (neverEnds_onward hn _) (faultless_onward hless _) hrun₀
      (isCancel_of_filterMap hcalls ha)
    obtain ⟨u', hreach, hlike'', hquiet⟩ := hlike'.rests ht hu' hrest
    obtain ⟨late, hlate, hplayback⟩ := hreach.run
    refine ⟨_, acts' ++ late, u', List.prefix_append .., hpast, hrun₀.trans (hlate _),
      hlike''.counterpart ?_, fun _ => hquiet _⟩
    rw [List.filterMap_append, filterMap_call?_of_isPlayback hplayback, List.append_nil, hcalls]
  · exact ⟨_, acts', u, List.prefix_append .., hpast, hrun₀,
      .of_anew (hlike'.counterpart hcalls.symm), fun h => absurd h hrest⟩

/-- What a new session does without anybody breaking into a look, one in which all has been done can
do as well. -/
theorem Quiescent.lead (hq : s.anew.Quiescent rig) (hn : rig.NeverEnds) (hless : rig.Faultless)
    (h₀ : start rig device s.settings = .ok f) :
    ∃ past, s.requests <+: past ∧ (s.synthesizer = .idle → past = s.requests) ∧
      ∀ acts' u, Run (wholeStep? (rig.onward past)) (f.withVoice voice) acts' u →
        (∀ a ∈ acts', a.isCancel = false) →
        ∃ acts t, Run (heedfulStep? rig) s acts t ∧
          Counterpart (s.frames.voice = voice) s acts t past (f.withVoice voice) acts' u ∧
          (u.AtRest (rig.onward past) → t.AtRest rig) := by
  have hlike : Alike (s.frames.voice = voice) s.anew (f.withVoice voice) s.requests s.anew
      (f.withVoice voice) := hq.alike voice h₀
  obtain ⟨hf, hz⟩ := unbroken_start voice h₀
  obtain ⟨more, work, r, hmore, hwork, hquiet, hr, hin, hstamped, hlike'⟩ :=
    hlike.renewed h₀ hn hless hq
  refine ⟨s.requests ++ more, List.prefix_append .., fun hi => ?_, fun acts' u hrun ha => ?_⟩
  · have hstep : InStep s.generation s (f.withVoice voice) := by
      obtain ⟨-, rfl⟩ := start_eq h₀
      exact hi
    rw [hmore hstep, List.append_nil]
  obtain ⟨acts, t, hrun', hcalls, hin', hstamped', hlike''⟩ :=
    hlike'.leads hin hstamped hn hless hr hf hz hrun ha
  have hcancel : ∀ a ∈ acts, a.isCancel = false := isCancel_of_filterMap hcalls ha
  obtain ⟨ht, -⟩ := hr.run hn hless hrun' hcancel
  have hjoin {late : List Act} {t' : Session} (hreach : Run (wholeStep? rig) t late t')
      (hlate : ∀ a ∈ late, a.isPlayback = true)
      (hend : Alike (s.frames.voice = voice) s.anew (f.withVoice voice) (s.requests ++ more) t' u) :
      Run (heedfulStep? rig) s (work ++ (acts ++ late)) t' ∧
        Counterpart (s.frames.voice = voice) s (work ++ (acts ++ late)) t' (s.requests ++ more)
          (f.withVoice voice) acts' u := by
    have hmade : (acts ++ late).filterMap Act.call? = acts'.filterMap Act.call? := by
      rw [List.filterMap_append, filterMap_call?_of_isPlayback hlate, List.append_nil, hcalls]
    refine ⟨hwork.trans ((hrun'.trans hreach).heedful_of_whole hr.flowing hr.lasts hn
      (isCancel_of_filterMap hmade ha)), hend.counterpart ?_⟩
    rw [List.filterMap_append, hquiet, hmade]
    rfl
  by_cases hrest : u.AtRest (rig.onward (s.requests ++ more))
  · obtain ⟨hu, -⟩ := hf.run (neverEnds_onward hn _) (faultless_onward hless _) hrun ha
    obtain ⟨t', ⟨late, hlate, hplayback⟩, hlike₃, hrest'⟩ :=
      hlike''.rests_back rig hin' hstamped' ht hu hrest
    obtain ⟨hrun₃, hpart⟩ := hjoin hlate hplayback hlike₃
    exact ⟨_, t', hrun₃, hpart, fun _ => hrest'⟩
  · obtain ⟨hrun₃, hpart⟩ := hjoin (.refl t) (by simp) hlike''
    exact ⟨_, t, hrun₃, hpart, fun h => absurd h hrest⟩

end Fresh

/-- Of what has been before nothing is left in a session of which each call has been done or
cancelled: no frame, no job and no flag. Whatever it does from there on, a session that has just
been started under its settings can do as well, and the other way round: the host making the same
calls, it is told the same, and audio of the same lengths is fed. The values of samples are the
same too if the voice source of the new session is in the same state. -/
theorem history_forgotten (hs : s.Settled rig) (hn : rig.NeverEnds) (hless : rig.Faultless) :
    (s.speaking = false ∧ s.jobs.jobs = [] ∧ s.frames.IsClear ∧ s.fadeArmed = true) ∧
    ∀ device f voice, start rig device s.settings = .ok f →
      (∀ acts t, Run (heedfulStep? rig) s acts t → (∀ a ∈ acts, a.isCancel = false) →
        ∃ past acts' u, s.requests <+: past ∧ (s.synthesizer = .idle → past = s.requests) ∧
          Run (heedfulStep? (rig.onward past)) (f.withVoice voice) acts' u ∧
          Counterpart (s.frames.voice = voice) s acts t past (f.withVoice voice)
            acts' u ∧
          (t.AtRest rig → u.AtRest (rig.onward past))) ∧
      ∃ past, s.requests <+: past ∧ (s.synthesizer = .idle → past = s.requests) ∧
        ∀ acts' u, Run (heedfulStep? (rig.onward past)) (f.withVoice voice) acts' u →
          (∀ a ∈ acts', a.isCancel = false) →
          ∃ acts t, Run (heedfulStep? rig) s acts t ∧
            Counterpart (s.frames.voice = voice) s acts t past (f.withVoice voice)
            acts' u ∧
            (u.AtRest (rig.onward past) → t.AtRest rig) := by
  have hq := hs.quiescent hn hless
  refine ⟨hq.clear, fun device f voice h₀ => ⟨fun acts t hrun ha => ?_, ?_⟩⟩
  · obtain ⟨past, acts', u, hprefix, hidle, hrun', hpart, hrest⟩ :=
      hq.follow voice hn hless h₀ hrun ha
    obtain ⟨hf, -⟩ := unbroken_start voice h₀
    exact ⟨past, acts', u, hprefix, hidle, hrun'.heedful_of_whole hf.flowing hf.lasts
      (neverEnds_onward hn _) (isCancel_of_filterMap hpart.calls.symm ha), hpart, hrest⟩
  · obtain ⟨past, hprefix, hidle, hlead⟩ := hq.lead voice hn hless h₀
    refine ⟨past, hprefix, hidle, fun acts' u hrun ha => ?_⟩
    -- The new session can do without anybody breaking into a look, as it follows itself.
    have hnew : (f.withVoice voice).anew.Quiescent (rig.onward past) := by
      rw [anew_start voice h₀]
      exact quiescent_start voice h₀
    have hfresh : (f.withVoice voice).settings = s.settings ∧
        (f.withVoice voice).requests = [] ∧ (f.withVoice voice).synthesizer = .idle := by
      obtain ⟨-, rfl⟩ := start_eq h₀
      exact ⟨rfl, rfl, rfl⟩
    obtain ⟨hsettings, hrequests, hi⟩ := hfresh
    have hstart : start (rig.onward past) device (f.withVoice voice).settings = .ok f :=
      hsettings ▸ h₀
    obtain ⟨none, acts₁, u₁, -, hnone, hrun₁, hpart₁, hrest₁⟩ :=
      hnew.follow voice (neverEnds_onward hn _) (faultless_onward hless _) hstart hrun ha
    obtain rfl : none = [] := (hnone hi).trans hrequests
    obtain ⟨acts, t, hrun', hpart, hrest⟩ :=
      hlead acts₁ u₁ hrun₁ (isCancel_of_filterMap hpart₁.calls.symm ha)
    exact ⟨acts, t, hrun', hpart.exchange hpart₁ rfl, fun h => hrest (hrest₁ h)⟩

/-- A call is cancelled while the synthesizer is at it and the player looks at the queue, another is
made at once, and the synthesizer breaks into the looks of the player for that one. -/
theorem history_forgotten_midway :
    ∃ (s t : Session) (acts : List Act) (f : Session), s.Settled Rig.sample ∧
      Rig.sample.NeverEnds ∧ Rig.sample.Faultless ∧ s.synthesizer ≠ .idle ∧ s.isLooking = true ∧
      start Rig.sample none s.settings = .ok f ∧ s.speaking = false ∧ s.frames.IsClear ∧
      Run (heedfulStep? Rig.sample) s acts t ∧ (∀ a ∈ acts, a.isCancel = false) ∧
      t.AtRest Rig.sample ∧ t.notes = [some 7, none] ∧
      ∃ past acts' u, Run (heedfulStep? (Rig.sample.onward past)) f acts' u ∧
        Counterpart (s.frames.voice = f.frames.voice) s acts t past f acts' u ∧
        u.AtRest (Rig.sample.onward past) := by
  let early : List Act := .call (.speak [.text ['a']] false) ::
    (List.replicate 8 .synthesize ++ List.replicate 4 .play ++
      .call .cancel :: List.replicate 5 .proceed) ++ [.proceed]
  let acts : List Act := .play :: .call (.speak [.text ['b'], .marker 7] false) ::
    (List.replicate 11 .synthesize ++ List.replicate 10 .play ++ List.replicate 3 .synthesize ++
      List.replicate 3 .play ++ List.replicate 4 .synthesize ++ List.replicate 8 .play)
  let f := initial Rig.sample none {}
  let s := after (step? Rig.sample) early f
  let t := after (heedfulStep? Rig.sample) acts s
  have hs : Run (step? Rig.sample) f early s := .after (by decide +kernel)
  have hsettled : s.Settled Rig.sample :=
    .since rfl hs (.inr ⟨_, rfl⟩) (by decide +kernel) (by simp [early, Act.isTerminate]) (.refl s)
      (by simp) (by simp)
  have hr : Run (heedfulStep? Rig.sample) s acts t := .after (by decide +kernel)
  have hn : Rig.sample.NeverEnds := Rig.neverEnds_sample
  have hd : Rig.sample.Faultless := ⟨fun _ => rfl, fun _ => rfl⟩
  have ha : ∀ a ∈ acts, a.isCancel = false := by simp [acts, Act.isCancel]
  have hf : start Rig.sample none s.settings = .ok f := by
    have hsettings : s.settings = {} := by decide +kernel
    rw [hsettings]
    rfl
  have hrest : t.AtRest Rig.sample := by decide +kernel
  obtain ⟨⟨hspeaking, -, hclear, -⟩, hcounterpart⟩ := history_forgotten hsettled hn hd
  obtain ⟨hforward, -⟩ := hcounterpart none f f.frames.voice hf
  obtain ⟨past, acts', u, -, -, hrun, hsame, hstill⟩ := hforward acts _ hr ha
  exact ⟨s, t, acts, f, hsettled, hn, hd, by decide +kernel, by decide +kernel, hf, hspeaking,
    hclear, hr, ha, hrest, by decide +kernel, past, acts', u, hrun, hsame, hstill hrest⟩

/-- A rig whose engine hums by turns for as long as the silence at the end and for longer. -/
def humming : Rig where
  engine := fun past _ =>
    .ok [if past.length % 2 = 0 then .voiced ⟨100, 0.9⟩ 10 0 else .voiced ⟨100, 0.9⟩ 40 40]
  rate := 400
  factory := fun _ _ _ => .ok ()

/-- A session in which a call has been made and done. -/
def hummed : Session :=
  after (heedfulStep? humming)
    (.call (.speak [.text ['a']] false) ::
      (List.replicate 14 .synthesize ++ List.replicate 11 .play))
    (initial humming none {})

/-- Another call, of which the first chunk is fed. -/
def humAgain : List Act :=
  .call (.speak [.text ['b']] false) :: (List.replicate 14 .synthesize ++ List.replicate 6 .play)

/-- The third sample that is fed. -/
def thirdSample (events : List Event) : Option Int16 :=
  (showing events).head?.bind fun e => e.getRight?.bind (·[2]?)

/-- A tone of the resting pitch at the third quarter of a period, the sine being what it is. -/
theorem sound_at_quarter {x : Float32} (hx : x = Float32.ofBits 1083624420) (h₁ : x.sin = -1)
    (h₂ : (2 * x).sin = Float32.ofBits 2999770670) (h₃ : (3 * x).sin = 1) (a : Float32) :
    (Frame.Oscillator.sound 400 ⟨100, a⟩ { phase := Float32.ofBits 1078530011 }).1 =
      Single.toSample (Single.clamp (-1) 1
        ((-1 + 0.5 * Float32.ofBits 2999770670 + 0.25 * 1) / 1.75 * a * Frame.outputGain) *
          32767) := by
  have hphase : Single.rem (Float32.ofBits 1078530011 + Single.tau * 100 / Single.ofCount 400)
      Single.tau = x := by
    rw [hx]
    decide +kernel
  simp only [Frame.Oscillator.sound, hphase, h₁, h₂, h₃]

set_option maxRecDepth 10000 in
/-- What has been done is still heard of: the voice source has its first phase and the resting
pitch, and yet the next frame is not played in the tones of a new session, as it is still loud. The
kernel has no sine, of which three values are taken for granted where samples are compared. -/
theorem amplitude_outlasts :
    hummed.Settled humming ∧ hummed.AtRest humming ∧
    hummed.frames.voice.phase = (initial humming none {}).frames.voice.phase ∧
    hummed.frames.voice.tone.pitch = (initial humming none {}).frames.voice.tone.pitch ∧
    ∃ t u, Run (heedfulStep? humming) hummed humAgain t ∧
      Run (heedfulStep? (humming.onward hummed.requests)) (initial humming none {}) humAgain u ∧
      t.frames.playing.map (·.1.tone 0) ≠ u.frames.playing.map (·.1.tone 0) ∧
      ∀ x : Float32, x = Float32.ofBits 1083624420 → x.sin = -1 →
        (2 * x).sin = Float32.ofBits 2999770670 → (3 * x).sin = 1 →
        ¬ ShownAlike True (t.log.drop hummed.log.length)
          (u.log.drop (initial humming none {}).log.length) := by
  have hs : Run (heedfulStep? humming) (initial humming none {}) _ hummed :=
    .after (by decide +kernel)
  have hsettled : hummed.Settled humming :=
    .since rfl (.refl _) (.inl rfl) rfl (by simp) hs (by simp [Act.isCancel]) (by decide +kernel)
  have ht : Run (heedfulStep? humming) hummed humAgain _ := .after (by decide +kernel)
  have hu : Run (heedfulStep? (humming.onward hummed.requests)) (initial humming none {})
      humAgain _ := .after (by decide +kernel)
  refine ⟨hsettled, by decide +kernel, by decide +kernel, by decide +kernel, _, _, ht, hu,
    by decide +kernel, fun x hx h₁ h₂ h₃ halike => ?_⟩
  have hthird := congrArg (fun shown : List (Option Marker ⊕ List Int16) =>
    shown.head?.bind fun e => e.getRight?.bind (·[2]?)) (halike.2 trivial)
  have hleft : thirdSample ((after (heedfulStep? humming) humAgain hummed).log.drop
      hummed.log.length) = some (Frame.Oscillator.sound 400 ⟨100, Float32.ofBits 1050568295⟩
        { phase := Float32.ofBits 1078530011 }).1 := rfl
  have hright : thirdSample ((after (heedfulStep? (humming.onward hummed.requests)) humAgain
      (initial humming none {})).log.drop (initial humming none {}).log.length) =
        some (Frame.Oscillator.sound 400 ⟨100, Float32.ofBits 1038509670⟩
          { phase := Float32.ofBits 1078530011 }).1 := rfl
  rw [sound_at_quarter hx h₁ h₂ h₃] at hleft hright
  have hne := hleft.symm.trans (hthird.trans hright)
  revert hne
  decide +kernel

end Elocution.Speech.Session
