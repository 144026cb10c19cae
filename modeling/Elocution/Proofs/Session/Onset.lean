import Elocution.Proofs.Chronicle
import Elocution.Proofs.Session.Delivery

/-!
# Onsets

Audio that starts from silence is ramped up, and no other audio is: a device is silent at its
start, after each job that is done and when a cancellation has stopped it, until it is given a
chunk with samples in it. The player knows this from a flag that it shares with the host.
-/

namespace Elocution.Output

theorem isEmpty_fadeIn (ramp : Nat) (samples : List Int16) :
    (fadeIn ramp samples).isEmpty = samples.isEmpty := by
  rw [Bool.eq_iff_iff, List.isEmpty_iff_length_eq_zero, List.isEmpty_iff_length_eq_zero,
    length_fadeIn]

end Elocution.Output

namespace Elocution.Speech

/-- Whether a device that has been silent or not is silent after this. -/
def Event.hushes (silent : Bool) : Event → Bool
  | .done | .stopped => true
  | .fed samples _ _ => silent && samples.isEmpty
  | _ => silent

/-- Whether the device is silent after these events. -/
def silentAfter (log : List Event) : Bool := log.foldl Event.hushes true

/-- Leaves the device as silent as it was. -/
def Event.isMute : Event → Bool
  | .done | .stopped | .fed .. => false
  | _ => true

/-- The audio of the chunk that an event hands over: of `handed`, the chunk of that number, ramped
up after silence. -/
def Event.Ramps (ramp : Nat) (handed : List Frame.Chunk) (before : List Event) : Event → Prop
  | .fed samples _ _ => ∃ chunk, handed[before.countP Event.isFed]? = some chunk ∧
      samples = if silentAfter before && !chunk.samples.isEmpty then
        Output.fadeIn ramp chunk.samples else chunk.samples
  | _ => True

section Silence

variable {log more : List Event} {ramp : Nat} {handed : List Frame.Chunk}

theorem silentAfter_concat (log : List Event) (e : Event) :
    silentAfter (log ++ [e]) = e.hushes (silentAfter log) := by
  simp [silentAfter]

theorem Event.hushes_of_isMute {e : Event} (h : e.isMute = true) (silent : Bool) :
    e.hushes silent = silent := by
  cases e <;> simp_all [isMute, hushes]

theorem Event.isFed_of_isMute {e : Event} (h : e.isMute = true) : e.isFed = false := by
  cases e <;> simp_all [isMute, isFed]

theorem Event.ramps_of_isMute {e : Event} (h : e.isMute = true) :
    e.Ramps ramp handed log := by
  cases e <;> simp_all [isMute, Ramps]

theorem silentAfter_append (h : ∀ e ∈ more, e.isMute = true) :
    silentAfter (log ++ more) = silentAfter log := by
  induction more generalizing log with
  | nil => simp
  | cons e rest ih =>
    rw [List.append_cons, ih fun x hx => h x (List.mem_cons_of_mem _ hx), silentAfter_concat,
      e.hushes_of_isMute (h e List.mem_cons_self)]

/-- A chunk handed over later leaves the record of those before. -/
theorem Event.Ramps.grow {e : Event} (chunk : Frame.Chunk)
    (h : e.Ramps ramp handed log) : e.Ramps ramp (handed ++ [chunk]) log := by
  cases e with
  | fed samples withCall failed =>
    obtain ⟨c, hc, hs⟩ := h
    exact ⟨c, List.getElem?_append_left (List.getElem?_eq_some_iff.mp hc).1 ▸ hc, hs⟩
  | _ => trivial

end Silence

/-- The chunk that the player holds. -/
def Player.chunk? : Player → Option Frame.Chunk
  | .delivering _ chunk => some chunk
  | _ => none

namespace Session

section Rendered

variable (rig : Rig)

end Rendered

/-- The fade is armed where the device is silent, unless a cancellation that has stopped the device
is still to arm it. -/
structure Attuned (rig : Rig) (s : Session) : Prop where
  armed : .stopDevice ∈ s.host ∨ .armFade ∉ s.host → s.fadeArmed = silentAfter s.log
  hushed : .stopDevice ∉ s.host → .armFade ∈ s.host → silentAfter s.log = true
  /-- Once audio has been handed over, no device is opened before the fade is armed again. -/
  spent : s.fadeArmed = false → (∀ stamp, s.player ≠ .opening stamp) ∧
    (s.player = .stopped ∨ .lowerSpeaking ∉ s.host ∧ .armFade ∈ s.host ∨
      s.speaking = true ∧ s.player.taken? = some s.generation)
  feeds : s.log.countP Event.isFed = s.handed.length
  record : Chronicle (Event.Ramps rig.ramp s.handed) s.log

variable {rig : Rig} {s t : Session}

/-- Which of the earlier tasks of a cancellation are left after one of its tasks. -/
theorem Cancelled.later {task : HostTask} {rest : List HostTask} (h : s.Cancelled (task :: rest)) :
    .lowerSpeaking ∉ rest ∧ (.stopDevice ∈ rest ↔ task = .lowerSpeaking) ∧
      (.armFade ∈ rest ↔ task = .lowerSpeaking ∨ task = .stopDevice ∨ task = .advance) := by
  have hall : ∀ left ∈ HostTask.termination.tails ++ HostTask.cancellation.tails,
      ∀ task ∈ left.head?, .lowerSpeaking ∉ left.tail ∧
        (.stopDevice ∈ left.tail ↔ task = .lowerSpeaking) ∧
        (.armFade ∈ left.tail ↔
          task = .lowerSpeaking ∨ task = .stopDevice ∨ task = .advance) := by decide
  exact hall _ h.mem_tails task rfl

theorem Cancelled.lowerSpeaking_notMem {left : List HostTask} (h : s.Cancelled left)
    (hs : .stopDevice ∉ left) : .lowerSpeaking ∉ left := by
  have hall : ∀ left ∈ HostTask.termination.tails ++ HostTask.cancellation.tails,
      .stopDevice ∉ left → .lowerSpeaking ∉ left := by decide
  exact hall _ h.mem_tails hs

/-- Between the stop of the device and the arming of the fade the generation of the player's job
has passed, or the gate is held. -/
theorem armFade_notMem (hc : s.host ≠ [] → s.Cancelled s.host) (hg : s.isGated = false)
    (hp : s.player.stamp? = some s.generation) (hl : .lowerSpeaking ∉ s.host) :
    .armFade ∉ s.host := by
  intro ha
  have hcancel := hc (List.ne_nil_of_mem ha)
  have hstale := hcancel.stale (hcancel.advance_notMem hg hl)
  exact Nat.lt_irrefl _ (hstale.player _ hp)

theorem isMute_of_mem_reports {c : Call} {e : Event} (he : e ∈ s.reports c) :
    e.isMute = true := by
  unfold reports at he
  split at he
  · obtain ⟨m, -, rfl⟩ := List.mem_map.mp he
    rfl
  · simp at he

/-- Events that leave the device as it was. -/
theorem Attuned.note {more : List Event} (h : s.Attuned rig) (hm : ∀ e ∈ more, e.isMute = true) :
    Attuned rig { s with log := s.log ++ more } := by
  have hfed : more.countP Event.isFed = 0 := by
    rw [List.countP_eq_zero]
    exact fun e he => by simp [Event.isFed_of_isMute (hm e he)]
  have hsilent : silentAfter (s.log ++ more) = silentAfter s.log := silentAfter_append hm
  refine ⟨?_, ?_, h.spent, ?_, h.record.append fun e he _ => Event.ramps_of_isMute (hm e he)⟩
  · simpa only [hsilent] using h.armed
  · simpa only [hsilent] using h.hushed
  · rw [List.countP_append, hfed]
    exact h.feeds

/-- The player moves on, and not to open a device. -/
theorem Attuned.turn (h : s.Attuned rig) (p : Player) (ho : ∀ stamp, p ≠ .opening stamp)
    (hp : s.speaking = true → s.player.taken? = some s.generation →
      p = .stopped ∨ p.taken? = some s.generation) (hs : s.player = .stopped → p = .stopped) :
    Attuned rig { s with player := p } := by
  refine { h with spent := fun hf => ⟨ho, ?_⟩ }
  obtain ⟨-, hstop | hcancel | ⟨hl, htaken⟩⟩ := h.spent hf
  · exact .inl (hs hstop)
  · exact .inr (.inl hcancel)
  · exact (hp hl htaken).imp_right fun ht => .inr ⟨hl, ht⟩

/-- The player goes on with its job. -/
theorem Attuned.goOn {old : Player} (h : s.Attuned rig) (p : Player) (hp : s.player = old)
    (ht : p.taken? = old.taken?) (hs : old ≠ .stopped) (ho : ∀ stamp, p ≠ .opening stamp) :
    Attuned rig { s with player := p } := by
  subst hp
  exact h.turn p ho (fun _ hg => .inr (ht.trans hg)) fun hstop => absurd hstop hs

/-- A job that is not live leaves the player without one. -/
theorem Attuned.drop {old : Player} {stamp : Stamp} (h : s.Attuned rig) (hp : s.player = old)
    (ht : old.taken? = some stamp) (hl : s.isLive stamp = false) :
    Attuned rig { s with player := .waiting } := by
  subst hp
  refine h.turn .waiting (by simp) (fun hs hg => ?_) fun hstop => ?_
  · have hlive : s.isLive stamp = true :=
      isLive_iff.mpr ⟨hs, (Option.some.inj (ht.symm.trans hg)).symm⟩
    simp [hlive] at hl
  · simp [hstop, Player.taken?, Player.stamp?] at ht

theorem Attuned.synthesis (h : s.Attuned rig) (hst : Synthesis rig s t) : t.Attuned rig := by
  cases hst with
  | kick =>
    refine { h with spent := fun hf => (h.spent hf).imp_right ?_ }
    exact Or.imp_right (Or.imp_right fun hs => ⟨rfl, hs.2⟩)
  | _ => exact { h with }

/-- The device is silent when one is about to be opened. -/
theorem Attuned.silent_of_opening (h : s.Attuned rig) {stamp : Stamp}
    (hp : s.player = .opening stamp) : s.fadeArmed = true ∧ silentAfter s.log = true := by
  have hf : s.fadeArmed = true := by
    by_contra hf
    exact (h.spent (by simpa using hf)).1 stamp hp
  refine ⟨hf, ?_⟩
  by_cases hw : .stopDevice ∈ s.host ∨ .armFade ∉ s.host
  · rw [← h.armed hw, hf]
  · rw [not_or, not_not] at hw
    exact h.hushed hw.1 hw.2

/-- Audio is handed over only while the flag tells whether the device is silent. -/
theorem Attuned.armed_of_live (h : s.Attuned rig) (hc : s.host ≠ [] → s.Cancelled s.host)
    (hg : s.isGated = false) (hp : s.player.stamp? = some s.generation) :
    s.fadeArmed = silentAfter s.log ∧ (.stopDevice ∈ s.host ∨ .armFade ∉ s.host) := by
  have hw : .stopDevice ∈ s.host ∨ .armFade ∉ s.host := by
    by_cases hs : .stopDevice ∈ s.host
    · exact .inl hs
    · refine .inr fun ha => ?_
      have hl : .lowerSpeaking ∉ s.host := (hc (List.ne_nil_of_mem ha)).lowerSpeaking_notMem hs
      exact armFade_notMem hc hg hp hl ha
  exact ⟨h.armed hw, hw⟩

theorem Attuned.playback (h : s.Attuned rig) (hc : s.host ≠ [] → s.Cancelled s.host)
    (hst : Playback rig s t) : t.Attuned rig := by
  cases hst with
  | @turnTo stamp ds ss hp hx =>
    exact { h.turn (.starting stamp) (by simp) (by simp [hp, Player.taken?, Player.stamp?])
      (by simp [hp]) with }
  | disregard => exact { h with }
  | leave => exact { h.turn .stopped (by simp) (fun _ _ => .inl rfl) (fun _ => rfl) with }
  | @takeUp stamp hp hg hgen =>
    refine { h with spent := fun hf => ?_ }
    obtain ⟨-, hstop | ⟨hl, ha⟩ | ⟨-, ht⟩⟩ := h.spent hf
    · simp [hp] at hstop
    · exact absurd ha (armFade_notMem hc hg (by rw [hp, hgen]; rfl) hl)
    · simp [hp, Player.taken?] at ht
  | decline hp =>
    exact h.turn .waiting (by simp) (by simp [hp, Player.taken?]) (by simp [hp])
  | keepDevice hp => exact h.goOn _ hp rfl (by simp) (by simp)
  | @missDevice stamp fault hp =>
    exact { (h.note (List.forall_mem_singleton.mpr rfl)).goOn (.checking stamp) hp rfl (by simp)
      (by simp) with }
  | @switchDevice stamp hp hf =>
    obtain ⟨harmed, hsilent⟩ := h.silent_of_opening hp
    have hmore : silentAfter (s.log ++ [.opened s.slot.requested, .stopped]) = true := by
      rw [List.append_cons, silentAfter_concat]
      rfl
    refine ⟨fun _ => harmed.trans hmore.symm, fun _ _ => hmore, fun hf => ?_, ?_, ?_⟩
    · simp [harmed] at hf
    · simpa [Event.isFed] using h.feeds
    · exact h.record.append fun e he _ => by
        rcases List.mem_pair.mp he with rfl | rfl <;> trivial
  | look hp => exact h.goOn _ hp rfl (by simp) (by simp)
  | lapse hp hl => exact h.drop hp rfl hl
  | @render stamp hp =>
    exact { h.goOn (.delivering stamp (s.frames.render rig.chunk).1) hp rfl (by simp)
      (by simp) with }
  | @renderEnd stamp hp => exact { h.goOn (.draining stamp) hp rfl (by simp) (by simp) with }
  | @renderNone stamp hp => exact { h.goOn (.testing stamp) hp rfl (by simp) (by simp) with }
  | hear => exact { h.note fun e he => isMute_of_mem_reports he with }
  | @feed stamp chunk samples failed calls hp hg hm hl hgen hs hf hk =>
    obtain ⟨harmed, hw⟩ := h.armed_of_live hc hg (by rw [hp, hgen]; rfl)
    have hempty : samples.isEmpty = chunk.samples.isEmpty := by
      rw [hs]
      split
      · exact Output.isEmpty_fadeIn ..
      · rfl
    have hsilent : silentAfter (s.log ++ [.fed samples (!chunk.markers.isEmpty) failed]) =
        (s.fadeArmed && chunk.samples.isEmpty) := by
      rw [silentAfter_concat, Event.hushes, ← harmed, hempty]
    refine ⟨fun _ => ?_, fun hn ha => ?_, fun _ => ⟨?_, .inr (.inr ⟨hl, ?_⟩)⟩, ?_, ?_⟩
    · rw [hsilent]
      cases s.fadeArmed <;> simp
    · exact absurd hw (by simp [hn, ha])
    · cases chunk.finished <;> simp
    · rw [hgen]
      cases chunk.finished <;> rfl
    · simp [List.countP_append, Event.isFed, h.feeds]
    · refine Chronicle.concat_iff.mpr ⟨h.record.mono fun _ _ => .grow chunk, chunk, ?_, ?_⟩
      · rw [h.feeds, List.getElem?_concat_length]
      · rw [hs, harmed]
  | discard hp hl => exact h.drop hp rfl hl
  | endJob hp => exact h.goOn _ hp rfl (by simp) (by simp)
  | await hp => exact h.goOn _ hp rfl (by simp) (by simp)
  | @putOff stamp other rest hp =>
    exact { h.goOn (.checking stamp) hp rfl (by simp) (by simp) with }
  | @lookAgain stamp rest hp =>
    exact { h.goOn (.checking stamp) hp rfl (by simp) (by simp) with }
  | quit => exact { h.turn .stopped (by simp) (fun _ _ => .inl rfl) (fun _ => rfl) with }
  | @idle stamp failed hp hf =>
    refine { (h.note (List.forall_mem_singleton.mpr rfl)).goOn
      (if failed then .completing stamp else .idling stamp) hp ?_ (by simp) ?_ with }
    · cases failed <;> rfl
    · cases failed <;> simp
  | idled hp => exact h.goOn _ hp rfl (by simp) (by simp)
  | @conclude stamp hp hg hl hgen =>
    have hsilent : silentAfter (s.log ++ [.done]) = true := silentAfter_concat ..
    refine ⟨fun _ => hsilent.symm, fun _ _ => hsilent, fun hf => absurd hf (by simp), ?_, ?_⟩
    · simpa [Event.isFed] using h.feeds
    · exact Chronicle.concat_iff.mpr ⟨h.record, trivial⟩
  | forget hp hl => exact h.drop hp rfl hl

theorem Attuned.proceed {task : HostTask} {rest : List HostTask} (h : s.Attuned rig)
    (hc : s.Cancelled (task :: rest)) (hh : s.host = task :: rest) :
    Attuned rig { s.perform rig task with host := rest } := by
  obtain ⟨hlower, hstop, harm⟩ := hc.later
  have harmed := h.armed
  have hhushed := h.hushed
  rw [hh] at harmed hhushed
  have hpending (hf : s.fadeArmed = false) (ha : .armFade ∈ rest) (p : Prop) :
      (∀ stamp, s.player ≠ .opening stamp) ∧
        (s.player = .stopped ∨ .lowerSpeaking ∉ rest ∧ .armFade ∈ rest ∨ p) :=
    ⟨(h.spent hf).1, .inr (.inl ⟨hlower, ha⟩)⟩
  have hdone (ht : task ≠ .armFade) (ha : .armFade ∉ rest) : s.fadeArmed = true :=
    hc.armed (by simp [ha, Ne.symm ht])
  cases task with
  | lowerSpeaking =>
    have hs : .stopDevice ∈ rest := hstop.mpr rfl
    have ha : .armFade ∈ rest := harm.mpr (.inl rfl)
    exact ⟨fun _ => harmed (.inl (List.mem_cons_of_mem _ hs)), fun hn => absurd hs hn,
      fun hf => hpending hf ha _, h.feeds, h.record⟩
  | stopDevice =>
    have hs : .stopDevice ∉ rest := by simp [hstop]
    have ha : .armFade ∈ rest := harm.mpr (.inr (.inl rfl))
    have hsilent : silentAfter (s.log ++ [Event.stopped]) = true :=
      silentAfter_concat ..
    have hfeeds : (s.log ++ [Event.stopped]).countP Event.isFed = s.handed.length := by
      simpa [Event.isFed] using h.feeds
    have hrecord : Chronicle (Event.Ramps rig.ramp s.handed) (s.log ++ [Event.stopped]) :=
      Chronicle.concat_iff.mpr ⟨h.record, trivial⟩
    rw [perform_stopDevice]
    exact ⟨fun hor => absurd hor (by simp [hs, ha]), fun _ _ => hsilent,
      fun hf => hpending hf ha _, hfeeds, hrecord⟩
  | advance =>
    have hs : .stopDevice ∉ rest := by simp [hstop]
    have ha : .armFade ∈ rest := harm.mpr (.inr (.inr rfl))
    exact ⟨fun hor => absurd hor (by simp [hs, ha]),
      fun _ _ => hhushed (by simp [hs]) (List.mem_cons_of_mem _ ha),
      fun hf => hpending hf ha _, h.feeds, h.record⟩
  | armFade =>
    have hs : .stopDevice ∉ rest := by simp [hstop]
    have ha : .armFade ∉ rest := by simp [harm]
    exact ⟨fun _ => (hhushed (by simp [hs]) List.mem_cons_self).symm, fun _ hn => absurd hn ha,
      fun hf => absurd hf (by simp [perform]), h.feeds, h.record⟩
  | _ =>
    have ha : .armFade ∉ rest := by simp [harm]
    have hf := hdone (by simp) ha
    exact ⟨fun _ => harmed (.inr (by simp [ha])), fun _ hn => absurd hn ha,
      fun hn => absurd (hf.symm.trans hn) (by simp), h.feeds, h.record⟩

theorem Attuned.step {a : Act} (h : s.Attuned rig) (hc : s.host ≠ [] → s.Cancelled s.host)
    (hst : Step rig s a t) : t.Attuned rig := by
  cases hst with
  | call hh hcall =>
    have harmed : s.fadeArmed = silentAfter s.log := h.armed (by simp [hh])
    have hspent (hf : s.fadeArmed = false) : (∀ stamp, s.player ≠ .opening stamp) ∧
        (s.player = .stopped ∨ s.speaking = true ∧ s.player.taken? = some s.generation) := by
      simpa [hh] using h.spent hf
    have hbegin {tasks : List HostTask} (ht : .stopDevice ∈ tasks) :
        Attuned rig { s with host := tasks } :=
      ⟨fun _ => harmed, fun hn => absurd ht hn,
        fun hf => (hspent hf).imp_right (Or.imp_right .inr), h.feeds, h.record⟩
    cases hcall with
    | cancel => exact hbegin (by decide)
    | terminate => exact hbegin (by decide)
    | pause => exact { h.note (List.forall_mem_singleton.mpr rfl) with }
    | _ => exact { h with }
  | proceed hh => exact h.proceed (hh ▸ hc (by simp [hh])) hh
  | synthesize hs => exact h.synthesis hs
  | play hp => exact h.playback hc hp
  | expire hp => exact h.goOn _ hp rfl (by simp) (by simp)
  | sound => exact { h.note fun e he => isMute_of_mem_reports he with }
  | callBack => exact { h.note fun e he => isMute_of_mem_reports he with }

/-- The chunks that have been handed over, and the one at hand. -/
def taken (s : Session) : List Frame.Chunk := s.handed ++ s.player.chunk?.toList

section Runs

variable {device : Option String} {settings : VoiceSettings} {acts : List Act}

end Runs

end Session

end Elocution.Speech
