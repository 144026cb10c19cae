import Elocution.Proofs.Session.Completion
import Elocution.Proofs.Session.Delivery
import Elocution.Proofs.Session.Score

/-!
# Hand-over

What the host may be told at any time, and what has been handed over by then: the notices of the
calls come in order, and a call is done when the frames up to its end, and no frame beyond, have
been handed over. At rest nothing is left to tell.
-/

namespace Elocution.Speech.Session

variable {rig : Rig} {s t : Session} {device : Option String} {settings : VoiceSettings}
  {begun : List (VoiceSettings × Saying)} {waiting : List Saying}

theorem delivered_start (h : start rig device settings = .ok s) :
    s.Delivered ∧ s.Prompt ∧ s.Orderly := by
  obtain ⟨-, rfl⟩ := start_eq h
  exact ⟨⟨rfl, rfl, rfl, List.suffix_rfl, by simp [initial, Player.turn]⟩, rfl,
    ⟨List.Sublist.refl _, rfl⟩⟩

/-- What has been handed over or done comes first in what there is to tell. -/
theorem Scored.told_append (h : s.Scored rig begun waiting) (hd : s.Delivered) :
    told s.log s.handed ++ (s.player.turn ++ s.frames.marks ++
      rig.recite s.requests (s.synthesizer.items rig)) = rig.notices [] begun := by
  rw [← Rig.recite_score, ← h.marks, hd.marks]
  simp only [List.append_assoc]

/-- Where no party has anything left to do, nothing is under way. -/
theorem Flowing.clear_of_atRest (h : s.Flowing) (ho : s.Open) (hr : s.AtRest rig) :
    s.synthesizer = .idle ∧ s.jobs.jobs = [] ∧ s.player = .waiting ∧ s.frames.IsClear := by
  have hg : s.isGated = false := by simp [isGated, hr.host]
  obtain ⟨hi, hj⟩ := idle_of_synthesize? ho hg hr.synthesis
  have hplayer : s.player = .waiting := by
    obtain ⟨⟨hp, -⟩ | ⟨stamp, hp⟩, -⟩ := waiting_of_play? ho hg hr.playback
    · exact hp
    · have hpatience := hr.patience
      simp [expire?, hp] at hpatience
  have hbalance := h.balance
  rw [owed_of_atRest ho hr] at hbalance
  refine ⟨hi, hj, hplayer, (h.closed (by simp [hi])).isClear ?_⟩
  simp only [unended] at hbalance
  omega

/-- At rest all calls have been begun, and all that there is to tell has been handed over. -/
theorem Scored.atRest (h : s.Scored rig begun waiting) (hd : s.Delivered) (hf : s.Flowing)
    (ho : s.Open) (hr : s.AtRest rig) :
    waiting = [] ∧ told s.log s.handed = rig.notices [] begun ∧
      s.requests = Item.requests (rig.score begun) := by
  obtain ⟨hi, hj, hp, hclear⟩ := hf.clear_of_atRest ho hr
  have htold := h.told_append hd
  have hrequests := h.requests
  have hjobs := h.jobs
  have hmarks : s.frames.marks = [] := by
    simp [Frame.Queue.marks, Frame.Queue.playingMarks, hclear.1, hclear.2]
  rw [hi, hj] at hjobs
  rw [hi] at hrequests
  rw [hi, hp, hmarks] at htold
  refine ⟨?_, ?_, ?_⟩
  · simpa [Synthesizer.fetched?] using hjobs.symm
  · simpa [Synthesizer.items, Player.turn, Rig.recite] using htold
  · simpa [Synthesizer.items] using hrequests

/-- The end of an utterance at the same count is the same end. -/
theorem eq_of_count_none {marks left right : List (Option Marker)}
    (hl : left ++ [none] <+: marks) (hr : right ++ [none] <+: marks)
    (hc : left.count none = right.count none) : left = right := by
  have hproper {left right : List (Option Marker)} (h : left ++ [none] <+: right ++ [none])
      (hc : left.count none = right.count none) : left = right := by
    rcases List.prefix_concat_iff.mp h with heq | hlt
    · exact List.append_cancel_right heq
    · have hle := hlt.sublist.count_le none
      rw [List.count_append, List.count_singleton_self] at hle
      omega
  rcases List.prefix_or_prefix_of_prefix hl hr with h | h
  · exact hproper h hc
  · exact (hproper h hc.symm).symm

/-- All that has been queued of the calls up to `k`, and nothing of a later one, has been handed
over: the frames up to the one that ends call `k`. -/
structure HandedOver (rig : Rig) (begun : List (VoiceSettings × Saying)) (k : Nat)
    (before : List Frame) (s : Session) : Prop where
  queued : s.queued = before ++ s.frames.pending
  playing : s.frames.playing = none
  /-- The last of these frames is the end of a call, by `calls` that of call `k`. -/
  boundary : ∃ earlier f, before = earlier ++ [f] ∧ f.endsUtterance = true
  calls : before.flatMap Frame.marks = rig.notices [] (begun.take k)
  samples : (s.handed.map fun c => c.samples.length).sum =
    (before.map (Frame.samples s.frames.rate)).sum
  markers : s.handed.flatMap Frame.Chunk.markers = before.filterMap Frame.marker

/-- When the player is about to report a job as done, the frames of that job are out of the
buffer. -/
theorem Scored.handedOver (h : s.Scored rig begun waiting) (hd : s.Delivered) (hf : s.Flowing)
    (hz : s.generation = 0) {stamp : Stamp} (hp : s.player = .completing stamp) :
    s.done < begun.length ∧ ∃ before, HandedOver rig begun (s.done + 1) before s := by
  have hstamp := hf.stamp_of_zero hz (by rw [hp]; rfl : s.player.stamp? = some stamp)
  have hplaying : s.frames.playing = none := hf.ended (by simp [hp, Player.past, hstamp])
  have hmarks := hd.marks
  have hsamples := hd.samples
  have htold := h.told_append hd
  simp only [hp, Player.turn, Player.carries, Nat.add_zero] at hmarks hsamples htold
  obtain ⟨f, hend, earlier, hqueued⟩ := hd.parted (by rw [hp]; exact List.mem_singleton_self none)
  obtain ⟨before, hbound, hqueued⟩ :
      ∃ before, before = earlier ++ [f] ∧ before ++ s.frames.pending = s.queued :=
    ⟨_, rfl, by rw [← hqueued, List.append_assoc]; rfl⟩
  have hpending : s.frames.marks = s.frames.pending.flatMap Frame.marks := by
    simp [Frame.Queue.marks, Frame.Queue.playingMarks, hplaying]
  have hbefore : before.flatMap Frame.marks = told s.log s.handed ++ [none] := by
    rw [← hqueued, List.flatMap_append, hpending] at hmarks
    exact List.append_cancel_right hmarks
  have hcome : told s.log s.handed ++ [none] <+: rig.notices [] begun := by
    rw [← htold, ← List.append_assoc, ← List.append_assoc, List.append_assoc _ s.frames.marks]
    exact List.prefix_append ..
  have hcount : (told s.log s.handed).count none = s.done := count_told
  have hlt : s.done < begun.length := by
    have hle := hcome.sublist.count_le none
    rw [Rig.count_notices, List.count_append, List.count_singleton_self, hcount] at hle
    exact hle
  have hcalls : told s.log s.handed ++ [none] = rig.notices [] (begun.take (s.done + 1)) := by
    obtain ⟨marks, hlast⟩ :=
      rig.notices_concat [] (begun.take s.done) (begun[s.done])
    rw [List.take_append_getElem hlt] at hlast
    have hfirst : rig.notices [] (begun.take (s.done + 1)) <+: rig.notices [] begun := by
      have hgrow := rig.notices_grow [] (begun.take (s.done + 1))
        (begun.drop (s.done + 1))
      rwa [List.take_append_drop] at hgrow
    have hends := rig.count_notices [] (begun.take (s.done + 1))
    rw [hlast] at hfirst hends ⊢
    rw [List.count_append, List.count_singleton_self, List.length_take] at hends
    rw [eq_of_count_none hcome hfirst (by omega)]
  refine ⟨hlt, before, ⟨hqueued.symm, hplaying, ⟨earlier, f, hbound, hend⟩,
    hbefore.trans hcalls, ?_, ?_⟩⟩
  · simp only [← hqueued, List.map_append, List.sum_append, Frame.Queue.left,
      hplaying] at hsamples
    omega
  · have hhanded := reduceOption_told hd.feeds
    have hframes := congrArg (List.filterMap id) hbefore
    rw [List.filterMap_append, hhanded] at hframes
    rw [Frame.reduceOption_flatMap_marks] at hframes
    simpa using hframes.symm

end Elocution.Speech.Session
