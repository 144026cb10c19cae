import Elocution.Proofs.Frame.Shaping

/-!
# The voices of a clause

Shaping changes neither the tone nor the duration of a voiced frame, and what it adds is silent.
The voices still to be heard of a clause are read off the frames that are still to be shaped.
-/

namespace Elocution.Frame

/-- The voice of a frame and how long it is held. -/
def sound? (f : Frame) : Option (Tone × Float32) := f.tone.map (·, f.duration)

theorem sound?_of_silent {f : Frame} (h : f.isVoiced = false) : f.sound? = none := by
  have hnone : f.tone = none := by simpa [isVoiced] using h
  rw [sound?, hnone]
  rfl

namespace Shaper

/-- The voices still to be heard of a clause. -/
def sounds (s : Shaper) (frames : List Frame) : List (Tone × Float32) :=
  (s.spilled.toList ++ frames).filterMap sound?

variable {s next : Shaper} {f : Frame} {frames rest : List Frame}

theorem sound?_dedupe (s : Shaper) (f : Frame) : (s.dedupe f).1.sound? = f.sound? := by
  unfold dedupe
  split
  · rfl
  · split <;> rfl

theorem sound?_shapeVoiced (s : Shaper) (f : Frame) :
    (s.shapeVoiced f).1.sound? = f.sound? ∧ (s.shapeVoiced f).2.spilled = s.spilled := by
  unfold shapeVoiced
  dsimp only
  split
  · rw [sound?_dedupe, spilled_dedupe]
    split <;> exact ⟨rfl, rfl⟩
  · rw [sound?_dedupe, spilled_dedupe]
    refine ⟨?_, rfl⟩
    by_cases h : s.seenVoiced = true
    · rw [if_pos h]
      rfl
    · rw [if_neg h]
      rfl

theorem isVoiced_fadeSilence (s : Shaper) (f : Frame) :
    (s.fadeSilence f).1.isVoiced = f.isVoiced := by
  unfold fadeSilence
  dsimp only
  split <;> split <;> rfl

theorem sound?_shapeSilence (s : Shaper) (hf : f.isVoiced = false) (hs : s.spilled = none) :
    (s.shapeSilence f).1.sound? = none ∧
      (s.shapeSilence f).2.spilled.toList.filterMap sound? = [] := by
  obtain ⟨-, -, -, hspilled⟩ := s.fadeSilence_eq f
  have hbare : { (s.fadeSilence f).1 with marker := none }.sound? = none :=
    sound?_of_silent ((s.isVoiced_fadeSilence f).trans hf)
  have hnone : (s.fadeSilence f).2.spilled.toList.filterMap sound? = [] := by
    rw [hspilled, hs]
    rfl
  unfold shapeSilence
  dsimp only
  split
  · rw [sound?_dedupe, spilled_dedupe]
    exact ⟨hbare, hnone⟩
  · split
    · rw [sound?_dedupe, spilled_dedupe]
      exact ⟨hbare, hnone⟩
    · split
      · rw [sound?_dedupe, spilled_dedupe]
        exact ⟨hbare, hnone⟩
      · rw [sound?_dedupe, spilled_dedupe]
        refine ⟨rfl, ?_⟩
        rw [Option.toList_some, List.filterMap_cons, hbare]
        rfl

/-- A frame that leaves takes its voice, if it has one, off those still to be heard. -/
theorem sounds_next (h : s.next frames = (some f, next, rest)) :
    s.sounds frames = f.sound?.toList ++ next.sounds rest := by
  have htake (f : Frame) (more : List Frame) :
      (f :: more).filterMap sound? = f.sound?.toList ++ more.filterMap sound? := by
    rw [List.filterMap_cons]
    cases f.sound? <;> rfl
  obtain ⟨hs, rfl, rfl⟩ | ⟨hs, g, rfl, rfl, rfl⟩ | ⟨hs, rfl, rfl, m, -, -, rfl, rfl⟩ :=
    next_cases h
  · rw [sounds, hs]
    exact htake f rest
  · rw [sounds, sounds, hs, Option.toList_none, List.nil_append, htake, List.filterMap_append]
    cases hg : g.isVoiced with
    | true =>
      obtain ⟨hsound, hspilled⟩ := s.sound?_shapeVoiced g
      rw [shape, if_pos hg, hsound, hspilled, hs]
      rfl
    | false =>
      obtain ⟨hsound, hspilled⟩ := s.sound?_shapeSilence hg hs
      rw [shape, if_neg (by simp [hg]), hsound, hspilled, sound?_of_silent hg]
      rfl
  · rw [sounds, hs]
    rfl

theorem sounds_of_next_none (h : s.next frames = (none, next, rest)) : s.sounds frames = [] := by
  obtain ⟨hs, rfl, -⟩ := next_none h
  rw [sounds, hs]
  rfl

end Shaper

end Elocution.Frame
