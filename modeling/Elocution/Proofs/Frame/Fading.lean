import Elocution.Proofs.Frame.Yield
import Elocution.Proofs.Single.Order

/-!
# Fades from voice to silence

Within a clause no voice breaks off: the first silence after it that takes any time glides in over
no less than the least fade. What the shaper cannot see is the voice of the clause before, so that
the silence that leads a clause keeps the fade that the engine gave it.
-/

namespace Elocution

namespace Frame

/-- Whether the last of the frames that take time is voiced. -/
def endsVoiced (frames : List Frame) : Bool :=
  frames.foldl (fun voiced f => if f.isTimed then f.isVoiced else voiced) false

theorem endsVoiced_concat (frames : List Frame) (f : Frame) :
    endsVoiced (frames ++ [f]) = if f.isTimed then f.isVoiced else endsVoiced frames := by
  simp [endsVoiced]

/-- Silence that takes time ends voice. -/
theorem endsVoiced_append {before lead : List Frame} (hl : ∀ f ∈ lead, f.isVoiced = false)
    (he : endsVoiced (before ++ lead) = true) :
    endsVoiced before = true ∧ ∀ f ∈ lead, f.isTimed = false := by
  induction lead using List.reverseRecOn with
  | nil => exact ⟨by simpa using he, by simp⟩
  | append_singleton lead f ih =>
    rw [← List.append_assoc, endsVoiced_concat, hl f (by simp)] at he
    have hf : f.isTimed = false := by
      by_contra ht
      simp [ht] at he
    obtain ⟨hbefore, hlead⟩ := ih (fun g hg => hl g (by simp [hg])) (by simpa [hf] using he)
    refine ⟨hbefore, fun g hg => ?_⟩
    rcases List.mem_append.mp hg with hg | hg
    · exact hlead g hg
    · exact List.mem_singleton.mp hg ▸ hf

/-- The marker matters neither to what a frame sounds like nor to how long it takes. -/
theorem timing_of_bare {f g : Frame} (h : f.bare = g.bare) :
    f.isTimed = g.isTimed ∧ f.isVoiced = g.isVoiced ∧ f.fade = g.fade := by
  have htimed := congrArg isTimed h
  have hvoiced := congrArg isVoiced h
  have hfade := congrArg Frame.fade h
  exact ⟨htimed, hvoiced, hfade⟩

theorem isTimed_silence_zero : (silence 0 0).isTimed = false := by decide

theorem minFadeOut_le_self : minFadeOut ≤ minFadeOut := by decide +kernel

theorem minFadeOut_le_maxNum (fade : Float32) : minFadeOut ≤ Single.maxNum fade minFadeOut :=
  Single.le_maxNum (by decide +kernel) minFadeOut_le_self

namespace Shaper

variable {s next : Shaper} {f : Frame} {frames rest before : List Frame}

theorem voicing_dedupe (s : Shaper) (f : Frame) :
    (s.dedupe f).2.seenVoiced = s.seenVoiced ∧
      (s.dedupe f).2.previousVoiced = s.previousVoiced := by
  unfold dedupe
  split
  · exact ⟨rfl, rfl⟩
  · split <;> exact ⟨rfl, rfl⟩

/-- The first silence after voice that takes time is faded, and ends the voice. -/
theorem fadeSilence_voicing (s : Shaper) (f : Frame) :
    (s.fadeSilence f).2.seenVoiced = s.seenVoiced ∧
      ((s.fadeSilence f).1.isTimed = false →
        (s.fadeSilence f).2.previousVoiced = s.previousVoiced) ∧
      ((s.fadeSilence f).1.isTimed = true → (s.fadeSilence f).2.previousVoiced = false ∧
        (s.previousVoiced = true → minFadeOut ≤ (s.fadeSilence f).1.fade)) := by
  unfold fadeSilence
  dsimp only
  generalize (if (!s.seenVoiced && s.clipLeading) = true then
    { f with duration := Single.minNum f.duration leadingCap
             fade := Single.minNum f.fade leadingCap } else f) = clipped
  split
  · rename_i h
    simp only [Bool.and_eq_true] at h
    have htimed : ({ clipped with fade := Single.maxNum clipped.fade minFadeOut } : Frame).isTimed =
        true := h.2
    exact ⟨rfl, fun ht => absurd htimed (by simp [ht]),
      fun _ => ⟨rfl, fun _ => minFadeOut_le_maxNum _⟩⟩
  · rename_i h
    refine ⟨rfl, fun _ => rfl, fun ht => ?_⟩
    have hp : s.previousVoiced = false := by simpa [ht] using h
    exact ⟨hp, fun hyes => absurd hyes (by simp [hp])⟩

/-- A silence leaves as it was faded, or it is spilled and an untimed silence leaves ahead of
it. -/
theorem shapeSilence_faded (s : Shaper) (f : Frame) :
    ((s.shapeSilence f).1.bare = (s.fadeSilence f).1.bare ∧
          (s.shapeSilence f).2.spilled = s.spilled ∨
        (s.shapeSilence f).1.bare = silence 0 0 ∧
          (s.shapeSilence f).2.spilled = some (s.fadeSilence f).1.bare) ∧
      (s.shapeSilence f).2.seenVoiced = (s.fadeSilence f).2.seenVoiced ∧
      (s.shapeSilence f).2.previousVoiced = (s.fadeSilence f).2.previousVoiced := by
  obtain ⟨-, -, -, hspilled⟩ := s.fadeSilence_eq f
  unfold shapeSilence
  dsimp only
  split
  · exact ⟨.inl ⟨bare_dedupe .., (spilled_dedupe ..).trans hspilled⟩, voicing_dedupe ..⟩
  · split
    · exact ⟨.inl ⟨bare_dedupe .., (spilled_dedupe ..).trans hspilled⟩, voicing_dedupe ..⟩
    · split
      · exact ⟨.inl ⟨bare_dedupe .., (spilled_dedupe ..).trans hspilled⟩, voicing_dedupe ..⟩
      · exact ⟨.inr ⟨bare_dedupe .., spilled_dedupe ..⟩, voicing_dedupe ..⟩

/-- Once it has seen a voice, the shaper knows whether the frames before end in one, and has faded
the silence that it holds back. -/
structure Guards (before : List Frame) (s : Shaper) : Prop where
  seen : s.previousVoiced = true → s.seenVoiced = true
  knows : s.seenVoiced = true → endsVoiced before = true →
    s.previousVoiced = true ∨ ∃ g, s.spilled = some g ∧ g.isTimed = true
  silent : ∀ g ∈ s.spilled, g.isVoiced = false
  faded : ∀ g ∈ s.spilled, g.isTimed = true → s.previousVoiced = false ∧
    (s.seenVoiced = true → endsVoiced before = true → minFadeOut ≤ g.fade)

theorem guards_fresh (clipLeading : Bool) (before : List Frame) :
    Guards before { clipLeading } := by
  refine ⟨?_, ?_, ?_, ?_⟩ <;> simp

/-- A voice leaves as a voice. -/
theorem Guards.voice (before : List Frame) (hs : s.spilled = none) (hf : f.isVoiced = true) :
    (s.shapeVoiced f).1.isVoiced = true ∧ (s.shapeVoiced f).2.seenVoiced = true ∧
      Guards before (s.shapeVoiced f).2 := by
  have hspilled : (s.shapeVoiced f).2.spilled = none := (s.shapeVoiced_eq f).2.trans hs
  have hvoiced : (s.shapeVoiced f).1.isVoiced = true := by
    have hcore := congrArg (·.1.isSome) (s.shapeVoiced_eq f).1
    exact hcore.trans hf
  have hseen : (s.shapeVoiced f).2.seenVoiced = true ∧
      (s.shapeVoiced f).2.previousVoiced = true := by
    unfold shapeVoiced
    dsimp only
    split <;> exact voicing_dedupe ..
  refine ⟨hvoiced, hseen.1, fun _ => hseen.1, fun _ _ => .inl hseen.2, ?_, ?_⟩ <;>
    simp [hspilled]

/-- A silence leaves, and none is held back. -/
theorem Guards.pass (h : Guards before s) (hf : f.isVoiced = false)
    (hs : s.seenVoiced = true → endsVoiced before = true → f.isTimed = false →
      s.previousVoiced = true)
    (hspilled : next.spilled = none) (hseen : next.seenVoiced = s.seenVoiced)
    (hkeep : f.isTimed = false → next.previousVoiced = s.previousVoiced)
    (hend : f.isTimed = true → next.previousVoiced = false) : Guards (before ++ [f]) next := by
  cases ht : f.isTimed with
  | true =>
    refine ⟨?_, ?_, by simp [hspilled], by simp [hspilled]⟩
    · simp [hend ht]
    · simp [endsVoiced_concat, ht, hf]
  | false =>
    refine ⟨?_, fun hv he => ?_, by simp [hspilled], by simp [hspilled]⟩
    · rw [hkeep ht, hseen]
      exact h.seen
    · rw [hkeep ht]
      rw [endsVoiced_concat, ht] at he
      exact .inl (hs (hseen ▸ hv) he ht)

/-- A silence `g` is held back, and one that takes no time leaves. -/
theorem Guards.holdBack {g : Frame} (h : Guards before s) (hf : f.isTimed = false)
    (hg : g.isVoiced = false)
    (hs : s.seenVoiced = true → endsVoiced before = true → s.previousVoiced = true)
    (hspilled : next.spilled = some g) (hseen : next.seenVoiced = s.seenVoiced)
    (hkeep : g.isTimed = false → next.previousVoiced = s.previousVoiced)
    (hend : g.isTimed = true → next.previousVoiced = false ∧
      (s.previousVoiced = true → minFadeOut ≤ g.fade)) : Guards (before ++ [f]) next := by
  have hends : endsVoiced (before ++ [f]) = endsVoiced before := by
    simp [endsVoiced_concat, hf]
  have hspill : ∀ k ∈ next.spilled, k = g := by simp [hspilled]
  refine ⟨fun hp => ?_, fun hv he => ?_, fun k hk => hspill k hk ▸ hg, fun k hk ht => ?_⟩
  · cases ht : g.isTimed with
    | true => simp [(hend ht).1] at hp
    | false => exact hseen.trans (h.seen (hkeep ht ▸ hp))
  · rw [hends] at he
    cases ht : g.isTimed with
    | true => exact .inr ⟨g, hspilled, ht⟩
    | false => exact .inl ((hkeep ht).trans (hs (hseen ▸ hv) he))
  · obtain rfl := hspill k hk
    rw [hends]
    exact ⟨(hend ht).1, fun hv he => (hend ht).2 (hs (hseen ▸ hv) he)⟩

/-- A silence that leaves after a voice is faded, unless it takes no time. -/
theorem Guards.silence (h : Guards before s) (hs : s.spilled = none) (hf : f.isVoiced = false) :
    Guards (before ++ [(s.shapeSilence f).1]) (s.shapeSilence f).2 ∧
      (s.shapeSilence f).1.isVoiced = false ∧
      (s.shapeSilence f).2.seenVoiced = s.seenVoiced ∧
      (s.seenVoiced = true → endsVoiced before = true → (s.shapeSilence f).1.isTimed = true →
        minFadeOut ≤ (s.shapeSilence f).1.fade) := by
  have hknows (hv : s.seenVoiced = true) (he : endsVoiced before = true) :
      s.previousVoiced = true := by
    rcases h.knows hv he with hp | ⟨g, hg, -⟩
    · exact hp
    · simp [hs] at hg
  have hsilent : (s.fadeSilence f).1.isVoiced = false :=
    (congrArg (·.1.isSome) (s.fadeSilence_eq f).1).trans hf
  obtain ⟨hseen, hkeep, hend⟩ := s.fadeSilence_voicing f
  obtain ⟨⟨hbare, hspilled⟩ | ⟨hbare, hspilled⟩, hseen', hprevious⟩ := s.shapeSilence_faded f
  · obtain ⟨htimed, hvoiced, hfade⟩ := timing_of_bare hbare
    refine ⟨h.pass (hvoiced.trans hsilent) (fun hv he _ => hknows hv he) (hspilled.trans hs)
      (hseen'.trans hseen) ?_ ?_, hvoiced.trans hsilent, hseen'.trans hseen, ?_⟩
    · rw [htimed, hprevious]
      exact hkeep
    · rw [htimed, hprevious]
      exact fun ht => (hend ht).1
    · rw [htimed, hfade]
      exact fun hv he ht => (hend ht).2 (hknows hv he)
  · obtain ⟨htimed, hvoiced, -⟩ := timing_of_bare (g := .silence 0 0) hbare
    rw [isTimed_silence_zero] at htimed
    refine ⟨h.holdBack (g := (s.fadeSilence f).1.bare) htimed hsilent hknows hspilled
      (hseen'.trans hseen) ?_ ?_, hvoiced, hseen'.trans hseen, ?_⟩
    · rw [hprevious]
      exact hkeep
    · rw [hprevious]
      exact hend
    · simp [htimed]

/-- What the shaper gives off after a voice is faded. -/
theorem Guards.of_next (h : Guards before s) (hn : s.next frames = (some f, next, rest)) :
    Guards (before ++ [f]) next ∧ (f.isVoiced = true → next.seenVoiced = true) ∧
      (f.isVoiced = false → next.seenVoiced = s.seenVoiced ∧ (s.seenVoiced = true →
        endsVoiced before = true → f.isTimed = true → minFadeOut ≤ f.fade)) := by
  obtain ⟨hs, rfl, rfl⟩ | ⟨hs, g, rfl, rfl, rfl⟩ | ⟨hs, rfl, rfl, m, hm, -, rfl, rfl⟩ :=
    next_cases hn
  · have hf := h.silent f hs
    refine ⟨h.pass hf (fun hv he ht => ?_) rfl rfl (fun _ => rfl) fun ht => (h.faded f hs ht).1,
      by simp [hf], fun _ => ⟨rfl, fun hv he ht => (h.faded f hs ht).2 hv he⟩⟩
    rcases h.knows hv he with hp | ⟨g, hg, hgt⟩
    · exact hp
    · obtain rfl := Option.some.inj (hs.symm.trans hg)
      simp [ht] at hgt
  · rw [shape]
    split
    · rename_i hv
      obtain ⟨hvoiced, hseen, hguards⟩ := Guards.voice (before ++ [(s.shapeVoiced g).1]) hs hv
      exact ⟨hguards, fun _ => hseen, fun hno => absurd hvoiced (by simp [hno])⟩
    · rename_i hv
      obtain ⟨hguards, hvoiced, hseen, hfaded⟩ := h.silence hs (by simpa using hv)
      exact ⟨hguards, fun hyes => absurd hyes (by simp [hvoiced]), fun _ => ⟨hseen, hfaded⟩⟩
  · have htimed : ((Frame.silence 0 0).withMarker m).isTimed = false := isTimed_silence_zero
    refine ⟨h.pass rfl (fun hv he _ => ?_) hs rfl (fun _ => rfl) (by simp [htimed]),
      by rintro ⟨⟩, fun _ => ⟨rfl, by simp [htimed]⟩⟩
    rcases h.knows hv he with hp | ⟨g, hg, -⟩
    · exact hp
    · simp [hs] at hg

end Shaper

end Frame

end Elocution
