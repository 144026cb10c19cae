import Elocution.Proofs.Frame.Fading

/-!
# What the shaper changes

The shaper adds untimed silences, no more than there are markers, and changes durations and fades
in three places: where voice sets in, ahead of that, and where voice gives way to a silence that
takes time. Which of these a frame is in is told by the frames before it, and of those the shaper
remembers enough.
-/

namespace Elocution.Frame

/-- Since the last voice there have been untimed silences only. -/
def Voicing (before : List Frame) : Prop :=
  ∃ earlier v gap, before = earlier ++ v :: gap ∧ v.isVoiced = true ∧
    ∀ g ∈ gap, g.isVoiced = false ∧ g.isTimed = false

/-- A voice with none before it. -/
def IsOnset (before : List Frame) (f : Frame) : Prop :=
  f.isVoiced = true ∧ ∀ g ∈ before, g.isVoiced = false

/-- A silence with no voice before it. -/
def IsLead (before : List Frame) (f : Frame) : Prop :=
  f.isVoiced = false ∧ ∀ g ∈ before, g.isVoiced = false

/-- The first silence that takes time after a stretch of voice. -/
def IsRelease (before : List Frame) (f : Frame) : Prop :=
  f.isVoiced = false ∧ f.isTimed = true ∧ Voicing before

/-- What may become of a frame `f` that comes after the frames `before`. -/
structure Retouch (clip : Bool) (before : List Frame) (f g : Frame) : Prop where
  tone : g.tone = f.tone
  endsUtterance : g.endsUtterance = f.endsUtterance
  onset : IsOnset before f →
    g.duration = f.duration ∧ g.fade = Single.raised minFadeIn f.fade
  lead : clip = true → IsLead before f →
    g.duration = Single.lowered leadingCap f.duration ∧ g.fade = Single.lowered leadingCap f.fade
  release : IsRelease before f →
    g.duration = f.duration ∧ g.fade = Single.raised minFadeOut f.fade
  other : ¬ IsOnset before f → ¬ (clip = true ∧ IsLead before f) → ¬ IsRelease before f →
    g.duration = f.duration ∧ g.fade = f.fade

/-- Each of the frames is retouched after those ahead of it, and `n` untimed silences come in
between. -/
inductive Retouched (clip : Bool) : List Frame → List Frame → List Frame → Nat → Prop
  | nil (before : List Frame) : Retouched clip before [] [] 0
  | frame {before frames result : List Frame} {f g : Frame} {n : Nat}
      (hf : Retouch clip before f g) (hrest : Retouched clip (before ++ [f]) frames result n) :
      Retouched clip before (f :: frames) (g :: result) n
  | silence {before frames result : List Frame} {n : Nat}
      (hrest : Retouched clip before frames result n) :
      Retouched clip before frames (Frame.silence 0 0 :: result) (n + 1)

section Retouch

variable {clip : Bool} {before : List Frame} {f : Frame}

theorem not_voicing (h : ∀ g ∈ before, g.isVoiced = false) : ¬ Voicing before := by
  rintro ⟨earlier, v, gap, rfl, hv, -⟩
  rw [h v (List.mem_append_right _ List.mem_cons_self)] at hv
  cases hv

theorem not_isOnset (hf : f.isVoiced = false) : ¬ IsOnset before f := by
  rintro ⟨hv, -⟩
  rw [hf] at hv
  cases hv

theorem voicing_concat_of_voiced (before : List Frame) (hf : f.isVoiced = true) :
    Voicing (before ++ [f]) := by
  refine ⟨before, f, [], rfl, hf, ?_⟩
  intro g hg
  cases hg

theorem voicing_concat_of_silent (hf : f.isVoiced = false) :
    Voicing (before ++ [f]) ↔ Voicing before ∧ f.isTimed = false := by
  constructor
  · rintro ⟨earlier, v, gap, heq, hv, hgap⟩
    rcases List.eq_nil_or_concat gap with rfl | ⟨gap, last, rfl⟩
    · obtain ⟨-, hlast⟩ := List.append_inj' heq rfl
      obtain rfl := List.singleton_inj.1 hlast
      rw [hf] at hv
      cases hv
    · rw [List.concat_eq_append] at heq hgap
      rw [← List.cons_append, ← List.append_assoc] at heq
      obtain ⟨rfl, hlast⟩ := List.append_inj' heq rfl
      obtain rfl := List.singleton_inj.1 hlast
      refine ⟨⟨earlier, v, gap, rfl, hv, ?_⟩, ?_⟩
      · intro g hg
        exact hgap g (List.mem_append_left _ hg)
      · exact (hgap f (List.mem_append_right _ List.mem_cons_self)).2
  · rintro ⟨⟨earlier, v, gap, rfl, hv, hgap⟩, ht⟩
    refine ⟨earlier, v, gap ++ [f], by simp, hv, ?_⟩
    intro g hg
    rcases List.mem_append.1 hg with hg | hg
    · exact hgap g hg
    · obtain rfl := List.mem_singleton.1 hg
      exact ⟨hf, ht⟩

theorem retouch_onset (clip : Bool) (h : IsOnset before f) :
    Retouch clip before f { f.bare with fade := Single.maxNum f.fade minFadeIn } := by
  refine ⟨rfl, rfl, ?_, ?_, ?_, ?_⟩
  · intro _
    exact ⟨rfl, Single.maxNum_eq_raised (by decide +kernel)⟩
  · intro _ hlead
    exact absurd h (not_isOnset hlead.1)
  · intro hrelease
    exact absurd h (not_isOnset hrelease.1)
  · intro hno
    exact absurd h hno

theorem retouch_lead (h : IsLead before f) :
    Retouch true before f { f.bare with
      duration := Single.minNum f.duration leadingCap
      fade := Single.minNum f.fade leadingCap } := by
  have hcap : leadingCap.isNaN = false := by decide +kernel
  refine ⟨rfl, rfl, ?_, ?_, ?_, ?_⟩
  · intro honset
    exact absurd honset (not_isOnset h.1)
  · intro _ _
    exact ⟨Single.minNum_eq_lowered hcap, Single.minNum_eq_lowered hcap⟩
  · intro hrelease
    exact absurd hrelease.2.2 (not_voicing h.2)
  · intro _ hno
    exact absurd ⟨rfl, h⟩ hno

theorem retouch_release (clip : Bool) (h : IsRelease before f) :
    Retouch clip before f { f.bare with fade := Single.maxNum f.fade minFadeOut } := by
  refine ⟨rfl, rfl, ?_, ?_, ?_, ?_⟩
  · intro honset
    exact absurd honset (not_isOnset h.1)
  · intro _ hlead
    exact absurd h.2.2 (not_voicing hlead.2)
  · intro _
    exact ⟨rfl, Single.maxNum_eq_raised (by decide +kernel)⟩
  · intro _ _ hno
    exact absurd h hno

theorem retouch_other (ho : ¬ IsOnset before f) (hl : ¬ (clip = true ∧ IsLead before f))
    (hr : ¬ IsRelease before f) : Retouch clip before f f.bare := by
  refine ⟨rfl, rfl, ?_, ?_, ?_, ?_⟩
  · intro honset
    exact absurd honset ho
  · intro hclip hlead
    exact absurd ⟨hclip, hlead⟩ hl
  · intro hrelease
    exact absurd hrelease hr
  · intro _ _ _
    exact ⟨rfl, rfl⟩

end Retouch

namespace Shaper

variable {clip : Bool} {before : List Frame} {s next : Shaper} {f g : Frame}
  {frames rest : List Frame}

/-- What a shaper remembers of the frames that it has shaped. -/
structure Recalls (clip : Bool) (before : List Frame) (s : Shaper) : Prop where
  clip : s.clipLeading = clip
  seen : s.seenVoiced = false ↔ ∀ f ∈ before, f.isVoiced = false
  previous : s.previousVoiced = true ↔ Voicing before

theorem recalls_fresh (clip : Bool) : Recalls clip [] { clipLeading := clip } := by
  refine ⟨rfl, ?_, ?_⟩
  · simp
  · constructor
    · intro h
      cases h
    · intro h
      exact absurd h (not_voicing (by simp))

theorem clipLeading_dedupe (s : Shaper) (f : Frame) :
    (s.dedupe f).2.clipLeading = s.clipLeading := by
  unfold dedupe
  split
  · rfl
  · split <;> rfl

theorem Recalls.dedupe (h : s.Recalls clip before) (f : Frame) :
    (s.dedupe f).2.Recalls clip before := by
  obtain ⟨hseen, hprevious⟩ := s.voicing_dedupe f
  exact ⟨(s.clipLeading_dedupe f).trans h.clip, hseen ▸ h.seen, hprevious ▸ h.previous⟩

theorem recalls_concat_of_voiced (hf : f.isVoiced = true) (hclip : next.clipLeading = clip)
    (hseen : next.seenVoiced = true) (hprevious : next.previousVoiced = true) :
    next.Recalls clip (before ++ [f]) := by
  refine ⟨hclip, ?_, ?_⟩
  · rw [hseen]
    apply iff_of_false Bool.noConfusion
    intro hall
    have hno := hall f (List.mem_append_right _ List.mem_cons_self)
    rw [hf] at hno
    cases hno
  · exact iff_of_true hprevious (voicing_concat_of_voiced before hf)

theorem Recalls.concat_of_silent (h : s.Recalls clip before) (hf : f.isVoiced = false)
    (hclip : next.clipLeading = clip) (hseen : next.seenVoiced = s.seenVoiced)
    (hprevious : next.previousVoiced = true ↔ s.previousVoiced = true ∧ f.isTimed = false) :
    next.Recalls clip (before ++ [f]) := by
  refine ⟨hclip, ?_, ?_⟩
  · rw [hseen, h.seen]
    constructor
    · intro hall g hg
      rcases List.mem_append.1 hg with hg | hg
      · exact hall g hg
      · rwa [List.mem_singleton.1 hg]
    · intro hall g hg
      exact hall g (List.mem_append_left _ hg)
  · rw [hprevious, h.previous, voicing_concat_of_silent hf]

theorem Recalls.shapeVoiced (h : s.Recalls clip before) (hf : f.isVoiced = true) :
    Retouch clip before f (s.shapeVoiced f).1.bare ∧
      (s.shapeVoiced f).2.Recalls clip (before ++ [f]) := by
  have hretouch : Retouch clip before f (if s.seenVoiced then f else
      { f with fade := Single.maxNum f.fade minFadeIn }).bare := by
    cases hseen : s.seenVoiced with
    | true =>
      have hbefore : ¬ ∀ g ∈ before, g.isVoiced = false := by
        rw [← h.seen, hseen]
        exact Bool.noConfusion
      apply retouch_other
      · intro honset
        exact hbefore honset.2
      · intro hlead
        exact hbefore hlead.2.2
      · rintro ⟨hno, -⟩
        rw [hf] at hno
        cases hno
    | false => exact retouch_onset clip ⟨hf, h.seen.1 hseen⟩
  unfold Shaper.shapeVoiced
  dsimp only
  split
  · rw [bare_dedupe]
    refine ⟨hretouch, Recalls.dedupe ?_ _⟩
    exact recalls_concat_of_voiced hf h.clip rfl rfl
  · rw [bare_dedupe]
    refine ⟨hretouch, Recalls.dedupe ?_ _⟩
    exact recalls_concat_of_voiced hf h.clip rfl rfl

theorem Recalls.fadeSilence (h : s.Recalls clip before) (hf : f.isVoiced = false) :
    Retouch clip before f (s.fadeSilence f).1.bare ∧
      (s.fadeSilence f).2.Recalls clip (before ++ [f]) := by
  have honset : ¬ IsOnset before f := not_isOnset hf
  cases hseen : s.seenVoiced with
  | false =>
    have hlead : IsLead before f := ⟨hf, h.seen.1 hseen⟩
    have hvoicing : ¬ Voicing before := not_voicing hlead.2
    have hprevious : s.previousVoiced = false := by
      rw [← Bool.not_eq_true, h.previous]
      exact hvoicing
    have hnext := h.concat_of_silent hf h.clip rfl (by simp [hprevious])
    cases hclip : s.clipLeading with
    | true =>
      obtain rfl := hclip.symm.trans h.clip
      simp only [Shaper.fadeSilence, hseen, hclip, hprevious, Bool.not_false, Bool.and_self,
        if_true, Bool.false_and, Bool.false_eq_true, if_false]
      exact ⟨retouch_lead hlead, hnext⟩
    | false =>
      obtain rfl := hclip.symm.trans h.clip
      simp only [Shaper.fadeSilence, hclip, hprevious, Bool.and_false, Bool.false_and,
        Bool.false_eq_true, if_false]
      exact ⟨retouch_other honset (by simp) fun hrelease => hvoicing hrelease.2.2, hnext⟩
  | true =>
    have hlead : ¬ (clip = true ∧ IsLead before f) := by
      rintro ⟨-, hlead⟩
      rw [h.seen.2 hlead.2] at hseen
      cases hseen
    simp only [Shaper.fadeSilence, hseen, Bool.not_true, Bool.false_and, Bool.false_eq_true,
      if_false]
    split
    · rename_i hrelease
      obtain ⟨hprevious, ht⟩ := Bool.and_eq_true_iff.1 hrelease
      refine ⟨retouch_release clip ⟨hf, ht, h.previous.1 hprevious⟩, ?_⟩
      exact h.concat_of_silent hf h.clip hseen.symm (by simp [ht])
    · rename_i hrelease
      refine ⟨retouch_other honset hlead ?_, ?_⟩
      · rintro ⟨-, ht, hvoicing⟩
        rw [h.previous.2 hvoicing, ht] at hrelease
        exact hrelease rfl
      · apply h.concat_of_silent hf h.clip rfl
        cases hprevious : s.previousVoiced <;> simp_all

theorem clipLeading_shapeSilence (s : Shaper) (f : Frame) :
    (s.shapeSilence f).2.clipLeading = (s.fadeSilence f).2.clipLeading := by
  unfold Shaper.shapeSilence
  dsimp only
  split
  · exact clipLeading_dedupe ..
  · split
    · exact clipLeading_dedupe ..
    · split <;> exact clipLeading_dedupe ..

/-- The frame is retouched and leaves, or it is spilled and an untimed silence leaves. -/
theorem Recalls.shape (h : s.Recalls clip before) (f : Frame) :
    (Retouch clip before f (s.shape f).1.bare ∧ (s.shape f).2.spilled = s.spilled ∨
        (s.shape f).1.bare = Frame.silence 0 0 ∧
          ∃ g, (s.shape f).2.spilled = some g ∧ Retouch clip before f g.bare) ∧
      (s.shape f).2.Recalls clip (before ++ [f]) := by
  cases hf : f.isVoiced with
  | true =>
    rw [Shaper.shape, if_pos hf]
    obtain ⟨hretouch, hrecalls⟩ := h.shapeVoiced hf
    exact ⟨.inl ⟨hretouch, (s.shapeVoiced_eq f).2⟩, hrecalls⟩
  | false =>
    rw [Shaper.shape, if_neg (by simp [hf])]
    obtain ⟨hretouch, hrecalls⟩ := h.fadeSilence hf
    obtain ⟨hfaded, hseen, hprevious⟩ := s.shapeSilence_faded f
    refine ⟨?_, (s.clipLeading_shapeSilence f).trans hrecalls.clip, hseen ▸ hrecalls.seen,
      hprevious ▸ hrecalls.previous⟩
    rcases hfaded with ⟨hbare, hspilled⟩ | ⟨hbare, hspilled⟩
    · left
      exact ⟨hbare ▸ hretouch, hspilled⟩
    · right
      exact ⟨hbare, _, hspilled, hretouch⟩

/-- The markers that are held, and one more if a frame has been spilled for them. -/
def load (s : Shaper) : Nat := s.held.toList.length + s.spilled.toList.length

theorem load_dedupe (s : Shaper) (f : Frame) : (s.dedupe f).2.load = s.load := by
  rw [load, held_dedupe, spilled_dedupe]
  rfl

/-- Each marker that is taken from a frame lets one more frame be spilled, or is held. -/
theorem load_shape_le (s : Shaper) (f : Frame) :
    (s.shape f).2.load ≤ s.load + f.marker.toList.length := by
  unfold Shaper.shape
  split
  · unfold Shaper.shapeVoiced
    dsimp only
    split
    · rename_i hheld
      rw [load_dedupe]
      simp [load, hheld]
    · rename_i m hheld
      have hown : (if f.marker = some m then none else f.marker).toList.length ≤
          f.marker.toList.length := by
        split <;> simp
      rw [load_dedupe, load, load]
      dsimp only
      omega
  · obtain ⟨-, hheld, -, hspilled⟩ := s.fadeSilence_eq f
    unfold Shaper.shapeSilence
    dsimp only
    split
    · rename_i hm
      rw [load_dedupe]
      simp [load, hheld, hspilled, hm]
    · rename_i m hm
      split
      · rw [load_dedupe]
        simp [load, hheld, hspilled, hm]
      · split
        · rename_i hnone
          have hone : s.held.toList.length = 0 := by rw [← hheld, hnone]; rfl
          rw [load_dedupe, load, load, hspilled, hone, hm, Option.toList_some]
          omega
        · rename_i older hsome
          rw [load_dedupe]
          simp [load, ← hheld, hsome, hm]

/-- What leaves of the frames that are still to be shaped, behind one that has been spilled. -/
theorem Recalls.exists_retouched (h : s.Recalls clip before) (frames : List Frame) :
    ∃ result n, (s.yields frames).map bare = s.spilled.toList.map bare ++ result ∧
      Retouched clip before frames result n ∧
      n ≤ s.held.toList.length + (frames.filterMap Frame.marker).length := by
  induction s, frames using yields.induct generalizing before with
  | case1 s frames next rest hn =>
    obtain ⟨hs, rfl, -⟩ := next_none hn
    refine ⟨[], 0, ?_, .nil before, Nat.zero_le _⟩
    rw [yields_of_next_none hn, hs]
    rfl
  | case2 s frames f next rest hn ih =>
    rw [yields_of_next hn, List.map_cons]
    rcases next_cases hn with ⟨hs, rfl, rfl⟩ | ⟨hs, g, rfl, rfl, rfl⟩ |
      ⟨hs, rfl, rfl, m, hm, -, rfl, rfl⟩
    · obtain ⟨result, n, hresult, hretouched, hn⟩ := ih ⟨h.clip, h.seen, h.previous⟩
      refine ⟨result, n, ?_, hretouched, hn⟩
      rw [hresult, hs]
      rfl
    · obtain ⟨hleaves, hrecalls⟩ := h.shape g
      obtain ⟨result, n, hresult, hretouched, hn⟩ := ih hrecalls
      have hload := s.load_shape_le g
      rw [load, load, hs] at hload
      rw [filterMap_marker_cons, List.length_append, hresult, hs]
      rcases hleaves with ⟨hretouch, hspilled⟩ | ⟨hbare, k, hspilled, hretouch⟩
      · rw [hspilled, hs, Option.toList_none, List.length_nil] at hload
        rw [hspilled, hs]
        refine ⟨_, n, rfl, .frame hretouch hretouched, ?_⟩
        omega
      · rw [hspilled, Option.toList_none, Option.toList_some, List.length_nil,
          List.length_singleton] at hload
        rw [hspilled, hbare]
        refine ⟨_, n + 1, rfl, .silence (.frame hretouch hretouched), ?_⟩
        omega
    · obtain ⟨result, n, hresult, hretouched, hn⟩ := ih ⟨h.clip, h.seen, h.previous⟩
      rw [hresult, hs, hm]
      refine ⟨_, n + 1, rfl, .silence hretouched, ?_⟩
      exact Nat.add_le_add_right hn 1

/-- What the shaper yields, markers aside, is each of the frames with its voice and its end of
utterance, in order, and no more untimed silences in between than there are markers. Where voice
sets in its fade is raised, where it gives way to a silence that takes time that fade is raised,
ahead of the first voice durations and fades are lowered if they are to be clipped, and nothing
else is changed. -/
theorem yields_retouched (clip : Bool) (frames : List Frame) :
    ∃ n, Retouched clip [] frames ((yields { clipLeading := clip } frames).map bare) n ∧
      n ≤ (frames.filterMap Frame.marker).length := by
  obtain ⟨result, n, hresult, hretouched, hn⟩ := (recalls_fresh clip).exists_retouched frames
  refine ⟨n, ?_, ?_⟩
  · rw [hresult]
    exact hretouched
  · simpa using hn

end Shaper

end Elocution.Frame
