import Elocution.Proofs.Frame.Leading

/-!
# How long shaped frames last

Shaping takes time from the silences ahead of the first voice and from nothing else, and what it
adds takes no time. So how long the shaped frames last is told by the lead and the rest of them.
-/

namespace Elocution.Frame

/-- The frames from the first voice on. -/
def body (frames : List Frame) : List Frame := frames.dropWhile fun f => !f.isVoiced

/-- How long a silence ahead of the first voice is let through. -/
def kept (clip : Bool) (f : Frame) : ℚ :=
  if clip then min (Single.value f.duration) 10 else Single.value f.duration

variable {clip : Bool} {f : Frame} {frames : List Frame}

theorem kept_le (clip : Bool) (f : Frame) : kept clip f ≤ Single.value f.duration := by
  unfold kept
  split
  · exact min_le_left ..
  · exact le_rfl

theorem lasting_nil : lasting [] = 0 := rfl

theorem lasting_append (frames more : List Frame) :
    lasting (frames ++ more) = lasting frames + lasting more := by
  rw [lasting, List.map_append, List.sum_append, lasting, lasting]

theorem lasting_map_bare (frames : List Frame) : lasting (frames.map bare) = lasting frames := by
  rw [lasting, List.map_map, lasting]
  rfl

theorem lead_append_body (frames : List Frame) : lead frames ++ body frames = frames :=
  List.takeWhile_append_dropWhile

theorem body_of_voiced (h : f.isVoiced = true) : body (f :: frames) = f :: frames := by
  simp [body, h]

theorem body_of_silent (h : f.isVoiced = false) : body (f :: frames) = body frames := by
  simp [body, h]

theorem sum_kept_le (clip : Bool) (frames : List Frame) :
    (frames.map (kept clip)).sum ≤ lasting frames :=
  List.sum_le_sum fun f _ => kept_le clip f

section Retouched

variable {before result : List Frame} {n : Nat}

/-- Once there has been voice, no duration is changed. -/
theorem Retouched.lasting_of_voiced (h : Retouched clip before frames result n)
    (hb : ∃ g ∈ before, g.isVoiced = true) : lasting result = lasting frames := by
  induction h with
  | nil before => rfl
  | @frame before frames result f g n hretouch _ ih =>
    obtain ⟨v, hv, hvoiced⟩ := hb
    have hno (hall : ∀ g ∈ before, g.isVoiced = false) : False := by
      rw [hall v hv] at hvoiced
      cases hvoiced
    have hsame : g.duration = f.duration := by
      by_cases hrelease : IsRelease before f
      · exact (hretouch.release hrelease).1
      · exact (hretouch.other (fun h => hno h.2) (fun h => hno h.2.2) hrelease).1
    rw [lasting_cons, lasting_cons, hsame, ih ⟨v, List.mem_append_left _ hv, hvoiced⟩]
  | silence _ ih =>
    rw [lasting_cons, ih hb]
    exact (congrArg (· + _) Single.value_zero).trans (zero_add _)

theorem Retouched.lasting_result (h : Retouched clip before frames result n)
    (hb : ∀ g ∈ before, g.isVoiced = false)
    (hfinite : ∀ f ∈ lead frames, f.duration.isFinite = true) :
    lasting result = ((lead frames).map (kept clip)).sum + lasting (body frames) := by
  induction h with
  | nil before => exact (zero_add _).symm
  | @frame before frames result f g n hretouch hrest ih =>
    cases hf : f.isVoiced with
    | true =>
      have hvoice : ∃ g ∈ before ++ [f], g.isVoiced = true :=
        ⟨f, List.mem_append_right _ List.mem_cons_self, hf⟩
      rw [lead_of_voiced hf, body_of_voiced hf, lasting_cons, lasting_cons,
        hrest.lasting_of_voiced hvoice, (hretouch.onset ⟨hf, hb⟩).1]
      exact (zero_add _).symm
    | false =>
      rw [lead_of_silent hf] at hfinite ⊢
      obtain ⟨hfirst, hlater⟩ := List.forall_mem_cons.mp hfinite
      have hnext : ∀ g ∈ before ++ [f], g.isVoiced = false :=
        List.forall_mem_append.mpr ⟨hb, List.forall_mem_singleton.mpr hf⟩
      have hkept : Single.value g.duration = kept clip f := by
        cases clip with
        | true =>
          rw [(hretouch.lead rfl ⟨hf, hb⟩).1, Single.value_lowered leadingCap_isFinite hfirst,
            value_leadingCap]
          rfl
        | false =>
          rw [(hretouch.other (not_isOnset hf) (by simp) fun h => not_voicing hb h.2.2).1]
          rfl
      rw [body_of_silent hf, lasting_cons, ih hnext hlater, hkept, List.map_cons, List.sum_cons,
        add_assoc]
  | silence _ ih =>
    rw [lasting_cons, ih hb hfinite]
    exact (congrArg (· + _) Single.value_zero).trans (zero_add _)

end Retouched

namespace Shaper

/-- What the shaper yields lasts as long as the silences of the lead are let through, and the frames
from the first voice on. -/
theorem lasting_yields (clip : Bool) (hfinite : ∀ f ∈ lead frames, f.duration.isFinite = true) :
    lasting (yields { clipLeading := clip } frames) =
      ((lead frames).map (kept clip)).sum + lasting (body frames) := by
  obtain ⟨n, hretouched, -⟩ := yields_retouched clip frames
  rw [← lasting_map_bare]
  exact hretouched.lasting_result (by simp) hfinite

/-- A silence that opens the frames is let through as such; the others are not longer than they
were. -/
theorem lasting_yields_cons_le (clip : Bool) (hf : f.isVoiced = false)
    (hfinite : ∀ g ∈ f :: frames, g.duration.isFinite = true) :
    lasting (yields { clipLeading := clip } (f :: frames)) ≤ kept clip f + lasting frames := by
  have hlead : ∀ g ∈ lead (f :: frames), g.duration.isFinite = true := fun g hg =>
    hfinite g (List.takeWhile_subset _ hg)
  have hle := sum_kept_le clip (lead frames)
  have hsplit := lasting_append (lead frames) (body frames)
  rw [lead_append_body] at hsplit
  rw [lasting_yields clip hlead, lead_of_silent hf, body_of_silent hf, List.map_cons,
    List.sum_cons]
  linarith

variable {s next : Shaper} {rest : List Frame}

theorem seenVoiced_shape (s : Shaper) (f : Frame) :
    (s.shape f).2.seenVoiced = (s.seenVoiced || f.isVoiced) := by
  unfold shape
  split
  · rename_i hf
    rw [hf, Bool.or_true]
    unfold shapeVoiced
    dsimp only
    split <;> exact (voicing_dedupe ..).1
  · rename_i hf
    rw [Bool.eq_false_iff.mpr hf, Bool.or_false, (s.shapeSilence_faded f).2.1,
      (s.fadeSilence_voicing f).1]

/-- The shaper keeps account of whether there is a voice among all its frames. -/
theorem seenVoiced_of_next (h : s.next frames = (some f, next, rest)) :
    (next.seenVoiced || rest.any isVoiced) = (s.seenVoiced || frames.any isVoiced) := by
  obtain ⟨-, rfl, rfl⟩ | ⟨-, g, rfl, -, rfl⟩ | ⟨-, rfl, rfl, m, -, -, -, rfl⟩ := next_cases h
  · rfl
  · rw [seenVoiced_shape, List.any_cons, Bool.or_assoc]
  · rfl

theorem seenVoiced_of_next_none (h : s.next frames = (none, next, rest)) :
    next.seenVoiced = (s.seenVoiced || frames.any isVoiced) := by
  obtain ⟨hs, rfl, -⟩ := next_none h
  have hlast : next = s.finish.2 := by
    simp only [Shaper.next, hs, Prod.mk.injEq] at h
    exact h.2.1.symm
  rw [hlast, finish, List.any_nil, Bool.or_false]
  split
  · rfl
  · dsimp only
    split <;> rfl

end Shaper

end Elocution.Frame
