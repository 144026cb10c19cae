import Elocution.Proofs.Frame.Retouching
import Elocution.Proofs.Single.Value

/-!
# Silence ahead of the first voice

Once audio is flowing each silence ahead of the first voice is cut to the cap, whatever else there
is of it. So the cap holds for the lead as a whole as long as one silence in it takes time, and is
added up over more.
-/

namespace Elocution.Frame

/-- The frames ahead of the first voice. -/
def lead (frames : List Frame) : List Frame := frames.takeWhile fun f => !f.isVoiced

/-- How long frames take, in milliseconds. -/
def lasting (frames : List Frame) : ℚ := (frames.map fun f => Single.value f.duration).sum

section Lead

variable {f : Frame} {frames : List Frame}

theorem lead_of_voiced (h : f.isVoiced = true) : lead (f :: frames) = [] := by
  simp [lead, h]

theorem lead_of_silent (h : f.isVoiced = false) : lead (f :: frames) = f :: lead frames := by
  simp [lead, h]

theorem lasting_cons (f : Frame) (frames : List Frame) :
    lasting (f :: frames) = Single.value f.duration + lasting frames := by
  rw [lasting, List.map_cons, List.sum_cons, lasting]

theorem lasting_lead_bare (frames : List Frame) :
    lasting (lead (frames.map bare)) = lasting (lead frames) := by
  induction frames with
  | nil => rfl
  | cons f rest ih =>
    rw [List.map_cons]
    cases hf : f.isVoiced with
    | true => rw [lead_of_voiced hf, lead_of_voiced (f := f.bare) hf]
    | false =>
      rw [lead_of_silent hf, lead_of_silent (f := f.bare) hf, lasting_cons, lasting_cons, ih]
      rfl

end Lead

theorem leadingCap_isFinite : leadingCap.isFinite = true := by decide +kernel

theorem value_leadingCap : Single.value leadingCap = 10 :=
  Single.value_eq_natCast (by decide +kernel) (by decide +kernel)

theorem Retouched.lasting_lead {before frames result : List Frame} {n : Nat}
    (h : Retouched true before frames result n) (hb : ∀ g ∈ before, g.isVoiced = false)
    (hfinite : ∀ f ∈ lead frames, f.duration.isFinite = true) :
    lasting (lead result) = ((lead frames).map fun f => min (Single.value f.duration) 10).sum := by
  induction h with
  | nil before => rfl
  | @frame before frames result f g n hretouch _ ih =>
    have hvoiced : g.isVoiced = f.isVoiced := congrArg Option.isSome hretouch.tone
    cases hf : f.isVoiced with
    | true =>
      rw [lead_of_voiced hf, lead_of_voiced (hvoiced.trans hf)]
      rfl
    | false =>
      rw [lead_of_silent hf] at hfinite ⊢
      obtain ⟨hfirst, hrest⟩ := List.forall_mem_cons.mp hfinite
      have hnext : ∀ g ∈ before ++ [f], g.isVoiced = false :=
        List.forall_mem_append.mpr ⟨hb, List.forall_mem_singleton.mpr hf⟩
      rw [lead_of_silent (hvoiced.trans hf), lasting_cons, ih hnext hrest,
        (hretouch.lead rfl ⟨hf, hb⟩).1, Single.value_lowered leadingCap_isFinite hfirst,
        value_leadingCap, List.map_cons, List.sum_cons]
  | silence _ ih =>
    rw [lead_of_silent rfl, lasting_cons, ih hb hfinite]
    exact (congrArg (· + _) Single.value_zero).trans (zero_add _)

/-- Silence that takes no time adds nothing. -/
theorem sum_capped_le {frames : List Frame} (h : ∀ f ∈ frames, f.duration.isFinite = true) :
    (frames.map fun f => min (Single.value f.duration) 10).sum ≤ 10 * frames.countP isTimed := by
  induction frames with
  | nil => simp
  | cons f rest ih =>
    obtain ⟨hf, hrest⟩ := List.forall_mem_cons.mp h
    have hle := ih hrest
    rw [List.map_cons, List.sum_cons, List.countP_cons]
    cases ht : f.isTimed with
    | true =>
      have hcap := min_le_right (Single.value f.duration) 10
      push_cast
      simp only [if_true]
      linarith
    | false =>
      have hno : Single.value f.duration ≤ 0 := by
        rw [isTimed, decide_eq_false_iff_not,
          Single.lt_iff_value_lt (x := 0) (by decide +kernel) hf, Single.value_zero] at ht
        exact not_lt.mp ht
      have hcap := min_le_left (Single.value f.duration) 10
      simp only [Bool.false_eq_true, if_false, Nat.add_zero]
      linarith

namespace Shaper

theorem lasting_lead_yields {frames : List Frame}
    (hfinite : ∀ f ∈ lead frames, f.duration.isFinite = true) :
    lasting (lead (yields { clipLeading := true } frames)) =
      ((lead frames).map fun f => min (Single.value f.duration) 10).sum := by
  obtain ⟨result, n, hresult, hretouched, -⟩ := (recalls_fresh true).exists_retouched frames
  rw [← lasting_lead_bare, hresult]
  exact hretouched.lasting_lead (by simp) hfinite

/-- Once audio is flowing the silences ahead of the first voice last as long as each of them cut
to the cap. So they keep to the cap for every one of them that takes time, and no better. -/
theorem leading_silence_capped (frames : List Frame)
    (hfinite : ∀ f ∈ lead frames, f.duration.isFinite = true) :
    lasting (lead (yields { clipLeading := true } frames)) =
        ((lead frames).map fun f => min (Single.value f.duration) 10).sum ∧
      lasting (lead (yields { clipLeading := true } frames)) ≤
        10 * (lead frames).countP isTimed := by
  have hall := lasting_lead_yields hfinite
  refine ⟨hall, ?_⟩
  rw [hall]
  exact sum_capped_le hfinite

/-- A silence and the gap of a word that opens the text. -/
def hesitation : List Frame := [.silence 40 0, .silence 35 8, .voiced ⟨100, 1⟩ 85 8]

theorem leading_silence_capped_once :
    (lead hesitation.tail).countP isTimed = 1 ∧
      lasting (lead (yields { clipLeading := true } hesitation.tail)) ≤ 10 := by
  have hfinite : ∀ f ∈ lead hesitation.tail, f.duration.isFinite = true := by decide +kernel
  have hone : (lead hesitation.tail).countP isTimed = 1 := by decide +kernel
  have hcap := (leading_silence_capped hesitation.tail hfinite).2
  rw [hone, Nat.cast_one, mul_one] at hcap
  exact ⟨hone, hcap⟩

/-- Two silences of ten milliseconds each are left. -/
theorem leading_silence_adds_up :
    (∀ f ∈ hesitation, f.duration.isFinite = true ∧ 0 ≤ f.duration) ∧
      10 < lasting (lead (yields { clipLeading := true } hesitation)) := by
  have hfinite : ∀ f ∈ lead hesitation, f.duration.isFinite = true := by decide +kernel
  have hlong (x : Float32) (hx : x.isFinite = true) (hle : leadingCap ≤ x) :
      min (Single.value x) 10 = 10 := by
    rw [← value_leadingCap]
    exact min_eq_right ((Single.le_iff_value_le leadingCap_isFinite hx).mp hle)
  have hlead : lead hesitation = [.silence 40 0, .silence 35 8] := by decide +kernel
  refine ⟨by decide +kernel, ?_⟩
  rw [lasting_lead_yields hfinite, hlead]
  simp only [List.map_cons, List.map_nil, List.sum_cons, List.sum_nil]
  rw [hlong _ (by decide +kernel) (by decide +kernel),
    hlong _ (by decide +kernel) (by decide +kernel)]
  norm_num

end Shaper

end Elocution.Frame
