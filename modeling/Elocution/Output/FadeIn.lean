import Elocution.Single.Basic

/-!
# Fading in

Audio that starts from silence is ramped up over its first samples.
-/

namespace Elocution.Output

/-- The length of the ramp in milliseconds. -/
def fadeInMs : Nat := 5

/-- The samples from number `i` on, those below `ramp` scaled by their place in the ramp. -/
def rampFrom (ramp : Nat) (i : Nat) : List Int16 → List Int16
  | [] => []
  | s :: rest =>
    if i < ramp then
      Single.toSample (Single.ofSample s * Single.ofCount i / Single.ofCount ramp) ::
        rampFrom ramp (i + 1) rest
    else s :: rest

/-- The audio with its first `ramp` samples ramped up from silence; a ramp longer than the
audio is cut to it. -/
def fadeIn (ramp : Nat) (samples : List Int16) : List Int16 :=
  rampFrom (min ramp samples.length) 0 samples

/-- A sample below the end of the ramp is scaled by its place, and one past it is left as it is. -/
theorem getElem?_rampFrom (ramp i k : Nat) (samples : List Int16) :
    (rampFrom ramp i samples)[k]? = samples[k]?.map fun s =>
      if i + k < ramp then
        Single.toSample (Single.ofSample s * Single.ofCount (i + k) / Single.ofCount ramp)
      else s := by
  induction samples generalizing i k with
  | nil => rfl
  | cons s rest ih =>
    unfold rampFrom
    split
    · rename_i hi
      cases k with
      | zero => simp [hi]
      | succ k =>
        have hplace : i + 1 + k = i + (k + 1) := by omega
        rw [List.getElem?_cons_succ, List.getElem?_cons_succ, ih, hplace]
    · rename_i hi
      have hpast (k : Nat) : ¬ i + k < ramp := by omega
      simp [hpast]

/-- Sample `k` of the ramp has `k` parts of its loudness, of as many as the ramp has samples. -/
theorem getElem?_fadeIn (ramp k : Nat) (samples : List Int16) :
    (fadeIn ramp samples)[k]? = samples[k]?.map fun s =>
      if k < min ramp samples.length then
        Single.toSample (Single.ofSample s * Single.ofCount k /
          Single.ofCount (min ramp samples.length))
      else s := by
  rw [fadeIn, getElem?_rampFrom, Nat.zero_add]

example : fadeIn 4 [1000, 1000, -1000, 1000, 1000] = [0, 250, -500, 750, 1000] := by
  decide +kernel

theorem length_rampFrom (ramp i : Nat) (samples : List Int16) :
    (rampFrom ramp i samples).length = samples.length := by
  induction samples generalizing i with
  | nil => rfl
  | cons s rest ih =>
    unfold rampFrom
    split
    · simp [ih]
    · rfl

theorem length_fadeIn (ramp : Nat) (samples : List Int16) :
    (fadeIn ramp samples).length = samples.length :=
  length_rampFrom ..

end Elocution.Output
