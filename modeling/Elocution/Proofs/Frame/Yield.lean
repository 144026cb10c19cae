import Elocution.Proofs.Frame.Shaping

/-!
# What the shaper yields

Frame by frame, until there is none. Of the markers of a clause none is lost, none comes twice in
a row and none changes its place among the others. A marker leaves on a voice or on an untimed
silence of its own.
-/

namespace Elocution.Frame.Shaper

variable {s next : Shaper} {f : Frame} {frames rest : List Frame}

/-- More frames than are still to leave. -/
def bound (s : Shaper) (frames : List Frame) : Nat :=
  3 * frames.length + s.spilled.toList.length + s.held.toList.length

theorem bound_of_next (h : s.next frames = (some f, next, rest)) :
    next.bound rest < s.bound frames := by
  have hone {α : Type} (o : Option α) : o.toList.length ≤ 1 := by cases o <;> simp
  unfold bound
  obtain ⟨hs, rfl, rfl⟩ | ⟨hs, g, rfl, rfl, rfl⟩ | ⟨hs, rfl, rfl, m, hm, -, rfl, rfl⟩ :=
    next_cases h
  · simp [hs]
  · have hspilled := hone (s.shape g).2.spilled
    have hheld := hone (s.shape g).2.held
    rw [List.length_cons]
    omega
  · simp [hm]

/-- The frames that leave, in order. -/
def yields (s : Shaper) (frames : List Frame) : List Frame :=
  match _h : s.next frames with
  | (none, _, _) => []
  | (some f, next, rest) => f :: next.yields rest
termination_by s.bound frames
decreasing_by exact bound_of_next _h

theorem yields_of_next (h : s.next frames = (some f, next, rest)) :
    s.yields frames = f :: next.yields rest := by
  rw [yields]
  split
  · rename_i hn
    rw [h] at hn
    cases hn
  · rename_i hn
    rw [h] at hn
    obtain ⟨hf, rfl, rfl⟩ := by simpa using hn
    rw [hf]

theorem yields_of_next_none (h : s.next frames = (none, next, rest)) : s.yields frames = [] := by
  rw [yields]
  split
  · rfl
  · rename_i hn
    rw [h] at hn
    cases hn

theorem markers_yields (hb : s.IsBare) :
    (s.yields frames).filterMap Frame.marker = s.due frames := by
  induction s, frames using yields.induct with
  | case1 s frames next rest h => rw [yields_of_next_none h, due_of_next_none h]; rfl
  | case2 s frames f next rest h ih =>
    obtain ⟨hdue, hbare⟩ := due_eq_of_next hb h
    rw [yields_of_next h, filterMap_marker_cons, ih hbare, hdue]

/-- A frame that needs no excuse for its marker. -/
def isFit (f : Frame) : Bool := f.marker.isNone || f.isVoiced

/-- A frame that is not fit has been added, and all that were given are among the others. -/
theorem given_yields (frames : List Frame) (hb : s.IsBare) :
    (s.given frames).Sublist (((s.yields frames).filter isFit).map core) ∧
      ∀ f ∈ s.yields frames, isFit f = true ∨ f.bare = silence 0 0 := by
  induction s, frames using yields.induct with
  | case1 s frames next rest h =>
    rw [given_of_next_none h, yields_of_next_none h]
    exact ⟨List.nil_sublist _, by simp⟩
  | case2 s frames f next rest h ih =>
    obtain ⟨hsub, hfit⟩ := ih (due_eq_of_next hb h).2
    rw [yields_of_next h, List.forall_mem_cons]
    rcases given_eq_of_next hb h with ⟨hgiven, hf⟩ | ⟨hgiven, hf⟩
    · have hf : isFit f = true := by simpa [isFit] using hf
      rw [hgiven, List.filter_cons_of_pos hf]
      exact ⟨hsub.cons_cons _, .inl hf, hfit⟩
    · rw [hgiven]
      exact ⟨hsub.trans (((List.sublist_cons_self f _).filter _).map _), .inr hf, hfit⟩

/-- Of the markers of a clause the shaper loses, repeats and moves past each other none: repeats
in a row aside, they leave as they came. A marker leaves on a voice, or on an untimed silence,
none of which was given: all given frames are among the others. -/
theorem yields_in_order (clipLeading : Bool) (frames : List Frame) :
    (yields { clipLeading } frames).filterMap Frame.marker =
        (frames.filterMap Frame.marker).destutter (· ≠ ·) ∧
      (∀ f ∈ yields { clipLeading } frames, ∀ m, f.marker = some m →
        f.isVoiced = true ∨ f = (silence 0 0).withMarker m ∧ f.isTimed = false) ∧
      (frames.map core).Sublist (((yields { clipLeading } frames).filter fun f =>
        f.marker.isNone || f.isVoiced).map core) := by
  have hb : IsBare { clipLeading } := by simp [IsBare]
  obtain ⟨hgiven, hfit⟩ := given_yields frames hb
  refine ⟨?_, ?_, hgiven⟩
  · rw [markers_yields hb, due, ← collapse_none]
    rfl
  · intro f hf m hm
    rcases hfit f hf with h | h
    · left
      simpa [isFit, hm] using h
    · right
      have heq : f = (silence 0 0).withMarker m := by
        rw [← h, withMarker, bare, ← hm]
      have huntimed : isTimed (silence 0 0) = false := by decide
      exact ⟨heq, heq ▸ huntimed⟩

end Elocution.Frame.Shaper
