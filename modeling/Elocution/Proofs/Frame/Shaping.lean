import Mathlib
import Elocution.Frame.Shaper

/-!
# The markers of a clause

The shaper moves markers between frames, but neither their order nor, repeats aside, which there
are. What is to come of a clause is read off the marker reported last, the marker held back and
the frames that are still to be shaped.
-/

namespace Elocution.Frame

/-- The markers less those that repeat the one before; `last` is the one before them all. -/
def collapse (last : Option Marker) : List Marker → List Marker
  | [] => []
  | m :: rest => if last = some m then collapse last rest else m :: collapse (some m) rest

theorem collapse_cons_self (m : Marker) (rest : List Marker) :
    collapse (some m) (m :: rest) = collapse (some m) rest := by
  simp [collapse]

theorem collapse_some (m : Marker) (markers : List Marker) :
    markers.destutter' (· ≠ ·) m = m :: collapse (some m) markers := by
  induction markers generalizing m with
  | nil => rfl
  | cons a rest ih =>
    by_cases h : m = a
    · subst h
      rw [collapse_cons_self, List.destutter'_cons_neg _ (by simp), ih]
    · rw [List.destutter'_cons_pos _ h, ih]
      simp [collapse, h]

theorem collapse_none (markers : List Marker) :
    collapse none markers = markers.destutter (· ≠ ·) := by
  cases markers with
  | nil => rfl
  | cons m rest => rw [List.destutter_cons', collapse_some, collapse, if_neg (by simp)]

/-- The frame without its marker. -/
def bare (f : Frame) : Frame := { f with marker := none }

/-- The voice of a frame, and whether it ends the utterance. -/
def core (f : Frame) : Option Tone × Bool := (f.tone, f.endsUtterance)

namespace Shaper

/-- The markers that are to leave on the frames to come. -/
def due (s : Shaper) (frames : List Frame) : List Marker :=
  collapse s.lastMarker (s.held.toList ++ frames.filterMap Frame.marker)

/-- No frame to come ends an utterance, and a spilled one has given its marker up. -/
structure IsPlain (s : Shaper) (frames : List Frame) : Prop where
  bare : ∀ f ∈ s.spilled, f.marker = none
  spilled : ∀ f ∈ s.spilled, f.endsUtterance = false
  frames : ∀ f ∈ frames, f.endsUtterance = false

variable {s next : Shaper} {f g : Frame} {frames rest : List Frame}

theorem collapse_dedupe (s : Shaper) (f : Frame) (markers : List Marker) :
    collapse s.lastMarker (f.marker.toList ++ markers) =
      (s.dedupe f).1.marker.toList ++ collapse (s.dedupe f).2.lastMarker markers := by
  unfold dedupe
  split
  · rename_i hm
    simp [hm]
  · rename_i m hm
    split
    · rename_i hl
      simp [hm, hl, collapse_cons_self]
    · rename_i hl
      simp [hm, collapse, hl]

theorem held_dedupe (s : Shaper) (f : Frame) : (s.dedupe f).2.held = s.held := by
  unfold dedupe
  split
  · rfl
  · split <;> rfl

theorem spilled_dedupe (s : Shaper) (f : Frame) : (s.dedupe f).2.spilled = s.spilled := by
  unfold dedupe
  split
  · rfl
  · split <;> rfl

theorem bare_dedupe (s : Shaper) (f : Frame) : (s.dedupe f).1.bare = f.bare := by
  unfold dedupe
  split
  · rfl
  · split <;> rfl

theorem core_dedupe (s : Shaper) (f : Frame) : (s.dedupe f).1.core = f.core := by
  have h := congrArg core (s.bare_dedupe f)
  exact h

theorem marker_dedupe (s : Shaper) (h : f.marker = none) : (s.dedupe f).1.marker = none := by
  simp [dedupe, h]

/-- A frame leaves with a marker; the markers that are held then come before those of the frames
still to be shaped. -/
theorem due_dedupe (s : Shaper) (f : Frame) (frames : List Frame) :
    collapse s.lastMarker (f.marker.toList ++ (s.held.toList ++ frames.filterMap Frame.marker)) =
      (s.dedupe f).1.marker.toList ++ (s.dedupe f).2.due frames := by
  rw [due, held_dedupe, collapse_dedupe]

theorem due_shapeVoiced (s : Shaper) (f : Frame) (frames : List Frame) :
    s.due (f :: frames) =
      (s.shapeVoiced f).1.marker.toList ++ (s.shapeVoiced f).2.due frames := by
  have hfaded : (if s.seenVoiced then f else
      { f with fade := Single.maxNum f.fade minFadeIn }).marker = f.marker := by
    split <;> rfl
  unfold shapeVoiced
  simp only
  split
  · rename_i hh
    rw [← due_dedupe, hfaded]
    simp only [due, hh, filterMap_marker_cons, Option.toList_none, List.nil_append]
  · rename_i m hh
    rw [← due_dedupe]
    simp only [due, hh, filterMap_marker_cons]
    split
    · rename_i hm
      -- The frame's own marker repeats the one held back.
      simp only [hm, Option.toList_some, Option.toList_none, List.singleton_append, collapse,
        List.nil_append]
      split <;> simp_all
    · simp

theorem fadeSilence_eq (s : Shaper) (f : Frame) :
    (s.fadeSilence f).1.core = f.core ∧
      (s.fadeSilence f).2.held = s.held ∧ (s.fadeSilence f).2.lastMarker = s.lastMarker ∧
      (s.fadeSilence f).2.spilled = s.spilled := by
  unfold fadeSilence
  simp only
  split <;> split <;> exact ⟨rfl, rfl, rfl, rfl⟩

theorem due_shapeSilence (s : Shaper) (f : Frame) (frames : List Frame) :
    s.due (f :: frames) =
      (s.shapeSilence f).1.marker.toList ++ (s.shapeSilence f).2.due frames := by
  obtain ⟨-, hheld, hlast, -⟩ := s.fadeSilence_eq f
  unfold shapeSilence
  simp only
  split
  · rename_i hm
    rw [← due_dedupe, hheld, hlast]
    simp [due, hm]
  · rename_i m hm
    split
    · rename_i hh
      rw [← due_dedupe, hlast, hh]
      simp only [due, ← hheld, hh, filterMap_marker_cons, hm, Option.toList_some,
        Option.toList_none, List.singleton_append, List.nil_append, collapse]
      split <;> simp_all
    · split
      · rename_i hh
        rw [← due_dedupe]
        simp [due, ← hheld, hh, hm, hlast]
      · rename_i older hh
        rw [← due_dedupe]
        simp [due, ← hheld, hh, hm, hlast, withMarker]

theorem due_shape (s : Shaper) (f : Frame) (frames : List Frame) :
    s.due (f :: frames) = (s.shape f).1.marker.toList ++ (s.shape f).2.due frames := by
  unfold shape
  split
  · exact due_shapeVoiced ..
  · exact due_shapeSilence ..

theorem shapeVoiced_eq (s : Shaper) (f : Frame) :
    (s.shapeVoiced f).1.core = f.core ∧ (s.shapeVoiced f).2.spilled = s.spilled := by
  unfold shapeVoiced
  dsimp only
  split
  · rw [core_dedupe, spilled_dedupe]
    split <;> exact ⟨rfl, rfl⟩
  · rw [core_dedupe, spilled_dedupe]
    refine ⟨?_, rfl⟩
    by_cases h : s.seenVoiced = true
    · rw [if_pos h]
      rfl
    · rw [if_neg h]
      rfl

/-- A silence leaves without a marker, or an older marker goes ahead of it. -/
theorem shapeSilence_cases (s : Shaper) (f : Frame) :
    ((s.shapeSilence f).1.core = f.core ∧ (s.shapeSilence f).1.marker = none ∧
        (s.shapeSilence f).2.spilled = s.spilled) ∨
      ((s.shapeSilence f).1.bare = silence 0 0 ∧
        ∃ g, (s.shapeSilence f).2.spilled = some g ∧ g.core = f.core ∧ g.marker = none) := by
  obtain ⟨hcore, -, -, hspilled⟩ := s.fadeSilence_eq f
  have hbare (t : Shaper) (ht : t.spilled = s.spilled) :
      (t.dedupe (s.fadeSilence f).1.bare).1.core = f.core ∧
        (t.dedupe (s.fadeSilence f).1.bare).1.marker = none ∧
        (t.dedupe (s.fadeSilence f).1.bare).2.spilled = s.spilled :=
    ⟨(t.core_dedupe _).trans hcore, t.marker_dedupe rfl, (t.spilled_dedupe _).trans ht⟩
  unfold shapeSilence
  dsimp only
  split
  · exact .inl (hbare _ hspilled)
  · split
    · exact .inl (hbare _ hspilled)
    · split
      · exact .inl (hbare _ hspilled)
      · exact .inr ⟨bare_dedupe .., _, spilled_dedupe .., hcore, rfl⟩

/-- A frame leaves as it is, with a marker only if it is voiced, or it is spilled without a marker
and an untimed silence leaves ahead of it. -/
theorem shape_cases (s : Shaper) (f : Frame) :
    ((s.shape f).1.core = f.core ∧ ((s.shape f).1.marker = none ∨ f.isVoiced = true) ∧
        (s.shape f).2.spilled = s.spilled) ∨
      ((s.shape f).1.bare = silence 0 0 ∧
        ∃ g, (s.shape f).2.spilled = some g ∧ g.core = f.core ∧ g.marker = none) := by
  cases hv : f.isVoiced with
  | true =>
    obtain ⟨hcore, hspilled⟩ := s.shapeVoiced_eq f
    rw [shape, if_pos hv]
    exact .inl ⟨hcore, .inr rfl, hspilled⟩
  | false =>
    rw [shape, if_neg (by simp [hv])]
    rcases s.shapeSilence_cases f with ⟨hcore, hnone, hspilled⟩ | h
    · exact .inl ⟨hcore, .inl hnone, hspilled⟩
    · exact .inr h

/-- What it takes for a frame to leave: it was spilled, it is shaped, or it is the last. -/
theorem next_cases (h : s.next frames = (some f, next, rest)) :
    (s.spilled = some f ∧ next = { s with spilled := none } ∧ rest = frames) ∨
      (s.spilled = none ∧ ∃ g, frames = g :: rest ∧ f = (s.shape g).1 ∧ next = (s.shape g).2) ∨
      (s.spilled = none ∧ frames = [] ∧ rest = [] ∧ ∃ m, s.held = some m ∧
        s.lastMarker ≠ some m ∧ f = (silence 0 0).withMarker m ∧
        next = { s with held := none, lastMarker := some m }) := by
  cases hs : s.spilled with
  | some g =>
    simp only [Shaper.next, hs, Prod.mk.injEq, Option.some.injEq] at h
    obtain ⟨rfl, rfl, rfl⟩ := h
    exact .inl ⟨rfl, rfl, rfl⟩
  | none =>
    cases frames with
    | cons g more =>
      simp only [Shaper.next, hs, Prod.mk.injEq, Option.some.injEq] at h
      obtain ⟨rfl, rfl, rfl⟩ := h
      exact .inr (.inl ⟨rfl, g, rfl, rfl, rfl⟩)
    | nil =>
      simp only [Shaper.next, hs, finish, Prod.mk.injEq] at h
      split at h
      · simp at h
      · rename_i m hm
        split at h
        · simp at h
        · rename_i hlast
          obtain ⟨hf, rfl, rfl⟩ := h
          exact .inr (.inr ⟨rfl, rfl, rfl, m, hm, hlast, (Option.some.inj hf).symm, rfl⟩)

theorem next_none (h : s.next frames = (none, next, rest)) :
    s.spilled = none ∧ frames = [] ∧ (s.held = none ∨ s.held = s.lastMarker) := by
  cases hs : s.spilled with
  | some g => simp [Shaper.next, hs] at h
  | none =>
    cases frames with
    | cons g more => simp [Shaper.next, hs] at h
    | nil =>
      refine ⟨rfl, rfl, ?_⟩
      simp only [Shaper.next, hs, finish, Prod.mk.injEq] at h
      split at h
      · exact .inl ‹_›
      · rename_i hm
        split at h
        · rename_i hlast
          exact .inr (hm.trans hlast.symm)
        · simp at h

/-- What is spilled has given its marker up. -/
def IsBare (s : Shaper) : Prop := ∀ f ∈ s.spilled, f.marker = none

/-- The frames that were given and are still to leave. -/
def given (s : Shaper) (frames : List Frame) : List (Option Tone × Bool) :=
  (s.spilled.toList ++ frames).map core

/-- A frame that leaves takes the first of the markers that are due, or none. -/
theorem due_eq_of_next (hb : s.IsBare) (h : s.next frames = (some f, next, rest)) :
    s.due frames = f.marker.toList ++ next.due rest ∧ next.IsBare := by
  obtain ⟨hs, rfl, rfl⟩ | ⟨hs, g, rfl, rfl, rfl⟩ | ⟨hs, rfl, rfl, m, hm, hlast, rfl, rfl⟩ :=
    next_cases h
  · refine ⟨?_, by simp [IsBare]⟩
    rw [hb f hs]
    rfl
  · refine ⟨s.due_shape g rest, ?_⟩
    rcases s.shape_cases g with ⟨-, -, hspilled⟩ | ⟨-, k, hk, -, hnone⟩
    · simp [IsBare, hspilled, hs]
    · simpa [IsBare, hk] using hnone
  · refine ⟨?_, by simp [IsBare, hs]⟩
    simp [due, hm, collapse, hlast, withMarker]

/-- A frame that leaves was given, and has a marker only if it is voiced, or it is an untimed
silence that was not given. -/
theorem given_eq_of_next (hb : s.IsBare) (h : s.next frames = (some f, next, rest)) :
    (s.given frames = f.core :: next.given rest ∧ (f.marker = none ∨ f.isVoiced = true)) ∨
      (s.given frames = next.given rest ∧ f.bare = silence 0 0) := by
  obtain ⟨hs, rfl, rfl⟩ | ⟨hs, g, rfl, rfl, rfl⟩ | ⟨hs, rfl, rfl, m, -, -, rfl, rfl⟩ :=
    next_cases h
  · exact .inl ⟨by simp [given, hs], .inl (hb f hs)⟩
  · rcases s.shape_cases g with ⟨hcore, hmarker, hspilled⟩ | ⟨hbare, k, hk, hcore, -⟩
    · refine .inl ⟨by simp [given, hs, hspilled, hcore], hmarker.imp_right fun hg => ?_⟩
      rw [← hg]
      exact congrArg (·.1.isSome) hcore
    · exact .inr ⟨by simp [given, hs, hk, hcore], hbare⟩
  · exact .inr ⟨by simp [given, hs], rfl⟩

/-- When no frame is left, no marker is due. -/
theorem due_of_next_none (h : s.next frames = (none, next, rest)) : s.due frames = [] := by
  obtain ⟨-, rfl, hm⟩ := next_none h
  cases hheld : s.held with
  | none => simp [due, hheld, collapse]
  | some m =>
    rw [hheld] at hm
    simp [due, hheld, collapse, ← hm.resolve_left (by simp)]

theorem given_of_next_none (h : s.next frames = (none, next, rest)) : s.given frames = [] := by
  obtain ⟨hs, rfl, -⟩ := next_none h
  simp [given, hs]

theorem isPlain_iff :
    s.IsPlain frames ↔ s.IsBare ∧ ∀ c ∈ s.given frames, c.2 = false := by
  constructor
  · intro hp
    refine ⟨hp.bare, ?_⟩
    intro c hc
    obtain ⟨f, hf, rfl⟩ := List.mem_map.1 hc
    rcases List.mem_append.1 hf with hf | hf
    · exact hp.spilled f (Option.mem_toList.1 hf)
    · exact hp.frames f hf
  · rintro ⟨hb, hends⟩
    refine ⟨hb, fun f hf => ?_, fun f hf => ?_⟩
    · exact hends _ (List.mem_map_of_mem (List.mem_append_left _ (Option.mem_toList.2 hf)))
    · exact hends _ (List.mem_map_of_mem (List.mem_append_right _ hf))

/-- If no frame ends the utterance, none that leaves does. -/
theorem due_next (hp : s.IsPlain frames) (h : s.next frames = (some f, next, rest)) :
    s.due frames = f.marker.toList ++ next.due rest ∧ f.endsUtterance = false ∧
      next.IsPlain rest := by
  obtain ⟨hb, hends⟩ := isPlain_iff.1 hp
  obtain ⟨hdue, hb'⟩ := due_eq_of_next hb h
  rw [isPlain_iff]
  rcases given_eq_of_next hb h with ⟨hgiven, -⟩ | ⟨hgiven, hbare⟩
  · rw [hgiven, List.forall_mem_cons] at hends
    exact ⟨hdue, hends.1, hb', hends.2⟩
  · rw [hgiven] at hends
    exact ⟨hdue, congrArg Frame.endsUtterance hbare, hb', hends⟩

end Shaper

end Elocution.Frame
