import Elocution.Frame.Queue

/-!
# What a queue still holds

A queue is measured by the samples that are left in it and the frames that are left in it.
Rendering uses this up, so that a queue to which nothing is added runs dry.
-/

namespace Elocution.Frame.Queue

/-- The samples of the waiting frames, and one for each frame. -/
def waiting (rate : Nat) : List Frame → Nat
  | [] => 0
  | f :: rest => samplesFor rate f.duration + 1 + waiting rate rest

/-- The samples left, and one for each frame left. -/
def remaining (q : Queue) : Nat :=
  waiting q.rate q.pending +
    match q.playing with
    | none => 0
    | some (g, i) => g.total - i + 1

theorem waiting_cons (rate : Nat) (f : Frame) (rest : List Frame) :
    waiting rate (f :: rest) = samplesFor rate f.duration + 1 + waiting rate rest := rfl

theorem remaining_renderPending_le (rate room : Nat) (voice : Oscillator)
    (last : Option Marker) (frames : List Frame) :
    (renderPending rate room voice last frames).2.remaining ≤ waiting rate frames := by
  induction frames generalizing room voice last with
  | nil => simp [renderPending, remaining, waiting]
  | cons f rest ih =>
    rw [waiting_cons]
    simp only [renderPending]
    split
    · simp [remaining, waiting_cons]
    · split
      · simp only [remaining, glide]
        omega
      · split
        · simp only [remaining]
          omega
        · exact Nat.le_trans (ih ..) (by omega)

theorem remaining_renderPending_lt {rate room : Nat} (voice : Oscillator)
    (last : Option Marker) (f : Frame) (rest : List Frame) (hroom : 0 < room) :
    (renderPending rate room voice last (f :: rest)).2.remaining < waiting rate (f :: rest) := by
  rw [waiting_cons]
  simp only [renderPending]
  split
  · omega
  · split
    · rename_i h
      simp only [glide] at h
      simp only [remaining, glide]
      omega
    · split
      · simp only [remaining]
        omega
      · exact Nat.lt_of_le_of_lt (remaining_renderPending_le ..) (by omega)

theorem remaining_render_le (q : Queue) (room : Nat) :
    (q.render room).2.remaining ≤ q.remaining := by
  unfold render
  split
  · rename_i h
    exact Nat.le_trans (remaining_renderPending_le ..) (by simp [remaining, h])
  · rename_i g i h
    simp only
    split
    · simp only [remaining, h]
      omega
    · split
      · simp only [remaining, h]
        omega
      · exact Nat.le_trans (remaining_renderPending_le ..) (by simp [remaining, h])

/-- A chunk with anything in it comes out of what was left. -/
theorem remaining_render_lt {room : Nat} {q : Queue} (hroom : 0 < room)
    (h : (q.render room).1.isEmpty = false) : (q.render room).2.remaining < q.remaining := by
  unfold render at h ⊢
  split
  · rename_i hp
    rw [hp] at h
    simp only at h
    cases hf : q.pending with
    | nil => simp [hf, renderPending, Chunk.isEmpty] at h
    | cons f rest =>
      exact Nat.lt_of_lt_of_le (remaining_renderPending_lt _ _ f rest hroom)
        (by simp [remaining, hp, hf])
  · rename_i g i hp
    simp only
    split
    · simp only [remaining, hp]
      omega
    · split
      · simp only [remaining, hp]
        omega
      · exact Nat.lt_of_le_of_lt (remaining_renderPending_le ..) (by simp [remaining, hp])

end Elocution.Frame.Queue
