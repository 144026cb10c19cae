import Elocution.Proofs.Frame.Rendering

/-!
# Queues with other voices

The state of the voice source has a say in the values of the samples and in nothing else: queues
that hold the same frames give chunks of the same lengths with the same markers.
-/

namespace Elocution.Frame

/-- What there is of a frame in play apart from its tones. -/
def Glide.outline (x : Glide × Nat) : Nat × Bool × Nat := (x.1.total, x.1.endsUtterance, x.2)

/-- Chunks that differ in the values of their samples, and not even in these if `same` holds. -/
structure Chunk.Alike (same : Prop) (c d : Chunk) : Prop where
  length : c.samples.length = d.samples.length
  markers : c.markers = d.markers
  finished : c.finished = d.finished
  samples : same → c.samples = d.samples

/-- Queues that differ in their voices, and not even in these if `same` holds. -/
structure Queue.Alike (same : Prop) (q r : Queue) : Prop where
  rate : q.rate = r.rate
  pending : q.pending = r.pending
  playing : q.playing.map Glide.outline = r.playing.map Glide.outline
  voice : same → q.voice = r.voice ∧ q.playing = r.playing

variable {same : Prop} {c d : Chunk} {q r : Queue}

theorem Chunk.Alike.isEmpty (h : c.Alike same d) : c.isEmpty = d.isEmpty := by
  have hsamples : c.samples.isEmpty = d.samples.isEmpty := by
    rw [Bool.eq_iff_iff, List.isEmpty_iff, List.isEmpty_iff, ← List.length_eq_zero_iff,
      ← List.length_eq_zero_iff, h.length]
  rw [Chunk.isEmpty, Chunk.isEmpty, hsamples, h.markers]

/-- Audio of the same length ahead of chunks that are alike. -/
theorem Chunk.Alike.cons (h : c.Alike same d) {xs ys : List Int16} (marker : Option Marker)
    (hlen : xs.length = ys.length) (hsame : same → xs = ys) :
    Chunk.Alike same
      { c with samples := xs ++ c.samples, markers := marker.toList ++ c.markers }
      { d with samples := ys ++ d.samples, markers := marker.toList ++ d.markers } :=
  ⟨by simp [hlen, h.length], by rw [h.markers], h.finished,
    fun hs => by rw [hsame hs, h.samples hs]⟩

namespace Queue

theorem Alike.enqueue (h : q.Alike same r) (f : Frame) :
    (q.enqueue f).Alike same (r.enqueue f) :=
  ⟨h.rate, by simp [Queue.enqueue, h.pending], h.playing, h.voice⟩

theorem alike_of_isClear (hq : q.IsClear) (hr : r.IsClear) (hrate : q.rate = r.rate)
    (hv : same → q.voice = r.voice) : q.Alike same r :=
  ⟨hrate, hq.1.trans hr.1.symm, by rw [hq.2, hr.2], fun hs => ⟨hv hs, hq.2.trans hr.2.symm⟩⟩

theorem alike_renderPending (rate : Nat) (frames : List Frame) (room : Nat) {v w : Oscillator}
    (hv : same → v = w) (last last' : Option Marker) :
    (renderPending rate room v last frames).1.Alike same
        (renderPending rate room w last' frames).1 ∧
      (renderPending rate room v last frames).2.Alike same
        (renderPending rate room w last' frames).2 := by
  induction frames generalizing room v w last last' with
  | nil => exact ⟨⟨rfl, rfl, rfl, fun _ => rfl⟩, ⟨rfl, rfl, rfl, fun hs => ⟨hv hs, rfl⟩⟩⟩
  | cons f rest ih =>
    have htotal : (glide rate v f).total = (glide rate w f).total := rfl
    have hplayed : same → v.play rate (glide rate v f) 0 (min room (glide rate v f).total) =
        w.play rate (glide rate w f) 0 (min room (glide rate w f).total) := by
      intro hs
      rw [hv hs]
    have hlen : (v.play rate (glide rate v f) 0 (min room (glide rate v f).total)).1.length =
        (w.play rate (glide rate w f) 0 (min room (glide rate w f).total)).1.length := by
      rw [Oscillator.length_play, Oscillator.length_play, htotal]
    simp only [renderPending, ← htotal]
    split
    · exact ⟨⟨rfl, rfl, rfl, fun _ => rfl⟩, ⟨rfl, rfl, rfl, fun hs => ⟨hv hs, rfl⟩⟩⟩
    · split
      · refine ⟨⟨hlen, rfl, rfl, fun hs => congrArg Prod.fst (hplayed hs)⟩,
          ⟨rfl, rfl, rfl, fun hs => ⟨congrArg Prod.snd (hplayed hs), ?_⟩⟩⟩
        rw [hv hs]
      · split
        · exact ⟨⟨hlen, rfl, rfl, fun hs => congrArg Prod.fst (hplayed hs)⟩,
            ⟨rfl, rfl, rfl, fun hs => ⟨congrArg Prod.snd (hplayed hs), rfl⟩⟩⟩
        · obtain ⟨hchunk, hqueue⟩ := ih (room - min room (glide rate v f).total)
            (fun hs => congrArg Prod.snd (hplayed hs)) (f.marker <|> last) (f.marker <|> last')
          exact ⟨hchunk.cons f.marker hlen fun hs => congrArg Prod.fst (hplayed hs), hqueue⟩

theorem Alike.render (h : q.Alike same r) (room : Nat) :
    (q.render room).1.Alike same (r.render room).1 ∧
      (q.render room).2.Alike same (r.render room).2 := by
  have hplaying := h.playing
  unfold Queue.render
  cases hq : q.playing with
  | none =>
    obtain hr : r.playing = none := by simpa [hq] using hplaying.symm
    rw [hr, h.rate, h.pending]
    exact alike_renderPending _ _ _ (fun hs => (h.voice hs).1) _ _
  | some x =>
    obtain ⟨g, i⟩ := x
    cases hr : r.playing with
    | none => simp [hq, hr] at hplaying
    | some y =>
      obtain ⟨k, j⟩ := y
      simp only [hq, hr, Option.map_some, Option.some.injEq, Glide.outline,
        Prod.mk.injEq] at hplaying
      obtain ⟨htotal, hends, rfl⟩ := hplaying
      have hsame : same → q.voice = r.voice ∧ g = k := by
        intro hs
        obtain ⟨hv, hp⟩ := h.voice hs
        rw [hq, hr] at hp
        exact ⟨hv, congrArg Prod.fst (Option.some.inj hp)⟩
      have hplayed : same → q.voice.play q.rate g i (min room (g.total - i)) =
          r.voice.play r.rate k i (min room (k.total - i)) := by
        intro hs
        rw [(hsame hs).1, (hsame hs).2, h.rate]
      have hlen : (q.voice.play q.rate g i (min room (g.total - i))).1.length =
          (r.voice.play r.rate k i (min room (k.total - i))).1.length := by
        rw [Oscillator.length_play, Oscillator.length_play, htotal]
      simp only [htotal, hends] at hplayed hlen ⊢
      split
      · refine ⟨⟨hlen, rfl, rfl, fun hs => congrArg Prod.fst (hplayed hs)⟩,
          ⟨h.rate, h.pending, ?_, fun hs => ⟨congrArg Prod.snd (hplayed hs), ?_⟩⟩⟩
        · simp [Glide.outline, htotal, hends]
        · simp only [(hsame hs).2]
      · split
        · exact ⟨⟨hlen, rfl, rfl, fun hs => congrArg Prod.fst (hplayed hs)⟩,
            ⟨h.rate, h.pending, rfl, fun hs => ⟨congrArg Prod.snd (hplayed hs), rfl⟩⟩⟩
        · obtain ⟨hchunk, hqueue⟩ := alike_renderPending r.rate r.pending
            (room - min room (k.total - i)) (fun hs => congrArg Prod.snd (hplayed hs))
            q.lastMarker r.lastMarker
          rw [h.rate, h.pending] at *
          exact ⟨hchunk.cons none hlen fun hs => congrArg Prod.fst (hplayed hs), hqueue⟩

end Queue

end Elocution.Frame
