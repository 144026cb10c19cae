import Mathlib.Data.List.Infix
import Elocution.Proofs.Frame.Utterance

/-!
# What becomes of each frame

Every frame that is queued is accounted for: its length is rendered, its marker is reported by the
chunk that has room where the frame starts, and a chunk is finished where it ends an utterance.
The account is kept of the frames that have been begun, of which the last may still be in play.
-/

namespace Elocution.Frame

namespace Queue

/-! ## The frames that a chunk begins -/

/-- The samples that are left of the frame in play. -/
def ahead (q : Queue) : Nat :=
  match q.playing with
  | some (g, i) => g.total - i
  | none => 0

/-- The next chunk begins these frames: they are taken from those that wait, their markers are
reported, and there is room where each of them starts. -/
structure Begins (q : Queue) (room : Nat) (begun : List Frame) : Prop where
  pending : q.pending = begun ++ (q.render room).2.pending
  markers : (q.render room).1.markers = begun.filterMap Frame.marker
  last : (q.render room).2.lastMarker = (begun.filterMap Frame.marker).getLast?.or q.lastMarker
  samples : (q.render room).1.samples.length + (q.render room).2.ahead =
    q.ahead + (begun.map (Frame.samples q.rate)).sum
  room : ∀ front f back, begun = front ++ f :: back →
    q.ahead + (front.map (Frame.samples q.rate)).sum < room

namespace Begins

variable {rate room : Nat} {pending begun : List Frame} {voice : Oscillator} {last : Option Marker}

/-- No frame is begun while the frame in play sounds on, or while none waits. -/
theorem idle {q : Queue} (hp : (q.render room).2.pending = q.pending)
    (hm : (q.render room).1.markers = []) (hl : (q.render room).2.lastMarker = q.lastMarker)
    (hs : (q.render room).1.samples.length + (q.render room).2.ahead = q.ahead) :
    q.Begins room [] where
  pending := hp.symm
  markers := hm
  last := hl
  samples := hs
  room := by simp

theorem within {g : Glide} {i : Nat} (h : i + room < g.total) :
    Begins ⟨rate, pending, some (g, i), voice, last⟩ room [] := by
  refine .idle ?_ ?_ ?_ ?_ <;> rw [render_within h]
  simp only [ahead, Oscillator.length_play]
  omega

theorem ending {g : Glide} {i : Nat} (h : g.total ≤ i + room) (hend : g.endsUtterance = true) :
    Begins ⟨rate, pending, some (g, i), voice, last⟩ room [] := by
  refine .idle ?_ ?_ ?_ ?_ <;> rw [render_ending h hend]
  · rfl
  · simp [ahead, closing, Oscillator.length_play]

/-- Past the frame in play the chunk goes on with what room is left. -/
theorem past {g : Glide} {i : Nat} (h : g.total ≤ i + room) (hend : g.endsUtterance = false)
    (hb : Begins ⟨rate, pending, none, closingVoice rate voice g i, last⟩
      (room - (g.total - i)) begun) :
    Begins ⟨rate, pending, some (g, i), voice, last⟩ room begun := by
  refine ⟨?_, ?_, ?_, ?_, ?_⟩
  · rw [render_past h hend]
    exact hb.pending
  · rw [render_past h hend]
    exact hb.markers
  · rw [render_past h hend]
    exact hb.last
  · have hs := hb.samples
    rw [render_past h hend]
    simp only [ahead, closing, Chunk.before, Chunk.join, List.length_append,
      Oscillator.length_play] at hs ⊢
    omega
  · intro front f back hf
    have hr := hb.room front f back hf
    simp only [ahead] at hr ⊢
    omega

theorem waiting {f : Frame} {rest : List Frame} (hroom : 0 < room)
    (hb : Begins ⟨rate, rest, some (glide rate voice f, 0), voice, f.marker <|> last⟩
      room begun) :
    Begins ⟨rate, f :: rest, none, voice, last⟩ room (f :: begun) := by
  have hahead : ahead ⟨rate, rest, some (glide rate voice f, 0), voice, f.marker <|> last⟩ =
    f.samples rate := rfl
  refine ⟨?_, ?_, ?_, ?_, ?_⟩
  · rw [render_waiting hroom]
    exact congrArg (f :: ·) hb.pending
  · rw [render_waiting hroom]
    simp only [Chunk.before, Chunk.join, opening, hb.markers, filterMap_marker_cons]
  · rw [render_waiting hroom]
    simp only [Chunk.before, hb.last, filterMap_marker_cons, List.getLast?_append]
    cases f.marker <;> simp
  · have hs := hb.samples
    rw [render_waiting hroom]
    rw [hahead] at hs
    simp only [Chunk.before, Chunk.join, opening, List.nil_append, List.map_cons, List.sum_cons,
      ahead] at hs ⊢
    omega
  · intro front g back hf
    obtain ⟨rfl, -⟩ | ⟨front, rfl, hcons⟩ := List.cons_eq_append_iff.mp hf
    · exact hroom
    · have hr := hb.room front g back hcons
      rw [hahead] at hr
      simpa only [List.map_cons, List.sum_cons, ahead, Nat.zero_add] using hr

end Begins

theorem perform_enqueue (turns : List Turn) (f : Frame) (q : Queue) :
    perform (turns ++ [.enqueue f]) q = ((q.perform turns).1, (q.perform turns).2.enqueue f) := by
  rw [perform_append]
  simp [perform]

theorem perform_render (turns : List Turn) (room : Nat) (q : Queue) :
    perform (turns ++ [.render room]) q =
      ((q.perform turns).1 ++ [((q.perform turns).2.render room).1],
        ((q.perform turns).2.render room).2) := by
  rw [perform_append]
  rfl

@[simp] theorem rate_perform (turns : List Turn) (q : Queue) :
    (q.perform turns).2.rate = q.rate := by
  induction turns generalizing q with
  | nil => rfl
  | cons turn rest ih =>
    cases turn with
    | enqueue f => exact ih (q.enqueue f)
    | render room => exact (ih (q.render room).2).trans (rate_render q room)

/-- The marker `m` of a frame that comes after the frames `before` is reported, after theirs, by
a chunk that has room where the frame starts. -/
def ReportsInPlace (q : Queue) (turns : List Turn) (before : List Frame) (m : Marker) : Prop :=
  ∃ early room late, turns = early ++ .render room :: late ∧
    (∃ front back, ((q.perform early).2.render room).1.markers = front ++ m :: back ∧
      (q.perform early).1.flatMap Chunk.markers ++ front = before.filterMap Frame.marker) ∧
    ((q.perform early).1.flatMap Chunk.samples).length ≤
      (before.map (Frame.samples q.rate)).sum ∧
    (before.map (Frame.samples q.rate)).sum <
      ((q.perform early).1.flatMap Chunk.samples).length + room

theorem ReportsInPlace.concat {q : Queue} {turns : List Turn} {before : List Frame} {m : Marker}
    (h : ReportsInPlace q turns before m) (turn : Turn) :
    ReportsInPlace q (turns ++ [turn]) before m := by
  obtain ⟨early, room, late, rfl, hplace⟩ := h
  exact ⟨early, room, late ++ [turn], by simp, hplace⟩

/-- Of the frames that a schedule has queued it has begun these. -/
structure Accounted (q : Queue) (turns : List Turn) (begun : List Frame) : Prop where
  queued : queued turns = begun ++ (q.perform turns).2.pending
  markers : (q.perform turns).1.flatMap Chunk.markers = begun.filterMap Frame.marker
  last : (q.perform turns).2.lastMarker = (begun.filterMap Frame.marker).getLast?
  samples : ((q.perform turns).1.flatMap Chunk.samples).length + (q.perform turns).2.ahead =
    (begun.map (Frame.samples q.rate)).sum
  reported : ∀ before f back m, begun = before ++ f :: back → f.marker = some m →
    ReportsInPlace q turns before m

namespace Accounted

variable {q : Queue} {turns : List Turn} {begun : List Frame}

theorem enqueue (h : Accounted q turns begun) (f : Frame) :
    Accounted q (turns ++ [.enqueue f]) begun := by
  refine ⟨?_, ?_, ?_, ?_, fun before g back m hb hm => (h.reported before g back m hb hm).concat _⟩
  · rw [perform_enqueue]
    simp [Queue.queued, Turn.frame?, Queue.enqueue, ← List.append_assoc, ← h.queued]
  · rw [perform_enqueue]
    exact h.markers
  · rw [perform_enqueue]
    exact h.last
  · rw [perform_enqueue]
    exact h.samples

/-- A frame that the next chunk begins starts within it. -/
theorem reportsInPlace {room : Nat} {next front back : List Frame} {f : Frame} {m : Marker}
    (h : Accounted q turns begun) (hnext : (q.perform turns).2.Begins room next)
    (hf : next = front ++ f :: back) (hm : f.marker = some m) :
    ReportsInPlace q (turns ++ [.render room]) (begun ++ front) m := by
  have hs := h.samples
  have hr := hnext.room front f back hf
  rw [rate_perform] at hr
  refine ⟨turns, room, [], rfl, ⟨front.filterMap Frame.marker, back.filterMap Frame.marker, ?_, ?_⟩,
    ?_, ?_⟩
  · rw [hnext.markers, hf, List.filterMap_append, filterMap_marker_cons, hm]
    rfl
  · rw [h.markers, List.filterMap_append]
  · rw [List.map_append, List.sum_append]
    omega
  · rw [List.map_append, List.sum_append]
    omega

theorem render {room : Nat} {next : List Frame} (h : Accounted q turns begun)
    (hnext : (q.perform turns).2.Begins room next) :
    Accounted q (turns ++ [.render room]) (begun ++ next) := by
  refine ⟨?_, ?_, ?_, ?_, fun before f back m hb hm => ?_⟩
  · rw [perform_render, List.append_assoc, ← hnext.pending, ← h.queued]
    simp [Queue.queued, Turn.frame?]
  · rw [perform_render]
    simp [h.markers, hnext.markers]
  · rw [perform_render]
    simp [h.last, hnext.last, List.getLast?_append]
  · have hs := h.samples
    have hn := hnext.samples
    rw [rate_perform] at hn
    rw [perform_render]
    simp only [List.flatMap_append, List.flatMap_singleton, List.length_append, List.map_append,
      List.sum_append]
    omega
  -- The frame is among those that the chunk begins, the first of them, or an earlier one.
  · obtain ⟨front, rfl, hf⟩ | ⟨_ | ⟨g, rest⟩, rfl, hf⟩ := List.append_eq_append_iff.mp hb
    · exact h.reportsInPlace hnext hf hm
    · have hfirst : next = [] ++ f :: back := hf.symm
      simpa using h.reportsInPlace hnext hfirst hm
    · obtain ⟨rfl, -⟩ := List.cons.inj hf
      exact (h.reported before f rest m rfl hm).concat _

end Accounted

/-- A new queue after any turns, however often it has been purged, with a purge at the end. -/
def renewed (rate : Nat) (stretches : List (List Turn)) : Queue :=
  stretches.foldl (fun q turns => (q.perform turns).2.purge) { rate }

/-- A frame on its own: its marker, all of its samples, and the end of the utterance. -/
def whole (q : Queue) (f : Frame) : Chunk :=
  (opening f).join (closing q.rate q.voice (glide q.rate q.voice f) 0)

end Queue

end Elocution.Frame
