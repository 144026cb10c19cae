import Mathlib
import Elocution.Frame.Queue

/-!
# What a chunk is rendered from

A chunk comes from the front of the queue: of the waiting frames some are played to their end, and
one more may be begun or may end the utterance. All accounts of markers, of ends of utterances
and of samples are read off this one description.
-/

namespace Elocution.Frame

/-- What there is to report of a frame: its marker, and none for the end of an utterance. -/
def marks (f : Frame) : List (Option Marker) :=
  f.marker.toList.map some ++ if f.endsUtterance then [none] else []

/-- The length of a frame in samples. -/
def samples (rate : Nat) (f : Frame) : Nat := Queue.samplesFor rate f.duration

/-- What there is to report of a chunk. -/
def Chunk.marks (c : Chunk) : List (Option Marker) :=
  c.markers.map some ++ if c.finished then [none] else []

theorem Chunk.isEmpty_iff {c : Chunk} : c.isEmpty = true ↔ c.samples = [] ∧ c.markers = [] := by
  simp [Chunk.isEmpty]

theorem Chunk.none_mem_marks {c : Chunk} : none ∈ c.marks ↔ c.finished = true := by
  cases hf : c.finished <;> simp [Chunk.marks, hf]

theorem marks_of_not_ends {f : Frame} (h : f.endsUtterance = false) :
    f.marks = f.marker.toList.map some := by
  simp [marks, h]

theorem flatMap_marks_of_not_ends {frames : List Frame}
    (h : ∀ f ∈ frames, f.endsUtterance = false) :
    frames.flatMap marks = (frames.filterMap Frame.marker).map some := by
  induction frames with
  | nil => rfl
  | cons f rest ih =>
    have hrest := ih fun g hg => h g (List.mem_cons_of_mem _ hg)
    rw [List.flatMap_cons, hrest, marks_of_not_ends (h f (List.mem_cons_self ..))]
    cases hm : f.marker <;> simp [hm]

theorem reduceOption_flatMap_marks (frames : List Frame) :
    (frames.flatMap marks).filterMap id = frames.filterMap Frame.marker := by
  induction frames with
  | nil => rfl
  | cons f rest ih =>
    rw [List.flatMap_cons, List.filterMap_append, ih]
    cases hm : f.marker <;> cases he : f.endsUtterance <;> simp [marks, hm, he]

namespace Oscillator

theorem length_play (rate : Nat) (g : Glide) (i n : Nat) (o : Oscillator) :
    (o.play rate g i n).1.length = n := by
  induction n generalizing i o with
  | zero => rfl
  | succ n ih => simp [play, ih]

end Oscillator

namespace Queue

/-- A chunk and what it leaves of the waiting frames, none being in play. -/
inductive Rendered (rate room : Nat) (frames : List Frame) : Chunk → Queue → Prop where
  /-- Frames have been played to their end; the queue has run dry or the room is used up. -/
  | through {chunk : Chunk} {q : Queue} {before : List Frame}
      (hf : frames = before ++ q.pending) (hp : q.playing = none)
      (hb : ∀ f ∈ before, f.endsUtterance = false)
      (hm : chunk.markers = before.filterMap Frame.marker)
      (hs : chunk.samples.length = (before.map (Frame.samples rate)).sum)
      (hr : q.pending = [] ∨ room ≤ chunk.samples.length)
      (he : chunk.finished = false) : Rendered rate room frames chunk q
  /-- One more frame is in play; the room is used up. -/
  | within {chunk : Chunk} {q : Queue} {before : List Frame} {f : Frame} {n : Nat}
      {voice : Oscillator} (hf : frames = before ++ f :: q.pending)
      (hp : q.playing = some (glide rate voice f, n)) (hn : n < f.samples rate)
      (hb : ∀ f ∈ before, f.endsUtterance = false)
      (hm : chunk.markers = (before ++ [f]).filterMap Frame.marker)
      (hs : chunk.samples.length = (before.map (Frame.samples rate)).sum + n)
      (hr : room ≤ chunk.samples.length)
      (he : chunk.finished = false) : Rendered rate room frames chunk q
  /-- One more frame has ended the utterance. -/
  | upTo {chunk : Chunk} {q : Queue} {before : List Frame} {f : Frame}
      (hf : frames = before ++ f :: q.pending) (hp : q.playing = none)
      (hb : ∀ f ∈ before, f.endsUtterance = false) (hend : f.endsUtterance = true)
      (hm : chunk.markers = (before ++ [f]).filterMap Frame.marker)
      (hs : chunk.samples.length = ((before ++ [f]).map (Frame.samples rate)).sum)
      (he : chunk.finished = true) : Rendered rate room frames chunk q

/-- A frame played to its end ahead of the others. -/
theorem Rendered.cons {rate room : Nat} {rest : List Frame} {chunk : Chunk} {q : Queue}
    {f : Frame} {samples : List Int16}
    (h : Rendered rate (room - samples.length) rest chunk q) (hf : f.endsUtterance = false)
    (hs : samples.length = f.samples rate) :
    Rendered rate room (f :: rest)
      { chunk with samples := samples ++ chunk.samples
                   markers := f.marker.toList ++ chunk.markers } q := by
  have hmarks (before : List Frame) :
      f.marker.toList ++ before.filterMap Frame.marker = (f :: before).filterMap Frame.marker :=
    (filterMap_marker_cons f before).symm
  have hend {before : List Frame} (hb : ∀ f ∈ before, f.endsUtterance = false) :
      ∀ g ∈ f :: before, g.endsUtterance = false := by
    intro g hg
    rcases List.mem_cons.mp hg with rfl | hg
    · exact hf
    · exact hb g hg
  cases h with
  | through hfr hp hb hm hlen hr he =>
    refine .through (by simp [hfr]) hp (hend hb) ?_ ?_ (hr.imp_right fun hroom => ?_) he
    · rw [hm, hmarks]
    · simp [hs, hlen]
    · rw [List.length_append]
      omega
  | within hfr hp hn hb hm hlen hr he =>
    refine .within (by simp [hfr]) hp hn (hend hb) ?_ ?_ ?_ he
    · rw [hm, hmarks, List.cons_append]
    · simp [hs, hlen, Nat.add_assoc]
    · rw [List.length_append]
      omega
  | upTo hfr hp hb hfe hm hlen he =>
    refine .upTo (by simp [hfr]) hp (hend hb) hfe ?_ ?_ he
    · rw [hm, hmarks, List.cons_append]
    · simp [hs, hlen]

theorem rendered_renderPending (rate room : Nat) (voice : Oscillator) (last : Option Marker)
    (frames : List Frame) :
    Rendered rate room frames (renderPending rate room voice last frames).1
      (renderPending rate room voice last frames).2 := by
  induction frames generalizing room voice last with
  | nil => exact .through (List.nil_append _).symm rfl (by simp) rfl rfl (.inl rfl) rfl
  | cons f rest ih =>
    simp only [renderPending]
    split
    · rename_i hroom
      exact .through (List.nil_append _).symm rfl (by simp) rfl rfl (.inr (by simp [hroom])) rfl
    · split
      · rename_i hroom hn
        refine .within (n := min room (f.samples rate)) (List.nil_append _).symm rfl hn (by simp)
          ?_ ?_ ?_ rfl
        · cases hm : f.marker <;> simp [hm]
        · simp [Oscillator.length_play, glide, Frame.samples]
        · rw [Oscillator.length_play]
          omega
      · rename_i hroom hn
        have hlen : min room (glide rate voice f).total = f.samples rate := by
          simp only [glide, Frame.samples] at hn ⊢
          omega
        split
        · rename_i hend
          refine .upTo (List.nil_append _).symm rfl (by simp) hend ?_ ?_ rfl
          · cases hm : f.marker <;> simp [hm]
          · simpa [Oscillator.length_play] using hlen
        · rename_i hend
          have hplay := voice.length_play rate (glide rate voice f) 0
            (min room (glide rate voice f).total)
          refine Rendered.cons ?_ (by simpa using hend) (hplay.trans hlen)
          rw [hplay]
          exact ih ..

/-- A chunk fits into the room that there is. -/
theorem length_renderPending_le (rate room : Nat) (voice : Oscillator) (last : Option Marker)
    (frames : List Frame) :
    (renderPending rate room voice last frames).1.samples.length ≤ room := by
  induction frames generalizing room voice last with
  | nil => exact Nat.zero_le _
  | cons f rest ih =>
    simp only [renderPending]
    split
    · exact Nat.zero_le _
    · split
      · rw [Oscillator.length_play]
        exact Nat.min_le_left ..
      · split
        · rw [Oscillator.length_play]
          exact Nat.min_le_left ..
        · have hroom : min room (glide rate voice f).total +
              (room - min room (glide rate voice f).total) = room := by omega
          rw [List.length_append, Oscillator.length_play]
          exact (Nat.add_le_add_left (ih ..) _).trans (Nat.le_of_eq hroom)

theorem length_render_le (q : Queue) (room : Nat) :
    (q.render room).1.samples.length ≤ room := by
  unfold render
  split
  · exact length_renderPending_le ..
  · rename_i g i hp
    simp only
    split
    · rw [Oscillator.length_play]
      exact Nat.min_le_left ..
    · split
      · rw [Oscillator.length_play]
        exact Nat.min_le_left ..
      · have hroom : min room (g.total - i) + (room - min room (g.total - i)) = room := by omega
        rw [List.length_append, Oscillator.length_play]
        exact (Nat.add_le_add_left (length_renderPending_le ..) _).trans (Nat.le_of_eq hroom)

theorem rate_renderPending (rate room : Nat) (voice : Oscillator) (last : Option Marker)
    (frames : List Frame) : (renderPending rate room voice last frames).2.rate = rate := by
  induction frames generalizing room voice last with
  | nil => rfl
  | cons f rest ih =>
    simp only [renderPending]
    split
    · rfl
    · split
      · rfl
      · split
        · rfl
        · exact ih ..

@[simp] theorem rate_render (q : Queue) (room : Nat) : (q.render room).2.rate = q.rate := by
  unfold render
  split
  · exact rate_renderPending ..
  · simp only
    split
    · rfl
    · split
      · rfl
      · exact rate_renderPending ..

/-- Nothing waits and nothing is in play. -/
def IsClear (q : Queue) : Prop := q.pending = [] ∧ q.playing = none

instance (q : Queue) : Decidable q.IsClear :=
  decidable_of_iff (q.pending.isEmpty ∧ q.playing.isNone) (by simp [IsClear])

theorem isClear_purge (q : Queue) : q.purge.IsClear := ⟨rfl, rfl⟩

theorem render_of_isClear {q : Queue} (h : q.IsClear) (room : Nat) : q.render room = ({}, q) := by
  obtain ⟨hp, hn⟩ := h
  cases q
  simp only at hp hn
  subst hp hn
  rfl

/-- What there is to report of the frame in play. -/
def playingMarks (q : Queue) : List (Option Marker) :=
  match q.playing with
  | some (g, _) => if g.endsUtterance then [none] else []
  | none => []

/-- What there is to report of the frames of a queue. -/
def marks (q : Queue) : List (Option Marker) := q.playingMarks ++ q.pending.flatMap Frame.marks

/-- The ends of utterances that are left to report. -/
def ends (q : Queue) : Nat := q.marks.count none

/-- The markers that are left to report. -/
def markers (q : Queue) : List Marker := q.pending.filterMap Frame.marker

/-- The samples that are left to render. -/
def left (q : Queue) : Nat :=
  (match q.playing with
    | some (g, i) => g.total - i
    | none => 0) + (q.pending.map (Frame.samples q.rate)).sum

/-- The frame in play and the frames that wait are the last of these. -/
def Holds (frames : List Frame) (q : Queue) : Prop :=
  match q.playing with
  | none => q.pending <:+ frames
  | some (g, _) => ∃ f voice, f :: q.pending <:+ frames ∧ g = glide q.rate voice f

/-- The last frame in the queue, if there is one, ends an utterance. -/
def IsClosed (q : Queue) : Prop :=
  match q.pending.getLast? with
  | some f => f.endsUtterance = true
  | none => q.playing.all (·.1.endsUtterance) = true

section Render

variable {rate room : Nat} {frames : List Frame} {chunk : Chunk} {q : Queue}

theorem Rendered.marks_eq (h : Rendered rate room frames chunk q) :
    frames.flatMap Frame.marks = chunk.marks ++ q.marks := by
  cases h with
  | through hf hp hb hm hs hr he =>
    simp [hf, marks, playingMarks, hp, Chunk.marks, he, hm, flatMap_marks_of_not_ends hb]
  | @within before f n voice hf hp hn hb hm hs hr he =>
    have hg : (glide rate voice f).endsUtterance = f.endsUtterance := rfl
    simp only [hf, List.flatMap_append, List.flatMap_cons, flatMap_marks_of_not_ends hb,
      Frame.marks, marks, playingMarks, hp, hg, Chunk.marks, he, hm]
    cases hk : f.marker <;> simp [hk]
  | @upTo before f hf hp hb hend hm hs he =>
    simp only [hf, List.flatMap_append, List.flatMap_cons, flatMap_marks_of_not_ends hb,
      Frame.marks, marks, playingMarks, hp, Chunk.marks, he, hm, hend]
    cases hk : f.marker <;> simp [hk]

theorem Rendered.left_eq (h : Rendered rate room frames chunk q) (hrate : q.rate = rate) :
    (frames.map (Frame.samples rate)).sum = chunk.samples.length + q.left := by
  cases h with
  | through hf hp hb hm hs hr he => simp [hf, hs, left, hp, hrate]
  | @within before f n voice hf hp hn hb hm hs hr he =>
    have hg : (glide rate voice f).total = f.samples rate := rfl
    simp only [hf, hs, left, hp, hrate, hg, List.map_append, List.map_cons, List.sum_append,
      List.sum_cons]
    omega
  | upTo hf hp hb hend hm hs he =>
    simp only [hf, hs, left, hp, hrate, List.map_append, List.map_cons, List.sum_append,
      List.sum_cons, List.map_nil, List.sum_nil]
    omega

theorem Rendered.holds (h : Rendered rate room frames chunk q) (hrate : q.rate = rate) :
    q.Holds frames := by
  unfold Holds
  cases h with
  | through hf hp =>
    rw [hp]
    exact hf ▸ List.suffix_append ..
  | within hf hp =>
    rw [hp, hrate]
    exact ⟨_, _, hf ▸ List.suffix_append .., rfl⟩
  | upTo hf hp =>
    rw [hp]
    exact hf ▸ (List.suffix_cons ..).trans (List.suffix_append ..)

theorem Rendered.isClosed (h : Rendered rate room frames chunk q)
    (hc : ∀ f, frames.getLast? = some f → f.endsUtterance = true) : q.IsClosed := by
  have hlast {before : List Frame} {f : Frame} (hf : frames = before ++ q.pending)
      (hq : q.pending.getLast? = some f) : f.endsUtterance = true := by
    refine hc f ?_
    rw [hf, List.getLast?_append, hq]
    rfl
  unfold IsClosed
  split
  · rename_i f hq
    cases h with
    | through hf => exact hlast hf hq
    | within hf => exact hlast (by rw [hf, List.append_cons]) hq
    | upTo hf => exact hlast (by rw [hf, List.append_cons]) hq
  · rename_i hq
    cases h with
    | through hf hp => simp [hp]
    | within hf hp =>
      rw [List.getLast?_eq_none_iff.mp hq] at hf
      simpa [hp, glide] using hc _ (by simp [hf])
    | upTo hf hp => simp [hp]

/-- A chunk in which there is nothing leaves nothing, unless an utterance has ended. -/
theorem Rendered.isClear (h : Rendered rate room frames chunk q) (hroom : 0 < room)
    (he : chunk.isEmpty = true) (hfin : chunk.finished = false) : q.IsClear := by
  have hlen : chunk.samples.length = 0 := by rw [(Chunk.isEmpty_iff.mp he).1]; rfl
  cases h with
  | through hf hp hb hm hs hr =>
    refine ⟨hr.resolve_right ?_, hp⟩
    omega
  | within hf hp hn hb hm hs hr => omega
  | upTo hf hp hb hend hm hs he => simp [he] at hfin

theorem Rendered.playing_of_finished (h : Rendered rate room frames chunk q)
    (hfin : chunk.finished = true) : q.playing = none := by
  cases h with
  | through _ hp => exact hp
  | within _ _ _ _ _ _ _ he => simp [he] at hfin
  | upTo _ hp => exact hp

end Render

/-- Rendering with a frame in play: it stays in play, ends the utterance with itself, or makes
room for the frames that wait. -/
theorem render_cases (q : Queue) (room : Nat) :
    (q.playing = none ∧ Rendered q.rate room q.pending (q.render room).1 (q.render room).2) ∨
    (∃ g i n, q.playing = some (g, i) ∧ i + n < g.total ∧ room ≤ n ∧
      (q.render room).2.playing = some (g, i + n) ∧ (q.render room).2.pending = q.pending ∧
      (q.render room).1.samples.length = n ∧ (q.render room).1.markers = [] ∧
      (q.render room).1.finished = false) ∨
    (∃ g i, q.playing = some (g, i) ∧ g.endsUtterance = true ∧
      (q.render room).2.playing = none ∧ (q.render room).2.pending = q.pending ∧
      (q.render room).1.samples.length = g.total - i ∧ (q.render room).1.markers = [] ∧
      (q.render room).1.finished = true) ∨
    (∃ g i chunk, q.playing = some (g, i) ∧ g.endsUtterance = false ∧
      Rendered q.rate (room - (g.total - i)) q.pending chunk (q.render room).2 ∧
      (q.render room).1.samples.length = g.total - i + chunk.samples.length ∧
      (q.render room).1.markers = chunk.markers ∧
      (q.render room).1.finished = chunk.finished) := by
  unfold render
  cases hp : q.playing with
  | none => exact .inl ⟨rfl, rendered_renderPending ..⟩
  | some x =>
    obtain ⟨g, i⟩ := x
    have hplay := q.voice.length_play q.rate g i (min room (g.total - i))
    simp only
    split
    · rename_i hn
      refine .inr (.inl ⟨g, i, _, rfl, hn, ?_, rfl, rfl, hplay, rfl, rfl⟩)
      omega
    · rename_i hn
      have hmin : min room (g.total - i) = g.total - i := by omega
      rw [hmin] at hplay ⊢
      split
      · rename_i hend
        exact .inr (.inr (.inl ⟨g, i, rfl, hend, rfl, rfl, hplay, rfl, rfl⟩))
      · rename_i hend
        refine .inr (.inr (.inr ⟨g, i, _, rfl, by simpa using hend,
          rendered_renderPending .., ?_, rfl, rfl⟩))
        simp [hplay]

theorem marks_render (q : Queue) (room : Nat) :
    q.marks = (q.render room).1.marks ++ (q.render room).2.marks := by
  obtain ⟨hp, h⟩ | ⟨g, i, n, hp, _, _, hp', hq, _, hm, hf⟩ | ⟨g, i, hp, he, hp', hq, _, hm, hf⟩ |
    ⟨g, i, chunk, hp, he, h, _, hm, hf⟩ := q.render_cases room
  · rw [← h.marks_eq, marks, playingMarks, hp, List.nil_append]
  · simp [marks, playingMarks, hp, hp', hq, Chunk.marks, hm, hf]
  · simp [marks, playingMarks, hp, hp', hq, Chunk.marks, hm, hf, he]
  · rw [Chunk.marks, hm, hf, ← Chunk.marks, ← h.marks_eq]
    simp [marks, playingMarks, hp, he]

theorem ends_render (q : Queue) (room : Nat) :
    q.ends = (if (q.render room).1.finished then 1 else 0) + (q.render room).2.ends := by
  have hchunk (c : Chunk) : c.marks.count none = if c.finished then 1 else 0 := by
    have hmarkers : (c.markers.map some).count none = 0 := by simp [List.count_eq_zero]
    rw [Chunk.marks, List.count_append, hmarkers]
    cases c.finished <;> simp
  rw [ends, q.marks_render room, List.count_append, hchunk, ends]

@[simp] theorem rate_enqueue (q : Queue) (f : Frame) : (q.enqueue f).rate = q.rate := rfl

theorem marks_enqueue (q : Queue) (f : Frame) : (q.enqueue f).marks = q.marks ++ f.marks := by
  simp [marks, playingMarks, enqueue]

theorem left_enqueue (q : Queue) (f : Frame) : (q.enqueue f).left = q.left + f.samples q.rate := by
  simp [left, enqueue, Nat.add_assoc]

theorem ends_enqueue (q : Queue) (f : Frame) :
    (q.enqueue f).ends = q.ends + if f.endsUtterance then 1 else 0 := by
  have hframe : f.marks.count none = if f.endsUtterance then 1 else 0 := by
    cases hm : f.marker <;> cases he : f.endsUtterance <;> simp [Frame.marks, hm, he]
  rw [ends, marks_enqueue, List.count_append, hframe, ends]

theorem reduceOption_marks (q : Queue) : q.marks.filterMap id = q.markers := by
  have hplaying : q.playingMarks.filterMap id = [] := by
    unfold playingMarks
    split
    · split <;> rfl
    · rfl
  rw [marks, List.filterMap_append, reduceOption_flatMap_marks, hplaying, List.nil_append,
    markers]

theorem markers_render (q : Queue) (room : Nat) :
    q.markers = (q.render room).1.markers ++ (q.render room).2.markers := by
  have hchunk (c : Chunk) : c.marks.filterMap id = c.markers := by
    cases hf : c.finished <;> simp [Chunk.marks, hf, List.filterMap_map]
  rw [← reduceOption_marks, marks_render q room, List.filterMap_append, hchunk,
    reduceOption_marks]

theorem left_render (q : Queue) (room : Nat) :
    q.left = (q.render room).1.samples.length + (q.render room).2.left := by
  obtain ⟨hp, h⟩ | ⟨g, i, n, hp, hn, _, hp', hq, hs, _⟩ | ⟨g, i, hp, _, hp', hq, hs, _⟩ |
    ⟨g, i, chunk, hp, _, h, hs, _⟩ := q.render_cases room
  · rw [← h.left_eq (rate_render q room), left, hp]
    simp
  · simp only [left, hp, hp', hq, hs, rate_render]
    omega
  · simp only [left, hp, hp', hq, hs, rate_render]
    omega
  · have hleft := h.left_eq (rate_render q room)
    simp only [left, hp, hs] at hleft ⊢
    omega

theorem holds_render {q : Queue} {frames : List Frame} (h : q.Holds frames) (room : Nat) :
    (q.render room).2.Holds frames := by
  have trans {waiting : List Frame} {r : Queue} (hr : r.Holds waiting) (hw : waiting <:+ frames) :
      r.Holds frames := by
    unfold Holds at hr ⊢
    split at hr
    · exact hr.trans hw
    · obtain ⟨f, voice, hs, hg⟩ := hr
      exact ⟨f, voice, hs.trans hw, hg⟩
  have hpending : q.pending <:+ frames := by
    unfold Holds at h
    split at h
    · exact h
    · obtain ⟨f, voice, hs, -⟩ := h
      exact (List.suffix_cons ..).trans hs
  obtain ⟨-, hr⟩ | ⟨g, i, n, hp, _, _, hp', hq, _⟩ | ⟨g, i, _, _, hp', hq, _⟩ |
    ⟨g, i, chunk, _, _, hr, _⟩ := q.render_cases room
  · exact trans (hr.holds (rate_render q room)) hpending
  · unfold Holds at h ⊢
    rw [hp] at h
    rw [hp', hq, rate_render]
    exact h
  · unfold Holds
    rw [hp', hq]
    exact hpending
  · exact trans (hr.holds (rate_render q room)) hpending

theorem holds_enqueue {q : Queue} {frames : List Frame} (h : q.Holds frames) (f : Frame) :
    (q.enqueue f).Holds (frames ++ [f]) := by
  unfold Holds at h ⊢
  simp only [enqueue]
  split at h
  · exact List.suffix_append_self_iff.mpr h
  · obtain ⟨g, voice, hs, hg⟩ := h
    exact ⟨g, voice, List.suffix_append_self_iff.mpr hs, hg⟩

theorem holds_of_isClear {q : Queue} (h : q.IsClear) (frames : List Frame) : q.Holds frames := by
  unfold Holds
  rw [h.2, h.1]
  exact List.nil_suffix

theorem isClosed_enqueue (q : Queue) {f : Frame} (hf : f.endsUtterance = true) :
    (q.enqueue f).IsClosed := by
  simp [IsClosed, enqueue, hf]

theorem isClosed_of_isClear {q : Queue} (h : q.IsClear) : q.IsClosed := by
  simp [IsClosed, h.1, h.2]

theorem ends_of_isClear {q : Queue} (h : q.IsClear) : q.ends = 0 := by
  simp [ends, marks, playingMarks, h.1, h.2]

/-- A queue that ends with the end of an utterance has one in it, unless it is clear. -/
theorem IsClosed.isClear {q : Queue} (h : q.IsClosed) (he : q.ends = 0) : q.IsClear := by
  rw [ends, marks, List.count_append, Nat.add_eq_zero_iff, List.count_eq_zero,
    List.count_eq_zero] at he
  unfold IsClosed at h
  split at h
  · rename_i f hf
    refine absurd (List.mem_flatMap.mpr ⟨f, List.mem_of_getLast? hf, ?_⟩) he.2
    simp [Frame.marks, h]
  · rename_i hp
    refine ⟨List.getLast?_eq_none_iff.mp hp, ?_⟩
    cases hplay : q.playing with
    | none => rfl
    | some x =>
      rw [hplay] at h
      refine absurd ?_ he.1
      simp only [Option.all_some] at h
      simp [playingMarks, hplay, h]

theorem isClosed_render {q : Queue} (h : q.IsClosed) (room : Nat) :
    (q.render room).2.IsClosed := by
  have hlast (f : Frame) (hf : q.pending.getLast? = some f) : f.endsUtterance = true := by
    simpa [IsClosed, hf] using h
  obtain ⟨-, hr⟩ | ⟨g, i, n, hp, _, _, hp', hq, _⟩ | ⟨g, i, hp, _, hp', hq, _⟩ |
    ⟨g, i, chunk, _, _, hr, _⟩ := q.render_cases room
  · exact hr.isClosed hlast
  · unfold IsClosed at h ⊢
    rw [hp] at h
    rw [hp', hq]
    exact h
  · unfold IsClosed at h ⊢
    rw [hp', hq]
    split
    · rename_i f hf
      exact hlast f hf
    · rfl
  · exact hr.isClosed hlast

theorem isClear_render {q : Queue} {room : Nat} (hroom : 0 < room)
    (he : (q.render room).1.isEmpty = true) (hf : (q.render room).1.finished = false) :
    (q.render room).2.IsClear := by
  obtain ⟨hempty, hnone⟩ := Chunk.isEmpty_iff.mp he
  have hlen : (q.render room).1.samples.length = 0 := by rw [hempty]; rfl
  obtain ⟨-, hr⟩ | ⟨g, i, n, _, _, hn, _, _, hs, _⟩ | ⟨g, i, _, _, _, _, _, _, hfin⟩ |
    ⟨g, i, chunk, _, _, hr, hs, hm, hfin⟩ := q.render_cases room
  · exact hr.isClear hroom he hf
  · omega
  · simp [hf] at hfin
  · refine hr.isClear (by omega) ?_ (hfin ▸ hf)
    have hsamples : chunk.samples = [] := List.eq_nil_of_length_eq_zero (by omega)
    exact Chunk.isEmpty_iff.mpr ⟨hsamples, hm ▸ hnone⟩

theorem playing_of_finished {q : Queue} {room : Nat} (hf : (q.render room).1.finished = true) :
    (q.render room).2.playing = none := by
  obtain ⟨-, hr⟩ | ⟨g, i, n, _, _, _, _, _, _, _, hfin⟩ | ⟨g, i, _, _, hp, _⟩ |
    ⟨g, i, chunk, _, _, hr, _, _, hfin⟩ := q.render_cases room
  · exact hr.playing_of_finished hf
  · simp [hf] at hfin
  · exact hp
  · exact hr.playing_of_finished (hfin ▸ hf)

/-- When the end of an utterance has been rendered, the frame before those that wait is that end. -/
theorem Rendered.parted {rate room : Nat} {frames : List Frame} {chunk : Chunk} {q : Queue}
    (h : Rendered rate room frames chunk q) (hfin : chunk.finished = true) :
    ∃ f : Frame, f.endsUtterance = true ∧ f :: q.pending <:+ frames := by
  cases h with
  | through _ _ _ _ _ _ he => simp [he] at hfin
  | within _ _ _ _ _ _ _ he => simp [he] at hfin
  | @upTo before f hf _ _ hend => exact ⟨f, hend, hf ▸ List.suffix_append ..⟩

theorem parted_render {q : Queue} {frames : List Frame} (h : q.Holds frames) {room : Nat}
    (hf : (q.render room).1.finished = true) :
    ∃ f : Frame, f.endsUtterance = true ∧ f :: (q.render room).2.pending <:+ frames := by
  unfold Holds at h
  obtain ⟨hp, hr⟩ | ⟨g, i, n, _, _, _, _, _, _, _, hfin⟩ | ⟨g, i, hp, hend, _, hq, _⟩ |
    ⟨g, i, chunk, hp, _, hr, _, _, hfin⟩ := q.render_cases room
  · rw [hp] at h
    obtain ⟨f, hend, hs⟩ := hr.parted hf
    exact ⟨f, hend, hs.trans h⟩
  · simp [hf] at hfin
  · rw [hp] at h
    obtain ⟨f, voice, hs, rfl⟩ := h
    exact ⟨f, hend, hq ▸ hs⟩
  · rw [hp] at h
    obtain ⟨f, voice, hs, -⟩ := h
    obtain ⟨f', hend, hs'⟩ := hr.parted (hfin ▸ hf)
    exact ⟨f', hend, hs'.trans ((List.suffix_cons ..).trans hs)⟩

end Queue

end Elocution.Frame
