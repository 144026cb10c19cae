import Elocution.Frame.Remaining
import Elocution.Proofs.Frame.Rendering

/-!
# Queues under a schedule

Frames are queued as they become known and played in chunks as there is room for them. What a
queue plays to its end depends on neither: every chunk is the front of it, whatever the room, and
frames that are queued later only add to its end.
-/

namespace Elocution.Frame

namespace Oscillator

theorem play_add (rate : Nat) (g : Glide) (i m n : Nat) (o : Oscillator) :
    o.play rate g i (m + n) =
      ((o.play rate g i m).1 ++ ((o.play rate g i m).2.play rate g (i + m) n).1,
        ((o.play rate g i m).2.play rate g (i + m) n).2) := by
  induction m generalizing i o with
  | zero => simp [play]
  | succ m ih => simp [Nat.succ_add, play, ih, Nat.add_assoc]

end Oscillator

namespace Chunk

/-- Two chunks as one; the end of an utterance is that of the second. -/
def join (c d : Chunk) : Chunk :=
  { d with samples := c.samples ++ d.samples, markers := c.markers ++ d.markers }

@[simp] theorem empty_join (c : Chunk) : Chunk.join {} c = c := rfl

theorem join_assoc (c d e : Chunk) : (c.join d).join e = c.join (d.join e) := by
  simp [join, List.append_assoc]

@[simp] theorem finished_join (c d : Chunk) : (c.join d).finished = d.finished := rfl

def before {α : Type} (c : Chunk) (p : Chunk × α) : Chunk × α := (c.join p.1, p.2)

end Chunk

/-- What chunks come to, one after the other: their samples, their markers, and for each end of
an utterance how many samples and markers there were up to it. -/
structure Recording where
  samples : List Int16 := []
  markers : List Marker := []
  ends : List (Nat × Nat) := []
deriving DecidableEq

namespace Recording

/-- One recording after another; the ends in the second are counted from the start of the first. -/
def append (r s : Recording) : Recording where
  samples := r.samples ++ s.samples
  markers := r.markers ++ s.markers
  ends := r.ends ++ s.ends.map fun e => (r.samples.length + e.1, r.markers.length + e.2)

instance : Append Recording := ⟨append⟩

theorem append_def (r s : Recording) : r ++ s = r.append s := rfl

@[simp] theorem empty_append (r : Recording) : ({} : Recording) ++ r = r := by
  simp [append_def, append]

@[simp] theorem append_empty (r : Recording) : r ++ ({} : Recording) = r := by
  simp [append_def, append]

theorem append_assoc (r s t : Recording) : r ++ s ++ t = r ++ (s ++ t) := by
  simp [append_def, append, List.append_assoc, Nat.add_assoc, Function.comp_def]

def before {α : Type} (r : Recording) (p : Recording × α) : Recording × α := (r ++ p.1, p.2)

@[simp] theorem empty_before {α : Type} (p : Recording × α) : before {} p = p := by
  simp [before]

theorem before_before {α : Type} (r s : Recording) (p : Recording × α) :
    r.before (s.before p) = (r ++ s).before p := by
  simp [before, append_assoc]

end Recording

def Chunk.recording (c : Chunk) : Recording where
  samples := c.samples
  markers := c.markers
  ends := if c.finished then [(c.samples.length, c.markers.length)] else []

theorem Chunk.recording_join {c : Chunk} (hc : c.finished = false) (d : Chunk) :
    (c.join d).recording = c.recording ++ d.recording := by
  cases hd : d.finished <;>
    simp [recording, join, Recording.append_def, Recording.append, hc, hd]

namespace Recording

def ofChunks : List Chunk → Recording
  | [] => {}
  | c :: rest => c.recording ++ ofChunks rest

theorem ofChunks_append (cs ds : List Chunk) :
    ofChunks (cs ++ ds) = ofChunks cs ++ ofChunks ds := by
  induction cs with
  | nil => simp [ofChunks]
  | cons c rest ih => simp [ofChunks, ih, append_assoc]

theorem samples_ofChunks (chunks : List Chunk) :
    (ofChunks chunks).samples = chunks.flatMap Chunk.samples := by
  induction chunks with
  | nil => rfl
  | cons c rest ih => simp [ofChunks, append_def, append, Chunk.recording, ih]

theorem markers_ofChunks (chunks : List Chunk) :
    (ofChunks chunks).markers = chunks.flatMap Chunk.markers := by
  induction chunks with
  | nil => rfl
  | cons c rest ih => simp [ofChunks, append_def, append, Chunk.recording, ih]

/-- A finished chunk notes all the samples and markers up to it, its own included. -/
theorem ends_ofChunks_concat (chunks : List Chunk) (c : Chunk) :
    (ofChunks (chunks ++ [c])).ends = (ofChunks chunks).ends ++
      if c.finished then [(((chunks ++ [c]).flatMap Chunk.samples).length,
        ((chunks ++ [c]).flatMap Chunk.markers).length)] else [] := by
  rw [ofChunks_append]
  cases hc : c.finished <;>
    simp [ofChunks, append_def, append, Chunk.recording, hc, ← samples_ofChunks,
      ← markers_ofChunks]

example : (ofChunks [{ samples := [3, 4], finished := true }, { markers := [7] },
    { samples := [5], markers := [8], finished := true }]).ends = [(2, 0), (3, 2)] := by decide

end Recording

namespace Queue

/-! ## A queue played to its end -/

/-- A frame that starts: its marker, and no audio yet. -/
def opening (f : Frame) : Chunk := { markers := f.marker.toList }

/-- The rest of a frame in play. -/
def closing (rate : Nat) (voice : Oscillator) (g : Glide) (i : Nat) : Chunk where
  samples := (voice.play rate g i (g.total - i)).1
  finished := g.endsUtterance

/-- The voice source after the rest of a frame in play. -/
def closingVoice (rate : Nat) (voice : Oscillator) (g : Glide) (i : Nat) : Oscillator :=
  (voice.play rate g i (g.total - i)).2

theorem closing_within {rate : Nat} (voice : Oscillator) {g : Glide} {i n : Nat}
    (h : i + n < g.total) :
    closing rate voice g i = Chunk.join { samples := (voice.play rate g i n).1 }
      (closing rate (voice.play rate g i n).2 g (i + n)) := by
  have hrest : g.total - i = n + (g.total - (i + n)) := by omega
  simp [closing, hrest, Oscillator.play_add, Chunk.join]

theorem closingVoice_within {rate : Nat} (voice : Oscillator) {g : Glide} {i n : Nat}
    (h : i + n < g.total) :
    closingVoice rate voice g i = closingVoice rate (voice.play rate g i n).2 g (i + n) := by
  have hrest : g.total - i = n + (g.total - (i + n)) := by omega
  simp [closingVoice, hrest, Oscillator.play_add]

/-- All that a queue plays, and the queue that is left. -/
def playOut : Queue → Recording × Queue
  | ⟨rate, pending, some (g, i), voice, last⟩ =>
    (closing rate voice g i).recording.before
      (playOut ⟨rate, pending, none, closingVoice rate voice g i, last⟩)
  | ⟨rate, f :: rest, none, voice, last⟩ =>
    (opening f).recording.before
      (playOut ⟨rate, rest, some (glide rate voice f, 0), voice, f.marker <|> last⟩)
  | ⟨rate, [], none, voice, last⟩ => ({}, ⟨rate, [], none, voice, last⟩)
termination_by q => 2 * q.pending.length + q.playing.toList.length
decreasing_by all_goals simp <;> omega

/-- Induction on what is left to play: the rest of the frame in play, then the frame that waits
first, then nothing. -/
@[elab_as_elim]
theorem play_induction {motive : Queue → Prop}
    (playing : ∀ rate pending g i voice last,
      motive ⟨rate, pending, none, closingVoice rate voice g i, last⟩ →
        motive ⟨rate, pending, some (g, i), voice, last⟩)
    (waiting : ∀ rate f rest voice last,
      motive ⟨rate, rest, some (glide rate voice f, 0), voice, f.marker <|> last⟩ →
        motive ⟨rate, f :: rest, none, voice, last⟩)
    (clear : ∀ rate voice last, motive ⟨rate, [], none, voice, last⟩) (q : Queue) : motive q :=
  playOut.induct motive playing waiting clear q

section PlayOut

variable (rate : Nat) (voice : Oscillator) (last : Option Marker)

theorem playOut_playing (pending : List Frame) (g : Glide) (i : Nat) :
    playOut ⟨rate, pending, some (g, i), voice, last⟩ = (closing rate voice g i).recording.before
      (playOut ⟨rate, pending, none, closingVoice rate voice g i, last⟩) := by
  rw [playOut]

theorem playOut_waiting (f : Frame) (rest : List Frame) :
    playOut ⟨rate, f :: rest, none, voice, last⟩ = (opening f).recording.before
      (playOut ⟨rate, rest, some (glide rate voice f, 0), voice, f.marker <|> last⟩) := by
  conv_lhs => rw [playOut]

end PlayOut

theorem playOut_of_isClear {q : Queue} (h : q.IsClear) : q.playOut = ({}, q) := by
  obtain ⟨rate, pending, playing, voice, last⟩ := q
  obtain ⟨rfl, rfl⟩ := h
  rw [playOut]

/-! A frame in play outlasts the room, ends the utterance, or makes room for those that wait. -/

section Render

variable {rate room : Nat} {pending : List Frame} {voice : Oscillator} {last : Option Marker}

theorem render_within {g : Glide} {i : Nat} (h : i + room < g.total) :
    render room ⟨rate, pending, some (g, i), voice, last⟩ =
      ({ samples := (voice.play rate g i room).1 },
        ⟨rate, pending, some (g, i + room), (voice.play rate g i room).2, last⟩) := by
  have hmin : min room (g.total - i) = room := by omega
  simp [render, hmin, h]

theorem render_ending {g : Glide} {i : Nat} (h : g.total ≤ i + room)
    (hend : g.endsUtterance = true) :
    render room ⟨rate, pending, some (g, i), voice, last⟩ =
      (closing rate voice g i, ⟨rate, pending, none, closingVoice rate voice g i, last⟩) := by
  have hmin : min room (g.total - i) = g.total - i := by omega
  have hn : ¬ i + (g.total - i) < g.total := by omega
  simp [render, hmin, hn, hend, closing, closingVoice]

theorem render_past {g : Glide} {i : Nat} (h : g.total ≤ i + room)
    (hend : g.endsUtterance = false) :
    render room ⟨rate, pending, some (g, i), voice, last⟩ =
      (closing rate voice g i).before (render (room - (g.total - i))
        ⟨rate, pending, none, closingVoice rate voice g i, last⟩) := by
  have hmin : min room (g.total - i) = g.total - i := by omega
  have hn : ¬ i + (g.total - i) < g.total := by omega
  simp [render, hmin, hn, hend, closing, closingVoice, Chunk.before, Chunk.join]

theorem render_waiting (hroom : 0 < room) (f : Frame) (rest : List Frame) :
    render room ⟨rate, f :: rest, none, voice, last⟩ =
      (opening f).before
        (render room ⟨rate, rest, some (glide rate voice f, 0), voice, f.marker <|> last⟩) := by
  have hne : ¬ room = 0 := by omega
  obtain h | h := Nat.lt_or_ge room (glide rate voice f).total
  · have hmin : min room (glide rate voice f).total = room := by omega
    rw [render_within (by omega)]
    simp [render, renderPending, hne, hmin, h, opening, Chunk.before, Chunk.join]
  · have hmin : min room (glide rate voice f).total = (glide rate voice f).total := by omega
    have hends : (glide rate voice f).endsUtterance = f.endsUtterance := rfl
    cases hend : f.endsUtterance with
    | true =>
      rw [render_ending (by omega) (hends.trans hend)]
      simp [render, renderPending, hne, hmin, hend, hends, opening, closing, closingVoice,
        Chunk.before, Chunk.join]
    | false =>
      rw [render_past (by omega) (hends.trans hend)]
      simp [render, renderPending, hne, hmin, hend, hends, opening, closing, closingVoice,
        Chunk.before, Chunk.join]

/-- What the frame in play has sounded so far may come in a chunk of its own. -/
theorem render_add_within {g : Glide} {i n : Nat} (h : i + n < g.total) :
    render (n + room) ⟨rate, pending, some (g, i), voice, last⟩ =
      Chunk.before { samples := (voice.play rate g i n).1 }
        (render room ⟨rate, pending, some (g, i + n), (voice.play rate g i n).2, last⟩) := by
  obtain hlt | hge := Nat.lt_or_ge (i + n + room) g.total
  · rw [render_within (by omega), render_within hlt, Oscillator.play_add, ← Nat.add_assoc]
    rfl
  · cases hend : g.endsUtterance with
    | true =>
      rw [render_ending (by omega) hend, render_ending hge hend, closing_within voice h,
        closingVoice_within voice h]
      rfl
    | false =>
      have hroom : n + room - (g.total - i) = room - (g.total - (i + n)) := by omega
      rw [render_past (by omega) hend, render_past hge hend, closing_within voice h,
        closingVoice_within voice h, hroom]
      simp [Chunk.before, Chunk.join_assoc]

end Render

/-- A chunk is the front of what the queue plays. -/
theorem playOut_render (q : Queue) (room : Nat) :
    q.playOut = (q.render room).1.recording.before (q.render room).2.playOut := by
  induction q using play_induction generalizing room with
  | playing rate pending g i voice last ih =>
    obtain h | h := Nat.lt_or_ge (i + room) g.total
    · rw [render_within h, playOut_playing, playOut_playing, Recording.before_before,
        ← Chunk.recording_join rfl, ← closing_within voice h, ← closingVoice_within voice h]
    · cases hend : g.endsUtterance with
      | true => rw [render_ending h hend, playOut_playing]
      | false =>
        rw [render_past h hend, playOut_playing, ih (room - (g.total - i)), Recording.before_before,
          ← Chunk.recording_join hend]
        rfl
  | waiting rate f rest voice last ih =>
    obtain rfl | hroom := Nat.eq_zero_or_pos room
    · exact (Recording.empty_before _).symm
    · rw [render_waiting hroom, playOut_waiting, ih room, Recording.before_before,
        ← Chunk.recording_join rfl]
      rfl
  | clear rate voice last => exact (Recording.empty_before _).symm

/-- Two chunks of which the first does not end an utterance are one chunk. -/
theorem render_add {q : Queue} {a : Nat} (h : (q.render a).1.finished = false) (b : Nat) :
    q.render (a + b) = (q.render a).1.before ((q.render a).2.render b) := by
  induction q using play_induction generalizing a with
  | playing rate pending g i voice last ih =>
    obtain hlt | hge := Nat.lt_or_ge (i + a) g.total
    · rw [render_add_within hlt, render_within hlt]
    -- The frame in play ends within the first chunk, in the same place of the joint one.
    · cases hend : g.endsUtterance with
      | true => simp [render_ending hge hend, closing, hend] at h
      | false =>
        have hroom : a + b - (g.total - i) = a - (g.total - i) + b := by omega
        rw [render_past hge hend] at h ⊢
        rw [render_past (by omega) hend, hroom, ih h]
        simp [Chunk.before, Chunk.join_assoc]
  | waiting rate f rest voice last ih =>
    -- Without any room not even the marker is taken from the frame that waits.
    obtain rfl | ha := Nat.eq_zero_or_pos a
    · rw [Nat.zero_add]
      rfl
    · rw [render_waiting ha] at h ⊢
      rw [render_waiting (by omega), ih h]
      simp [Chunk.before, Chunk.join_assoc]
  | clear rate voice last => rfl

def enqueueAll (frames : List Frame) (q : Queue) : Queue :=
  { q with pending := q.pending ++ frames }

@[simp] theorem enqueueAll_nil (q : Queue) : q.enqueueAll [] = q := by simp [enqueueAll]

theorem enqueueAll_cons (f : Frame) (frames : List Frame) (q : Queue) :
    q.enqueueAll (f :: frames) = (q.enqueue f).enqueueAll frames := by
  simp [enqueueAll, enqueue]

theorem playOut_enqueueAll (q : Queue) (frames : List Frame) :
    (q.enqueueAll frames).playOut =
      q.playOut.1.before (q.playOut.2.enqueueAll frames).playOut := by
  induction q using play_induction with
  | playing rate pending g i voice last ih =>
    simp only [enqueueAll] at ih ⊢
    rw [playOut_playing, playOut_playing, ih, Recording.before_before]
    rfl
  | waiting rate f rest voice last ih =>
    simp only [enqueueAll, List.cons_append] at ih ⊢
    rw [playOut_waiting, playOut_waiting, ih, Recording.before_before]
    rfl
  | clear rate voice last =>
    rw [playOut_of_isClear (q := ⟨rate, [], none, voice, last⟩) ⟨rfl, rfl⟩,
      Recording.empty_before]

theorem playOut_render_enqueueAll (q : Queue) (room : Nat) (frames : List Frame) :
    (q.enqueueAll frames).playOut =
      (q.render room).1.recording.before ((q.render room).2.enqueueAll frames).playOut := by
  rw [playOut_enqueueAll, playOut_render q room, playOut_enqueueAll (q.render room).2,
    Recording.before_before]
  rfl

/-! ## Schedules -/

/-- What is done to a queue by those who fill it and by those who play it. -/
inductive Turn where
  | enqueue (f : Frame)
  | render (room : Nat)
deriving DecidableEq

def Turn.frame? : Turn → Option Frame
  | .enqueue f => some f
  | .render _ => none

/-- The chunks that are rendered in turn, and the queue that is left. -/
def perform : List Turn → Queue → List Chunk × Queue
  | [], q => ([], q)
  | .enqueue f :: rest, q => (q.enqueue f).perform rest
  | .render room :: rest, q =>
    let (chunk, q) := q.render room
    let (chunks, q) := q.perform rest
    (chunk :: chunks, q)

def queued (turns : List Turn) : List Frame := turns.filterMap Turn.frame?

theorem perform_append (turns later : List Turn) (q : Queue) :
    perform (turns ++ later) q =
      ((perform turns q).1 ++ (perform later (perform turns q).2).1,
        (perform later (perform turns q).2).2) := by
  induction turns generalizing q with
  | nil => rfl
  | cons turn rest ih => cases turn <;> simp [perform, ih]

/-- What has been played is the front of what the queue plays with all that is still to come. -/
theorem playOut_perform (turns : List Turn) (q : Queue) :
    (q.enqueueAll (queued turns)).playOut =
      (Recording.ofChunks (q.perform turns).1).before (q.perform turns).2.playOut := by
  induction turns generalizing q with
  | nil => simp [queued, perform, Recording.ofChunks]
  | cons turn rest ih =>
    cases turn with
    | enqueue f =>
      simp only [queued, List.filterMap_cons, Turn.frame?, enqueueAll_cons]
      exact ih (q.enqueue f)
    | render room =>
      rw [queued, List.filterMap_cons_none rfl, playOut_render_enqueueAll q room]
      simp only [perform, Recording.ofChunks]
      rw [← Recording.before_before]
      exact congrArg _ (ih (q.render room).2)

/-- Whatever leaves the queue clear has played all of it. -/
theorem perform_of_isClear {turns : List Turn} {q : Queue} (h : (q.perform turns).2.IsClear) :
    (q.enqueueAll (queued turns)).playOut =
      (Recording.ofChunks (q.perform turns).1, (q.perform turns).2) := by
  rw [playOut_perform, playOut_of_isClear h, Recording.before, Recording.append_empty]

/-! ## Running dry -/

theorem remaining_render_lt_of_not_isClear {q : Queue} {room : Nat} (hroom : 0 < room)
    (h : ¬ q.IsClear) : (q.render room).2.remaining < q.remaining := by
  induction q using play_induction with
  | playing rate pending g i voice last =>
    obtain hlt | hge := Nat.lt_or_ge (i + room) g.total
    · rw [render_within hlt]
      simp only [remaining]
      omega
    · have hpast : remaining ⟨rate, pending, none, closingVoice rate voice g i, last⟩ <
          remaining ⟨rate, pending, some (g, i), voice, last⟩ := by
        simp only [remaining]
        omega
      cases hend : g.endsUtterance with
      | true => rwa [render_ending hge hend]
      | false =>
        rw [render_past hge hend]
        exact Nat.lt_of_le_of_lt (remaining_render_le ..) hpast
  | waiting rate f rest voice last =>
    exact remaining_renderPending_lt voice last f rest hroom
  | clear rate voice last => exact absurd ⟨rfl, rfl⟩ h

theorem remaining_eq_zero_iff {q : Queue} : q.remaining = 0 ↔ q.IsClear := by
  obtain ⟨rate, pending, playing, voice, last⟩ := q
  cases pending <;> cases playing <;> simp [remaining, waiting, IsClear]

/-- A chunk for each sample and each frame that is left leaves nothing. -/
theorem isClear_perform {q : Queue} {rooms : List Nat} (hrooms : ∀ room ∈ rooms, 0 < room)
    (h : q.remaining ≤ rooms.length) : (q.perform (rooms.map .render)).2.IsClear := by
  induction rooms generalizing q with
  | nil => exact remaining_eq_zero_iff.mp (Nat.le_zero.mp h)
  | cons room rest ih =>
    have hroom := hrooms room (List.mem_cons_self ..)
    have hnext : (q.render room).2.remaining ≤ rest.length := by
      by_cases hq : q.IsClear
      · rw [render_of_isClear hq, remaining_eq_zero_iff.mpr hq]
        exact Nat.zero_le _
      · have hlt := remaining_render_lt_of_not_isClear hroom hq
        rw [List.length_cons] at h
        omega
    exact ih (fun r hr => hrooms r (List.mem_cons_of_mem _ hr)) hnext

/-- A schedule is not heard. Whatever is done in whatever order, if the same frames are queued and
the queue is clear in the end, then the samples, the markers, the ends of utterances with their
places among both, and the queue in the end are the same. Any schedule comes to a clear queue by
rendering on, be it sample by sample. And a chunk that does not end an utterance is followed by
the next as if the two had been rendered in one. -/
theorem schedule_inaudible (q : Queue) :
    (∀ turns turns' : List Turn, queued turns = queued turns' →
      (q.perform turns).2.IsClear → (q.perform turns').2.IsClear →
        Recording.ofChunks (q.perform turns).1 = Recording.ofChunks (q.perform turns').1 ∧
          (q.perform turns).2 = (q.perform turns').2) ∧
    (∀ (turns : List Turn) (rooms : List Nat), (∀ room ∈ rooms, 0 < room) →
      (q.perform turns).2.remaining ≤ rooms.length →
        (q.perform (turns ++ rooms.map .render)).2.IsClear) ∧
    (∀ a b : Nat, (q.render a).1.finished = false →
      q.render (a + b) = (q.render a).1.before ((q.render a).2.render b)) := by
  refine ⟨fun turns turns' hq h h' => ?_, fun turns rooms hrooms h => ?_,
    fun a b h => render_add h b⟩
  · have hall := perform_of_isClear h
    rw [hq, perform_of_isClear h'] at hall
    exact ⟨(congrArg Prod.fst hall).symm, (congrArg Prod.snd hall).symm⟩
  · rw [perform_append]
    exact isClear_perform hrooms h

/-- Two samples with a marker that wait. -/
def murmur : Queue := { rate := 1000, pending := [(voiced ⟨200, 1⟩ 2 1).withMarker 1] }

/-- The end of the utterance is queued late. -/
def piecemeal : List Turn :=
  [.render 1, .render 3, .enqueue ((silence 0 0).withMarker 2).ending, .render 2]

/-- The end of the utterance is queued in time. -/
def inOneGo : List Turn := [.enqueue ((silence 0 0).withMarker 2).ending, .render 8]

theorem schedule_inaudible_late :
    (queued piecemeal = queued inOneGo ∧ (murmur.perform piecemeal).2.IsClear ∧
      (murmur.perform inOneGo).2.IsClear ∧
      Recording.ofChunks (murmur.perform piecemeal).1 =
        Recording.ofChunks (murmur.perform inOneGo).1 ∧
      (murmur.perform piecemeal).2 = (murmur.perform inOneGo).2) ∧
    (murmur.remaining = 3 ∧ (murmur.perform [.render 1, .render 1, .render 1]).2.IsClear) ∧
    ((murmur.render 1).1.finished = false ∧
      murmur.render (1 + 5) = (murmur.render 1).1.before ((murmur.render 1).2.render 5)) := by
  obtain ⟨hsame, hdry, hadd⟩ := schedule_inaudible murmur
  have hq : queued piecemeal = queued inOneGo := rfl
  have h : (murmur.perform piecemeal).2.IsClear := by decide +kernel
  have h' : (murmur.perform inOneGo).2.IsClear := by decide +kernel
  have hthree : murmur.remaining = 3 := by decide +kernel
  have hgoes : (murmur.render 1).1.finished = false := by decide +kernel
  exact ⟨⟨hq, h, h', hsame _ _ hq h h'⟩,
    ⟨hthree, hdry [] [1, 1, 1] (by decide) (Nat.le_of_eq hthree)⟩, hgoes, hadd 1 5 hgoes⟩

end Queue

end Elocution.Frame
