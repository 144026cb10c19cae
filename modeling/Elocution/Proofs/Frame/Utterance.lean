import Elocution.Output.FadeIn
import Elocution.Proofs.Frame.Schedule

/-!
# Utterances and their chunks

However an utterance is cut into chunks, they come to one recording. A queue with the end of an
utterance in it fills every chunk up to that end, and a ramp that ends within the first chunk is the
ramp of the whole.
-/

namespace Elocution

namespace Output

variable {ramp i : Nat} {first rest : List Int16}

theorem rampFrom_of_le (h : ramp ≤ i) (samples : List Int16) :
    rampFrom ramp i samples = samples := by
  cases samples with
  | nil => rfl
  | cons s rest => exact if_neg (Nat.not_lt_of_le h)

theorem rampFrom_append (h : ramp ≤ i + first.length) :
    rampFrom ramp i (first ++ rest) = rampFrom ramp i first ++ rest := by
  induction first generalizing i with
  | nil => exact rampFrom_of_le h rest
  | cons s first ih =>
    have hnext := ih (i := i + 1) (by rw [List.length_cons] at h; omega)
    simp only [List.cons_append, rampFrom, hnext]
    split <;> rfl

/-- A ramp that ends within the first part leaves the second as it is. -/
theorem fadeIn_append (h : ramp ≤ first.length) :
    fadeIn ramp (first ++ rest) = fadeIn ramp first ++ rest := by
  have hmin : min ramp (first ++ rest).length = ramp := by
    rw [List.length_append]
    omega
  rw [fadeIn, fadeIn, hmin, Nat.min_eq_left h, rampFrom_append (by omega)]

end Output

namespace Frame

namespace Recording

theorem ofChunks_concat (chunks : List Chunk) (c : Chunk) :
    ofChunks (chunks ++ [c]) = ofChunks chunks ++ c.recording := by
  rw [ofChunks_append, ofChunks, ofChunks, append_empty]

/-- A finished chunk at the front is told from what comes after it. -/
theorem recording_append_inj {c d : Chunk} {r r' : Recording} (hc : c.finished = true)
    (hd : d.finished = true) (h : c.recording ++ r = d.recording ++ r') : c = d ∧ r = r' := by
  obtain ⟨cs, cm, cf⟩ := c
  obtain ⟨ds, dm, df⟩ := d
  obtain rfl : cf = true := hc
  obtain rfl : df = true := hd
  simp only [append_def, append, Chunk.recording, if_true, List.singleton_append,
    mk.injEq, List.cons.injEq, Prod.mk.injEq] at h
  obtain ⟨hsamples, hmarkers, ⟨hlen, hcount⟩, hends⟩ := h
  obtain ⟨rfl, hs⟩ := List.append_inj hsamples hlen
  obtain ⟨rfl, hm⟩ := List.append_inj hmarkers hcount
  have hinj : Function.Injective fun e : Nat × Nat => (cs.length + e.1, cm.length + e.2) := by
    rintro ⟨a, b⟩ ⟨a', b'⟩ he
    simpa using he
  refine ⟨rfl, ?_⟩
  obtain ⟨rs, rm, re⟩ := r
  obtain rfl : rs = r'.samples := hs
  obtain rfl : rm = r'.markers := hm
  obtain rfl : re = r'.ends := List.map_injective_iff.mpr hinj hends
  rfl

/-- Chunks of which each ends an utterance are told from what they come to. -/
theorem ofChunks_append_inj {said more : List Chunk} {r r' : Recording}
    (hsaid : ∀ c ∈ said, c.finished = true) (hmore : ∀ c ∈ more, c.finished = true)
    (hlen : said.length = more.length) (h : ofChunks said ++ r = ofChunks more ++ r') :
    said = more ∧ r = r' := by
  induction said generalizing more with
  | nil =>
    obtain rfl := List.eq_nil_of_length_eq_zero hlen.symm
    exact ⟨rfl, by simpa [ofChunks] using h⟩
  | cons c said ih =>
    cases more with
    | nil => simp at hlen
    | cons d more =>
      obtain ⟨hc, hlater⟩ := List.forall_mem_cons.mp hsaid
      obtain ⟨hd, hlatest⟩ := List.forall_mem_cons.mp hmore
      rw [ofChunks, ofChunks, append_assoc, append_assoc] at h
      obtain ⟨rfl, hrest⟩ := recording_append_inj hc hd h
      obtain ⟨rfl, hr⟩ := ih hlater hlatest (by simpa using hlen) hrest
      exact ⟨rfl, hr⟩

end Recording

namespace Queue

theorem enqueueAll_concat (frames : List Frame) (f : Frame) (q : Queue) :
    q.enqueueAll (frames ++ [f]) = (q.enqueueAll frames).enqueue f := by
  simp [enqueueAll, enqueue]

/-- What has come ahead of a queue stays ahead of it when a frame is queued. -/
theorem playOut_enqueue {w q : Queue} {r : Recording} (h : w.playOut = r.before q.playOut)
    (f : Frame) : (w.enqueue f).playOut = r.before (q.enqueue f).playOut := by
  have hall (p : Queue) : p.enqueue f = p.enqueueAll [f] := rfl
  rw [hall, hall, playOut_enqueueAll w, playOut_enqueueAll q, h, Recording.before_before]
  rfl

/-- A chunk that does not end an utterance is full, unless the queue runs dry. -/
theorem isClear_or_full {q : Queue} {room : Nat} (hf : (q.render room).1.finished = false) :
    (q.render room).2.IsClear ∨ (q.render room).1.samples.length = room := by
  induction q using play_induction generalizing room with
  | playing rate pending g i voice last ih =>
    obtain h | h := Nat.lt_or_ge (i + room) g.total
    · rw [render_within h]
      exact .inr (Oscillator.length_play ..)
    · cases hend : g.endsUtterance with
      | true => simp [render_ending h hend, closing, hend] at hf
      | false =>
        rw [render_past h hend] at hf ⊢
        refine (ih hf).imp_right fun hfull => ?_
        simp only [Chunk.before, Chunk.join, closing, List.length_append, Oscillator.length_play,
          hfull]
        omega
  | waiting rate f rest voice last ih =>
    obtain rfl | hroom := Nat.eq_zero_or_pos room
    · exact .inr rfl
    · rw [render_waiting hroom] at hf ⊢
      exact ih hf
  | clear rate voice last => exact .inl ⟨rfl, rfl⟩

/-- A queue with the end of an utterance in it fills the chunks up to there. -/
theorem length_render_of_ends {q : Queue} {room : Nat} (he : 0 < q.ends)
    (hf : (q.render room).1.finished = false) : (q.render room).1.samples.length = room := by
  have hleft : (q.render room).2.ends = q.ends := by
    rw [q.ends_render room, hf]
    simp
  refine (isClear_or_full hf).resolve_left fun hclear => ?_
  rw [← hleft, ends_of_isClear hclear] at he
  exact absurd he (Nat.lt_irrefl 0)

/-- Such a queue comes to the end of the utterance sooner than it renders nothing. -/
theorem render_ne_empty_of_ends {q : Queue} {room : Nat} (hroom : 0 < room) (he : 0 < q.ends)
    (hf : (q.render room).1.finished = false) : ¬ (q.render room).1.isEmpty = true := by
  intro hempty
  have hlen := length_render_of_ends he hf
  rw [(Chunk.isEmpty_iff.mp hempty).1] at hlen
  exact absurd hlen.symm (Nat.ne_of_gt hroom)

end Queue

end Frame

end Elocution
