import Elocution.Proofs.Output.Filtering

/-!
# Streams that have been closed

A stop, and an idle that waits until everything has been played out, leave a stream as it was
when it was opened, but for the pause. Nothing of its former use is to be heard or handed on
later.
-/

namespace Elocution.Output

variable {σ κ : Type} {φ : Filter σ} {b : BlockLengths} {saved : σ → Nat} {f : FilteredStream σ κ}
  {s : Stream κ} {k : κ}

namespace Playout

open Segment

theorem callsOf_pullFrom (segments : List (Segment κ)) :
    callsOf segments =
      (pullFrom segments).2.1 ++ callsOf (pullFrom segments).2.2 := by
  induction segments using pullFrom.induct with
  | case1 => rfl
  | case2 x samples calls rest => rfl
  | case3 calls rest sample others left heq ih =>
    rw [callsOf, List.flatMap_cons, ← callsOf, ih]
    simp only [pullFrom, List.append_assoc]

theorem callsOf_pullMany (p : Playout κ) (n : Nat) :
    callsOf p.segments =
      (p.pullMany n).2.1 ++ callsOf (p.pullMany n).2.2.segments := by
  induction n generalizing p with
  | zero => rfl
  | succ n ih =>
    rw [callsOf_pullFrom, pullMany, List.append_assoc, ← ih]
    rfl

theorem limit_pullMany (p : Playout κ) (n : Nat) : (p.pullMany n).2.2.limit = p.limit := by
  induction n generalizing p with
  | zero => rfl
  | succ n ih => exact ih _

end Playout

namespace Stream

def Turn.isFeed : Turn κ → Bool
  | .feed _ _ => true
  | _ => false

/-- What closes a stream after some turns: a stop, or an idle that ends as everything has been
played out. Nothing is fed while it lasts. -/
inductive Closing (s : Stream κ) (turns : List (Turn κ)) : List (Turn κ) → Prop
  | stop : Closing s turns [.stop]
  | idle {waiting : List (Turn κ)} (unfed : ∀ turn ∈ waiting, turn.isFeed = false)
      (drained : (s.perform (turns ++ .flush :: waiting)).2.isDrained = true) :
      Closing s turns (.flush :: waiting ++ [.settle])

/-! ## Calls -/

/-- The call waits in the resampler or in the queue. -/
def Held (s : Stream κ) (k : κ) : Prop :=
  (∃ r ∈ s.resampler, ∃ n, (n, k) ∈ r.waiting) ∨ k ∈ Segment.callsOf s.playout.segments

theorem held_ensureRunning : s.ensureRunning.2.Held k ↔ s.Held k := by
  unfold ensureRunning
  split <;> rfl

theorem held_halt : s.halt.2.Held k ↔ s.Held k := by
  rw [halt_eq]
  rfl

theorem held_enqueue {samples : List Int16} {calls : List κ}
    (h : (s.enqueue samples calls).2.Held k) : s.Held k ∨ k ∈ calls := by
  unfold enqueue at h
  split at h
  · exact .inl h
  · rw [held_ensureRunning] at h
    rcases h with h | h
    · exact .inl (.inl h)
    · simp only [Playout.append, Segment.callsOf_append, List.mem_append] at h
      rcases h with h | h
      · exact .inl (.inr h)
      · exact .inr (by simpa [Segment.callsOf] using h)

theorem held_push {r : Resampler κ} {count : Nat} {call : Option κ}
    (h : k ∈ (r.push count call).1.done ∨ ∃ n, (n, k) ∈ (r.push count call).2.waiting) :
    (∃ n, (n, k) ∈ r.waiting) ∨ call = some k := by
  have hsource (entry : Nat × κ)
      (hentry : entry ∈ r.waiting ++ call.toList.map (r.pending + count, ·)) (hk : entry.2 = k) :
      (∃ n, (n, k) ∈ r.waiting) ∨ call = some k := by
    subst hk
    rcases List.mem_append.mp hentry with hentry | hentry
    · exact .inl ⟨entry.1, hentry⟩
    · obtain ⟨called, hcall, rfl⟩ := List.mem_map.mp hentry
      exact .inr (Option.mem_toList.mp hcall)
  rcases h with h | ⟨n, h⟩
  · obtain ⟨entry, hentry, hk⟩ := List.mem_map.mp h
    exact hsource entry (List.mem_filter.mp hentry).1 hk
  · obtain ⟨entry, hentry, hk⟩ := List.mem_map.mp h
    exact hsource entry (List.mem_filter.mp hentry).1 (Prod.ext_iff.mp hk).2

theorem held_feed {samples : List Int16} {call : Option κ} (h : (s.feed samples call).2.Held k) :
    s.Held k ∨ call = some k := by
  obtain ⟨playout, _ | r, running, paused⟩ := s
  · exact (held_enqueue h).imp_right Option.mem_toList.mp
  · have hpushed (h : (∃ n, (n, k) ∈ r.waiting) ∨ call = some k) :
        Held ⟨playout, some r, running, paused⟩ k ∨ call = some k :=
      h.imp_left fun h => .inl ⟨r, rfl, h⟩
    rcases held_enqueue h with (⟨_, ⟨⟩, h⟩ | h) | h
    · exact hpushed (held_push (.inr h))
    · exact .inl (.inr h)
    · exact hpushed (held_push (.inl h))

theorem held_flush (h : s.flush.2.Held k) : s.Held k := by
  obtain ⟨playout, _ | r, running, paused⟩ := s
  · exact h
  · rcases held_enqueue h with (⟨_, ⟨⟩, _, h⟩ | h) | h
    · cases h
    · exact .inr h
    · obtain ⟨⟨n, call⟩, hentry, rfl⟩ := List.mem_map.mp h
      exact .inl ⟨r, rfl, n, hentry⟩

theorem held_pause {on : Bool} (h : (s.pause on).2.Held k) : s.Held k := by
  have hset : Held { s with paused := on } k ↔ s.Held k := .rfl
  simp only [Stream.pause] at h
  split at h
  · exact hset.mp (held_halt.mp h)
  · split at h
    · exact h
    · exact hset.mp (held_ensureRunning.mp h)

theorem held_pull {n : Nat} : k ∈ (s.pull n).2.1 ∨ (s.pull n).2.2.Held k ↔ s.Held k := by
  have hqueued : k ∈ Segment.callsOf s.playout.segments ↔
      k ∈ (s.playout.pullMany n).2.1 ∨
        k ∈ Segment.callsOf (s.playout.pullMany n).2.2.segments := by
    rw [Playout.callsOf_pullMany s.playout n, List.mem_append]
  unfold Held
  rw [hqueued]
  exact or_left_comm

/-- What is handed on or kept was kept before or is fed now. -/
theorem held_take {turn : Turn κ} (h : k ∈ (s.take turn).1.calls ∨ (s.take turn).2.Held k) :
    s.Held k ∨ ∃ samples, turn = .feed samples (some k) := by
  cases turn with
  | feed samples call =>
    exact (held_feed (h.resolve_left List.not_mem_nil)).imp_right
      fun hcall => ⟨samples, by rw [hcall]⟩
  | flush => exact .inl (held_flush (h.resolve_left List.not_mem_nil))
  | settle =>
    replace h := h.resolve_left List.not_mem_nil
    simp only [take, take.told, settle?] at h
    split at h
    · exact .inl (held_halt.mp h)
    · exact .inl h
  | abandon =>
    rcases held_halt.mp (h.resolve_left List.not_mem_nil) with h | h
    · exact .inl (.inl h)
    · cases h
  | stop =>
    rcases held_halt.mp (h.resolve_left List.not_mem_nil) with ⟨r, hr, _, h⟩ | h
    · obtain ⟨old, -, rfl⟩ := Option.map_eq_some_iff.mp hr
      cases h
    · cases h
  | pause on => exact .inl (held_pause (h.resolve_left List.not_mem_nil))
  | pull n => exact .inl (held_pull.mp h)

/-- What is handed on in the course of some turns was kept before or has been fed since. -/
theorem fed_of_calls {turns : List (Turn κ)} {answer : Answer κ}
    (ha : answer ∈ (s.perform turns).1) (hk : k ∈ answer.calls) :
    s.Held k ∨ ∃ samples, .feed samples (some k) ∈ turns := by
  induction turns generalizing s with
  | nil => cases ha
  | cons turn rest ih =>
    have hnow (h : k ∈ (s.take turn).1.calls ∨ (s.take turn).2.Held k) :
        s.Held k ∨ ∃ samples, .feed samples (some k) ∈ turn :: rest :=
      (held_take h).imp_right fun ⟨samples, hturn⟩ => ⟨samples, hturn ▸ List.mem_cons_self⟩
    rcases List.mem_cons.mp ha with rfl | ha
    · exact hnow (.inl hk)
    · rcases ih ha with h | ⟨samples, h⟩
      · exact hnow (.inr h)
      · exact .inr ⟨samples, List.mem_cons_of_mem turn h⟩

/-! ## The pause -/

def Turn.pauses : Bool → Turn κ → Bool
  | _, .pause on => on
  | paused, _ => paused

/-- Whether there is a pause after the turns: what was said last holds. -/
def pausedAfter (turns : List (Turn κ)) : Bool := turns.foldl Turn.pauses false

theorem paused_ensureRunning (s : Stream κ) : s.ensureRunning.2.paused = s.paused := by
  unfold ensureRunning
  split <;> rfl

theorem paused_halt (s : Stream κ) : s.halt.2.paused = s.paused := by rw [halt_eq]

theorem paused_enqueue (samples : List Int16) (calls : List κ) (s : Stream κ) :
    (s.enqueue samples calls).2.paused = s.paused := by
  unfold enqueue
  split
  · rfl
  · exact paused_ensureRunning _

theorem paused_take (s : Stream κ) (turn : Turn κ) :
    (s.take turn).2.paused = turn.pauses s.paused := by
  cases turn with
  | feed samples call =>
    obtain ⟨resampler, audio, calls, heq⟩ := feed_eq_enqueue samples call s
    simp only [take, take.told, heq, paused_enqueue, Turn.pauses]
  | flush =>
    obtain ⟨resampler, audio, calls, heq⟩ := flush_eq_enqueue s
    simp only [take, take.told, heq, paused_enqueue, Turn.pauses]
  | settle =>
    simp only [take, take.told, settle?]
    split
    · exact paused_halt s
    · rfl
  | abandon => exact paused_halt _
  | stop => exact paused_halt _
  | pause on =>
    simp only [take, take.told, Stream.pause]
    split
    · exact paused_halt _
    · split
      · rfl
      · exact paused_ensureRunning _
  | pull n => rfl

theorem paused_perform (s : Stream κ) (turns : List (Turn κ)) :
    (s.perform turns).2.paused = turns.foldl Turn.pauses s.paused := by
  induction turns generalizing s with
  | nil => rfl
  | cons turn rest ih => rw [List.foldl_cons, ← paused_take, ← ih]; rfl

end Stream

/-- A new filter leaves no choice of the numbers. -/
theorem FilteredResampler.Counted.eq_ofBlocks {n : Resampler κ} (hφ : φ.Contract b saved)
    (h : Counted b saved (start φ) n) : n = .ofBlocks b := by
  obtain ⟨blocks, inner, pending, waiting, skip, primed⟩ := n
  obtain ⟨rfl, hinner, rfl, -, rfl, rfl, rfl⟩ := h
  obtain rfl : 0 = inner := hφ.saved_fresh.symm.trans hinner
  simp only [Resampler.ofBlocks, start, hφ.delay_eq, List.length_nil]

namespace FilteredStream

theorem perform_append (φ : Filter σ) (turns later : List (Stream.Turn κ))
    (f : FilteredStream σ κ) :
    f.perform φ (turns ++ later) =
      ((f.perform φ turns).1 ++ ((f.perform φ turns).2.perform φ later).1,
        ((f.perform φ turns).2.perform φ later).2) := by
  induction turns generalizing f with
  | nil => rfl
  | cons turn rest ih => simp only [List.cons_append, perform, ih]

/-! ## Back to the beginning -/

/-- The stream as it was opened, paused or not. -/
def reopened (φ : Filter σ) (on : Bool) (f : FilteredStream σ κ) : FilteredStream σ κ :=
  { stream := { f.stream with playout := { f.stream.playout with segments := [] }
                              running := false
                              paused := on }
    resampler := f.resampler.map fun _ => .start φ }

theorem reopened_ensureRunning (φ : Filter σ) (on : Bool) (f : FilteredStream σ κ) :
    (f.after f.stream.ensureRunning).2.reopened φ on = f.reopened φ on := by
  unfold Stream.ensureRunning
  split <;> rfl

theorem reopened_halt (φ : Filter σ) (on : Bool) (f : FilteredStream σ κ) :
    (f.after f.stream.halt).2.reopened φ on = f.reopened φ on := by
  unfold after
  rw [Stream.halt_eq]
  rfl

theorem reopened_enqueue (φ : Filter σ) (on : Bool) (f : FilteredStream σ κ) (samples : List Int16)
    (calls : List κ) :
    (f.after (f.stream.enqueue samples calls)).2.reopened φ on = f.reopened φ on := by
  unfold Stream.enqueue
  split
  · rfl
  · exact reopened_ensureRunning φ on
      { f with stream := { f.stream with playout := f.stream.playout.append ⟨samples, calls⟩ } }

/-- No turn changes what the stream was when it was opened. -/
theorem reopened_take (φ : Filter σ) (on : Bool) (hbare : f.stream.resampler = none)
    (turn : Stream.Turn κ) : (f.take φ turn).2.reopened φ on = f.reopened φ on := by
  obtain ⟨⟨playout, inner, running, paused⟩, resampler⟩ := f
  obtain rfl : inner = none := hbare
  cases turn with
  | feed samples call =>
    cases resampler with
    | none => exact reopened_enqueue φ on ⟨_, none⟩ samples call.toList
    | some r =>
      exact reopened_enqueue φ on ⟨_, some (r.push φ samples call).2.2⟩
        (r.push φ samples call).1 (r.push φ samples call).2.1
  | flush =>
    cases resampler with
    | none => rfl
    | some r =>
      exact reopened_enqueue φ on ⟨_, some (r.flush φ).2.2⟩ (r.flush φ).1 (r.flush φ).2.1
  | settle =>
    simp only [take, Stream.take, Stream.take.told, Stream.settle?]
    split
    · exact reopened_halt φ on ⟨⟨playout, none, running, paused⟩, resampler⟩
    · rfl
  | abandon =>
    exact reopened_halt φ on
      ⟨⟨{ playout with segments := [] }, none, running, paused⟩, resampler⟩
  | stop =>
    have hhalt := reopened_halt φ on
      ⟨⟨{ playout with segments := [] }, none, running, paused⟩, resampler.map (.reset φ)⟩
    cases resampler <;> exact hhalt
  | pause now =>
    simp only [take, Stream.take, Stream.take.told, Stream.pause]
    split
    · exact reopened_halt φ on ⟨⟨playout, none, running, now⟩, resampler⟩
    · split
      · rfl
      · exact reopened_ensureRunning φ on ⟨⟨playout, none, running, now⟩, resampler⟩
  | pull n =>
    simp only [take, Stream.take, Stream.pull, reopened, Playout.limit_pullMany]

theorem reopened_perform (hφ : φ.Contract b saved) (h : f.Alike b saved s) (on : Bool)
    (turns : List (Stream.Turn κ)) : (f.perform φ turns).2.reopened φ on = f.reopened φ on := by
  induction turns generalizing f s with
  | nil => rfl
  | cons turn rest ih =>
    exact (ih (h.take hφ turn).2).trans (reopened_take φ on h.bare turn)

/-! ## What closing leaves -/

/-- Nothing is queued, the card is at rest and the filter is new. -/
structure Rested (φ : Filter σ) (f : FilteredStream σ κ) : Prop where
  segments : f.stream.playout.segments = []
  running : f.stream.running = false
  resampler : ∀ r ∈ f.resampler, r = .start φ

theorem Rested.eq_reopened (h : f.Rested φ) : f = f.reopened φ f.stream.paused := by
  obtain ⟨⟨⟨segments, limit⟩, inner, running, paused⟩, resampler⟩ := f
  obtain rfl : segments = [] := h.segments
  obtain rfl : running = false := h.running
  cases resampler with
  | none => rfl
  | some r => rw [h.resampler r rfl]; rfl

theorem resampler_flush (hφ : φ.Contract b saved) (f : FilteredStream σ κ) :
    ∀ r ∈ (f.flush φ).2.resampler, r = .start φ := by
  obtain ⟨stream, _ | r⟩ := f
  · nofun
  · rintro _ ⟨⟩
    exact FilteredResampler.reset_eq hφ _

theorem resampler_stop (hφ : φ.Contract b saved) (f : FilteredStream σ κ) :
    ∀ r ∈ (f.stop φ).2.resampler, r = .start φ := by
  obtain ⟨stream, _ | r⟩ := f
  · nofun
  · rintro _ ⟨⟩
    exact FilteredResampler.reset_eq hφ r

/-- While nothing is fed, a new filter stays new. -/
theorem resampler_perform (hφ : φ.Contract b saved) (h : ∀ r ∈ f.resampler, r = .start φ)
    {turns : List (Stream.Turn κ)} (unfed : ∀ turn ∈ turns, turn.isFeed = false) :
    ∀ r ∈ (f.perform φ turns).2.resampler, r = .start φ := by
  induction turns generalizing f with
  | nil => exact h
  | cons turn rest ih =>
    obtain ⟨hturn, hrest⟩ := List.forall_mem_cons.mp unfed
    refine ih ?_ hrest
    cases turn with
    | feed samples call => cases hturn
    | flush => exact resampler_flush hφ f
    | stop => exact resampler_stop hφ f
    | settle | abandon | pause | pull => exact h

theorem rested_stop (hφ : φ.Contract b saved) (f : FilteredStream σ κ) :
    (f.take φ .stop).2.Rested φ := by
  refine ⟨?_, ?_, resampler_stop hφ f⟩ <;>
    simp only [take, take.told, FilteredStream.stop, after, Stream.stop, Stream.halt_eq]

theorem rested_settle (hdrained : f.stream.isDrained = true)
    (h : ∀ r ∈ f.resampler, r = .start φ) : (f.take φ .settle).2.Rested φ := by
  have hhalt : (f.take φ .settle).2 = (f.after f.stream.halt).2 := by
    simp only [take, Stream.take, Stream.take.told, Stream.settle?, hdrained, if_true,
      Option.getD_some, after]
  rw [hhalt, after, Stream.halt_eq]
  exact ⟨Stream.isDrained_iff.mp hdrained, rfl, h⟩

theorem rested_closing (hφ : φ.Contract b saved) (h : f.Alike b saved s)
    {turns closing : List (Stream.Turn κ)} (hc : s.Closing turns closing) :
    (f.perform φ (turns ++ closing)).2.Rested φ := by
  cases hc with
  | stop =>
    rw [perform_append]
    exact rested_stop hφ _
  | @idle waiting unfed drained =>
    have hflushed : ∀ r ∈ (f.perform φ (turns ++ .flush :: waiting)).2.resampler,
        r = .start φ := by
      rw [perform_append]
      exact resampler_perform hφ (resampler_flush hφ _) unfed
    rw [← List.append_assoc, perform_append]
    refine rested_settle ?_ hflushed
    rw [(h.perform hφ _).2.isDrained, drained]

/-! ## What the numbers tell of it -/

/-- At rest, only one stream is alike. -/
theorem Rested.alike_eq (hφ : φ.Contract b saved) (hf : f.Rested φ) (hs : f.Alike b saved s) :
    s = { playout := { limit := f.stream.playout.limit }
          resampler := f.resampler.map fun _ => .ofBlocks b
          paused := f.stream.paused } := by
  obtain ⟨stream, resampler⟩ := f
  obtain ⟨⟨segments, limit⟩, counted, running, paused⟩ := s
  obtain rfl : segments = [] := by
    rw [← List.map_eq_nil_iff, ← hs.playout.segments, hf.segments, List.map_nil]
  obtain rfl : stream.playout.limit = limit := hs.playout.limit
  obtain rfl : false = running := hf.running.symm.trans hs.running
  obtain rfl : stream.paused = paused := hs.paused
  cases hs.resampler with
  | none => rfl
  | @some r n hr =>
    rw [hf.resampler r rfl] at hr
    rw [hr.eq_ofBlocks hφ]
    rfl

/-- After closing, a stream is as it was opened, but for the pause. -/
theorem perform_closing (hφ : φ.Contract b saved) (h : f.Alike b saved s)
    {turns closing : List (Stream.Turn κ)} (hc : s.Closing turns closing) :
    (f.perform φ (turns ++ closing)).2 =
      f.reopened φ ((turns ++ closing).foldl Stream.Turn.pauses s.paused) := by
  have hend := (h.perform hφ (turns ++ closing)).2
  rw [← Stream.paused_perform, ← hend.paused, ← reopened_perform hφ h _ (turns ++ closing)]
  exact (rested_closing hφ h hc).eq_reopened

/-- A new stream that is told of a pause. -/
theorem take_pause_ofStream {source target : Nat} (h : Stream.make source target = .ok s)
    (on : Bool) : ((ofStream φ s).take φ (.pause on)).2 = (ofStream φ s).reopened φ on := by
  obtain ⟨resampler, -, rfl⟩ := Stream.make_cases h
  cases on <;> cases resampler <;> rfl

end FilteredStream

namespace Stream

theorem take_pause_of_make {source target : Nat} (h : make source target = .ok s)
    (on : Bool) :
    (s.take (.pause on)).2 =
      { playout := { limit := target * roomMs / 1000 }
        resampler := s.resampler
        paused := on } := by
  obtain ⟨resampler, -, rfl⟩ := make_cases h
  cases on <;> rfl

/-- After a stop, or an idle that ends as everything has been played out, a stream is as it was
when it was opened, but for the pause, and so is a stream with a filter in it. From there on both
do what a new stream does that is told of the pause, with the very samples of a new filter; no
call is handed on but those that are fed from there on. -/
theorem reopened_by_closing {source target : Nat} (h : make source target = .ok s)
    (hφ : φ.Contract (.ofRates source target) saved) {turns closing : List (Turn κ)}
    (hc : s.Closing turns closing) :
    let f := FilteredStream.ofStream φ s
    let t := (s.perform (turns ++ closing)).2
    let g := (f.perform φ (turns ++ closing)).2
    let on := pausedAfter (turns ++ closing)
    (t.playout.segments = [] ∧ t.resampler = s.resampler ∧ t.running = false ∧ t.paused = on) ∧
    (g.stream.playout.segments = [] ∧ g.resampler = f.resampler ∧ g.stream.running = false ∧
      g.stream.paused = on) ∧
    ∀ later,
      (s.perform (turns ++ closing ++ later)).1 =
        (s.perform (turns ++ closing)).1 ++ ((s.take (.pause on)).2.perform later).1 ∧
      (f.perform φ (turns ++ closing ++ later)).1 =
        (f.perform φ (turns ++ closing)).1 ++ ((f.take φ (.pause on)).2.perform φ later).1 ∧
      (f.perform φ (turns ++ closing ++ later)).1.map Answer.outline =
        (s.perform (turns ++ closing ++ later)).1.map Answer.outline ∧
      ∀ answer ∈ ((s.take (.pause on)).2.perform later).1, ∀ k ∈ answer.calls,
        ∃ samples, .feed samples (some k) ∈ later := by
  intro f t g on
  have hnew : f.Alike (.ofRates source target) saved s := FilteredStream.alike_ofStream hφ h
  have hpause := (hnew.take hφ (.pause on)).2
  have hclosed : g.Alike (.ofRates source target) saved t := (hnew.perform hφ _).2
  have hrested : g.Rested φ := FilteredStream.rested_closing hφ hnew hc
  have hon : g = f.reopened φ on := by
    obtain ⟨resampler, -, hs⟩ := make_cases h
    have hperform := FilteredStream.perform_closing hφ hnew hc
    rwa [show s.paused = false by rw [hs]] at hperform
  have hg : g = (f.take φ (.pause on)).2 := hon.trans (FilteredStream.take_pause_ofStream h on).symm
  -- Both are alike to one stream at rest, which leaves no choice.
  have ht : t = (s.take (.pause on)).2 := by
    rw [← hg] at hpause
    rw [hrested.alike_eq hφ hclosed, hrested.alike_eq hφ hpause]
  refine ⟨?_, ?_, fun later => ⟨?_, ?_, (hnew.perform hφ _).1, ?_⟩⟩
  · rw [ht, take_pause_of_make h]
    exact ⟨rfl, rfl, rfl, rfl⟩
  · rw [hon]
    refine ⟨rfl, ?_, rfl, rfl⟩
    exact Option.map_map _ _ _
  · rw [← ht, perform_append]
  · rw [← hg, FilteredStream.perform_append]
  · intro answer ha k hk
    refine (fed_of_calls ha hk).resolve_left ?_
    rw [take_pause_of_make h]
    rintro (⟨r, hr, n, hwaiting⟩ | hqueued)
    · obtain ⟨resampler, hblocks, hs⟩ := make_cases h
      rw [hs] at hr
      rw [hblocks r hr] at hwaiting
      cases hwaiting
    · cases hqueued

/-- A call that waits in the resampler is handed on in an idle, and there is a pause before the
idle ends. -/
theorem reopened_by_closing_idle :
    let blocks : BlockLengths := .ofRates 192000 8000
    let s : Stream Nat := { playout := { limit := 2400 }, resampler := some (.ofBlocks blocks) }
    let turns := [.feed [1, 2] (some 0)]
    let closing := [.flush, .pull 16, .pause true, .settle]
    let on := pausedAfter (turns ++ closing)
    make 192000 8000 = .ok s ∧ (Filter.silent blocks).Contract blocks id ∧
    s.Closing turns closing ∧ on = true ∧
    (s.perform (turns ++ closing)).1.flatMap (·.calls) = [0] ∧
    ((s.perform (turns ++ closing)).2.playout.segments = [] ∧
      (s.perform (turns ++ closing)).2.resampler = s.resampler ∧
      (s.perform (turns ++ closing)).2.running = false ∧
      (s.perform (turns ++ closing)).2.paused = on) ∧
    (s.perform (turns ++ closing ++ [.feed [3] (some 1), .pause false, .stop])).1 =
      (s.perform (turns ++ closing)).1 ++
        ((s.take (.pause on)).2.perform [.feed [3] (some 1), .pause false, .stop]).1 := by
  intro blocks s turns closing on
  have hs : make 192000 8000 = .ok s := rfl
  have hφ := Filter.contract_silent blocks
  have hunfed : ∀ turn ∈ [.pull 16, .pause true], (turn : Turn Nat).isFeed = false := by decide
  have hc : s.Closing turns closing := .idle hunfed (by decide)
  obtain ⟨hclosed, -, hlater⟩ := reopened_by_closing hs hφ hc
  exact ⟨hs, hφ, hc, rfl, by decide, hclosed, (hlater _).1⟩

end Stream

end Elocution.Output
