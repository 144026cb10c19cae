import Elocution.Output.Filter
import Elocution.Proofs.Output.Running

/-!
# Streams with a filter

A filter has a say in the values of samples and in nothing else: of a filter that keeps to its
lengths, a stream gives audio of the lengths that a `Stream` tells, with the same calls, and the
card is told the same.
-/

namespace Elocution.Output

/-- What filters keep to: a pass completes so many blocks, and a reset makes the filter new.
`saved` tells how many source samples do not fill a block yet. -/
structure Filter.Contract {σ : Type} (φ : Filter σ) (b : BlockLengths) (saved : σ → Nat) :
    Prop where
  saved_fresh : saved φ.fresh = 0
  reset_eq : ∀ x, φ.reset x = φ.fresh
  delay_eq : φ.delay = b.delay
  length_pass : ∀ input x, input.length = passLength →
    (φ.pass input x).1.length = (saved x + passLength) / b.source * b.target
  saved_pass : ∀ input x, input.length = passLength →
    saved (φ.pass input x).2 = (saved x + passLength) % b.source

/-- A filter that is fed with silence. -/
def Filter.silent (b : BlockLengths) : Filter Nat where
  fresh := 0
  pass input saved :=
    (List.replicate ((saved + input.length) / b.source * b.target) 0,
      (saved + input.length) % b.source)
  reset _ := 0
  delay := b.delay

theorem Filter.contract_silent (b : BlockLengths) : (Filter.silent b).Contract b id where
  saved_fresh := rfl
  reset_eq _ := rfl
  delay_eq := rfl
  length_pass input x hi := by simp [Filter.silent, hi]
  saved_pass input x hi := by simp [Filter.silent, hi]

variable {σ κ : Type} {φ : Filter σ} {b : BlockLengths} {saved : σ → Nat}

/-! ## Resamplers -/

namespace FilteredResampler

/-- The numbers tell what is in the resampler. -/
structure Counted (b : BlockLengths) (saved : σ → Nat) (r : FilteredResampler σ κ)
    (n : Resampler κ) : Prop where
  blocks : n.blocks = b
  inner : saved r.inner = n.saved
  pending : r.pending.length = n.pending
  short : n.pending < passLength
  waiting : r.waiting = n.waiting
  skip : r.skip = n.skip
  primed : r.primed = n.primed

variable {r : FilteredResampler σ κ} {n : Resampler κ}

theorem counted_start (hφ : φ.Contract b saved) :
    Counted b saved (start φ : FilteredResampler σ κ) (.ofBlocks b) :=
  ⟨rfl, hφ.saved_fresh, rfl, Nat.zero_lt_succ _, rfl, hφ.delay_eq, rfl⟩

theorem Counted.pass (hφ : φ.Contract b saved) (h : Counted b saved r n) {input : List Float32}
    (hi : input.length ≤ passLength) :
    (r.pass φ input).1.length = n.pass.1 ∧
      Counted b saved (r.pass φ input).2 n.pass.2 := by
  have hfull : (input ++ List.replicate (passLength - input.length) 0).length = passLength := by
    rw [List.length_append, List.length_replicate]
    omega
  have hlength := hφ.length_pass _ r.inner hfull
  have hsaved := hφ.saved_pass _ r.inner hfull
  rw [h.inner, ← h.blocks] at hlength hsaved
  refine ⟨?_, h.blocks, hsaved, h.pending, h.short, h.waiting, ?_, rfl⟩
  · simp only [FilteredResampler.pass, Resampler.pass, List.length_map, List.length_drop,
      hlength, h.skip]
  · simp only [FilteredResampler.pass, Resampler.pass, hlength, h.skip]

theorem Counted.passes (hφ : φ.Contract b saved) (h : Counted b saved r n) (count : Nat)
    (input : List Float32) :
    (r.passes φ count input).1.length = (n.passes count).1 ∧
      Counted b saved (r.passes φ count input).2 (n.passes count).2 := by
  induction count generalizing r n input with
  | zero => exact ⟨rfl, h⟩
  | succ count ih =>
    obtain ⟨hfirst, hnext⟩ := h.pass hφ (List.length_take_le passLength input)
    obtain ⟨hothers, hlast⟩ := ih hnext (input.drop passLength)
    refine ⟨?_, hlast⟩
    simp only [FilteredResampler.passes, Resampler.passes, List.length_append, hfirst, hothers]

theorem Counted.push (hφ : φ.Contract b saved) (h : Counted b saved r n) (samples : List Int16)
    (call : Option κ) :
    (r.push φ samples call).1.length = (n.push samples.length call).1.length ∧
      (r.push φ samples call).2.1 = (n.push samples.length call).1.done ∧
      Counted b saved (r.push φ samples call).2.2 (n.push samples.length call).2 := by
  have hinput : (r.pending ++ samples.map fun s => Single.ofSample s / 32768).length =
      n.pending + samples.length := by
    rw [List.length_append, List.length_map, h.pending]
  obtain ⟨hlength, hcounted⟩ := h.passes hφ ((n.pending + samples.length) / passLength)
    (r.pending ++ samples.map fun s => Single.ofSample s / 32768)
  simp only [FilteredResampler.push, Resampler.push, hinput, h.waiting]
  refine ⟨hlength, trivial, hcounted.blocks, hcounted.inner, ?_, ?_, rfl, hcounted.skip,
    hcounted.primed⟩
  · rw [List.length_drop, hinput]
  · simp only [passLength]
    omega

theorem reset_eq (hφ : φ.Contract b saved) (r : FilteredResampler σ κ) :
    r.reset φ = start φ := by
  simp only [FilteredResampler.reset, start, hφ.reset_eq]

/-- Both are new after a reset. -/
theorem Counted.reset (hφ : φ.Contract b saved) (h : Counted b saved r n) :
    Counted b saved (r.reset φ) n.reset := by
  rw [reset_eq hφ, Resampler.reset, h.blocks]
  exact counted_start hφ

theorem Counted.flush (hφ : φ.Contract b saved) (h : Counted b saved r n) :
    (r.flush φ).1.length = n.flush.1.length ∧ (r.flush φ).2.1 = n.flush.1.done ∧
      Counted b saved (r.flush φ).2.2 n.flush.2 := by
  have hpending : r.pending.isEmpty = true ↔ n.pending = 0 := by
    rw [List.isEmpty_iff, ← List.length_eq_zero_iff, h.pending]
  have hshort : r.pending.length ≤ passLength := h.pending ▸ h.short.le
  obtain ⟨htail, hnext⟩ :
      (if r.pending.isEmpty then ([], r) else r.pass φ r.pending).1.length =
          (if n.pending = 0 then (0, n) else n.pass).1 ∧
        Counted b saved (if r.pending.isEmpty then ([], r) else r.pass φ r.pending).2
          (if n.pending = 0 then (0, n) else n.pass).2 := by
    simp only [hpending]
    split
    · exact ⟨rfl, h⟩
    · exact h.pass hφ hshort
  simp only [FilteredResampler.flush, Resampler.flush]
  generalize (if r.pending.isEmpty then ([], r) else r.pass φ r.pending) = x at htail hnext ⊢
  generalize (if n.pending = 0 then (0, n) else n.pass) = y at htail hnext ⊢
  obtain ⟨hlast, hend⟩ :
      (if x.2.primed then x.2.pass φ [] else ([], x.2)).1.length =
          (if y.2.primed then y.2.pass else (0, y.2)).1 ∧
        Counted b saved (if x.2.primed then x.2.pass φ [] else ([], x.2)).2
          (if y.2.primed then y.2.pass else (0, y.2)).2 := by
    simp only [hnext.primed]
    split
    · exact hnext.pass hφ (Nat.zero_le _)
    · exact ⟨rfl, hnext⟩
  rw [List.length_append, htail, hlast]
  exact ⟨rfl, congrArg _ h.waiting, hend.reset hφ⟩

end FilteredResampler

/-! ## Streams -/

/-- What there is of a segment apart from the values of its samples. -/
def Segment.outline (s : Segment κ) : Nat × List κ := (s.samples.length, s.calls)

namespace Playout

/-- Queues that differ in the values of samples alone. -/
structure Alike (p q : Playout κ) : Prop where
  segments : p.segments.map Segment.outline = q.segments.map Segment.outline
  limit : p.limit = q.limit

variable {p q : Playout κ}

theorem Alike.append (h : p.Alike q) {s t : Segment κ} (hs : s.outline = t.outline) :
    (p.append s).Alike (q.append t) :=
  ⟨by simp [Playout.append, h.segments, hs], h.limit⟩

theorem pullFrom_alike {segments others : List (Segment κ)}
    (h : segments.map Segment.outline = others.map Segment.outline) :
    (pullFrom segments).2.1 = (pullFrom others).2.1 ∧
      (pullFrom segments).2.2.map Segment.outline =
        (pullFrom others).2.2.map Segment.outline := by
  induction segments using pullFrom.induct generalizing others with
  | case1 =>
    obtain rfl : others = [] := by simpa using h.symm
    exact ⟨rfl, rfl⟩
  | case2 x samples calls rest =>
    obtain _ | ⟨⟨_ | ⟨y, ys⟩, zs⟩, later⟩ := others
    · simp at h
    · simp [Segment.outline] at h
    · simpa [pullFrom, Segment.outline] using h
  | case3 calls rest sample given left _ ih =>
    obtain _ | ⟨⟨_ | ⟨y, ys⟩, zs⟩, later⟩ := others
    · simp at h
    · simp only [List.map_cons, List.cons.injEq, Segment.outline, Prod.mk.injEq] at h
      obtain ⟨hcalls, hleft⟩ := ih h.2
      simp only [pullFrom, h.1.2, hcalls, hleft, and_self]
    · simp [Segment.outline] at h

theorem Alike.pullMany (h : p.Alike q) (n : Nat) :
    (p.pullMany n).1.length = (q.pullMany n).1.length ∧
      (p.pullMany n).2.1 = (q.pullMany n).2.1 ∧
      (p.pullMany n).2.2.Alike (q.pullMany n).2.2 := by
  induction n generalizing p q with
  | zero => exact ⟨rfl, rfl, h⟩
  | succ n ih =>
    obtain ⟨hcalls, hleft⟩ := pullFrom_alike h.segments
    obtain ⟨hlength, hothers, hlast⟩ := ih (p := p.pull.2.2) (q := q.pull.2.2) ⟨hleft, h.limit⟩
    refine ⟨?_, ?_, hlast⟩
    · simp only [Playout.pullMany, List.length_cons, hlength]
    · simp only [Playout.pullMany, hothers]
      exact congrArg (· ++ _) hcalls

end Playout

/-- What there is of an answer apart from the values of its samples. -/
def Stream.Answer.outline (a : Stream.Answer κ) : List Control × Nat × List κ :=
  (a.controls, a.samples.length, a.calls)

namespace FilteredStream

variable {f : FilteredStream σ κ} {s : Stream κ}

/-- The filter has a say in what goes to the resampler; all else is left to what comes after it. -/
def take (φ : Filter σ) (f : FilteredStream σ κ) :
    Stream.Turn κ → Stream.Answer κ × FilteredStream σ κ
  | .feed samples call => told (f.feed φ samples call)
  | .flush => told (f.flush φ)
  | .stop => told (f.stop φ)
  | turn =>
    let (answer, stream) := f.stream.take turn
    (answer, { f with stream })
where
  told (change : List Control × FilteredStream σ κ) : Stream.Answer κ × FilteredStream σ κ :=
    ({ controls := change.1 }, change.2)

def perform (φ : Filter σ) :
    List (Stream.Turn κ) → FilteredStream σ κ → List (Stream.Answer κ) × FilteredStream σ κ
  | [], f => ([], f)
  | turn :: rest, f =>
    let (answer, f) := f.take φ turn
    let (others, f) := perform φ rest f
    (answer :: others, f)

/-- The stream tells the lengths of all that is in the filtered stream. -/
structure Alike (b : BlockLengths) (saved : σ → Nat) (f : FilteredStream σ κ) (s : Stream κ) :
    Prop where
  playout : f.stream.playout.Alike s.playout
  running : f.stream.running = s.running
  paused : f.stream.paused = s.paused
  resampler : Option.Rel (FilteredResampler.Counted b saved) f.resampler s.resampler
  bare : f.stream.resampler = none

/-! ### What comes after the resampler -/

/-- The streams tell the card the same, and are alike after it. -/
def AlikeAfter (b : BlockLengths) (saved : σ → Nat) (x : List Control × FilteredStream σ κ)
    (y : List Control × Stream κ) : Prop :=
  x.1 = y.1 ∧ x.2.Alike b saved y.2

theorem Alike.ensureRunning (h : f.Alike b saved s) :
    AlikeAfter b saved (f.after f.stream.ensureRunning) s.ensureRunning := by
  unfold Stream.ensureRunning
  rw [h.running, h.paused]
  split
  · exact ⟨rfl, h⟩
  · exact ⟨rfl, h.playout, rfl, rfl, h.resampler, h.bare⟩

theorem Alike.halt (h : f.Alike b saved s) :
    AlikeAfter b saved (f.after f.stream.halt) s.halt := by
  unfold Stream.halt
  rw [h.running]
  split
  · exact ⟨rfl, h.playout, rfl, h.paused, h.resampler, h.bare⟩
  · exact ⟨rfl, h⟩

theorem Alike.enqueue (h : f.Alike b saved s) {audio samples : List Int16} (calls : List κ)
    (hl : audio.length = samples.length) :
    AlikeAfter b saved (f.after (f.stream.enqueue audio calls)) (s.enqueue samples calls) := by
  have hempty : audio.isEmpty = samples.isEmpty := by
    rw [Bool.eq_iff_iff, List.isEmpty_iff, List.isEmpty_iff, ← List.length_eq_zero_iff,
      ← List.length_eq_zero_iff, hl]
  have hsegment : Segment.outline ⟨audio, calls⟩ = Segment.outline ⟨samples, calls⟩ := by
    simp only [Segment.outline, hl]
  unfold Stream.enqueue
  rw [hempty]
  split
  · exact ⟨rfl, h⟩
  · have hqueued : Alike b saved
        { f with stream := { f.stream with playout := f.stream.playout.append ⟨audio, calls⟩ } }
        { s with playout := s.playout.append ⟨samples, calls⟩ } :=
      ⟨h.playout.append hsegment, h.running, h.paused, h.resampler, h.bare⟩
    exact hqueued.ensureRunning

theorem Alike.enqueueConverted (h : f.Alike b saved s) {audio : List Int16} {calls : List κ}
    {c : Converted κ} (hl : audio.length = c.length) (hc : calls = c.done) :
    AlikeAfter b saved (f.after (f.stream.enqueue audio calls)) (s.enqueueConverted c) := by
  rw [hc]
  exact h.enqueue c.done (hl.trans List.length_replicate.symm)

theorem Alike.isDrained (h : f.Alike b saved s) : f.stream.isDrained = s.isDrained := by
  rw [Bool.eq_iff_iff, Stream.isDrained_iff, Stream.isDrained_iff, ← List.map_eq_nil_iff,
    h.playout.segments, List.map_eq_nil_iff]

/-- The queue of both is dropped. -/
theorem Alike.dropped (h : f.Alike b saved s) :
    Alike b saved
      { f with stream := { f.stream with playout := { f.stream.playout with segments := [] } } }
      { s with playout := { s.playout with segments := [] } } :=
  ⟨⟨rfl, h.playout.limit⟩, h.running, h.paused, h.resampler, h.bare⟩

theorem Alike.settle (h : f.Alike b saved s) :
    AlikeAfter b saved (f.after (f.stream.settle?.getD ([], f.stream)))
      (s.settle?.getD ([], s)) := by
  simp only [Stream.settle?, h.isDrained]
  split
  · exact h.halt
  · exact ⟨rfl, h⟩

theorem Alike.pause (h : f.Alike b saved s) (on : Bool) :
    AlikeAfter b saved (f.after (f.stream.pause on)) (s.pause on) := by
  have hset : Alike b saved { f with stream := { f.stream with paused := on } }
      { s with paused := on } := ⟨h.playout, h.running, rfl, h.resampler, h.bare⟩
  simp only [Stream.pause, hset.isDrained]
  split
  · exact hset.halt
  · split
    · exact ⟨rfl, hset⟩
    · exact hset.ensureRunning

/-! ### What goes to the resampler -/

theorem Alike.feed (hφ : φ.Contract b saved) (h : f.Alike b saved s) (samples : List Int16)
    (call : Option κ) : AlikeAfter b saved (f.feed φ samples call) (s.feed samples call) := by
  obtain ⟨stream, resampler⟩ := f
  obtain ⟨playout, counted, running, paused⟩ := s
  cases h.resampler with
  | none => exact h.enqueue call.toList rfl
  | @some r n hr =>
    obtain ⟨hlength, hcalls, hcounted⟩ := hr.push hφ samples call
    have hset : Alike b saved ⟨stream, some (r.push φ samples call).2.2⟩
        ⟨playout, some (n.push samples.length call).2, running, paused⟩ :=
      ⟨h.playout, h.running, h.paused, .some hcounted, h.bare⟩
    exact hset.enqueueConverted hlength hcalls

theorem Alike.flush (hφ : φ.Contract b saved) (h : f.Alike b saved s) :
    AlikeAfter b saved (f.flush φ) s.flush := by
  obtain ⟨stream, resampler⟩ := f
  obtain ⟨playout, counted, running, paused⟩ := s
  cases h.resampler with
  | none => exact ⟨rfl, h⟩
  | @some r n hr =>
    obtain ⟨hlength, hcalls, hcounted⟩ := hr.flush hφ
    have hset : Alike b saved ⟨stream, some (r.flush φ).2.2⟩
        ⟨playout, some n.flush.2, running, paused⟩ :=
      ⟨h.playout, h.running, h.paused, .some hcounted, h.bare⟩
    exact hset.enqueueConverted hlength hcalls

theorem Alike.stop (hφ : φ.Contract b saved) (h : f.Alike b saved s) :
    AlikeAfter b saved (f.stop φ) s.stop := by
  have hreset : Option.Rel (FilteredResampler.Counted b saved)
      (f.resampler.map (.reset φ)) (s.resampler.map Resampler.reset) := by
    have hr := h.resampler
    generalize f.resampler = r, s.resampler = n at hr ⊢
    cases hr with
    | none => exact .none
    | some hr => exact .some (hr.reset hφ)
  have hset : Alike b saved
      { stream := { f.stream with playout := { f.stream.playout with segments := [] }
                                  resampler := f.stream.resampler.map Resampler.reset }
        resampler := f.resampler.map (.reset φ) }
      { s with playout := { s.playout with segments := [] }
               resampler := s.resampler.map Resampler.reset } :=
    ⟨h.dropped.playout, h.running, h.paused, hreset, by rw [h.bare]; rfl⟩
  exact hset.halt

/-! ### Runs -/

theorem Alike.take (hφ : φ.Contract b saved) (h : f.Alike b saved s) (turn : Stream.Turn κ) :
    (f.take φ turn).1.outline = (s.take turn).1.outline ∧
      (f.take φ turn).2.Alike b saved (s.take turn).2 := by
  have told {x : List Control × FilteredStream σ κ} {y : List Control × Stream κ}
      (hxy : AlikeAfter b saved x y) :
      (take.told x).1.outline = (Stream.take.told y).1.outline ∧
        (take.told x).2.Alike b saved (Stream.take.told y).2 :=
    ⟨congrArg (·, 0, []) hxy.1, hxy.2⟩
  cases turn with
  | feed samples call => exact told (h.feed hφ samples call)
  | flush => exact told (h.flush hφ)
  | settle => exact told h.settle
  | abandon => exact told h.dropped.halt
  | stop => exact told (h.stop hφ)
  | pause on => exact told (h.pause on)
  | pull n =>
    obtain ⟨hlength, hcalls, hleft⟩ := h.playout.pullMany n
    refine ⟨?_, hleft, h.running, h.paused, h.resampler, h.bare⟩
    simp only [FilteredStream.take, Stream.take, Stream.pull, Stream.Answer.outline, hlength,
      hcalls]

theorem Alike.perform (hφ : φ.Contract b saved) (h : f.Alike b saved s)
    (turns : List (Stream.Turn κ)) :
    (f.perform φ turns).1.map Stream.Answer.outline =
        (s.perform turns).1.map Stream.Answer.outline ∧
      (f.perform φ turns).2.Alike b saved (s.perform turns).2 := by
  induction turns generalizing f s with
  | nil => exact ⟨rfl, h⟩
  | cons turn rest ih =>
    obtain ⟨hfirst, hnext⟩ := h.take hφ turn
    obtain ⟨hrest, hlast⟩ := ih hnext
    exact ⟨congrArg₂ (· :: ·) hfirst hrest, hlast⟩

/-- A new stream is alike with a new filter in it. -/
theorem alike_ofStream {source target : Nat} (hφ : φ.Contract (.ofRates source target) saved)
    (h : Stream.make source target = .ok s) :
    (ofStream φ s).Alike (.ofRates source target) saved s := by
  obtain ⟨resampler, hr, rfl⟩ := Stream.make_cases h
  refine ⟨⟨rfl, rfl⟩, rfl, rfl, ?_, rfl⟩
  cases resampler with
  | none => exact .none
  | some n => exact .some (hr n rfl ▸ FilteredResampler.counted_start hφ)

end FilteredStream

end Elocution.Output
