import Elocution.Output.Stream
import Elocution.Proofs.Output.Playing

/-!
# When the card runs

A stream in the course of its use. The card is told to play and to pause in turn, and it plays
whenever something is queued and the stream is not paused; it goes on asking, so what is queued
is played out.
-/

namespace Elocution.Output

namespace Playout

open Segment

variable {κ : Type} {p : Playout κ}

/-- A pull that finds no sample leaves nothing, any other takes the first sample. -/
theorem pullFrom_cases (segments : List (Segment κ)) :
    ((pullFrom segments).1 = none ∧ (pullFrom segments).2.2 = []) ∨
      ∃ x, (pullFrom segments).1 = some x ∧
        audio segments = x :: audio (pullFrom segments).2.2 := by
  induction segments using pullFrom.induct with
  | case1 => exact .inl ⟨rfl, rfl⟩
  | case2 x samples calls rest => exact .inr ⟨x, rfl, rfl⟩
  | case3 calls rest sample others left _ ih => simpa [pullFrom, audio] using ih

theorem segments_pullMany_of_nil (h : p.segments = []) (n : Nat) :
    (p.pullMany n).2.2.segments = [] := by
  induction n generalizing p with
  | zero => exact h
  | succ n ih =>
    apply ih
    simp [h, pullFrom]

/-- Who goes on pulling has it all. -/
theorem segments_pullMany {n : Nat} (h : p.queued < n) : (p.pullMany n).2.2.segments = [] := by
  induction n generalizing p with
  | zero => exact absurd h (Nat.not_lt_zero _)
  | succ n ih =>
    rcases pullFrom_cases p.segments with ⟨-, hleft⟩ | ⟨x, -, haudio⟩
    · exact segments_pullMany_of_nil hleft n
    · apply ih
      rw [queued_eq, haudio] at h
      rw [queued_eq]
      exact Nat.lt_of_succ_lt_succ h

end Playout

namespace Stream

variable {κ : Type} {s t : Stream κ} {sent : List Control} {samples : List Int16} {calls : List κ}
  {source target : Nat}

/-- What is done with a stream. An idle begins with a flush and ends with a settling, or else with
the queue being abandoned; other things may be done in between. -/
inductive Turn (κ : Type) where
  | feed (samples : List Int16) (call : Option κ)
  | flush
  | settle
  | abandon
  | stop
  | pause (on : Bool)
  | pull (n : Nat)

/-- What comes of a turn: what the card is told, the samples it gets and the calls that are due. -/
structure Answer (κ : Type) where
  controls : List Control := []
  samples : List Int16 := []
  calls : List κ := []

/-- An idle does not end while there is something to play. -/
def take (s : Stream κ) : Turn κ → Answer κ × Stream κ
  | .feed samples call => told (s.feed samples call)
  | .flush => told s.flush
  | .settle => told (s.settle?.getD ([], s))
  | .abandon => told s.abandon
  | .stop => told s.stop
  | .pause on => told (s.pause on)
  | .pull n =>
    let (samples, calls, s) := s.pull n
    ({ samples, calls }, s)
where
  told (change : List Control × Stream κ) : Answer κ × Stream κ :=
    ({ controls := change.1 }, change.2)

def perform : List (Turn κ) → Stream κ → List (Answer κ) × Stream κ
  | [], s => ([], s)
  | turn :: rest, s =>
    let (answer, s) := s.take turn
    let (others, s) := perform rest s
    (answer :: others, s)

theorem perform_append (turns later : List (Turn κ)) (s : Stream κ) :
    perform (turns ++ later) s =
      ((perform turns s).1 ++ (perform later (perform turns s).2).1,
        (perform later (perform turns s).2).2) := by
  induction turns generalizing s with
  | nil => rfl
  | cons turn rest ih => simp only [List.cons_append, perform, ih]

/-- What the card has been told, in order. -/
def controlsOf (answers : List (Answer κ)) : List Control := answers.flatMap (·.controls)

/-! ## What a turn does -/

/-- Feeding is queueing, once the resampler has had its part. -/
theorem feed_eq_enqueue (samples : List Int16) (call : Option κ) (s : Stream κ) :
    ∃ resampler audio calls,
      s.feed samples call = enqueue audio calls { s with resampler } := by
  unfold feed
  split
  · exact ⟨s.resampler, samples, call.toList, rfl⟩
  · exact ⟨_, _, _, rfl⟩

theorem flush_eq_enqueue (s : Stream κ) :
    ∃ resampler audio calls, s.flush = enqueue audio calls { s with resampler } := by
  unfold flush
  split
  · exact ⟨s.resampler, [], [], rfl⟩
  · exact ⟨_, _, _, rfl⟩

theorem isDrained_iff : s.isDrained = true ↔ s.playout.segments = [] := List.isEmpty_iff

/-! ## What the card is told -/

/-- The card has been told to play and to pause in turn, and was told last whether it is to run. -/
structure Told (sent : List Control) (running : Bool) : Prop where
  alternates : ∀ i (h : i < sent.length), sent[i] = if i % 2 = 0 then .play else .pause
  running : running = true ↔ sent.length % 2 = 1

theorem Told.getLast? {running : Bool} (h : Told sent running) :
    running = true ↔ sent.getLast? = some .play := by
  rw [h.running, List.getLast?_eq_getElem?, List.getElem?_eq_some_iff]
  constructor
  · intro hodd
    have hlt : sent.length - 1 < sent.length := by omega
    refine ⟨hlt, ?_⟩
    rw [h.alternates, if_pos (by omega)]
  · rintro ⟨hlt, hlast⟩
    by_contra heven
    rw [h.alternates, if_neg (by omega)] at hlast
    exact absurd hlast (by simp)

/-- The card is told the other of the two. -/
theorem Told.concat {running : Bool} (h : Told sent running) :
    Told (sent ++ [if running then .pause else .play]) (!running) := by
  have hparity := h.running
  constructor
  · intro i hi
    rw [List.length_append, List.length_singleton] at hi
    rw [List.getElem_append]
    split
    · exact h.alternates i _
    · obtain rfl : i = sent.length := by omega
      cases running <;> simp_all
  · cases running <;> simp at hparity ⊢ <;> omega

theorem Told.play (h : Told sent false) : Told (sent ++ [.play]) true := h.concat

theorem Told.pause (h : Told sent true) : Told (sent ++ [.pause]) false := h.concat

theorem Told.ensureRunning (h : Told sent s.running) :
    Told (sent ++ s.ensureRunning.1) s.ensureRunning.2.running := by
  unfold Stream.ensureRunning
  split
  · simpa using h
  · rename_i hr
    simp only [Bool.or_eq_true, not_or, Bool.not_eq_true] at hr
    rw [hr.2] at h
    exact h.play

theorem Told.halt (h : Told sent s.running) : Told (sent ++ s.halt.1) s.halt.2.running := by
  unfold Stream.halt
  split
  · rename_i hr
    rw [hr] at h
    exact h.pause
  · simpa using h

theorem Told.enqueue (h : Told sent s.running) (samples : List Int16) (calls : List κ) :
    Told (sent ++ (s.enqueue samples calls).1) (s.enqueue samples calls).2.running := by
  unfold Stream.enqueue
  split
  · simpa using h
  · exact Told.ensureRunning h

theorem Told.take (h : Told sent s.running) (turn : Turn κ) :
    Told (sent ++ (s.take turn).1.controls) (s.take turn).2.running := by
  cases turn with
  | feed samples call =>
    obtain ⟨resampler, audio, calls, heq⟩ := feed_eq_enqueue samples call s
    simp only [Stream.take, take.told, heq]
    refine Told.enqueue ?_ audio calls
    exact h
  | flush =>
    obtain ⟨resampler, audio, calls, heq⟩ := flush_eq_enqueue s
    simp only [Stream.take, take.told, heq]
    refine Told.enqueue ?_ audio calls
    exact h
  | settle =>
    simp only [Stream.take, take.told, settle?]
    split
    · exact h.halt
    · simpa using h
  | abandon => exact Told.halt h
  | stop => exact Told.halt h
  | pause on =>
    simp only [Stream.take, take.told, Stream.pause]
    split
    · exact Told.halt h
    · split
      · simpa using h
      · exact Told.ensureRunning h
  | pull n =>
    have hnone : sent ++ (s.take (.pull n)).1.controls = sent := List.append_nil sent
    rw [hnone]
    exact h

/-! ## That the card plays what is due -/

/-- The card does not run in a pause, and runs otherwise if there is something for it. -/
structure Due (s : Stream κ) : Prop where
  paused : s.paused = true → s.running = false
  queued : s.playout.segments ≠ [] → s.paused = false → s.running = true

theorem halt_eq (s : Stream κ) : s.halt.2 = { s with running := false } := by
  unfold halt
  split
  · rfl
  · rename_i hr
    simp only [Bool.not_eq_true] at hr
    rw [← hr]

theorem due_ensureRunning (h : s.paused = true → s.running = false) : s.ensureRunning.2.Due := by
  unfold ensureRunning
  split
  · rename_i hr
    refine ⟨h, fun _ hp => ?_⟩
    rw [hp] at hr
    exact hr
  · rename_i hr
    simp only [Bool.or_eq_true, not_or, Bool.not_eq_true] at hr
    exact ⟨fun hp => absurd hp (by simp [hr.1]), fun _ _ => rfl⟩

theorem due_halt (h : s.playout.segments = [] ∨ s.paused = true) : s.halt.2.Due := by
  rw [halt_eq]
  refine ⟨fun _ => rfl, fun hq hp => ?_⟩
  rcases h with h | h
  · exact absurd h hq
  · exact absurd h (by simp [show s.paused = false from hp])

theorem Due.enqueue (h : s.Due) (samples : List Int16) (calls : List κ) :
    (s.enqueue samples calls).2.Due := by
  unfold Stream.enqueue
  split
  · exact h
  · exact due_ensureRunning h.paused

theorem Due.take (h : s.Due) (turn : Turn κ) : (s.take turn).2.Due := by
  cases turn with
  | feed samples call =>
    obtain ⟨resampler, audio, calls, heq⟩ := feed_eq_enqueue samples call s
    simp only [Stream.take, take.told, heq]
    refine Due.enqueue ?_ audio calls
    exact ⟨h.paused, h.queued⟩
  | flush =>
    obtain ⟨resampler, audio, calls, heq⟩ := flush_eq_enqueue s
    simp only [Stream.take, take.told, heq]
    refine Due.enqueue ?_ audio calls
    exact ⟨h.paused, h.queued⟩
  | settle =>
    simp only [Stream.take, take.told, settle?]
    split
    · rename_i hd
      exact due_halt (.inl (isDrained_iff.mp hd))
    · exact h
  | abandon => exact due_halt (.inl rfl)
  | stop => exact due_halt (.inl rfl)
  | pause on =>
    simp only [Stream.take, take.told, Stream.pause]
    split
    · rename_i hon
      exact due_halt (.inr hon)
    · rename_i hon
      simp only [Bool.not_eq_true] at hon
      subst hon
      split
      · rename_i hd
        exact ⟨fun hp => absurd hp (by simp), fun hq => absurd (isDrained_iff.mp hd) hq⟩
      · exact due_ensureRunning (fun hp => absurd hp (by simp))
  | pull n =>
    refine ⟨h.paused, fun hq => h.queued fun hs => hq ?_⟩
    exact Playout.segments_pullMany_of_nil hs n

/-- A new stream has nothing to play and is neither running nor paused. -/
theorem make_cases (h : make source target = .ok s) :
    ∃ resampler : Option (Resampler κ),
      (∀ r ∈ resampler, r = .ofBlocks (.ofRates source target)) ∧
      s = { playout := { limit := target * roomMs / 1000 }, resampler } := by
  unfold make at h
  split at h
  · exact ⟨none, by simp, (Except.ok.inj h).symm⟩
  · unfold Resampler.make at h
    split at h
    · cases h
    · exact ⟨some (.ofBlocks (.ofRates source target)), by simp, (Except.ok.inj h).symm⟩

theorem Told.perform (h : Told sent s.running) (turns : List (Turn κ)) :
    Told (sent ++ controlsOf (perform turns s).1) (perform turns s).2.running := by
  induction turns generalizing s sent with
  | nil => simpa [Stream.perform, controlsOf] using h
  | cons turn rest ih =>
    have hrest := ih (h.take turn)
    rwa [List.append_assoc] at hrest

theorem Due.perform (h : s.Due) (turns : List (Turn κ)) : (perform turns s).2.Due := by
  induction turns generalizing s with
  | nil => exact h
  | cons turn rest ih => exact ih (h.take turn)

/-- However a stream is used, the card is told to play and to pause in turn, beginning with play,
and runs if it was told so last. It does not run in a pause, and it runs whenever something is
queued and the stream is not paused; as it goes on asking, nothing stays queued. -/
theorem runs_when_due (h : make source target = .ok s) (turns : List (Turn κ)) :
    let sent := controlsOf (perform turns s).1
    let t := (perform turns s).2
    (∀ i (hi : i < sent.length), sent[i] = if i % 2 = 0 then .play else .pause) ∧
    (t.running = true ↔ sent.getLast? = some .play) ∧
    (t.paused = true → t.running = false) ∧
    (t.playout.segments ≠ [] → t.paused = false → t.running = true) ∧
    ∀ n > t.playout.queued, (t.pull n).2.2.isDrained = true := by
  obtain ⟨resampler, -, hs⟩ := make_cases h
  have hnew : Told [] s.running := by
    rw [hs]
    exact ⟨fun i hi => absurd hi (Nat.not_lt_zero i), by simp⟩
  have hidle : s.Due := by
    rw [hs]
    exact ⟨fun hp => absurd hp (by simp), fun hq => absurd rfl hq⟩
  have htold := hnew.perform turns
  have hdue := hidle.perform turns
  rw [List.nil_append] at htold
  refine ⟨htold.alternates, htold.getLast?, hdue.paused, hdue.queued, fun n hn => ?_⟩
  exact isDrained_iff.mpr (Playout.segments_pullMany hn)

/-- A pause while something is queued, and an idle that waits for the end of it. -/
theorem runs_when_due_paused :
    let s : Stream Nat := { playout := { limit := 2400 } }
    let turns := [.feed [1, 2] (some 0), .pull 1, .pause true, .feed [3] none, .flush, .settle,
      .pause false, .pull 4, .settle, .feed [] (some 1)]
    let sent := controlsOf (perform turns s).1
    let t := (perform turns s).2
    make 8000 8000 = .ok s ∧ sent = [.play, .pause, .play, .pause, .play] ∧
    (t.running = true ↔ sent.getLast? = some .play) ∧
    t.playout.segments ≠ [] ∧ t.paused = false ∧ t.running = true := by
  intro s turns
  have hs : make 8000 8000 = .ok s := rfl
  obtain ⟨-, hlast, -, hdue, -⟩ := runs_when_due hs turns
  have hqueued : (perform turns s).2.playout.segments ≠ [] := by
    rw [ne_eq, ← isDrained_iff]
    decide
  have hon : (perform turns s).2.paused = false := by decide
  exact ⟨hs, by decide, hlast, hqueued, hon, hdue hqueued hon⟩

end Stream

end Elocution.Output
