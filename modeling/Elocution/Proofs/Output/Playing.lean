import Elocution.Output.Playout
import Mathlib.Data.List.Induction
import Mathlib.Data.List.Infix

/-!
# What a playout queue plays

Segments are appended to a queue and pulled from it sample by sample. What has been pulled and
what is left make up what was appended, and the calls of a segment follow its last sample: the
next pull after it hands them on, whatever it finds to play.
-/

namespace Elocution.Output

namespace Segment

variable {κ : Type} {gone rest : List (Segment κ)} {s : Segment κ}

def audio (segments : List (Segment κ)) : List Int16 := segments.flatMap (·.samples)

def callsOf (segments : List (Segment κ)) : List κ := segments.flatMap (·.calls)

theorem audio_append (segments later : List (Segment κ)) :
    audio (segments ++ later) = audio segments ++ audio later := List.flatMap_append

theorem callsOf_append (segments later : List (Segment κ)) :
    callsOf (segments ++ later) = callsOf segments ++ callsOf later := List.flatMap_append

/-- Puts samples back in front of those that are left. -/
def putBack (taken : List Int16) : List (Segment κ) → List (Segment κ)
  | [] => []
  | s :: rest => { s with samples := taken ++ s.samples } :: rest

@[simp] theorem length_putBack (taken : List Int16) (left : List (Segment κ)) :
    (putBack taken left).length = left.length := by
  cases left <;> rfl

@[simp] theorem putBack_nil (left : List (Segment κ)) : putBack [] left = left := by
  cases left <;> rfl

theorem audio_putBack {taken : List Int16} {left : List (Segment κ)} (h : left = [] → taken = []) :
    audio (putBack taken left) = taken ++ audio left := by
  cases left with
  | nil => rw [h rfl]; rfl
  | cons s rest => simp [audio, putBack]

theorem putBack_concat {taken : List Int16} {left : List (Segment κ)} (h : left = [] → taken = [])
    (s : Segment κ) : putBack taken (left ++ [s]) = putBack taken left ++ [s] := by
  cases left with
  | nil => rw [h rfl]; rfl
  | cons t rest => rfl

/-- The segments whose audio ends within so many samples are those before the one in which the
count falls. -/
theorem length_audio_take_le_iff {n k : Nat} (hgone : (audio gone).length ≤ n)
    (hs : n < (audio gone).length + s.samples.length) :
    ((audio ((gone ++ s :: rest).take k)).length ≤ n) ↔ k ≤ gone.length := by
  constructor
  · intro h
    by_contra hk
    have hprefix : gone ++ [s] <+: (gone ++ s :: rest).take k := by
      refine List.prefix_take_iff.mpr ⟨⟨rest, by simp⟩, ?_⟩
      simp
      omega
    obtain ⟨more, hmore⟩ := hprefix
    rw [← hmore, audio_append, audio_append] at h
    simp [audio] at h hs
    omega
  · intro hk
    rw [List.take_append_of_le_length hk]
    have hsplit := congrArg (List.length ∘ audio) (List.take_append_drop k gone)
    simp only [Function.comp, audio_append, List.length_append] at hsplit
    omega

end Segment

namespace Playout

open Segment

variable {κ : Type} {segments gone left : List (Segment κ)} {taken pulled : List Int16}
  {handed : List κ} {p : Playout κ}

inductive Turn (κ : Type) where
  | append (s : Segment κ)
  | pull

def Turn.segment? : Turn κ → Option (Segment κ)
  | .append s => some s
  | .pull => none

/-- The answers to the pulls, and the queue that is left. -/
def perform : List (Turn κ) → Playout κ → List (Option Int16 × List κ) × Playout κ
  | [], p => ([], p)
  | .append s :: rest, p => perform rest (p.append s)
  | .pull :: rest, p =>
    let (sample, calls, p) := p.pull
    let (pulls, p) := perform rest p
    ((sample, calls) :: pulls, p)

theorem perform_append (turns later : List (Turn κ)) (p : Playout κ) :
    perform (turns ++ later) p =
      ((perform turns p).1 ++ (perform later (perform turns p).2).1,
        (perform later (perform turns p).2).2) := by
  induction turns generalizing p with
  | nil => rfl
  | cons turn rest ih => cases turn <;> simp only [List.cons_append, perform, ih]

theorem perform_concat_append (turns : List (Turn κ)) (s : Segment κ) (p : Playout κ) :
    perform (turns ++ [.append s]) p = ((perform turns p).1, (perform turns p).2.append s) := by
  rw [perform_append]
  simp only [perform, List.append_nil]

theorem perform_concat_pull (turns : List (Turn κ)) (p : Playout κ) :
    perform (turns ++ [.pull]) p =
      ((perform turns p).1 ++ [((perform turns p).2.pull.1, (perform turns p).2.pull.2.1)],
        (perform turns p).2.pull.2.2) := perform_append turns [.pull] p

def appended (turns : List (Turn κ)) : List (Segment κ) := turns.filterMap Turn.segment?

theorem appended_concat (turns : List (Turn κ)) (turn : Turn κ) :
    appended (turns ++ [turn]) = appended turns ++ turn.segment?.toList := by
  cases turn <;> simp [appended, Turn.segment?]

theorem queued_eq (p : Playout κ) : p.queued = (audio p.segments).length := by
  have hfold : ∀ (segments : List (Segment κ)) (n : Nat),
      segments.foldl (fun n s => n + s.samples.length) n = n + (audio segments).length := by
    intro segments
    induction segments with
    | nil => intro n; rfl
    | cons s rest ih =>
      intro n
      simp only [List.foldl_cons, ih, audio, List.flatMap_cons, List.length_append]
      omega
  rw [queued, hfold, Nat.zero_add]

/-- Of the segments some are gone, and of the next in line some samples have been taken. -/
structure Played (segments : List (Segment κ)) (pulled : List Int16) (handed : List κ)
    (gone : List (Segment κ)) (taken : List Int16) (left : List (Segment κ)) : Prop where
  whole : segments = gone ++ putBack taken left
  pulled_eq : pulled = audio gone ++ taken
  handed_eq : handed = callsOf gone
  dry : left = [] → taken = []

namespace Played

theorem append (h : Played segments pulled handed gone taken left) (s : Segment κ) :
    Played (segments ++ [s]) pulled handed gone taken (left ++ [s]) := by
  refine ⟨?_, h.pulled_eq, h.handed_eq, by simp⟩
  rw [putBack_concat h.dry, h.whole, List.append_assoc]

/-- A segment all of whose samples have been taken gives way. -/
theorem pass {calls : List κ} (h : Played segments pulled handed gone taken (⟨[], calls⟩ :: left)) :
    Played segments pulled (handed ++ calls) (gone ++ [⟨taken, calls⟩]) [] left := by
  refine ⟨?_, ?_, ?_, fun _ => rfl⟩
  · rw [h.whole, putBack_nil, List.append_assoc]
    simp [putBack]
  · rw [h.pulled_eq, audio_append]
    simp [audio]
  · rw [h.handed_eq, callsOf_append]
    simp [callsOf]

theorem take {x : Int16} {samples : List Int16} {calls : List κ}
    (h : Played segments pulled handed gone taken (⟨x :: samples, calls⟩ :: left)) :
    Played segments (pulled ++ [x]) handed gone (taken ++ [x]) (⟨samples, calls⟩ :: left) := by
  refine ⟨?_, ?_, h.handed_eq, by simp⟩
  · rw [h.whole]
    simp [putBack]
  · rw [h.pulled_eq, List.append_assoc]

/-- The segments whose audio has all been taken are gone once the front has audio to give. -/
theorem length_audio_take_le_iff {x : Int16} {samples : List Int16} {calls : List κ} (k : Nat)
    (h : Played segments pulled handed gone taken (⟨x :: samples, calls⟩ :: left)) :
    (audio (segments.take k)).length ≤ pulled.length ↔ k ≤ gone.length := by
  rw [h.whole, h.pulled_eq, List.length_append]
  apply Segment.length_audio_take_le_iff
  · omega
  · simp

/-- What a pull does: segments in front that have no audio left give way, and their calls are
handed on. -/
theorem pull (h : Played segments pulled handed gone taken left) :
    ∃ more taken', Played segments (pulled ++ (pullFrom left).1.toList)
        (handed ++ (pullFrom left).2.1) (gone ++ more) taken' (pullFrom left).2.2 ∧
      (pullFrom left).2.1 = callsOf more ∧
      ((pullFrom left).1 = none ↔ audio left = []) ∧
      ∀ k ≤ segments.length,
        ((audio (segments.take k)).length ≤ pulled.length ↔ k ≤ (gone ++ more).length) := by
  induction left using pullFrom.induct generalizing handed gone taken with
  | case1 =>
    refine ⟨[], taken, by simpa [pullFrom] using h, rfl, by simp [pullFrom, audio], ?_⟩
    intro k hk
    have hgone : segments = gone := by simpa [putBack] using h.whole
    have hpulled : pulled = audio segments := by simpa [h.dry rfl, hgone] using h.pulled_eq
    have hsplit := congrArg List.length (audio_append (segments.take k) (segments.drop k))
    rw [List.take_append_drop, List.length_append] at hsplit
    rw [List.append_nil, ← hgone, hpulled]
    omega
  | case2 x samples calls rest =>
    refine ⟨[], taken ++ [x], by simpa [pullFrom] using h.take, rfl, by simp [pullFrom, audio], ?_⟩
    intro k _
    rw [List.append_nil]
    exact h.length_audio_take_le_iff k
  | case3 calls rest sample others left _ ih =>
    -- The front was played out before this pull, which goes on behind it with as many pulled.
    obtain ⟨more, taken', hplayed, hcalls, hsample, hmore⟩ := ih h.pass
    refine ⟨⟨taken, calls⟩ :: more, taken', ?_, ?_, ?_, ?_⟩
    · simpa [pullFrom] using hplayed
    · simp [pullFrom, hcalls, callsOf]
    · simpa [pullFrom, audio] using hsample
    · simpa using hmore

end Played

theorem played_perform (limit : Nat) (turns : List (Turn κ)) :
    ∃ gone taken, Played (appended turns) ((perform turns { limit }).1.filterMap Prod.fst)
      ((perform turns { limit }).1.flatMap Prod.snd) gone taken
      (perform turns { limit }).2.segments := by
  induction turns using List.reverseRecOn with
  | nil => exact ⟨[], [], rfl, rfl, rfl, fun _ => rfl⟩
  | append_singleton turns turn ih =>
    obtain ⟨gone, taken, h⟩ := ih
    rw [appended_concat]
    cases turn with
    | append s =>
      rw [perform_concat_append]
      exact ⟨gone, taken, h.append s⟩
    | pull =>
      obtain ⟨more, taken', hplayed, -⟩ := h.pull
      refine ⟨gone ++ more, taken', ?_⟩
      have hone : ∀ answer : Option Int16 × List κ,
          [answer].filterMap Prod.fst = answer.1.toList := by
        rintro ⟨_ | x, calls⟩ <;> rfl
      rw [perform_concat_pull, List.filterMap_append, List.flatMap_append, hone,
        List.flatMap_singleton, Turn.segment?, Option.toList_none, List.append_nil]
      exact hplayed

theorem Played.length_sub (h : Played segments pulled handed gone taken left) :
    segments.length - left.length = gone.length := by
  have hlength := congrArg List.length h.whole
  rw [List.length_append, length_putBack] at hlength
  omega

theorem Played.take_gone (h : Played segments pulled handed gone taken left) :
    segments.take gone.length = gone := by
  rw [h.whole]
  exact List.take_left

/-- A queue plays all audio that is appended to it, in order and once, and is silent only if
there is none. The calls of the segments are handed on in order and once: a segment is gone with
the first pull for which all audio up to its end has been pulled before. -/
theorem played_in_order (limit : Nat) (turns : List (Turn κ)) :
    let segments := appended turns
    let (pulls, p) := perform turns { limit }
    let (sample, calls, next) := p.pull
    let pulled := pulls.filterMap Prod.fst
    let gone := segments.length - p.segments.length
    let gone' := segments.length - next.segments.length
    pulled ++ audio p.segments = audio segments ∧
    p.queued + pulled.length = (audio segments).length ∧
    (sample = none ↔ p.queued = 0) ∧
    pulls.flatMap Prod.snd = callsOf (segments.take gone) ∧
    calls = callsOf ((segments.take gone').drop gone) ∧
    ∀ k ≤ segments.length, (audio (segments.take k)).length ≤ pulled.length ↔ k ≤ gone' := by
  obtain ⟨gone, taken, h⟩ := played_perform limit turns
  obtain ⟨more, taken', hnext, hcalls, hsample, hgone'⟩ := h.pull
  have haudio : (perform turns { limit }).1.filterMap Prod.fst ++
      audio (perform turns { limit }).2.segments = audio (appended turns) := by
    rw [h.whole, audio_append, audio_putBack h.dry, h.pulled_eq, List.append_assoc]
  intro segments
  simp only [pull, queued_eq]
  rw [h.length_sub, hnext.length_sub, h.take_gone, hnext.take_gone, List.drop_left]
  refine ⟨haudio, ?_, ?_, h.handed_eq, hcalls, hgone'⟩
  · rw [← haudio, List.length_append, Nat.add_comm]
  · rw [hsample, List.length_eq_zero_iff]

/-- Two segments give way to one pull, the second of them without audio. -/
theorem played_in_order_empty :
    let turns : List (Turn Nat) := [.append ⟨[1, 2], [0]⟩, .pull, .append ⟨[], [1]⟩,
      .append ⟨[3], [2]⟩, .pull]
    let segments := appended turns
    let (pulls, p) := perform turns { limit := 0 }
    let (sample, calls, next) := p.pull
    sample = some 3 ∧ calls = [0, 1] ∧ pulls.flatMap Prod.snd = [] ∧ p.queued = 1 ∧
    2 ≤ segments.length ∧
    ((audio (segments.take 2)).length ≤ (pulls.filterMap Prod.fst).length ↔
      2 ≤ segments.length - next.segments.length) := by
  intro turns
  have hk : 2 ≤ (appended turns).length := by decide
  obtain ⟨-, -, -, hhanded, hcalls, hgone⟩ := played_in_order 0 turns
  exact ⟨by decide, hcalls, hhanded, by decide, hk, hgone 2 hk⟩

end Playout

end Elocution.Output
