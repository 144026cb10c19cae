import Elocution.Frame.Remaining
import Elocution.Speech.Session.Playback
import Elocution.Speech.Session.Synthesis

/-!
# Steps use work up

No step of synthesis and no step of playback can be repeated for ever: each uses something up
that only another party can add to. For synthesis this is the jobs, then the blocks and the
clauses of the job at hand, then smaller tasks; for playback it is the signals, then the queued
frames, then the phases of a chunk with the calls that the device holds.
-/

namespace Elocution.Speech

namespace Task

def isBlock : Task → Bool
  | .block _ => true
  | _ => false

def isClause : Task → Bool
  | .clause _ _ => true
  | _ => false

/-- The number of steps that a task other than a block or a clause may still lead to, or
more. -/
def size : Task → Nat
  | .stream _ shaper frames =>
    12 * frames.length + 4 * shaper.spilled.toList.length + 4 * shaper.held.toList.length + 8
  | .marker _ _ | .frame _ => 4
  | .kick => 2
  | _ => 1

def sizes : List Task → Nat
  | [] => 0
  | task :: tasks => task.size + sizes tasks

@[simp] theorem sizes_nil : sizes [] = 0 := rfl

@[simp] theorem sizes_cons (task : Task) (tasks : List Task) :
    sizes (task :: tasks) = task.size + sizes tasks := rfl

theorem sizes_append (tasks others : List Task) :
    sizes (tasks ++ others) = sizes tasks + sizes others := by
  induction tasks with
  | nil => simp
  | cons task tasks ih => rw [List.cons_append, sizes_cons, sizes_cons, ih, Nat.add_assoc]

end Task

/-- A phase counts the steps to the end of a chunk, the calls of the device aside. -/
def Player.rank : Player → Nat
  | .waiting | .stopped => 0
  | .completing _ => 1
  | .idling _ => 2
  | .draining _ | .polling _ => 3
  | .testing _ => 4
  | .rendering _ => 5
  | .checking _ => 6
  | .opening _ => 7
  | .starting _ | .delivering _ _ => 8

namespace Session

/-- What is left of synthesis. -/
def synthesisLeft (s : Session) : Nat × Nat × Nat × Nat :=
  match s.synthesizer with
  | .idle => (s.jobs.jobs.length, 0, 0, 1)
  | .fetched job => (s.jobs.jobs.length, (Task.ofJob job.kind).countP Task.isBlock + 1, 0, 0)
  | .working _ tasks =>
    (s.jobs.jobs.length, tasks.countP Task.isBlock, tasks.countP Task.isClause,
      Task.sizes tasks + 2)
  | .exited => (s.jobs.jobs.length, 0, 0, 0)

/-- What is left of playback. -/
def playbackLeft (s : Session) : Nat × Nat × Nat :=
  (2 * s.signals.length + s.deferred.length, s.frames.remaining, s.player.rank + s.held.length)

/-- Less at the first place where two counts differ. -/
abbrev Less : Nat × Nat × Nat × Nat → Nat × Nat × Nat × Nat → Prop :=
  Prod.Lex (· < ·) (Prod.Lex (· < ·) (Prod.Lex (· < ·) (· < ·)))

theorem less_iff {a b c d a' b' c' d' : Nat} :
    Less (a, b, c, d) (a', b', c', d') ↔
      a < a' ∨ a = a' ∧ (b < b' ∨ b = b' ∧ (c < c' ∨ c = c' ∧ d < d')) := by
  simp [Prod.lex_def]

variable {rig : Rig} {s t : Session}

theorem countP_isBlock_ofMarkers (markers : List Marker) :
    (Task.ofMarkers markers).countP Task.isBlock = 0 := by
  cases markers <;> simp [Task.ofMarkers, List.countP_eq_zero, Task.isBlock]

theorem countP_isBlock_clauses (prosody : Prosody) (clauses : List Clause) :
    (clauses.map (Task.clause prosody)).countP Task.isBlock = 0 := by
  simp [List.countP_eq_zero, Task.isBlock]

theorem countP_isBlock_afterStream (voiced : Bool) (pause : Option Float32) :
    (Task.afterStream voiced pause).countP Task.isBlock = 0 := by
  cases voiced <;> cases pause <;> simp [Task.afterStream, Task.isBlock]

theorem countP_isClause_afterStream (voiced : Bool) (pause : Option Float32) :
    (Task.afterStream voiced pause).countP Task.isClause = 0 := by
  cases voiced <;> cases pause <;> simp [Task.afterStream, Task.isClause]

theorem sizes_afterStream (voiced : Bool) (pause : Option Float32) :
    Task.sizes (Task.afterStream voiced pause) ≤ 5 := by
  cases voiced <;> cases pause <;> simp [Task.afterStream, Task.size]

theorem put_left_less (p : Progress) (f : Frame) (tasks : List Task) {n : Nat}
    (h : Task.sizes tasks + 4 < n) :
    Less (s.put p f tasks).synthesisLeft
      (s.jobs.jobs.length, tasks.countP Task.isBlock, tasks.countP Task.isClause, n) := by
  unfold put
  split
  · cases hk : p.kicked <;>
      simp only [synthesisLeft, less_iff, List.countP_cons, Task.isBlock, Task.isClause,
        Task.sizes_cons, Task.size, Bool.false_eq_true, if_false, if_true,
        true_and] <;>
      omega
  · simp only [synthesisLeft, less_iff, true_and]
    omega

/-- The frames that the shaper still gives use up the frames and the markers in it. -/
theorem size_next {shaper next : Frame.Shaper} {frames rest : List Frame} {f : Frame}
    (pause : Option Float32) (h : shaper.next frames = (some f, next, rest)) :
    (Task.stream pause next rest).size + 4 ≤ (Task.stream pause shaper frames).size := by
  have hone (o : Option Frame) : o.toList.length ≤ 1 := by cases o <;> simp
  have hmark (o : Option Marker) : o.toList.length ≤ 1 := by cases o <;> simp
  cases hs : shaper.spilled with
  | some g =>
    simp only [Frame.Shaper.next, hs, Prod.mk.injEq] at h
    obtain ⟨-, rfl, rfl⟩ := h
    simp only [Task.size, hs, Option.toList_none, Option.toList_some, List.length_nil,
      List.length_singleton]
    omega
  | none =>
    cases frames with
    | cons g rest' =>
      simp only [Frame.Shaper.next, hs, Prod.mk.injEq] at h
      obtain ⟨-, rfl, rfl⟩ := h
      have h₁ := hone (shaper.shape g).2.spilled
      have h₂ := hmark (shaper.shape g).2.held
      simp only [Task.size, List.length_cons]
      omega
    | nil =>
      simp only [Frame.Shaper.next, hs, Frame.Shaper.finish, Prod.mk.injEq] at h
      cases hm : shaper.held with
      | none => simp [hm] at h
      | some m =>
        simp only [hm] at h
        split at h
        · simp at h
        · obtain ⟨-, rfl, rfl⟩ := h
          simp [Task.size, hm]

theorem carryOut_left_less {p : Progress} {task : Task} {tasks : List Task} :
    Less (s.carryOut rig p task tasks).synthesisLeft
      (s.jobs.jobs.length, (task :: tasks).countP Task.isBlock,
        (task :: tasks).countP Task.isClause, Task.sizes (task :: tasks) + 2) := by
  simp only [List.countP_cons, Task.sizes_cons]
  cases task with
  | block b =>
    simp only [carryOut]
    split
    · simp only [synthesisLeft, less_iff, List.countP_append, countP_isBlock_ofMarkers,
        countP_isBlock_clauses, Task.isBlock, if_true, true_and]
      omega
    · simp only [synthesisLeft, less_iff, Task.isBlock, if_true, true_and]
      omega
  | clause prosody c =>
    simp only [carryOut]
    split <;>
      simp only [synthesisLeft, less_iff, List.countP_cons, Task.isBlock, Task.isClause,
        Bool.false_eq_true, if_false, if_true, true_and] <;>
      omega
  | stream pause shaper frames =>
    simp only [carryOut, Task.isBlock, Task.isClause, Bool.false_eq_true, if_false]
    split
    · rename_i f next rest h
      have hsize := size_next pause h
      have hput := put_left_less (s := s)
        { p with pulled := p.pulled + (frames.length - rest.length) } f
        (.stream pause next rest :: tasks)
        (n := (Task.stream pause shaper frames).size + Task.sizes tasks + 2)
        (by simp only [Task.sizes_cons]; omega)
      simpa only [List.countP_cons, Task.isBlock, Task.isClause, Bool.false_eq_true, if_false,
        Nat.add_zero] using hput
    · rename_i next _ _
      have hsum := sizes_afterStream next.seenVoiced pause
      simp only [synthesisLeft, less_iff, List.countP_append, countP_isBlock_afterStream,
        countP_isClause_afterStream, Task.sizes_append, Task.size, true_and]
      omega
  | marker m first =>
    simp only [carryOut, Task.isBlock, Task.isClause, Bool.false_eq_true, if_false, Task.size]
    exact put_left_less _ _ _ (by omega)
  | frame f =>
    simp only [carryOut, Task.isBlock, Task.isClause, Bool.false_eq_true, if_false, Task.size]
    exact put_left_less _ _ _ (by omega)
  | kick =>
    simp only [carryOut]
    split <;>
      simp only [synthesisLeft, less_iff, List.countP_cons, Task.sizes_cons,
        Task.isBlock, Task.isClause, Task.size, Bool.false_eq_true, if_false, true_and] <;>
      omega
  | _ =>
    simp only [carryOut, synthesisLeft, less_iff, Task.isBlock, Task.isClause, Task.size,
      Bool.false_eq_true, if_false, true_and]
    omega

/-- Synthesis ends unless jobs are added. -/
theorem synthesisLeft_less (h : s.synthesize? rig = some t) :
    Less t.synthesisLeft s.synthesisLeft := by
  unfold synthesize? at h
  split at h
  · rename_i hs
    split at h
    · rename_i job jobs hj
      obtain rfl := Option.some.inj h
      simp only [synthesisLeft, hs, less_iff, JobQueue.jobs_of_pop hj, List.length_cons]
      omega
    · simp at h
    · obtain rfl := Option.some.inj h
      simp only [synthesisLeft, hs, less_iff, true_and]
      omega
  · rename_i job hs
    obtain rfl := Option.some.inj h
    simp only [begin]
    split <;>
      simp only [synthesisLeft, hs, less_iff, true_and] <;>
      omega
  · rename_i hs
    obtain rfl := Option.some.inj h
    simp only [synthesisLeft, hs, less_iff, List.countP_nil, Task.sizes_nil, true_and]
    omega
  · rename_i p task tasks hs
    split at h
    · simp at h
    · obtain rfl := Option.some.inj h
      simpa only [synthesisLeft, hs] using carryOut_left_less (s := s)
  · simp at h

/-- Less at the first place where two counts differ. -/
abbrev Fewer : Nat × Nat × Nat → Nat × Nat × Nat → Prop :=
  Prod.Lex (· < ·) (Prod.Lex (· < ·) (· < ·))

theorem fewer_iff {a b c a' b' c' : Nat} :
    Fewer (a, b, c) (a', b', c') ↔ a < a' ∨ a = a' ∧ (b < b' ∨ b = b' ∧ c < c') := by
  simp [Prod.lex_def]

theorem playbackLeft_makeCall (h : s.held.isEmpty = false) :
    Fewer s.makeCall.playbackLeft s.playbackLeft := by
  unfold makeCall
  cases hc : s.held with
  | nil => simp [hc] at h
  | cons c rest =>
    simp only
    have hc' : s.slot.output = c :: rest := hc
    simp only [answer, playbackLeft, report, hold, held, hc', fewer_iff, List.length_cons,
      true_and]
    omega

theorem held_refresh_length (rig : Rig) (s : Session) :
    (s.refresh rig).held.length ≤ s.held.length := by
  refine Output.Slot.output_refresh (P := fun (calls : Device) => calls.length ≤ s.held.length)
    (Nat.le_refl _) fun name rate output h => ?_
  unfold Rig.openDevice at h
  cases hf : rig.factory s.opens name rate with
  | error fault => simp [hf, Except.map] at h
  | ok _ =>
    obtain rfl : [] = output := by simpa [hf, Except.map] using h
    simp

/-- Playback ends unless signals or frames are added. -/
theorem playbackLeft_fewer (h : s.play? rig = some t) :
    Fewer t.playbackLeft s.playbackLeft := by
  unfold play? at h
  split at h
  · rename_i hp
    split at h
    · rename_i x rest hd
      obtain rfl := Option.some.inj h
      cases x <;>
        simp only [receive, playbackLeft, held, hd, List.length_cons, fewer_iff] <;>
        omega
    · rename_i x rest hd hx
      obtain rfl := Option.some.inj h
      cases x <;>
        simp only [receive, playbackLeft, held, hx, List.length_cons, fewer_iff] <;>
        omega
    · simp at h
  · rename_i hp
    split at h
    · simp at h
    · obtain rfl := Option.some.inj h
      simp only [takeUp]
      split <;> simp only [playbackLeft, hp, held, Player.rank, fewer_iff, true_and] <;> omega
  · rename_i stamp hp
    obtain rfl := Option.some.inj h
    have hh := held_refresh_length rig s
    simp only [held, refresh, report] at hh
    simp only [playbackLeft, hp, held, refresh, report, Player.rank, fewer_iff, true_and]
    omega
  · rename_i hp
    obtain rfl := Option.some.inj h
    split <;> simp only [playbackLeft, hp, held, Player.rank, fewer_iff, true_and] <;> omega
  · rename_i stamp hp
    obtain rfl := Option.some.inj h
    simp only [render]
    split
    · rename_i hc
      have hr := Frame.Queue.remaining_render_lt rig.chunk_pos (by simpa using hc)
      simp only [playbackLeft, fewer_iff, true_and]
      omega
    · have hr := s.frames.remaining_render_le rig.chunk
      split <;> simp only [playbackLeft, hp, held, Player.rank, fewer_iff, true_and] <;> omega
  · rename_i stamp chunk hp
    split at h
    · simp at h
    · split at h
      · rename_i hm
        obtain rfl := Option.some.inj h
        refine playbackLeft_makeCall ?_
        simp only [makesRoom, Bool.and_eq_true, Bool.not_eq_true'] at hm
        exact hm.2
      · obtain rfl := Option.some.inj h
        simp only [feed]
        split
        · simp only [playbackLeft, hp, held, hold, report, fewer_iff, true_and]
          cases chunk.finished <;> cases rig.feedFails s.feeds <;>
            cases chunk.markers.isEmpty <;> simp [Player.rank] <;> omega
        · simp only [playbackLeft, hp, held, Player.rank, fewer_iff, true_and]
          omega
  · rename_i hp
    obtain rfl := Option.some.inj h
    split <;> simp only [playbackLeft, hp, held, Player.rank, fewer_iff, true_and] <;> omega
  · rename_i stamp hp
    split at h
    · rename_i x rest hx
      obtain rfl := Option.some.inj h
      cases x <;>
        simp only [poll, playbackLeft, held, hx, List.length_cons, List.length_append,
          List.length_nil, fewer_iff] <;>
        omega
    · simp at h
  · rename_i hp
    obtain rfl := Option.some.inj h
    simp only [idle, report]
    split <;> simp only [playbackLeft, hp, held, Player.rank, fewer_iff, true_and] <;> omega
  · rename_i hp
    split at h
    · obtain rfl := Option.some.inj h
      simp only [playbackLeft, hp, held, Player.rank, fewer_iff, true_and]
      omega
    · split at h
      · simp at h
      · rename_i hh _
        obtain rfl := Option.some.inj h
        exact playbackLeft_makeCall (by simpa using hh)
  · rename_i hp
    split at h
    · simp at h
    · obtain rfl := Option.some.inj h
      simp only [conclude]
      split <;>
        simp only [playbackLeft, hp, held, report, Player.rank, fewer_iff, true_and] <;>
        omega
  · simp at h

end Session

end Elocution.Speech
