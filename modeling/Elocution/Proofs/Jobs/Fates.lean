import Mathlib
import Elocution.Speech.Jobs

/-!
# What becomes of jobs

Jobs are numbered in the order in which they are pushed. They leave the queue in this order, so
that the number of jobs gone tells which one leaves next: a pop takes one, a drain all that are
left. What is pushed after the queue has been closed never enters it.
-/

namespace Elocution.Speech

namespace JobQueue

variable {q : JobQueue} {job : Job} {rest : List Job}

theorem push_of_closed (h : q.closed = true) (job : Job) : q.push job = q := if_pos h

theorem push_of_open (h : q.closed = false) (job : Job) :
    q.push job = { q with jobs := q.jobs ++ [job] } := by
  rw [push, h, if_neg Bool.false_ne_true]

theorem pop_of_closed (h : q.closed = true) : q.pop = (.closed, q) := if_pos h

theorem pop_of_nil (h : q.closed = false) (hj : q.jobs = []) : q.pop = (.notYet, q) := by
  rw [pop, h, if_neg Bool.false_ne_true, hj]

theorem pop_of_cons (h : q.closed = false) (hj : q.jobs = job :: rest) :
    q.pop = (.job job, { q with jobs := rest }) := by
  rw [pop, h, if_neg Bool.false_ne_true, hj]

end JobQueue

/-- A queue of jobs, and the counter that they are stamped from. -/
structure Dispatch where
  queue : JobQueue := {}
  generation : Generation := {}

namespace Dispatch

inductive Turn where
  | push (job : Job)
  /-- A pop that has no answer yet is made again when something has changed. -/
  | pop
  | drain
  | close
  | advance
deriving DecidableEq

def Turn.job? : Turn → Option Job
  | .push job => some job
  | _ => none

inductive Answer where
  | nothing
  | popped (p : Popped)
  | dropped (count : Nat)
  | advanced (stamp : Stamp)
deriving DecidableEq

/-- How many jobs leave the queue with this answer. -/
def Answer.gone : Answer → Nat
  | .popped (.job _) => 1
  | .dropped count => count
  | _ => 0

def take (turn : Turn) (d : Dispatch) : Answer × Dispatch :=
  match turn with
  | .push job => (.nothing, { d with queue := d.queue.push job })
  | .pop =>
    let (p, queue) := d.queue.pop
    (.popped p, { d with queue })
  | .drain =>
    let (count, queue) := d.queue.drain
    (.dropped count, { d with queue })
  | .close => (.nothing, { d with queue := d.queue.close })
  | .advance =>
    let (stamp, generation) := d.generation.advance
    (.advanced stamp, { d with generation })

/-- The answers to the turns, and how things stand in the end. -/
def perform : List Turn → Dispatch → List Answer × Dispatch
  | [], d => ([], d)
  | turn :: rest, d =>
    let (answer, d) := d.take turn
    let (answers, d) := perform rest d
    (answer :: answers, d)

/-- The answers to the turns, from an empty queue and the first generation on. -/
def answers (turns : List Turn) : List Answer := (perform turns {}).1

def after (turns : List Turn) : Dispatch := (perform turns {}).2

/-- All jobs that are pushed, whether the queue takes them or not. -/
def pushed (turns : List Turn) : List Job := turns.filterMap Turn.job?

/-- How many jobs the first `k` turns have taken out of the queue. -/
def gone (turns : List Turn) (k : Nat) : Nat := (((answers turns).take k).map Answer.gone).sum

/-- What may become of a job, and at which turn. -/
inductive Fate where
  | popped (k : Nat)
  | dropped (k : Nat)
  | queued
  | refused
deriving DecidableEq

/-- What becomes of the job with the number `n`, counted from zero: a pop is answered with it, or
a drain counts it, or it is in the queue after all turns, or it was pushed after the closing. -/
def Meets (turns : List Turn) (n : Nat) : Fate → Prop
  | .popped k => gone turns k = n ∧
      ∃ job, (pushed turns)[n]? = some job ∧ (answers turns)[k]? = some (.popped (.job job))
  | .dropped k => ∃ count, (answers turns)[k]? = some (.dropped count) ∧
      gone turns k ≤ n ∧ n < gone turns k + count
  | .queued => ∃ i job, gone turns turns.length + i = n ∧
      (pushed turns)[n]? = some job ∧ (after turns).queue.jobs[i]? = some job
  | .refused => ∃ before job, before ++ [.push job] <+: turns ∧ (pushed before).length = n ∧
      .close ∈ before

variable {turns before since : List Turn} {turn : Turn} {answer : Answer} {job : Job}
  {n m k l : Nat} {fate other : Fate}

theorem Answer.cases_of_gone (h : 0 < answer.gone) :
    (∃ job, answer = .popped (.job job)) ∨ answer = .dropped answer.gone := by
  cases answer with
  | nothing => cases h
  | popped p =>
    cases p with
    | job job => exact .inl ⟨job, rfl⟩
    | notYet => cases h
    | closed => cases h
  | dropped count => exact .inr rfl
  | advanced stamp => cases h

/-! ## One turn more -/

theorem perform_append (turns later : List Turn) (d : Dispatch) :
    perform (turns ++ later) d =
      ((perform turns d).1 ++ (perform later (perform turns d).2).1,
        (perform later (perform turns d).2).2) := by
  induction turns generalizing d with
  | nil => rfl
  | cons turn rest ih => simp only [List.cons_append, perform, ih]

theorem after_concat (turns : List Turn) (turn : Turn) :
    after (turns ++ [turn]) = ((after turns).take turn).2 := by
  rw [after, perform_append]
  rfl

theorem answers_concat (turns : List Turn) (turn : Turn) :
    answers (turns ++ [turn]) = answers turns ++ [((after turns).take turn).1] := by
  rw [answers, perform_append]
  rfl

theorem pushed_concat (turns : List Turn) (turn : Turn) :
    pushed (turns ++ [turn]) = pushed turns ++ turn.job?.toList := by
  rw [pushed, List.filterMap_append]
  cases turn <;> rfl

theorem length_answers (turns : List Turn) : (answers turns).length = turns.length := by
  induction turns using List.reverseRecOn with
  | nil => rfl
  | append_singleton turns turn ih =>
    rw [answers_concat, List.length_append, List.length_append, ih]
    rfl

theorem lt_length_of_answer (h : (answers turns)[k]? = some answer) : k < turns.length := by
  rw [← length_answers]
  exact (List.getElem?_eq_some_iff.mp h).1

theorem getElem?_answers_length (turns : List Turn) (turn : Turn) :
    (answers (turns ++ [turn]))[turns.length]? = some ((after turns).take turn).1 := by
  rw [answers_concat, ← length_answers turns]
  exact List.getElem?_concat_length

theorem getElem?_append_of_some {α : Type} {front : List α} {x : α} (h : front[n]? = some x)
    (back : List α) : (front ++ back)[n]? = some x := by
  rw [List.getElem?_append_left]
  · exact h
  · exact (List.getElem?_eq_some_iff.mp h).1

theorem answer_concat (h : (answers turns)[k]? = some answer) (turn : Turn) :
    (answers (turns ++ [turn]))[k]? = some answer := by
  rw [answers_concat]
  exact getElem?_append_of_some h _

theorem job_concat (h : (pushed turns)[n]? = some job) (turn : Turn) :
    (pushed (turns ++ [turn]))[n]? = some job := by
  rw [pushed_concat]
  exact getElem?_append_of_some h _

theorem gone_concat (h : k ≤ turns.length) : gone (turns ++ [turn]) k = gone turns k := by
  rw [gone, answers_concat, List.take_append_of_le_length]
  · rfl
  · rwa [length_answers]

theorem gone_succ (h : (answers turns)[k]? = some answer) :
    gone turns (k + 1) = gone turns k + answer.gone := by
  rw [gone, List.take_add_one, h, List.map_append, List.sum_append]
  rfl

theorem gone_length_concat (turns : List Turn) (turn : Turn) :
    gone (turns ++ [turn]) (turns ++ [turn]).length =
      gone turns turns.length + ((after turns).take turn).1.gone := by
  rw [List.length_append, List.length_singleton, gone_succ (getElem?_answers_length turns turn),
    gone_concat (Nat.le_refl _)]

theorem gone_mono (turns : List Turn) (h : k ≤ l) : gone turns k ≤ gone turns l := by
  have hsplit := List.take_append_drop k ((answers turns).take l)
  rw [List.take_take, Nat.min_eq_left h] at hsplit
  rw [gone, gone, ← hsplit, List.map_append, List.sum_append]
  exact Nat.le_add_right ..

theorem closed_after_iff (turns : List Turn) :
    (after turns).queue.closed = true ↔ .close ∈ turns := by
  induction turns using List.reverseRecOn with
  | nil => exact iff_of_false Bool.false_ne_true List.not_mem_nil
  | append_singleton turns turn ih =>
    rw [after_concat, List.mem_append, ← ih, List.mem_singleton]
    cases turn with
    | push job =>
      simp only [take, JobQueue.push]
      split <;> simp
    | pop =>
      simp only [take, JobQueue.pop]
      split
      · simp
      · split <;> simp
    | drain => simp [take, JobQueue.drain]
    | close => simp [take, JobQueue.close]
    | advance => simp [take]

/-! ## What enters and what leaves -/

/-- What a turn brings into the queue. -/
def entering (turn : Turn) (d : Dispatch) : List Job :=
  if d.queue.closed then [] else turn.job?.toList

/-- Jobs enter behind those that are queued, and leave from the front. -/
structure Moves (d : Dispatch) (turn : Turn) (left : List Job) : Prop where
  jobs : d.queue.jobs ++ d.entering turn = left ++ (d.take turn).2.queue.jobs
  length_left : left.length = (d.take turn).1.gone
  popped : ∀ job, (d.take turn).1 = .popped (.job job) → left = [job]

theorem entering_of_job?_eq_none (d : Dispatch) (h : turn.job? = none) : d.entering turn = [] := by
  rw [entering, h]
  exact ite_self []

theorem moves_nil {d : Dispatch} (he : d.entering turn = [])
    (hjobs : (d.take turn).2.queue.jobs = d.queue.jobs) (hgone : (d.take turn).1.gone = 0) :
    d.Moves turn [] := by
  refine ⟨?_, hgone.symm, ?_⟩
  · rw [he, hjobs, List.append_nil, List.nil_append]
  · intro job h
    rw [h] at hgone
    cases hgone

theorem exists_moves (d : Dispatch) (turn : Turn) : ∃ left, d.Moves turn left := by
  cases turn with
  | push job =>
    cases hc : d.queue.closed with
    | true =>
      have hqueue : d.queue.push job = d.queue := JobQueue.push_of_closed hc job
      exact ⟨[], moves_nil (if_pos hc) (congrArg JobQueue.jobs hqueue) rfl⟩
    | false =>
      refine ⟨[], ?_, rfl, nofun⟩
      rw [entering, hc, take, JobQueue.push_of_open hc]
      rfl
  | pop =>
    have he : d.entering .pop = [] := d.entering_of_job?_eq_none rfl
    cases hc : d.queue.closed with
    | true =>
      have htake : d.take .pop = (.popped .closed, d) := by rw [take, JobQueue.pop_of_closed hc]
      exact ⟨[], moves_nil he (by rw [htake]) (by rw [htake]; rfl)⟩
    | false =>
      cases hj : d.queue.jobs with
      | nil =>
        have htake : d.take .pop = (.popped .notYet, d) := by rw [take, JobQueue.pop_of_nil hc hj]
        exact ⟨[], moves_nil he (by rw [htake]) (by rw [htake]; rfl)⟩
      | cons job rest =>
        have htake : d.take .pop =
            (.popped (.job job), { d with queue := { d.queue with jobs := rest } }) := by
          rw [take, JobQueue.pop_of_cons hc hj]
        refine ⟨[job], ?_, ?_, ?_⟩
        · rw [htake, he, List.append_nil, hj]
          rfl
        · rw [htake]
          rfl
        · rw [htake]
          intro other h
          cases h
          rfl
  | drain =>
    refine ⟨d.queue.jobs, ?_, rfl, nofun⟩
    rw [d.entering_of_job?_eq_none rfl]
    rfl
  | close => exact ⟨[], moves_nil (d.entering_of_job?_eq_none rfl) rfl rfl⟩
  | advance => exact ⟨[], moves_nil (d.entering_of_job?_eq_none rfl) rfl rfl⟩

/-- How many jobs have entered the queue. -/
def entered (turns : List Turn) : Nat :=
  gone turns turns.length + (after turns).queue.jobs.length

theorem entered_concat (turns : List Turn) (turn : Turn) :
    entered (turns ++ [turn]) = entered turns + ((after turns).entering turn).length := by
  obtain ⟨left, hm⟩ := exists_moves (after turns) turn
  have hlength := congrArg List.length hm.jobs
  rw [List.length_append, List.length_append] at hlength
  rw [entered, entered, gone_length_concat, after_concat, ← hm.length_left]
  omega

theorem entered_append_of_closed (h : .close ∈ before) (later : List Turn) :
    entered (before ++ later) = entered before := by
  induction later using List.reverseRecOn with
  | nil => rw [List.append_nil]
  | append_singleton later turn ih =>
    have hc := (closed_after_iff (before ++ later)).mpr (List.mem_append_left later h)
    rw [← List.append_assoc, entered_concat, ih, entering, if_pos hc]
    rfl

theorem entered_le (turns : List Turn) : entered turns ≤ (pushed turns).length := by
  induction turns using List.reverseRecOn with
  | nil => exact Nat.le_refl 0
  | append_singleton turns turn ih =>
    have hentering : ((after turns).entering turn).length ≤ turn.job?.toList.length := by
      rw [entering]
      split
      · exact Nat.zero_le _
      · exact Nat.le_refl _
    rw [entered_concat, pushed_concat, List.length_append]
    exact Nat.add_le_add ih hentering

theorem entered_of_open (h : (after turns).queue.closed = false) :
    entered turns = (pushed turns).length := by
  induction turns using List.reverseRecOn with
  | nil => rfl
  | append_singleton turns turn ih =>
    have hopen : (after turns).queue.closed = false := by
      apply Bool.eq_false_iff.mpr
      intro hc
      apply Bool.eq_false_iff.mp h
      rw [closed_after_iff] at hc ⊢
      exact List.mem_append_left [turn] hc
    rw [entered_concat, ih hopen, entering, hopen, if_neg Bool.false_ne_true, pushed_concat,
      List.length_append]

/-! ## Every job has one fate -/

theorem Meets.concat (h : Meets turns n fate) (hf : fate ≠ .queued) (turn : Turn) :
    Meets (turns ++ [turn]) n fate := by
  cases fate with
  | popped k =>
    obtain ⟨hn, job, hjob, hanswer⟩ := h
    refine ⟨?_, job, job_concat hjob turn, answer_concat hanswer turn⟩
    rwa [gone_concat (lt_length_of_answer hanswer).le]
  | dropped k =>
    obtain ⟨count, hanswer, hn⟩ := h
    refine ⟨count, answer_concat hanswer turn, ?_⟩
    rwa [gone_concat (lt_length_of_answer hanswer).le]
  | queued => exact absurd rfl hf
  | refused =>
    obtain ⟨before, job, hbefore, hn⟩ := h
    exact ⟨before, job, hbefore.trans (List.prefix_append ..), hn⟩

/-- A job that is queued leaves with the turn or stays. -/
theorem Meets.exists_concat (h : Meets turns n .queued) (turn : Turn) :
    ∃ fate, Meets (turns ++ [turn]) n fate := by
  obtain ⟨i, job, hn, hjob, hi⟩ := h
  obtain ⟨left, hm⟩ := exists_moves (after turns) turn
  have hplace : (left ++ (after (turns ++ [turn])).queue.jobs)[i]? = some job := by
    rw [after_concat, ← hm.jobs]
    exact getElem?_append_of_some hi _
  have hlength := hm.length_left
  -- The place of the job in the queue tells whether it is among those that leave.
  by_cases hleft : i < left.length
  · rw [List.getElem?_append_left hleft] at hplace
    have hanswer := getElem?_answers_length turns turn
    have hgone : gone (turns ++ [turn]) turns.length = gone turns turns.length :=
      gone_concat (Nat.le_refl _)
    have hpos : 0 < ((after turns).take turn).1.gone := by omega
    rcases Answer.cases_of_gone hpos with ⟨other, hpop⟩ | hdrop
    · rw [hm.popped other hpop] at hplace hleft
      obtain rfl : i = 0 := Nat.lt_one_iff.mp hleft
      obtain rfl : other = job := Option.some.inj hplace
      rw [hpop] at hanswer
      exact ⟨.popped turns.length, hgone.trans hn, other, job_concat hjob turn, hanswer⟩
    · rw [hdrop] at hanswer
      refine ⟨.dropped turns.length, _, hanswer, ?_⟩
      omega
  · rw [List.getElem?_append_right (Nat.le_of_not_lt hleft)] at hplace
    refine ⟨.queued, i - left.length, job, ?_, job_concat hjob turn, hplace⟩
    rw [gone_length_concat]
    omega

/-- A job that has just been pushed is queued, or refused by a closed queue. -/
theorem exists_meets_push (turns : List Turn) (job : Job) :
    ∃ fate, Meets (turns ++ [.push job]) (pushed turns).length fate := by
  cases hc : (after turns).queue.closed with
  | true =>
    exact ⟨.refused, turns, job, List.prefix_rfl, rfl, (closed_after_iff turns).mp hc⟩
  | false =>
    refine ⟨.queued, (after turns).queue.jobs.length, job, ?_, ?_, ?_⟩
    · rw [gone_length_concat, ← entered_of_open hc]
      rfl
    · rw [pushed_concat]
      exact List.getElem?_concat_length
    · rw [after_concat, take, JobQueue.push_of_open hc]
      exact List.getElem?_concat_length

theorem exists_meets (h : n < (pushed turns).length) : ∃ fate, Meets turns n fate := by
  induction turns using List.reverseRecOn with
  | nil => exact absurd h (Nat.not_lt_zero n)
  | append_singleton turns turn ih =>
    -- Only a job that is queued, or has just been pushed, is not settled yet.
    by_cases hn : n < (pushed turns).length
    · obtain ⟨fate, hfate⟩ := ih hn
      by_cases hq : fate = .queued
      · subst hq
        exact hfate.exists_concat turn
      · exact ⟨fate, hfate.concat hq turn⟩
    · rw [pushed_concat, List.length_append] at h
      cases turn with
      | push job =>
        obtain rfl : n = (pushed turns).length := Nat.eq_of_lt_succ_of_not_lt h hn
        exact exists_meets_push turns job
      | pop => exact absurd h hn
      | drain => exact absurd h hn
      | close => exact absurd h hn
      | advance => exact absurd h hn

/-- The turn at which a job leaves the queue. -/
def Fate.exit? : Fate → Option Nat
  | .popped k => some k
  | .dropped k => some k
  | _ => none

theorem Meets.bounds_of_exit (h : Meets turns n fate) (hk : fate.exit? = some k) :
    gone turns k ≤ n ∧ n < gone turns (k + 1) ∧ k < turns.length := by
  cases fate with
  | popped l =>
    obtain rfl : l = k := Option.some.inj hk
    obtain ⟨rfl, job, -, hanswer⟩ := h
    refine ⟨Nat.le_refl _, ?_, lt_length_of_answer hanswer⟩
    rw [gone_succ hanswer]
    exact Nat.lt_succ_self _
  | dropped l =>
    obtain rfl : l = k := Option.some.inj hk
    obtain ⟨count, hanswer, hle, hlt⟩ := h
    refine ⟨hle, ?_, lt_length_of_answer hanswer⟩
    rwa [gone_succ hanswer]
  | queued => cases hk
  | refused => cases hk

theorem Meets.lt_gone_of_exit (h : Meets turns n fate) (hk : fate.exit? = some k) :
    n < gone turns turns.length := by
  obtain ⟨-, hlt, hend⟩ := h.bounds_of_exit hk
  exact hlt.trans_le (gone_mono turns hend)

theorem Meets.bounds_of_queued (h : Meets turns n .queued) :
    gone turns turns.length ≤ n ∧ n < entered turns := by
  obtain ⟨i, job, rfl, -, hi⟩ := h
  refine ⟨Nat.le_add_right .., ?_⟩
  exact Nat.add_lt_add_left (List.getElem?_eq_some_iff.mp hi).1 _

/-- A job that is refused comes after all that have entered the queue. -/
theorem Meets.entered_le_of_refused (h : Meets turns n .refused) :
    entered turns ≤ n ∧ n < (pushed turns).length := by
  obtain ⟨before, job, ⟨later, rfl⟩, rfl, hclosed⟩ := h
  constructor
  · rw [List.append_assoc, entered_append_of_closed hclosed]
    exact entered_le before
  · simp [pushed, Turn.job?]

theorem Meets.lt_length (h : Meets turns n fate) : n < (pushed turns).length := by
  have hgone : gone turns turns.length ≤ entered turns := Nat.le_add_right ..
  have hentered := entered_le turns
  cases fate with
  | popped k => exact (h.lt_gone_of_exit rfl).trans_le (hgone.trans hentered)
  | dropped k => exact (h.lt_gone_of_exit rfl).trans_le (hgone.trans hentered)
  | queued => exact h.bounds_of_queued.2.trans_le hentered
  | refused => exact h.entered_le_of_refused.2

theorem le_of_gone (hk : gone turns k ≤ n) (hl : n < gone turns (l + 1)) : k ≤ l := by
  by_contra hlt
  have hmono : gone turns (l + 1) ≤ gone turns k := gone_mono turns (Nat.lt_of_not_le hlt)
  omega

theorem Meets.exit_eq (h : Meets turns n fate) (hk : fate.exit? = some k)
    (hle : gone turns l ≤ n) (hlt : n < gone turns (l + 1)) : k = l := by
  obtain ⟨hfirst, hlast, -⟩ := h.bounds_of_exit hk
  exact Nat.le_antisymm (le_of_gone hfirst hlt) (le_of_gone hle hlast)

theorem Meets.gone_le_of_no_exit (h : Meets turns n fate) (hk : fate.exit? = none) :
    gone turns turns.length ≤ n := by
  cases fate with
  | popped k => cases hk
  | dropped k => cases hk
  | queued => exact h.bounds_of_queued.1
  | refused => exact (Nat.le_add_right ..).trans h.entered_le_of_refused.1

theorem Meets.exit?_eq (h : Meets turns n fate) (h' : Meets turns n other) :
    fate.exit? = other.exit? := by
  cases hk : fate.exit? with
  | none =>
    cases hl : other.exit? with
    | none => rfl
    | some l => exact absurd (h'.lt_gone_of_exit hl) (Nat.not_lt.mpr (h.gone_le_of_no_exit hk))
  | some k =>
    cases hl : other.exit? with
    | none => exact absurd (h.lt_gone_of_exit hk) (Nat.not_lt.mpr (h'.gone_le_of_no_exit hl))
    | some l =>
      obtain ⟨hle, hlt, -⟩ := h'.bounds_of_exit hl
      rw [h.exit_eq hk hle hlt]

theorem Meets.not_dropped (h : Meets turns n (.popped k)) : ¬ Meets turns n (.dropped k) := by
  intro h'
  obtain ⟨-, job, -, hanswer⟩ := h
  obtain ⟨count, hdropped, -⟩ := h'
  rw [hanswer] at hdropped
  cases hdropped

theorem Meets.not_refused (h : Meets turns n .queued) : ¬ Meets turns n .refused := by
  intro h'
  exact Nat.not_le.mpr h.bounds_of_queued.2 h'.entered_le_of_refused.1

theorem Meets.unique (h : Meets turns n fate) (h' : Meets turns n other) : fate = other := by
  have hexit := h.exit?_eq h'
  cases fate with
  | popped k =>
    cases other with
    | popped l => rw [Option.some.inj hexit]
    | dropped l =>
      obtain rfl : k = l := Option.some.inj hexit
      exact absurd h' h.not_dropped
    | queued => cases hexit
    | refused => cases hexit
  | dropped k =>
    cases other with
    | popped l =>
      obtain rfl : k = l := Option.some.inj hexit
      exact absurd h h'.not_dropped
    | dropped l => rw [Option.some.inj hexit]
    | queued => cases hexit
    | refused => cases hexit
  | queued =>
    cases other with
    | popped l => cases hexit
    | dropped l => cases hexit
    | queued => rfl
    | refused => exact absurd h' h.not_refused
  | refused =>
    cases other with
    | popped l => cases hexit
    | dropped l => cases hexit
    | queued => exact absurd h h'.not_refused
    | refused => rfl

/-- A pop that is answered with a job is answered with the next in line. -/
theorem exists_popped (h : (answers turns)[k]? = some (.popped (.job job))) :
    ∃ n, (pushed turns)[n]? = some job ∧ Meets turns n (.popped k) := by
  have hlt : gone turns k < gone turns (k + 1) := by
    rw [gone_succ h]
    exact Nat.lt_succ_self _
  have hgone : gone turns (k + 1) ≤ gone turns turns.length :=
    gone_mono turns (lt_length_of_answer h)
  have hentered : gone turns turns.length ≤ entered turns := Nat.le_add_right ..
  have hlength : gone turns k < (pushed turns).length :=
    (hlt.trans_le (hgone.trans hentered)).trans_le (entered_le turns)
  obtain ⟨fate, hfate⟩ := exists_meets hlength
  cases fate with
  | popped l =>
    obtain rfl : l = k := hfate.exit_eq rfl (Nat.le_refl _) hlt
    obtain ⟨-, other, hother, hanswer⟩ := id hfate
    obtain rfl : other = job := by
      rw [hanswer] at h
      cases h
      rfl
    exact ⟨gone turns l, hother, hfate⟩
  | dropped l =>
    obtain rfl : l = k := hfate.exit_eq rfl (Nat.le_refl _) hlt
    obtain ⟨count, hanswer, -⟩ := hfate
    rw [hanswer] at h
    cases h
  | queued => exact absurd hfate.bounds_of_queued.1 (by omega)
  | refused => exact absurd hfate.entered_le_of_refused.1 (by omega)

/-- An open queue that holds jobs has one for a pop. -/
theorem exists_popped_of_open (h : .close ∉ turns) (hjobs : (after turns).queue.jobs ≠ []) :
    ∃ n, Meets (turns ++ [.pop]) n (.popped turns.length) := by
  have hopen : (after turns).queue.closed = false := by
    apply Bool.eq_false_iff.mpr
    intro hc
    exact h ((closed_after_iff turns).mp hc)
  obtain ⟨job, rest, hcons⟩ := List.exists_cons_of_ne_nil hjobs
  have hanswer := getElem?_answers_length turns .pop
  rw [take, JobQueue.pop_of_cons hopen hcons] at hanswer
  obtain ⟨n, -, hn⟩ := exists_popped hanswer
  exact ⟨n, hn⟩

theorem not_queued_of_drain (turns : List Turn) (n : Nat) :
    ¬ Meets (turns ++ [.drain]) n .queued := by
  intro h
  obtain ⟨i, job, -, -, hi⟩ := h
  rw [after_concat] at hi
  cases hi

theorem Meets.popped_lt_iff (h : Meets turns n (.popped k)) (h' : Meets turns m (.popped l)) :
    k < l ↔ n < m := by
  obtain ⟨hn, hnext, -⟩ := h.bounds_of_exit rfl
  obtain ⟨rfl, -⟩ := h
  obtain ⟨hm, hlast, -⟩ := h'.bounds_of_exit rfl
  obtain ⟨rfl, -⟩ := h'
  constructor
  · intro hkl
    exact hnext.trans_le (gone_mono turns hkl)
  · intro hnm
    apply Nat.lt_of_le_of_ne (le_of_gone hnm.le hlast)
    rintro rfl
    exact Nat.lt_irrefl _ hnm

/-! ## Generations -/

theorem count_take (turn : Turn) (d : Dispatch) :
    (d.take turn).2.generation.count =
      d.generation.count + UInt64.ofNat ([turn].count .advance) := by
  cases turn with
  | push job => exact (UInt64.add_zero _).symm
  | pop => exact (UInt64.add_zero _).symm
  | drain => exact (UInt64.add_zero _).symm
  | close => exact (UInt64.add_zero _).symm
  | advance => rfl

/-- The counter tells how often it has been advanced, as long as it has not begun again. Until then
it agrees with a session, which counts its generations without end. -/
theorem stamp_after (h : turns.count .advance < 2 ^ 64) :
    (after turns).generation.stamp = turns.count .advance := by
  have hcount : (after turns).generation.count = UInt64.ofNat (turns.count .advance) := by
    clear h
    induction turns using List.reverseRecOn with
    | nil => rfl
    | append_singleton turns turn ih =>
      rw [after_concat, count_take, ih, List.count_append, UInt64.ofNat_add]
  rw [Generation.stamp, hcount, UInt64.toNat_ofNat', Nat.mod_eq_of_lt h]

theorem isCurrent_iff (h : (before ++ since).count .advance < 2 ^ 64) {stamp : Stamp}
    (hstamp : (after before).generation.stamp = stamp) :
    (after (before ++ since)).generation.isCurrent stamp = true ↔ .advance ∉ since := by
  rw [List.count_append] at h
  rw [stamp_after (by omega)] at hstamp
  rw [Generation.isCurrent, beq_iff_eq, stamp_after (by rwa [List.count_append]),
    List.count_append, ← hstamp, Nat.add_eq_left, List.count_eq_zero]

/-- Each job that is pushed is either popped once, or dropped by one drain and counted by it, or
still queued, or was pushed after the queue had been closed and refused; and no other job is popped
or counted. Jobs are popped in the order in which they were pushed; an open queue that holds some
has one for a pop, and a drain leaves none. A closed queue answers all pops without a job and takes
none, whatever is left in it. With fewer than 2⁶⁴ advances, the stamp of a job that is popped is
current just as long as there has been no advance since it was taken. -/
theorem jobs_partitioned (turns : List Turn) (h : turns.count .advance < 2 ^ 64) :
    (∀ n < (pushed turns).length, ∃! fate, Meets turns n fate) ∧
      (∀ n fate, Meets turns n fate → n < (pushed turns).length) ∧
      (∀ n k m l, Meets turns n (.popped k) → Meets turns m (.popped l) → (k < l ↔ n < m)) ∧
      (.close ∉ turns → (after turns).queue.jobs ≠ [] →
        ∃ n, Meets (turns ++ [.pop]) n (.popped turns.length)) ∧
      (∀ n, ¬ Meets (turns ++ [.drain]) n .queued) ∧
      (.close ∈ turns → let q := (after turns).queue
        q.pop = (.closed, q) ∧ ∀ job, q.push job = q) ∧
      ∀ k job, (answers turns)[k]? = some (.popped (.job job)) →
        (∃ n, (pushed turns)[n]? = some job ∧ Meets turns n (.popped k)) ∧
        ∀ asked since, asked ++ since <+: turns →
          (after asked).generation.stamp = job.stamp →
          ((after (asked ++ since)).generation.isCurrent job.stamp = true ↔ .advance ∉ since) := by
  refine ⟨?_, ?_, ?_, exists_popped_of_open, not_queued_of_drain turns, ?_, ?_⟩
  · intro n hn
    obtain ⟨fate, hfate⟩ := exists_meets hn
    exact ⟨fate, hfate, fun other hother => hother.unique hfate⟩
  · intro n fate hfate
    exact hfate.lt_length
  · intro n k m l hn hm
    exact hn.popped_lt_iff hm
  · intro hclose
    have hclosed := (closed_after_iff turns).mpr hclose
    exact ⟨JobQueue.pop_of_closed hclosed, JobQueue.push_of_closed hclosed⟩
  · intro k job hanswer
    refine ⟨exists_popped hanswer, ?_⟩
    intro asked since hasked hstamp
    exact isCurrent_iff ((hasked.sublist.count_le _).trans_lt h) hstamp

/-- Six jobs. One is dropped, one is left behind by the closing and one comes after it; of those
that are popped after the advance, the one stamped before it is stale. -/
theorem jobs_partitioned_stale :
    let job (marker : Marker) (stamp : Stamp) : Job := ⟨.notify [marker], stamp⟩
    let first : List Turn := [.push (job 0 0), .push (job 1 0), .pop, .drain, .advance]
    let second : List Turn := [.push (job 2 1), .push (job 3 0), .push (job 4 1), .pop, .pop,
      .close, .push (job 5 1), .pop]
    let turns := first ++ second
    let d := after turns
    turns.count .advance < 2 ^ 64 ∧ (∀ n < 6, ∃! fate, Meets turns n fate) ∧
      (answers turns)[8]? = some (.popped (.job (job 2 1))) ∧ d.generation.isCurrent 1 = true ∧
      (answers turns)[9]? = some (.popped (.job (job 3 0))) ∧ d.generation.isCurrent 0 = false ∧
      .close ∈ turns ∧ d.queue.jobs = [job 4 1] ∧ d.queue.pop.1 = .closed := by
  intro job first second turns d
  have h : turns.count .advance < 2 ^ 64 := by decide
  have hfresh : (answers turns)[8]? = some (.popped (.job (job 2 1))) := rfl
  have hstale : (answers turns)[9]? = some (.popped (.job (job 3 0))) := rfl
  have hclose : Turn.close ∈ turns := by decide
  obtain ⟨hfates, -, -, -, -, hclosed, hpops⟩ := jobs_partitioned turns h
  refine ⟨h, hfates, hfresh, ?_, hstale, ?_, hclose, rfl, by rw [(hclosed hclose).1]⟩
  · exact ((hpops 8 _ hfresh).2 first second List.prefix_rfl rfl).mpr (by decide)
  · have hcurrent := (hpops 9 _ hstale).2 [] turns List.prefix_rfl rfl
    exact Bool.eq_false_iff.mpr fun hc => hcurrent.mp hc (by decide)

end Dispatch

end Elocution.Speech
