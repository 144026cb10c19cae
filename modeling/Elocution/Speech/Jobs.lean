import Elocution.Block

/-!
# Jobs and generations

Work is stamped with the generation in which it was asked for. Only a cancellation advances the
generation, so one comparison tells stale work from work that is still wanted.
-/

namespace Elocution.Speech

/-- A generation, as work carries it. -/
abbrev Stamp := Nat

inductive JobKind where
  | speak (blocks : List Block)
  /-- Nothing to synthesize: the markers are only reported. -/
  | notify (markers : List Marker)
deriving DecidableEq

structure Job where
  kind : JobKind
  stamp : Stamp
deriving DecidableEq

/-- The counter of generations. It has 64 bits, so that it begins again when it has been advanced
2⁶⁴ times. -/
structure Generation where
  count : UInt64 := 0
deriving DecidableEq

namespace Generation

/-- The stamp of work that is asked for now. -/
def stamp (g : Generation) : Stamp := g.count.toNat

/-- Whether work of that stamp is still wanted. -/
def isCurrent (stamp : Stamp) (g : Generation) : Bool := g.stamp == stamp

/-- Makes stale what has been asked for so far, and gives the stamp of what comes next. -/
def advance (g : Generation) : Stamp × Generation :=
  let next : Generation := { count := g.count + 1 }
  (next.stamp, next)

end Generation

namespace JobKind

/-- Blocks without any text are reported, not spoken. -/
def ofBlocks (blocks : List Block) : JobKind :=
  if blocks.any Block.hasText then .speak blocks else .notify (blocks.flatMap Block.markers)

end JobKind

/-- Jobs in the order of their submission. -/
structure JobQueue where
  jobs : List Job := []
  closed : Bool := false
deriving DecidableEq

/-- The answer to the taking of a job: a queue that is open and empty has none yet. -/
inductive Popped where
  | job (job : Job)
  | notYet
  | closed
deriving DecidableEq

namespace JobQueue

/-- A closed queue takes no jobs. -/
def push (job : Job) (q : JobQueue) : JobQueue :=
  if q.closed then q else { q with jobs := q.jobs ++ [job] }

/-- Removes all jobs and counts them. -/
def drain (q : JobQueue) : Nat × JobQueue := (q.jobs.length, { q with jobs := [] })

def close (q : JobQueue) : JobQueue := { q with closed := true }

/-- Takes the oldest job; a closed queue gives none, even if some are left. -/
def pop (q : JobQueue) : Popped × JobQueue :=
  if q.closed then (.closed, q)
  else
    match q.jobs with
    | [] => (.notYet, q)
    | job :: rest => (.job job, { q with jobs := rest })

theorem jobs_of_pop {q left : JobQueue} {job : Job} (h : q.pop = (.job job, left)) :
    q.jobs = job :: left.jobs := by
  unfold pop at h
  split at h
  · simp at h
  · split at h
    · simp at h
    · rename_i hq
      obtain ⟨rfl, rfl⟩ := by simpa using h
      exact hq

end JobQueue

end Elocution.Speech
