import JudgeServer.Common.SubmissionTypes

/-!
# The submission queue

`dispatch/SubmissionTask.h` and `dispatch/SubmissionQueue.cpp`: a queue that refuses
new tasks once it is shut down and hands out what it still holds.
-/

namespace JudgeServer.Dispatch

open JudgeServer.Common

structure SubmissionTask where
  submissionId : Int := -1
  request : SubmissionRequest
  replyChannelId : Bytes
  deriving DecidableEq, Repr

structure SubmissionQueue (α : Type) where
  queue : List α := []
  shutdown : Bool := false

namespace SubmissionQueue

variable {α : Type}

def push (q : SubmissionQueue α) (task : α) : Bool × SubmissionQueue α :=
  if q.shutdown then (false, q) else (true, { q with queue := q.queue ++ [task] })

/-- The waiting `pop`: `none` while the call blocks, `some none` once the queue is
shut down and empty. -/
def pop (q : SubmissionQueue α) : Option (Option α × SubmissionQueue α) :=
  match q.queue with
  | task :: rest => some (some task, { q with queue := rest })
  | [] => if q.shutdown then some (none, q) else none

def close (q : SubmissionQueue α) : SubmissionQueue α := { q with shutdown := true }

variable {q q' : SubmissionQueue α} {task : α} {rest : List α}

theorem push_open (h : q.shutdown = false) (task : α) :
    q.push task = (true, { q with queue := q.queue ++ [task] }) := by
  simp [push, h]

theorem push_closed (h : q.shutdown = true) (task : α) : q.push task = (false, q) := by
  simp [push, h]

theorem pop_front (h : q.queue = task :: rest) :
    q.pop = some (some task, { q with queue := rest }) := by
  simp [pop, h]

theorem pop_closed (hq : q.queue = []) (h : q.shutdown = true) : q.pop = some (none, q) := by
  simp [pop, hq, h]

theorem pop_waits (hq : q.queue = []) (h : q.shutdown = false) : q.pop = none := by
  simp [pop, hq, h]

/-- A task is taken, or the queue is empty and shut down. -/
theorem pop_cases {r : Option α} (h : q.pop = some (r, q')) :
    (r = none ∧ q.queue = [] ∧ q.shutdown = true ∧ q' = q) ∨
    ∃ taken rest, r = some taken ∧ q.queue = taken :: rest ∧ q' = { q with queue := rest } := by
  cases hq : q.queue with
  | nil =>
    cases hd : q.shutdown with
    | false =>
      rw [pop_waits hq hd] at h
      cases h
    | true =>
      rw [pop_closed hq hd] at h
      cases h
      exact .inl ⟨rfl, rfl, rfl, rfl⟩
  | cons taken rest =>
    rw [pop_front hq] at h
    cases h
    exact .inr ⟨taken, rest, rfl, rfl, rfl⟩

end SubmissionQueue
end JudgeServer.Dispatch
