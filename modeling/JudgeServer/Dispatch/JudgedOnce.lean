import JudgeServer.Dispatch.OwnRequest
import Mathlib.Data.List.Perm.Subperm

/-!
# Judged exactly once

What a run of the pool does with the tasks it accepts, read off the account of
`TaskFlow`, for the ids off `RecordOwners`, and for the requests off `OwnRequest`.
-/

namespace JudgeServer.Dispatch

open JudgeServer.Common
open JudgeServer.Pipeline
open JudgeServer.Lib.Interleave

variable {cfg : CleanupConfig} {n : Nat} {γ : Type} [DecidableEq γ]

/-- Once shut down the queue stays shut down and accepts nothing. -/
theorem serve_shutdown {o : PoolCall n γ} {e : PoolInput} {s s' : Pool n γ} {r : o.Reply}
    (h : s.serve cfg e o = some (r, s')) (hd : s.queue.shutdown = true) :
    s'.queue.shutdown = true ∧ s'.accepted = s.accepted := by
  cases o with
  | push c t =>
    obtain ⟨_, hopen, _⟩ | ⟨_, _, rfl⟩ := push_effect h
    · rw [hd] at hopen
      cases hopen
    · exact ⟨hd, rfl⟩
  | pop w => obtain ⟨_, _, rfl⟩ | ⟨t, rest, _, _, rfl⟩ := pop_effect h <;> exact ⟨hd, rfl⟩
  | submitted c id result =>
    rw [submitted_effect h]
    exact ⟨hd, rfl⟩
  | join w =>
    simp only [Pool.serve] at h
    split at h
    · cases h
      exact ⟨hd, rfl⟩
    · cases h
  | shutdownQueue =>
    cases h
    exact ⟨rfl, rfl⟩
  | _ =>
    cases h
    exact ⟨hd, rfl⟩

/-- A caller pushes only what its commands submit. -/
def PushesFrom (commands : γ → List Command) : PoolThread n γ → PoolCall n γ → Prop
  | .caller c, .push _ t => .submitAsync t.request t.replyChannelId ∈ commands c
  | .worker _, .push _ _ => False
  | _, _ => True

omit [DecidableEq γ] in
theorem pushesFrom_of_ofShutdown {commands : γ → List Command} {c : γ} {o : PoolCall n γ}
    (h : o.ofShutdown = true) : PushesFrom commands (.caller c) o := by
  cases o <;> trivial

theorem runCommand_pushes {commands : γ → List Command} {c : γ} {command : Command}
    (h : command ∈ commands c) :
    (runCommand c command : Prog (poolMachine cfg n γ) Unit).Uses
      (PushesFrom commands (.caller c)) := by
  cases command with
  | submitAsync request channel =>
    refine Prog.Uses.bind (.op_bind trivial fun id => ?_) fun _ => trivial
    split
    · exact ⟨trivial, fun _ => trivial⟩
    · exact ⟨h, fun _ => ⟨trivial, fun _ => trivial⟩⟩
  | query id => exact ⟨trivial, fun _ => trivial⟩
  | _ => exact (shutdownCommand_uses c rfl).mono fun _ => pushesFrom_of_ofShutdown

theorem runCommands_pushes {commands : γ → List Command} {c : γ} (l : List Command)
    (h : ∀ command ∈ l, command ∈ commands c) :
    (runCommands c l : Prog (poolMachine cfg n γ) Turn).Uses (PushesFrom commands (.caller c)) := by
  induction l with
  | nil => trivial
  | cons command rest ih =>
    refine (runCommand_pushes (h command List.mem_cons_self)).bind fun _ => ?_
    exact ih fun x hx => h x (List.mem_cons_of_mem _ hx)

omit [DecidableEq γ] in
theorem pushesFrom_of_fromWorker {commands : γ → List Command} {w : Fin n} {o : PoolCall n γ}
    (h : o.fromWorker = true) : PushesFrom commands (.worker w) o := by
  cases o <;> trivial

theorem threadBody_pushes (notifier : Bool) (env : Nat → JudgeEnv) (commands : γ → List Command)
    (t : PoolThread n γ) :
    (threadBody cfg n γ notifier env commands t).Uses (PushesFrom commands t) := by
  cases t with
  | worker w => exact (workerTurn_uses notifier env w).mono fun _ => pushesFrom_of_fromWorker
  | caller c => exact runCommands_pushes (commands c) fun _ h => h

/-- Every accepted task was submitted by some command. -/
def FromCommands (commands : γ → List Command) (s : Pool n γ) : Prop :=
  ∀ t ∈ s.accepted, ∃ c, Command.submitAsync t.request t.replyChannelId ∈ commands c

theorem FromCommands.serve {commands : γ → List Command} {o : PoolCall n γ} {e : PoolInput}
    {s s' : Pool n γ} {r : o.Reply} (h : FromCommands commands s) {t : PoolThread n γ}
    (ho : PushesFrom commands t o) (hs : s.serve cfg e o = some (r, s')) :
    FromCommands commands s' := by
  cases o with
  | push c task =>
    obtain ⟨_, _, rfl⟩ | ⟨_, _, rfl⟩ := push_effect hs
    · intro x hx
      rw [List.mem_append, List.mem_singleton] at hx
      obtain hx | rfl := hx
      · exact h x hx
      · cases t with
        | caller a => exact ⟨a, ho⟩
        | worker w => exact ho.elim
    · exact h
  | pop w => obtain ⟨_, _, rfl⟩ | ⟨t, rest, _, _, rfl⟩ := pop_effect hs <;> exact h
  | submitted c id result =>
    rw [submitted_effect hs]
    exact h
  | join w =>
    simp only [Pool.serve] at hs
    split at hs
    · cases hs
      exact h
    · cases hs
  | _ =>
    cases hs
    exact h

section Runs

variable {notifier : Bool} {env : Nat → JudgeEnv} {commands : γ → List Command}
  {store : TracedStore} {c : PoolConfig cfg n γ}

theorem fromCommands_of_reach (hr : Reach (nextTurn cfg n γ notifier env commands) anyStep
      (poolStart cfg n γ notifier env commands store) c) : FromCommands commands c.shared := by
  refine hr.invariant (FromCommands commands) (fun t ht => absurd ht List.not_mem_nil) ?_
  intro c t e o k r s' hc _ hk hexec h
  have huses := hc.uses (threadBody_pushes notifier env commands) (fun t a p hp => by
    cases a with
    | done => cases hp
    | again =>
      cases hp
      exact threadBody_pushes notifier env commands t) t
  rw [hk] at huses
  exact h.serve huses.1 (exec_serve hexec).1

end Runs

section Account

omit [DecidableEq γ]

variable {s : Pool n γ}

theorem Flow.popped_subperm (h : Flow s) : s.popped.Subperm s.accepted := by
  rw [h.order]
  exact (List.sublist_append_left _ _).subperm

theorem Flow.called_subperm (h : Flow s) : s.called.Subperm s.accepted := by
  refine List.Subperm.trans ?_ h.popped_subperm
  rw [List.subperm_iff_count]
  intro t
  have hcount := h.fetched t
  omega

theorem Flow.processed_subperm (h : Flow s) : s.processed.Subperm s.called := by
  rw [List.subperm_iff_count]
  intro t
  have hcount := h.judging t
  omega

theorem Flow.finished_subperm (h : Flow s) : s.finished.Subperm s.processed := by
  rw [List.subperm_iff_count]
  intro t
  have hcount := h.judged t
  omega

/-- Nobody is in a stage that a resting worker cannot be in. -/
theorem inStage_of_resting (hrest : ∀ w, (s.stage w).resting = true) {g : Stage}
    (hg : g.resting = false) : s.inStage g = 0 := by
  unfold Pool.inStage
  apply Finset.sum_eq_zero
  intro w _
  rw [if_neg]
  intro heq
  have hw := hrest w
  rw [heq, hg] at hw
  cases hw

/-- When the last worker has left its loop, what was accepted has been processed. -/
theorem Flow.all_processed (h : Flow s) (hn : 0 < n) (hleft : ∀ w, s.left w = true) :
    s.processed.Perm s.accepted := by
  have hempty : s.queue.queue = [] := (h.out ⟨0, hn⟩ (hleft _)).1.2
  rw [h.order, hempty, List.append_nil, List.perm_iff_count]
  intro t
  have hrest : ∀ w, (s.stage w).resting = true := fun w => (h.out w (hleft w)).2
  have hfetched := h.fetched t
  have hjudging := h.judging t
  rw [inStage_of_resting hrest rfl] at hfetched hjudging
  omega

/-- A part of the accepted tasks has no id twice. -/
theorem Owned.nodup_ids (h : Owned s) {l : List SubmissionTask} (hl : l.Subperm s.accepted) :
    (l.map (·.submissionId)).Nodup := by
  obtain ⟨l', hperm, hsub⟩ := List.subperm_iff.mp hl
  exact ((hperm.map _).nodup_iff.mpr h.distinct).sublist (hsub.map _)

end Account

section Once

variable {notifier : Bool} {env : Nat → JudgeEnv} {commands : γ → List Command}
  {retention capacity : Option Int} {c : PoolConfig cfg n γ}

/-- Each accepted task is popped once and in order, given to `processSubmission` as it was
submitted and at most once, and reported at most once; when the workers are gone, every
one of them has been processed. As long as the id counter has not run through the positive
integers, the ids are distinct, and the snapshots of a task that was popped are what
`processSubmission` stores for its own id and request: a beginning of it, and all of it once
the task has been processed. -/
theorem tasks_judged_once (hn : 0 < n)
    (hr : Reach (nextTurn cfg n γ notifier env commands) anyStep
      (poolStart cfg n γ notifier env commands (TracedStore.start retention capacity)) c) :
    c.shared.accepted = c.shared.popped ++ c.shared.queue.queue ∧
    (∀ t e c', step (nextTurn cfg n γ notifier env commands) c t e = some c' →
      c.shared.queue.shutdown = true →
      c'.shared.queue.shutdown = true ∧ c'.shared.accepted = c.shared.accepted) ∧
    (∀ w e s', Pool.exec cfg (.pop w) e c.shared = some (none, s') →
      c.shared.queue.shutdown = true ∧ c.shared.queue.queue = []) ∧
    c.shared.called.Subperm c.shared.accepted ∧
    (∀ t ∈ c.shared.accepted, ∃ a, Command.submitAsync t.request t.replyChannelId ∈ commands a) ∧
    c.shared.finished.Subperm c.shared.processed ∧ c.shared.processed.Subperm c.shared.called ∧
    (c.shared.bounded → (c.shared.called.map (·.submissionId)).Nodup ∧
      (c.shared.finished.map (·.submissionId)).Nodup ∧ Told cfg env c.shared) ∧
    ((∀ w, c.shared.left w = true) → c.shared.processed.Perm c.shared.accepted) := by
  have hflow := flow_of_reach hr
  refine ⟨hflow.order, ?_, ?_, hflow.called_subperm, fromCommands_of_reach hr,
    hflow.finished_subperm, hflow.processed_subperm, ?_, hflow.all_processed hn⟩
  · intro t e c' hstep hd
    rcases step_cases hstep with ⟨_, _, _, _, rfl⟩ | ⟨o, k, r, s', _, hexec, rfl⟩
    · exact ⟨hd, rfl⟩
    · exact serve_shutdown (exec_serve hexec).1 hd
  · intro w e s' hexec
    obtain ⟨_, hdrained, _⟩ | ⟨t, rest, hsome, _, _⟩ := pop_effect (exec_serve hexec).1
    · exact hdrained
    · cases hsome
  · intro hb
    have hreach := reach_bounded hr hb
    have howned := owned_of_bounded hreach
    refine ⟨howned.nodup_ids hflow.called_subperm, howned.nodup_ids ?_, told_of_bounded hreach⟩
    exact (hflow.finished_subperm.trans hflow.processed_subperm).trans hflow.called_subperm

end Once

section Sample

/-- One worker with a notifier; every submission meets a problem with one case. -/
abbrev sampleTurn (commands : Unit → List Command) :
    PoolThread 1 Unit → Turn → Option (Prog (poolMachine {} 1 Unit) Turn) :=
  nextTurn {} 1 Unit true (fun _ => sampleEnv 1 5) commands

abbrev samplePool (commands : Unit → List Command) : PoolConfig {} 1 Unit :=
  poolStart {} 1 Unit true (fun _ => sampleEnv 1 5) commands (.start none none)

/-- One caller that submits and then shuts the queue down. -/
def submitThenShut (_ : Unit) : List Command :=
  [.submitAsync sampleRequest (ascii "0:1"), .shutdownQueue]

/-- The caller alone, so many calls. -/
def callerSchedule (steps : Nat) : List (PoolThread 1 Unit × PoolInput) :=
  (List.replicate steps (PoolThread.caller ())).map fun t => (t, { store := ⟨0, 0, .stable⟩ })

def sampleTask : SubmissionTask := ⟨1, sampleRequest, ascii "0:1"⟩

/-- The caller's four calls, then the worker until it leaves its loop. -/
def submitThenShutSchedule : List (PoolThread 1 Unit × PoolInput) :=
  (List.replicate 4 (PoolThread.caller ()) ++ List.replicate 15 (PoolThread.worker 0)).map fun t =>
    (t, { store := ⟨0, 0, .stable⟩ })

/-- What the theorem says when the pool has been drained. -/
theorem one_task_judged_once :
    ∃ c, Reach (sampleTurn submitThenShut) anyStep (samplePool submitThenShut) c ∧
      c.shared.finished = [sampleTask] ∧ c.shared.called = [sampleTask] ∧
      (c.shared.called.map (·.submissionId)).Nodup ∧
      c.shared.processed.Perm c.shared.accepted := by
  have hrun : (run (sampleTurn submitThenShut) (samplePool submitThenShut)
      submitThenShutSchedule).map (fun c => decide (c.shared.finished = [sampleTask] ∧
        c.shared.called = [sampleTask] ∧ creations c.shared.store.history < 2 ^ 31 - 1 ∧
        ∀ w, c.shared.left w = true)) = some true := by decide +kernel
  obtain ⟨c, hc, hobs⟩ := Option.map_eq_some_iff.mp hrun
  obtain ⟨hfinished, hcalled, hbounded, hleft⟩ := of_decide_eq_true hobs
  have hr := reach_of_run hc
  obtain ⟨_, _, _, _, _, _, _, hids, hall⟩ := tasks_judged_once (by decide) hr
  exact ⟨c, hr, hfinished, hcalled, (hids hbounded).1, hall hleft⟩

end Sample

end JudgeServer.Dispatch
