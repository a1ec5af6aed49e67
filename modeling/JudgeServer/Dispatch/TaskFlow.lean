import JudgeServer.Dispatch.WorkerPool
import Mathlib.Algebra.BigOperators.Group.Finset.Basic
import Mathlib.Data.Fintype.BigOperators

/-!
# Every task is judged exactly once

The path of a task: accepted by `push`, taken by one `pop`, given to `processSubmission`
and reported at most once. `Flow` counts the tasks at each station of that path against
the workers between two stations; a worker's own program says at which station it is, and
no other thread moves it.
-/

namespace JudgeServer.Dispatch

open JudgeServer.Common
open JudgeServer.Pipeline
open JudgeServer.Lib.Interleave

variable {cfg : CleanupConfig} {n : Nat} {γ : Type} [DecidableEq γ]

/-- A worker between two tasks. -/
def Stage.resting : Stage → Bool
  | .idle => true
  | .judged _ => true
  | _ => false

/-- The queue is shut down and empty. -/
def Pool.drained (s : Pool n γ) : Prop := s.queue.shutdown = true ∧ s.queue.queue = []

/-- The number of workers in a stage. -/
def Pool.inStage (s : Pool n γ) (g : Stage) : Nat := ∑ w, if s.stage w = g then 1 else 0

structure Flow (s : Pool n γ) : Prop where
  order : s.accepted = s.popped ++ s.queue.queue
  fetched : ∀ t, s.popped.count t = s.called.count t + s.inStage (.fetched t)
  judging : ∀ t, s.called.count t = s.processed.count t + s.inStage (.judging t)
  judged : ∀ t, s.finished.count t + s.inStage (.judged t) ≤ s.processed.count t
  out : ∀ w, s.left w = true → s.drained ∧ (s.stage w).resting = true

/-- The calls of the threads around the pool. -/
def PoolCall.fromCaller : PoolCall n γ → Bool
  | .createSubmission _ _ | .push _ _ | .submitted _ _ _ | .store _ | .shutdownQueue
  | .exchangeStopped | .storeStopped | .joinable _ | .join _ | .destroyWorkers | .returned _ => true
  | _ => false

/-- The station at which a worker makes a call. -/
def AtStation (w : Fin n) (s : Pool n γ) : PoolCall n γ → Prop
  | .pop w' => w' = w ∧ (s.stage w).resting = true ∧ s.left w = false
  | .onSubmissionStarted w' t => w' = w ∧ s.stage w = .fetched t
  | .processSubmission w' t => w' = w ∧ s.stage w = .fetched t
  | .processed w' t => w' = w ∧ s.stage w = .judging t
  | .onSubmissionFinished w' t => w' = w ∧ s.stage w = .judged t
  | .leaveLoop w' => w' = w ∧ (s.stage w).resting = true ∧ s.drained
  | .loadStopped => True
  | .store _ => True
  | _ => False

/-- What the other threads leave to a worker. -/
structure Unmoved (w : Fin n) (s s' : Pool n γ) : Prop where
  stage : s'.stage w = s.stage w
  left : s'.left w = s.left w
  drained : s.drained → s'.drained

/-- Each thread calls from its station. -/
def flowContract (cfg : CleanupConfig) : PoolThread n γ → Contract (poolMachine cfg n γ)
  | .worker w =>
      { allows := fun _ _ _ => True
        rely := fun _ => Unmoved w
        pre := fun o s => AtStation w s o }
  | .caller _ =>
      { allows := fun _ _ _ => True
        rely := fun _ _ _ => True
        pre := fun o _ => o.fromCaller = true }

theorem exec_serve {o : PoolCall n γ} {e : PoolInput} {s s' : Pool n γ} {r : o.Reply}
    (h : Pool.exec cfg o e s = some (r, s')) :
    s.serve cfg e o = some (r, s') ∧ s.terminated = false := by
  unfold Pool.exec at h
  split at h
  · cases h
  · next ht => exact ⟨h, by simpa using ht⟩

theorem push_effect {caller : γ} {t : SubmissionTask} {e : PoolInput} {s s' : Pool n γ} {r : Bool}
    (h : s.serve cfg e (.push caller t) = some (r, s')) :
    (r = true ∧ s.queue.shutdown = false ∧ s' = { s with
      queue := { s.queue with queue := s.queue.queue ++ [t] }
      accepted := s.accepted ++ [t]
      place := Function.update s.place t.submissionId .queued }) ∨
    (r = false ∧ s.queue.shutdown = true ∧ s' = s) := by
  cases hd : s.queue.shutdown with
  | false =>
    simp only [Pool.serve, SubmissionQueue.push_open hd] at h
    cases h
    exact Or.inl ⟨rfl, rfl, rfl⟩
  | true =>
    simp only [Pool.serve, SubmissionQueue.push_closed hd] at h
    cases h
    exact Or.inr ⟨rfl, rfl, rfl⟩

theorem pop_effect {w : Fin n} {e : PoolInput} {s s' : Pool n γ}
    {r : Option (Nat × SubmissionTask)} (h : s.serve cfg e (.pop w) = some (r, s')) :
    (r = none ∧ s.drained ∧ s' = s) ∨
    (∃ t rest, r = some (s.popped.length, t) ∧ s.queue.queue = t :: rest ∧ s' = { s with
      queue := { s.queue with queue := rest }
      popped := s.popped ++ [t]
      stage := Function.update s.stage w (.fetched t)
      place := Function.update s.place t.submissionId (.held w) }) := by
  cases hq : s.queue.queue with
  | nil =>
    cases hd : s.queue.shutdown with
    | false =>
      simp only [Pool.serve, SubmissionQueue.pop_waits hq hd] at h
      cases h
    | true =>
      simp only [Pool.serve, SubmissionQueue.pop_closed hq hd] at h
      cases h
      exact Or.inl ⟨rfl, ⟨hd, hq⟩, rfl⟩
  | cons t rest =>
    simp only [Pool.serve, SubmissionQueue.pop_front hq] at h
    cases h
    exact Or.inr ⟨t, rest, rfl, rfl, rfl⟩

theorem submitted_effect {c : γ} {id result : Int} {e : PoolInput} {s s' : Pool n γ} {r : Unit}
    (h : s.serve cfg e (.submitted c id result) = some (r, s')) :
    s' = { s with
      place := if s.place id = .pushing c then Function.update s.place id .nowhere else s.place } := by
  cases h
  split <;> rfl

/-- Nothing but a worker's own calls moves it, and a drained queue stays drained. -/
theorem serve_unmoved {o : PoolCall n γ} {e : PoolInput} {s s' : Pool n γ} {r : o.Reply}
    (h : s.serve cfg e o = some (r, s')) {w : Fin n}
    (ho : o.fromCaller = true ∨ ∃ w', w' ≠ w ∧ AtStation w' s o) : Unmoved w s s' := by
  cases o with
  | push c t =>
    obtain ⟨_, hd, rfl⟩ | ⟨_, _, rfl⟩ := push_effect h
    · refine ⟨rfl, rfl, fun hdrained => ?_⟩
      rw [hdrained.1] at hd
      cases hd
    · exact ⟨rfl, rfl, id⟩
  | pop w' =>
    obtain ⟨w'', hne, rfl, _⟩ := ho.resolve_left (by simp [PoolCall.fromCaller])
    obtain ⟨_, _, rfl⟩ | ⟨t, rest, _, hq, rfl⟩ := pop_effect h
    · exact ⟨rfl, rfl, id⟩
    · refine ⟨Function.update_of_ne hne.symm _ _, rfl, fun hdrained => ?_⟩
      rw [hdrained.2] at hq
      cases hq
  | onSubmissionFinished w' t | processSubmission w' t | processed w' t =>
    obtain ⟨w'', hne, rfl, _⟩ := ho.resolve_left (by simp [PoolCall.fromCaller])
    cases h
    exact ⟨Function.update_of_ne hne.symm _ _, rfl, id⟩
  | leaveLoop w' =>
    obtain ⟨w'', hne, rfl, _⟩ := ho.resolve_left (by simp [PoolCall.fromCaller])
    cases h
    exact ⟨rfl, Function.update_of_ne hne.symm _ _, id⟩
  | submitted c i result =>
    rw [submitted_effect h]
    exact ⟨rfl, rfl, id⟩
  | join w' =>
    simp only [Pool.serve] at h
    split at h
    · cases h
      exact ⟨rfl, rfl, id⟩
    · cases h
  | shutdownQueue =>
    cases h
    exact ⟨rfl, rfl, fun hdrained => ⟨rfl, hdrained.2⟩⟩
  | _ =>
    cases h
    exact ⟨rfl, rfl, id⟩

/-- A worker that changes its stage leaves one and enters the other. -/
theorem sum_stage_update (f : Fin n → Stage) (w : Fin n) (g' g : Stage) :
    (∑ v, if Function.update f w g' v = g then 1 else 0) + (if f w = g then 1 else 0) =
      (∑ v, if f v = g then 1 else 0) + if g' = g then 1 else 0 := by
  have hrest : ∑ v ∈ Finset.univ.erase w, (if Function.update f w g' v = g then 1 else 0) =
      ∑ v ∈ Finset.univ.erase w, if f v = g then 1 else 0 := by
    apply Finset.sum_congr rfl
    intro v hv
    rw [Function.update_of_ne (Finset.ne_of_mem_erase hv)]
  rw [← Finset.add_sum_erase _ _ (Finset.mem_univ w), hrest, Function.update_self,
    ← Finset.add_sum_erase _ (fun v => if f v = g then 1 else 0) (Finset.mem_univ w)]
  omega

section Moves

variable (f : Fin n → Stage) (w : Fin n) {g : SubmissionTask → Stage}

theorem stage_stays (new : Stage) (hold : ∀ t, f w ≠ g t) (hnew : ∀ t, new ≠ g t) (t : SubmissionTask) :
    (∑ v, if Function.update f w new v = g t then 1 else 0) = ∑ v, if f v = g t then 1 else 0 := by
  have hsum := sum_stage_update f w new (g t)
  rwa [if_neg (hold t), if_neg (hnew t)] at hsum

/-- A task enters a stage and is put on the list of those that have. -/
theorem stage_enters (hg : Function.Injective g) (hold : ∀ t, f w ≠ g t) (l : List SubmissionTask)
    (t t' : SubmissionTask) :
    (l ++ [t]).count t' + (∑ v, if f v = g t' then 1 else 0) =
      l.count t' + ∑ v, if Function.update f w (g t) v = g t' then 1 else 0 := by
  have hsum := sum_stage_update f w (g t) (g t')
  simp only [if_neg (hold t'), hg.eq_iff] at hsum
  rw [List.count_append, List.count_singleton]
  simp only [beq_iff_eq]
  omega

/-- It leaves the stage, and is put on the next list. -/
theorem stage_leaves (hg : Function.Injective g) (new : Stage) {t : SubmissionTask} (hold : f w = g t)
    (hnew : ∀ t, new ≠ g t) (l : List SubmissionTask) (t' : SubmissionTask) :
    (l ++ [t]).count t' + (∑ v, if Function.update f w new v = g t' then 1 else 0) =
      l.count t' + ∑ v, if f v = g t' then 1 else 0 := by
  have hsum := sum_stage_update f w new (g t')
  simp only [hold, if_neg (hnew t'), hg.eq_iff] at hsum
  rw [List.count_append, List.count_singleton]
  simp only [beq_iff_eq]
  omega

theorem fetched_injective : Function.Injective Stage.fetched := fun _ _ h => Stage.fetched.inj h

theorem judging_injective : Function.Injective Stage.judging := fun _ _ h => Stage.judging.inj h

theorem judged_injective : Function.Injective Stage.judged := fun _ _ h => Stage.judged.inj h

end Moves

section Step

omit [DecidableEq γ]

variable {s : Pool n γ}

theorem Flow.push (h : Flow s) {t : SubmissionTask} (hd : s.queue.shutdown = false)
    (p : Int → Place n γ) :
    Flow { s with
      queue := { s.queue with queue := s.queue.queue ++ [t] }
      accepted := s.accepted ++ [t]
      place := p } := by
  refine ⟨?_, h.fetched, h.judging, h.judged, ?_⟩
  · simp [h.order]
  · intro w hw
    have hdrained := (h.out w hw).1.1
    rw [hd] at hdrained
    cases hdrained

theorem Flow.pop (h : Flow s) {w : Fin n} {t : SubmissionTask} {rest : List SubmissionTask}
    (hq : s.queue.queue = t :: rest) (hrest : (s.stage w).resting = true) (p : Int → Place n γ) :
    Flow { s with
      queue := { s.queue with queue := rest }
      popped := s.popped ++ [t]
      stage := Function.update s.stage w (.fetched t)
      place := p } := by
  have hfetched : ∀ t', s.stage w ≠ .fetched t' := by
    intro t' heq
    rw [heq] at hrest
    cases hrest
  have hjudging : ∀ t', s.stage w ≠ .judging t' := by
    intro t' heq
    rw [heq] at hrest
    cases hrest
  refine ⟨?_, ?_, ?_, ?_, ?_⟩
  · simp [h.order, hq]
  · intro t'
    have hmove := stage_enters s.stage w fetched_injective hfetched s.popped t t'
    have hcount := h.fetched t'
    simp only [Pool.inStage] at hcount ⊢
    omega
  · intro t'
    have hmove := stage_stays s.stage w (.fetched t) (g := .judging) hjudging (by simp) t'
    have hcount := h.judging t'
    simp only [Pool.inStage] at hcount ⊢
    omega
  · intro t'
    -- The worker may have left a judged task behind, which only frees a place.
    have hsum := sum_stage_update s.stage w (.fetched t) (.judged t')
    have hcount := h.judged t'
    simp only [Pool.inStage, reduceCtorEq, if_false] at hsum hcount ⊢
    omega
  · intro w' hw'
    have hempty := (h.out w' hw').1.2
    rw [hq] at hempty
    cases hempty

/-- A worker with a task has not left its loop, so its stage may change. -/
theorem Flow.out_update (h : Flow s) {w : Fin n} (hw : (s.stage w).resting = false ∨ s.left w = false)
    (g : Stage) (w' : Fin n) (hw' : s.left w' = true) :
    s.drained ∧ (Function.update s.stage w g w').resting = true := by
  have hout := h.out w' hw'
  have hne : w' ≠ w := by
    rintro rfl
    obtain hw | hw := hw
    · rw [hout.2] at hw
      cases hw
    · rw [hw'] at hw
      cases hw
  rw [Function.update_of_ne hne]
  exact hout

theorem Flow.call (h : Flow s) {w : Fin n} {t : SubmissionTask} (hs : s.stage w = .fetched t) :
    Flow { s with
      called := s.called ++ [t]
      stage := Function.update s.stage w (.judging t) } := by
  refine ⟨h.order, ?_, ?_, ?_, h.out_update (Or.inl (by rw [hs]; rfl)) _⟩
  · intro t'
    have hmove := stage_leaves s.stage w fetched_injective (.judging t) hs (by simp) s.called t'
    have hcount := h.fetched t'
    simp only [Pool.inStage] at hcount ⊢
    omega
  · intro t'
    have hmove := stage_enters s.stage w judging_injective (by simp [hs]) s.called t t'
    have hcount := h.judging t'
    simp only [Pool.inStage] at hcount ⊢
    omega
  · intro t'
    have hmove := stage_stays s.stage w (.judging t) (g := .judged) (by simp [hs]) (by simp) t'
    have hcount := h.judged t'
    simp only [Pool.inStage] at hcount ⊢
    omega

theorem Flow.processed (h : Flow s) {w : Fin n} {t : SubmissionTask} (hs : s.stage w = .judging t)
    (p : Int → Place n γ) :
    Flow { s with
      processed := s.processed ++ [t]
      stage := Function.update s.stage w (.judged t)
      place := p } := by
  refine ⟨h.order, ?_, ?_, ?_, h.out_update (Or.inl (by rw [hs]; rfl)) _⟩
  · intro t'
    have hmove := stage_stays s.stage w (.judged t) (g := .fetched) (by simp [hs]) (by simp) t'
    have hcount := h.fetched t'
    simp only [Pool.inStage] at hcount ⊢
    omega
  · intro t'
    have hmove := stage_leaves s.stage w judging_injective (.judged t) hs (by simp) s.processed t'
    have hcount := h.judging t'
    simp only [Pool.inStage] at hcount ⊢
    omega
  · intro t'
    have hmove := stage_enters s.stage w judged_injective (by simp [hs]) s.processed t t'
    have hcount := h.judged t'
    simp only [Pool.inStage] at hcount ⊢
    omega

theorem Flow.finished (h : Flow s) {w : Fin n} {t : SubmissionTask} (hs : s.stage w = .judged t)
    (b : Bool) :
    Flow { s with
      terminated := b
      finished := s.finished ++ [t]
      stage := Function.update s.stage w .idle } := by
  refine ⟨h.order, ?_, ?_, ?_, ?_⟩
  · intro t'
    have hmove := stage_stays s.stage w .idle (g := .fetched) (by simp [hs]) (by simp) t'
    have hcount := h.fetched t'
    simp only [Pool.inStage] at hcount ⊢
    omega
  · intro t'
    have hmove := stage_stays s.stage w .idle (g := .judging) (by simp [hs]) (by simp) t'
    have hcount := h.judging t'
    simp only [Pool.inStage] at hcount ⊢
    omega
  · intro t'
    have hmove := stage_leaves s.stage w judged_injective .idle hs (by simp) s.finished t'
    have hcount := h.judged t'
    simp only [Pool.inStage] at hcount ⊢
    omega
  · intro w' hw'
    refine ⟨(h.out w' hw').1, ?_⟩
    by_cases hne : w' = w
    · subst hne
      simp only [Function.update_self]
      rfl
    · simp only [Function.update_of_ne hne]
      exact (h.out w' hw').2

end Step

/-- One call keeps the account, if the thread makes it from its station. -/
theorem Flow.serve {s s' : Pool n γ} (h : Flow s) {o : PoolCall n γ} {e : PoolInput} {r : o.Reply}
    (hs : s.serve cfg e o = some (r, s'))
    (ho : o.fromCaller = true ∨ ∃ w, AtStation w s o) : Flow s' := by
  cases o with
  | push c t =>
    obtain ⟨_, hd, rfl⟩ | ⟨_, _, rfl⟩ := push_effect hs
    · exact h.push hd _
    · exact h
  | pop w =>
    obtain ⟨w', rfl, hrest, hleft⟩ := ho.resolve_left (by simp [PoolCall.fromCaller])
    obtain ⟨_, _, rfl⟩ | ⟨t, rest, _, hq, rfl⟩ := pop_effect hs
    · exact h
    · exact h.pop hq hrest _
  | processSubmission w t =>
    obtain ⟨w', rfl, hstage⟩ := ho.resolve_left (by simp [PoolCall.fromCaller])
    cases hs
    exact h.call hstage
  | processed w t =>
    obtain ⟨w', rfl, hstage⟩ := ho.resolve_left (by simp [PoolCall.fromCaller])
    cases hs
    exact h.processed hstage _
  | onSubmissionFinished w t =>
    obtain ⟨w', rfl, hstage⟩ := ho.resolve_left (by simp [PoolCall.fromCaller])
    cases hs
    exact h.finished hstage _
  | leaveLoop w =>
    obtain ⟨w', rfl, hrest, hdrained⟩ := ho.resolve_left (by simp [PoolCall.fromCaller])
    cases hs
    refine ⟨h.order, h.fetched, h.judging, h.judged, ?_⟩
    intro v hv
    by_cases hne : v = w
    · subst hne
      exact ⟨hdrained, hrest⟩
    · simp only [Function.update_of_ne hne] at hv
      exact h.out v hv
  | submitted c i result =>
    rw [submitted_effect hs]
    exact ⟨h.order, h.fetched, h.judging, h.judged, h.out⟩
  | join w =>
    simp only [Pool.serve] at hs
    split at hs
    · cases hs
      exact ⟨h.order, h.fetched, h.judging, h.judged, h.out⟩
    · cases hs
  | shutdownQueue =>
    cases hs
    refine ⟨h.order, h.fetched, h.judging, h.judged, ?_⟩
    intro w hw
    exact ⟨⟨rfl, (h.out w hw).1.2⟩, (h.out w hw).2⟩
  | _ =>
    cases hs
    exact ⟨h.order, h.fetched, h.judging, h.judged, h.out⟩

/-- A worker inside its loop, in a stage that satisfies `P`. -/
def Working (w : Fin n) (P : Stage → Prop) (s : Pool n γ) : Prop :=
  P (s.stage w) ∧ s.left w = false

omit [DecidableEq γ] in
theorem working_stable (w : Fin n) (P : Stage → Prop) :
    Stable (Unmoved w) (Working (γ := γ) w P) := by
  intro s s' h hu
  refine ⟨?_, hu.left.trans h.2⟩
  rw [hu.stage]
  exact h.1

theorem notifyUnlessStopped_safe {w : Fin n} {notifier : Bool} {callback : PoolCall n γ}
    {P Q : Stage → Prop} (hpre : ∀ s : Pool n γ, P (s.stage w) → AtStation w s callback)
    (hPQ : ∀ g, P g → Q g)
    (hcall : ∀ s e r s', Working w P s → s.serve cfg e callback = some (r, s') → Working w Q s')
    {s : Pool n γ} (h : Working w P s) :
    Safe (flowContract cfg (.worker w)) (fun _ => Working w Q)
      (notifyUnlessStopped notifier callback) s := by
  have hdone : ∀ s : Pool n γ, Working w P s →
      Safe (flowContract cfg (.worker w)) (fun _ => Working w Q) (.ret ()) s := by
    intro s hs
    exact .ret (Working w Q) (working_stable w Q) ⟨hPQ _ hs.1, hs.2⟩ fun _ h => h
  unfold notifyUnlessStopped
  split
  · refine .op_bind (Working w P) (working_stable w P) h (fun _ _ => trivial) ?_
    intro s e stopped s' hs _ hexec
    cases (exec_serve hexec).1
    split
    · exact hdone s hs
    · refine .op_bind (Working w P) (working_stable w P) hs (fun s hs => hpre s hs.1) ?_
      intro s e r s' hs _ hexec
      exact .ret (Working w Q) (working_stable w Q) (hcall s e r s' hs (exec_serve hexec).1)
        fun _ h => h
  · exact hdone s h

/-- An update of this submission. -/
def PoolCall.Updates (id : Int) (o : PoolCall n γ) : Prop := ∃ r, o = .store (.updateResult id r)

theorem processSubmission_uses (env : JudgeEnv) (id : Int) (request : SubmissionRequest) :
    (processSubmission env id request : Prog (poolMachine cfg n γ) _).Uses (PoolCall.Updates id) := by
  apply Pipeline.processSubmission_uses
  intro r
  exact ⟨⟨r, rfl⟩, fun _ => trivial⟩

theorem notifyUnlessStopped_uses {P : PoolCall n γ → Prop} (notifier : Bool)
    (callback : PoolCall n γ) (hload : P .loadStopped) (hcall : P callback) :
    (notifyUnlessStopped notifier callback : Prog (poolMachine cfg n γ) Unit).Uses P := by
  unfold notifyUnlessStopped
  split
  · refine Prog.Uses.op_bind hload fun stopped => ?_
    split
    · trivial
    · exact ⟨hcall, fun _ => trivial⟩
  · trivial

/-- The calls of a worker's turn. -/
def PoolCall.fromWorker : PoolCall n γ → Bool
  | .pop _ | .loadStopped | .onSubmissionStarted _ _ | .onSubmissionFinished _ _
  | .processSubmission _ _ | .processed _ _ | .leaveLoop _ | .store (.updateResult _ _) => true
  | _ => false

theorem workerTurn_uses (notifier : Bool) (env : Nat → JudgeEnv) (w : Fin n) :
    (workerTurn notifier env w : Prog (poolMachine cfg n γ) Turn).Uses
      (PoolCall.fromWorker · = true) := by
  refine Prog.Uses.op_bind rfl fun task => ?_
  cases task with
  | none => exact ⟨rfl, fun _ => trivial⟩
  | some task =>
    have hnotify : ∀ callback : PoolCall n γ, callback.fromWorker = true →
        (notifyUnlessStopped notifier callback : Prog (poolMachine cfg n γ) Unit).Uses
          (PoolCall.fromWorker · = true) :=
      fun callback h => notifyUnlessStopped_uses notifier callback rfl h
    refine (hnotify _ rfl).bind fun _ => ?_
    refine Prog.Uses.bind ?_ fun _ => (hnotify _ rfl).bind fun _ => trivial
    refine Prog.Uses.op_bind rfl fun _ => ?_
    refine ((processSubmission_uses _ _ _).mono ?_).bind fun _ => ⟨rfl, fun _ => trivial⟩
    rintro o ⟨r, rfl⟩
    rfl

theorem processSubmission_safe {w : Fin n} (env : JudgeEnv) (id : Int) (request : SubmissionRequest)
    {P : Stage → Prop} {s : Pool n γ} (h : Working w P s) :
    Safe (flowContract cfg (.worker w)) (fun _ => Working w P)
      (processSubmission env id request) s := by
  refine .of_uses (Working w P) (processSubmission_uses env id request)
    (fun _ => working_stable w P) h ?_ ?_
  · rintro o s ⟨r, rfl⟩ _
    trivial
  · rintro o s e reply s' ⟨r, rfl⟩ hs _ hexec
    cases (exec_serve hexec).1
    exact hs

theorem judge_safe {w : Fin n} (env : JudgeEnv) (t : SubmissionTask) {s : Pool n γ}
    (h : Working w (· = .fetched t) s) :
    Safe (flowContract cfg (.worker w)) (fun _ => Working w (· = .judged t)) (judge w env t) s := by
  refine .op_bind _ (working_stable w _) h (fun s hs => ⟨rfl, hs.1⟩) ?_
  intro s e r s' hs _ hexec
  have hjudging : Working w (· = .judging t) s' := by
    cases (exec_serve hexec).1
    exact ⟨Function.update_self _ _ _, hs.2⟩
  apply Safe.bind
  refine (processSubmission_safe env _ _ hjudging).mono ?_
  intro _ s hs
  refine .op_bind _ (working_stable w _) hs (fun s hs => ⟨rfl, hs.1⟩) ?_
  intro s e r s' hs _ hexec
  refine .ret _ (working_stable w _) ?_ fun _ h => h
  cases (exec_serve hexec).1
  exact ⟨Function.update_self _ _ _, hs.2⟩

theorem started_safe {w : Fin n} (notifier : Bool) (t : SubmissionTask) {s : Pool n γ}
    (h : Working w (· = .fetched t) s) :
    Safe (flowContract cfg (.worker w)) (fun _ => Working w (· = .fetched t))
      (notifyUnlessStopped notifier (.onSubmissionStarted w t)) s := by
  refine notifyUnlessStopped_safe ?_ (fun _ h => h) ?_ h
  · exact fun s hs => ⟨rfl, hs⟩
  · intro s e r s' hs hserve
    cases hserve
    exact hs

theorem finished_safe {w : Fin n} (notifier : Bool) (t : SubmissionTask) {s : Pool n γ}
    (h : Working w (· = .judged t) s) :
    Safe (flowContract cfg (.worker w)) (fun _ => Working w (·.resting = true))
      (notifyUnlessStopped notifier (.onSubmissionFinished w t)) s := by
  refine notifyUnlessStopped_safe ?_ ?_ ?_ h
  · exact fun s hs => ⟨rfl, hs⟩
  · rintro g rfl
    rfl
  · intro s e r s' hs hserve
    cases hserve
    refine ⟨?_, hs.2⟩
    simp only [Function.update_self]
    rfl

/-- A turn starts and ends between two tasks, or leaves the loop for good. -/
theorem workerTurn_safe (notifier : Bool) (env : Nat → JudgeEnv) (w : Fin n) {s : Pool n γ}
    (h : Working w (·.resting = true) s) :
    Safe (flowContract cfg (.worker w))
      (fun turn s => turn = .again → Working w (·.resting = true) s) (workerTurn notifier env w) s := by
  unfold workerTurn
  refine .op_bind _ (working_stable w _) h (fun s hs => ⟨rfl, hs⟩) ?_
  intro s e task s' hs _ hexec
  obtain ⟨rfl, hdrained, rfl⟩ | ⟨t, rest, rfl, hq, hs'⟩ := pop_effect (exec_serve hexec).1
  · refine .op_bind (fun s => Working w (·.resting = true) s ∧ s.drained) ?_ ⟨hs, hdrained⟩
      (fun s hs => ⟨rfl, hs.1.1, hs.2⟩) ?_
    · intro s s' hs hu
      exact ⟨working_stable w _ s s' hs.1 hu, hu.drained hs.2⟩
    · intro s e r s' _ _ _
      exact .ret (fun _ => True) (fun _ _ _ _ => trivial) trivial fun _ _ hturn => by cases hturn
  · have hfetched : Working w (· = .fetched t) s' := by
      rw [hs']
      exact ⟨Function.update_self _ _ _, hs.2⟩
    apply Safe.bind
    refine (started_safe notifier t hfetched).mono ?_
    intro _ s hs
    apply Safe.bind
    refine (judge_safe _ t hs).mono ?_
    intro _ s hs
    apply Safe.bind
    refine (finished_safe notifier t hs).mono ?_
    intro _ s hs
    exact .ret _ (working_stable w _) hs fun _ h _ => h

/-- The calls of a shutdown, which leave every submission alone. -/
def PoolCall.ofShutdown : PoolCall n γ → Bool
  | .shutdownQueue | .exchangeStopped | .storeStopped | .joinable _ | .join _ | .destroyWorkers
  | .returned _ => true
  | _ => false

omit [DecidableEq γ] in
theorem fromCaller_of_ofShutdown {o : PoolCall n γ} (h : o.ofShutdown = true) :
    o.fromCaller = true := by
  cases o <;> first | rfl | cases h

theorem joinWorkers_uses (ws : List (Fin n)) :
    (joinWorkers ws : Prog (poolMachine cfg n γ) Unit).Uses (PoolCall.ofShutdown · = true) := by
  induction ws with
  | nil => trivial
  | cons w ws ih =>
    refine ⟨rfl, fun joinable => ?_⟩
    cases joinable with
    | true => exact ⟨rfl, fun _ => ih⟩
    | false => exact ih

theorem stop_uses :
    (stop : Prog (poolMachine cfg n γ) Unit).Uses (PoolCall.ofShutdown · = true) := by
  refine ⟨rfl, fun first => ?_⟩
  cases first with
  | true => exact ⟨rfl, fun _ => joinWorkers_uses _⟩
  | false => trivial

/-- A command that neither submits nor queries. -/
def Command.shutsDown : Command → Bool
  | .submitAsync _ _ | .query _ => false
  | _ => true

theorem shutdownCommand_uses (c : γ) {command : Command} (h : command.shutsDown = true) :
    (runCommand c command : Prog (poolMachine cfg n γ) Unit).Uses (PoolCall.ofShutdown · = true) := by
  cases command with
  | submitAsync request channel => cases h
  | query id => cases h
  | shutdownQueue => exact ⟨rfl, fun _ => trivial⟩
  | stop => exact stop_uses.bind fun _ => ⟨rfl, fun _ => trivial⟩
  | gracefulShutdown =>
    exact Prog.Uses.bind ⟨rfl, fun _ => stop_uses⟩ fun _ => ⟨rfl, fun _ => trivial⟩
  | destroy =>
    refine Prog.Uses.bind (stop_uses.bind fun _ => ?_) fun _ => ⟨rfl, fun _ => trivial⟩
    exact ⟨rfl, fun _ => trivial⟩

theorem submitAsync_uses (c : γ) (request : SubmissionRequest) (channel : Bytes) :
    (submitAsync c request channel : Prog (poolMachine cfg n γ) Int).Uses
      (PoolCall.fromCaller · = true) := by
  refine Prog.Uses.op_bind rfl fun id => ?_
  split
  · exact ⟨rfl, fun _ => trivial⟩
  · exact ⟨rfl, fun _ => ⟨rfl, fun _ => trivial⟩⟩

theorem runCommand_uses (c : γ) (command : Command) :
    (runCommand c command : Prog (poolMachine cfg n γ) Unit).Uses (PoolCall.fromCaller · = true) := by
  cases command with
  | submitAsync request channel => exact (submitAsync_uses c request channel).bind fun _ => trivial
  | query id => exact ⟨rfl, fun _ => trivial⟩
  | _ => exact (shutdownCommand_uses c rfl).mono fun _ => fromCaller_of_ofShutdown

theorem runCommands_uses (c : γ) (commands : List Command) :
    (runCommands c commands : Prog (poolMachine cfg n γ) Turn).Uses
      (PoolCall.fromCaller · = true) := by
  induction commands with
  | nil => trivial
  | cons command rest ih => exact (runCommand_uses c command).bind fun _ => ih

theorem runCommands_turn (c : γ) (commands : List Command) {s : Pool n γ} :
    Safe (flowContract cfg (.caller c)) (fun _ _ => True) (runCommands c commands) s :=
  (Safe.of_uses (fun _ => True) (runCommands_uses c commands) (fun _ _ _ _ _ => trivial) trivial
    (fun _ _ ho _ => ho) fun _ _ _ _ _ _ _ _ _ => trivial).mono fun _ _ _ => trivial

section Runs

variable {notifier : Bool} {env : Nat → JudgeEnv} {commands : γ → List Command}
  {store : TracedStore} {c : PoolConfig cfg n γ}

/-- What a thread that goes on starts its next turn with. -/
def resumes : PoolThread n γ → Turn → Pool n γ → Prop
  | .worker w => fun turn s => turn = .again → Working w (·.resting = true) s
  | .caller _ => fun _ _ => True

theorem station_of_contract {t : PoolThread n γ} {o : PoolCall n γ} {s : Pool n γ}
    (h : (flowContract cfg t).pre o s) : o.fromCaller = true ∨ ∃ w, AtStation w s o := by
  cases t with
  | worker w => exact Or.inr ⟨w, h⟩
  | caller c => exact Or.inl h

/-- Every thread of a reachable configuration is at a station of its own program. -/
theorem flow_safe (hr : Reach (nextTurn cfg n γ notifier env commands) anyStep
      (poolStart cfg n γ notifier env commands store) c) :
    ∀ t, Safe (flowContract cfg t) (resumes t) (c.thread t) c.shared := by
  refine hr.safe (flowContract cfg) resumes ?_ ?_ ?_
  · intro t
    cases t with
    | worker w => exact workerTurn_safe notifier env w ⟨rfl, rfl⟩
    | caller c => exact runCommands_turn c (commands c)
  · intro t a p s hp hs
    cases a with
    | done => cases hp
    | again =>
      cases hp
      cases t with
      | worker w => exact workerTurn_safe notifier env w (hs rfl)
      | caller c => exact runCommands_turn c (commands c)
  · intro c t e o k r s' _ _ _ hpre hexec
    obtain ⟨hserve, _⟩ := exec_serve hexec
    refine ⟨by cases t <;> trivial, ?_⟩
    intro t' hne
    cases t' with
    | caller c' => trivial
    | worker w =>
      refine serve_unmoved hserve ?_
      cases t with
      | caller c' => exact Or.inl hpre
      | worker w' => exact Or.inr ⟨w', fun heq => hne (by rw [heq]), hpre⟩

theorem flow_start : Flow (poolStart cfg n γ notifier env commands store).shared where
  order := rfl
  fetched := by simp [poolStart, Pool.inStage]
  judging := by simp [poolStart, Pool.inStage]
  judged := by simp [poolStart, Pool.inStage]
  out := by simp [poolStart]

theorem flow_of_reach (hr : Reach (nextTurn cfg n γ notifier env commands) anyStep
      (poolStart cfg n γ notifier env commands store) c) : Flow c.shared := by
  refine hr.invariant Flow flow_start ?_
  intro c t e o k r s' hc _ hk hexec hflow
  have hsafe := flow_safe hc t
  rw [hk] at hsafe
  exact hflow.serve (exec_serve hexec).1 (station_of_contract hsafe.pre)

end Runs

end JudgeServer.Dispatch
