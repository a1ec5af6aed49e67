import JudgeServer.Dispatch.NoOrphans
import JudgeServer.Dispatch.Shutdown
import JudgeServer.Lib.Completion
import JudgeServer.Lib.Returns
import Mathlib.Data.Finite.Sum

/-!
# The pool comes to rest

Callers have finite lists of commands, and a worker goes round its loop only with a task
from the queue, so no run of the pool goes on for ever. A run stops where no thread can
move. Unless the process has been terminated, the callers are through there and the
accepted tasks judged: the blocking calls are the `pop` of an open and empty queue and the
`join` of a worker in its loop, and the second is only made once the queue is shut down.
-/

namespace JudgeServer.Dispatch

open JudgeServer.Common
open JudgeServer.Pipeline
open JudgeServer.Lib.Interleave

variable {cfg : CleanupConfig} {n : Nat} {γ : Type} [DecidableEq γ]

/-- A `pop` that hands out a task. -/
inductive TakesTask : (o : PoolCall n γ) → o.Reply → Prop where
  | pop (w : Fin n) (x : Nat × SubmissionTask) : TakesTask (.pop w) (some x)

/-- A worker does not fill the queue, and with each task it takes there is one less. -/
theorem serve_spends {o : PoolCall n γ} {e : PoolInput} {s s' : Pool n γ} {r : o.Reply}
    (ho : o.fromWorker = true) (h : s.serve cfg e o = some (r, s')) :
    s'.queue.queue.length ≤ s.queue.queue.length ∧
      (TakesTask o r → s'.queue.queue.length < s.queue.queue.length) := by
  cases o with
  | pop w =>
    obtain ⟨rfl, _, rfl⟩ | ⟨t, rest, _, hq, rfl⟩ := pop_effect h
    · exact ⟨le_rfl, fun htakes => by cases htakes⟩
    · have hlength : rest.length < s.queue.queue.length := by
        rw [hq]
        exact Nat.lt_succ_self _
      exact ⟨hlength.le, fun _ => hlength⟩
  | store q | loadStopped | onSubmissionStarted w t | onSubmissionFinished w t
  | processSubmission w t | processed w t | leaveLoop w =>
    cases h
    exact ⟨le_rfl, fun htakes => by cases htakes⟩
  | _ => cases ho

/-- The calls of a thread. -/
def PoolThread.makes : PoolThread n γ → PoolCall n γ → Prop
  | .worker _, o => o.fromWorker = true
  | .caller _, o => o.fromCaller = true

section Restarts

variable (notifier : Bool) (env : Nat → JudgeEnv) (commands : γ → List Command)

theorem threadBody_makes (t : PoolThread n γ) :
    (threadBody cfg n γ notifier env commands t).Uses t.makes := by
  cases t with
  | worker w => exact workerTurn_uses notifier env w
  | caller c => exact runCommands_uses c (commands c)

theorem workerTurn_pays {restart : Turn → Option (Prog (poolMachine cfg n γ) Turn)}
    (hdone : restart .done = none) (w : Fin n) :
    (workerTurn notifier env w).Pays restart TakesTask := by
  intro task
  cases task with
  | none => exact Or.inr fun _ => Or.inr hdone
  | some x => exact Or.inl (.pop w x)

theorem runCommands_pays {restart : Turn → Option (Prog (poolMachine cfg n γ) Turn)}
    {paid : ∀ o : PoolCall n γ, o.Reply → Prop} (hdone : restart .done = none) (c : γ)
    (l : List Command) :
    (runCommands c l : Prog (poolMachine cfg n γ) Turn).Pays restart paid := by
  induction l with
  | nil => exact hdone
  | cons command rest ih => exact Prog.Pays.bind fun _ => ih

theorem threadBody_pays (t : PoolThread n γ) :
    (threadBody cfg n γ notifier env commands t).Pays (nextTurn cfg n γ notifier env commands t)
      fun o r => (¬ ∃ c, t = .caller c) ∧ TakesTask o r := by
  cases t with
  | worker w =>
    have hspender : ¬ ∃ c, (PoolThread.worker w : PoolThread n γ) = .caller c := by simp
    simp only [hspender, not_false_eq_true, true_and]
    exact workerTurn_pays notifier env rfl w
  | caller c => exact runCommands_pays rfl c (commands c)

/-- The callers supply the queue, and each turn of a worker is paid for with a task. -/
def poolEconomy : Economy (nextTurn cfg n γ notifier env commands) where
  makes := PoolThread.makes
  supplies := fun t => ∃ c, t = .caller c
  fuel := fun s => s.queue.queue.length
  paid := TakesTask
  calls := by
    intro t a p h
    cases a with
    | again =>
      cases h
      exact threadBody_makes notifier env commands t
    | done => cases h
  pays := by
    intro t a p h
    cases a with
    | again =>
      cases h
      exact threadBody_pays notifier env commands t
    | done => cases h
  spends := by
    intro t o e s r s' hspender hmakes hexec
    cases t with
    | worker w => exact serve_spends hmakes (exec_serve hexec).1
    | caller c => exact absurd ⟨c, rfl⟩ hspender

end Restarts

omit [DecidableEq γ] in
theorem poolThread_finite [Finite γ] : Finite (PoolThread n γ) := by
  refine Finite.of_surjective (Sum.elim PoolThread.worker PoolThread.caller) fun t => ?_
  cases t with
  | worker w => exact ⟨.inl w, rfl⟩
  | caller c => exact ⟨.inr c, rfl⟩

/-- What a running process blocks on. -/
theorem exec_blocks {o : PoolCall n γ} {e : PoolInput} {s : Pool n γ}
    (hrunning : s.terminated = false) (h : Pool.exec cfg o e s = none) :
    (∃ w, o = .pop w ∧ s.queue.shutdown = false ∧ s.queue.queue = []) ∨
      ∃ w, o = .join w ∧ s.left w = false := by
  have hserve : s.serve cfg e o = none := by
    rwa [Pool.exec, if_neg (by simp [hrunning])] at h
  cases o with
  | pop w =>
    refine Or.inl ⟨w, rfl, ?_⟩
    cases hq : s.queue.queue with
    | cons t rest =>
      simp only [Pool.serve, SubmissionQueue.pop_front hq] at hserve
      cases hserve
    | nil =>
      cases hd : s.queue.shutdown with
      | false => exact ⟨rfl, rfl⟩
      | true =>
        simp only [Pool.serve, SubmissionQueue.pop_closed hq hd] at hserve
        cases hserve
  | join w =>
    refine Or.inr ⟨w, rfl, ?_⟩
    simp only [Pool.serve] at hserve
    split at hserve
    · cases hserve
    · next hleft => simpa using hleft
  | _ => cases hserve

/-- The other threads do not open the queue again, nor put a worker back into its loop. -/
structure Onward (s s' : Pool n γ) : Prop where
  shutdown : s.queue.shutdown = true → s'.queue.shutdown = true
  left : ∀ w, s.left w = true → s'.left w = true

theorem serve_onward {o : PoolCall n γ} {e : PoolInput} {s s' : Pool n γ} {r : o.Reply}
    (h : s.serve cfg e o = some (r, s')) : Onward s s' :=
  ⟨fun hd => (serve_shutdown h hd).1, fun w hw => serve_left h w hw⟩

def PoolCall.joins : PoolCall n γ → Bool
  | .join _ => true
  | _ => false

/-- A join is called on a queue that is shut down. -/
def joinContract (cfg : CleanupConfig) : Contract (poolMachine cfg n γ) where
  allows := fun _ _ _ => True
  rely := fun _ => Onward
  pre := fun o s => PoolCall.joins o = true → s.queue.shutdown = true

omit [DecidableEq γ] in
theorem shutdown_stable : Stable Onward fun s : Pool n γ => s.queue.shutdown = true :=
  fun _ _ h ho => ho.shutdown h

/-- Nothing is asked of a program that joins nobody. -/
theorem safe_of_no_join {α : Type} {p : Prog (poolMachine cfg n γ) α}
    (hp : p.Uses fun o : PoolCall n γ => PoolCall.joins o = false) {s : Pool n γ} :
    Safe (joinContract cfg) (fun _ _ => True) p s := by
  refine .of_uses (fun _ => True) hp (fun _ _ _ _ _ => trivial) trivial ?_
    fun _ _ _ _ _ _ _ _ _ => trivial
  intro o s ho _ hjoins
  rw [ho] at hjoins
  cases hjoins

theorem joinWorkers_joins (ws : List (Fin n)) {s : Pool n γ} (h : s.queue.shutdown = true) :
    Safe (joinContract cfg) (fun _ _ => True) (joinWorkers ws) s := by
  refine (Safe.of_uses (fun s => s.queue.shutdown = true) (joinWorkers_uses ws)
    (fun _ => shutdown_stable) h (fun _ _ _ h _ => h) ?_).mono fun _ _ _ => trivial
  intro o s e r s' _ h _ hexec
  exact (serve_onward (exec_serve hexec).1).shutdown h

/-- The queue is shut down before the first join. -/
theorem stop_joins {s : Pool n γ} : Safe (joinContract cfg) (fun _ _ => True) stop s := by
  unfold stop
  refine .op_bind (fun _ => True) (fun _ _ _ _ => trivial) trivial (fun _ _ h => by cases h) ?_
  intro s e (first : Bool) s' _ _ _
  cases first with
  | false =>
    apply safe_of_no_join
    trivial
  | true =>
    refine .op_bind (fun _ => True) (fun _ _ _ _ => trivial) trivial (fun _ _ h => by cases h) ?_
    intro s e r s' _ _ hexec
    cases (exec_serve hexec).1
    exact joinWorkers_joins _ rfl

theorem runCommand_joins (c : γ) (command : Command) {s : Pool n γ} :
    Safe (joinContract cfg) (fun _ _ => True) (runCommand c command) s := by
  have hreturn : ∀ s : Pool n γ, Safe (joinContract cfg) (fun _ _ => True) (call (.returned c)) s :=
    fun s => by
      apply safe_of_no_join
      exact ⟨rfl, fun _ => trivial⟩
  cases command with
  | submitAsync request channel =>
    apply safe_of_no_join
    refine Prog.Uses.bind (.op_bind rfl fun id => ?_) fun _ => trivial
    split
    · exact ⟨rfl, fun _ => trivial⟩
    · exact ⟨rfl, fun _ => ⟨rfl, fun _ => trivial⟩⟩
  | query id =>
    apply safe_of_no_join
    exact Prog.Uses.op_bind rfl fun _ => trivial
  | shutdownQueue =>
    apply safe_of_no_join
    exact ⟨rfl, fun _ => trivial⟩
  | stop =>
    apply Safe.bind
    exact stop_joins.mono fun _ s _ => hreturn s
  | gracefulShutdown =>
    apply Safe.bind
    refine .op_bind (fun _ => True) (fun _ _ _ _ => trivial) trivial (fun _ _ h => by cases h) ?_
    intro s e r s' _ _ _
    exact stop_joins.mono fun _ s _ => hreturn s
  | destroy =>
    apply Safe.bind
    apply Safe.bind
    refine stop_joins.mono fun _ s _ => ?_
    have hdestroy : Safe (joinContract cfg) (fun _ _ => True) (call .destroyWorkers) s := by
      apply safe_of_no_join
      exact ⟨rfl, fun _ => trivial⟩
    exact hdestroy.mono fun _ s _ => hreturn s

theorem runCommands_joins (c : γ) (commands : List Command) {s : Pool n γ} :
    Safe (joinContract cfg) (fun _ _ => True) (runCommands c commands) s := by
  induction commands generalizing s with
  | nil =>
    apply safe_of_no_join
    trivial
  | cons command rest ih =>
    apply Safe.bind
    exact (runCommand_joins c command).mono fun _ s _ => ih

omit [DecidableEq γ] in
theorem no_join_of_fromWorker {o : PoolCall n γ} (h : o.fromWorker = true) :
    PoolCall.joins o = false := by
  cases o <;> first | rfl | cases h

/-- A worker that took a task goes on, so one whose turn is its last has left the loop. -/
theorem workerTurn_leaves (notifier : Bool) (env : Nat → JudgeEnv) (w : Fin n) {s : Pool n γ} :
    Safe (joinContract cfg) (fun turn s => turn = .done → s.left w = true)
      (workerTurn notifier env w) s := by
  have huses := @workerTurn_uses cfg n γ _ notifier env w
  unfold workerTurn at huses ⊢
  refine .op_bind (fun _ => True) (fun _ _ _ _ => trivial) trivial (fun _ _ h => by cases h) ?_
  intro s e task s' _ _ hexec
  cases task with
  | none =>
    refine .op_bind (fun _ => True) (fun _ _ _ _ => trivial) trivial (fun _ _ h => by cases h) ?_
    intro s e r s' _ _ hexec
    cases (exec_serve hexec).1
    exact .ret (fun s => s.left w = true) (fun _ _ h ho => ho.left w h) (Function.update_self _ _ _)
      fun _ h _ => h
  | some x =>
    have hagain : (do
        notifyUnlessStopped notifier (.onSubmissionStarted w x.2)
        let _ ← judge w (env x.1) x.2
        notifyUnlessStopped notifier (.onSubmissionFinished w x.2)
        pure .again : Prog (poolMachine cfg n γ) Turn).Returns (· = .again) := by
      refine (Prog.Returns.trivial _).bind fun _ _ => ?_
      refine (Prog.Returns.trivial _).bind fun _ _ => ?_
      exact (Prog.Returns.trivial _).bind fun _ _ => rfl
    have hjoins := safe_of_no_join (s := s') ((huses.2 (some x)).mono fun _ => no_join_of_fromWorker)
    refine (hjoins.returns hagain).mono ?_
    rintro turn s ⟨_, rfl⟩ hdone
    cases hdone

/-- An accepted task has a record, which is not unfinished any more once the task has been
processed. -/
structure Recorded (s : Pool n γ) : Prop where
  known : ∀ t ∈ s.accepted, snapshots t.submissionId s.store.history ≠ []
  processed : ∀ t ∈ s.processed, live s.store.store t.submissionId = none

section Record

omit [DecidableEq γ]

variable {s s' : Pool n γ}

theorem snapshots_of_live {t : TracedStore} {id : Int} {r : SubmissionResult} (ht : Tracks t)
    (h : live t.store id = some r) : snapshots id t.history ≠ [] := by
  have hlast := ht.known id r none (live_eq_some.mp h)
  intro hnil
  rw [hnil] at hlast
  cases hlast

theorem snapshots_perform (cfg : CleanupConfig) (q : StoreCall) (i : StoreInput) (t : TracedStore)
    {id : Int} (h : snapshots id t.history ≠ []) :
    snapshots id (perform cfg q i t).2.history ≠ [] := by
  obtain ⟨e, hhistory, _⟩ := perform_effect cfg q i t
  rw [hhistory, snapshots_snoc]
  exact List.append_ne_nil_of_left_ne_nil h _

/-- The tasks that have been processed were accepted. -/
theorem Flow.accepted_of_processed (h : Flow s) {t : SubmissionTask} (ht : t ∈ s.processed) :
    t ∈ s.accepted :=
  (h.processed_subperm.trans h.called_subperm).subset ht

/-- A call of the store that leaves these records alone. -/
theorem Recorded.store (h : Recorded s) (cfg : CleanupConfig) (q : StoreCall) (i : StoreInput)
    (hlive : ∀ t ∈ s.processed, live (perform cfg q i s.store).2.store t.submissionId =
      live s.store.store t.submissionId) (hstore : s'.store = (perform cfg q i s.store).2)
    (haccepted : s'.accepted = s.accepted) (hprocessed : s'.processed = s.processed) :
    Recorded s' := by
  refine ⟨fun t ht => ?_, fun t ht => ?_⟩
  · rw [hstore]
    rw [haccepted] at ht
    exact snapshots_perform cfg q i s.store (h.known t ht)
  · rw [hprocessed] at ht
    rw [hstore, hlive t ht]
    exact h.processed t ht

/-- With an empty queue and no worker in the middle of a task. -/
theorem Flow.processed_at_rest (h : Flow s) (hempty : s.queue.queue = [])
    (hresting : ∀ w, (s.stage w).resting = true) : s.processed.Perm s.accepted := by
  rw [h.order, hempty, List.append_nil, List.perm_iff_count]
  intro t
  have hfetched := h.fetched t
  have hjudging := h.judging t
  rw [inStage_of_resting hresting rfl] at hfetched hjudging
  omega

/-- The last snapshot of a task that has been processed. -/
theorem Recorded.last (h : Recorded s) (hs : Owned s) {t : SubmissionTask}
    (haccepted : t ∈ s.accepted) (hprocessed : t ∈ s.processed) :
    ∃ r, (snapshots t.submissionId s.store.history).getLast? = some r ∧
      isTerminalStatus r.status = true := by
  have hlast := List.getLast?_eq_some_getLast (h.known t haccepted)
  refine ⟨_, hlast, ?_⟩
  by_contra hstatus
  have hpeek := hs.counted.tracks.live _ _ hlast (by simpa using hstatus)
  have hlive := live_eq_some.mpr hpeek
  rw [h.processed t hprocessed] at hlive
  cases hlive

end Record

theorem Recorded.serve {s s' : Pool n γ} (h : Recorded s) (hs : Accounted s) {t : PoolThread n γ}
    {o : PoolCall n γ} {e : PoolInput} {r : o.Reply} (ho : OwnCall s t o)
    (hserve : s.serve cfg e o = some (r, s')) : Recorded s' := by
  cases o with
  | createSubmission c request =>
    cases hserve
    obtain ⟨_, _, hothers⟩ := create_live cfg e.store s.store request
    refine h.store cfg (.createSubmission request) e.store (fun task htask => ?_) rfl rfl rfl
    have hold := (hs.owned.known task (hs.flow.accepted_of_processed htask)).2.1
    exact hothers _ (by omega)
  | store q =>
    cases hserve
    refine h.store cfg q e.store (fun task htask => ?_) rfl rfl rfl
    cases t with
    | caller c =>
      obtain ⟨id, rfl⟩ := ho
      exact get_live cfg e.store s.store id _
    | worker w =>
      obtain ⟨id, old, r, rfl, _, hold, hr, hedge⟩ := ho
      obtain ⟨_, _, hothers⟩ := update_live cfg e.store s.store hold hr hedge
      refine hothers _ ?_
      rintro rfl
      rw [h.processed task htask] at hold
      cases hold
  | push c task =>
    obtain ⟨_, _, rfl⟩ | ⟨_, _, rfl⟩ := push_effect hserve
    · cases t with
      | worker w => exact ho.elim
      | caller c' =>
        refine ⟨fun t ht => ?_, h.processed⟩
        obtain hold | rfl := List.mem_append.mp ht |>.imp_right List.mem_singleton.mp
        · exact h.known t hold
        · exact snapshots_of_live hs.owned.counted.tracks ho.2.2
    · exact h
  | pop w => obtain ⟨_, _, rfl⟩ | ⟨t, rest, _, _, rfl⟩ := pop_effect hserve <;> exact ⟨h.known, h.processed⟩
  | processed w task =>
    cases t with
    | caller c => exact ho.elim
    | worker w' =>
      cases hserve
      refine ⟨h.known, fun t ht => ?_⟩
      obtain hold | rfl := List.mem_append.mp ht |>.imp_right List.mem_singleton.mp
      · exact h.processed t hold
      · exact ho.2.2
  | submitted c id result =>
    rw [submitted_effect hserve]
    exact ⟨h.known, h.processed⟩
  | join w =>
    simp only [Pool.serve] at hserve
    split at hserve
    · cases hserve
      exact ⟨h.known, h.processed⟩
    · cases hserve
  | _ =>
    cases hserve
    exact ⟨h.known, h.processed⟩

section Runs

variable {notifier : Bool} {env : Nat → JudgeEnv} {commands : γ → List Command}
  {store : TracedStore} {retention capacity : Option Int} {c : PoolConfig cfg n γ}

/-- A worker's last turn. -/
def leaves : PoolThread n γ → Turn → Pool n γ → Prop
  | .worker w => fun turn s => turn = .done → s.left w = true
  | .caller _ => fun _ _ => True

theorem join_safe (hr : Reach (nextTurn cfg n γ notifier env commands) anyStep
      (poolStart cfg n γ notifier env commands store) c) :
    ∀ t, Safe (joinContract cfg) (leaves t) (c.thread t) c.shared := by
  have hbody : ∀ t (s : Pool n γ), Safe (joinContract cfg) (leaves t)
      (threadBody cfg n γ notifier env commands t) s := by
    intro t s
    cases t with
    | worker w => exact workerTurn_leaves notifier env w
    | caller c => exact runCommands_joins c (commands c)
  refine hr.safe (fun _ => joinContract cfg) leaves (fun t => hbody t _) ?_ ?_
  · intro t a p s hp _
    cases a with
    | done => cases hp
    | again =>
      cases hp
      exact hbody t s
  · exact fun c t e o k r s' _ _ _ _ hexec => ⟨trivial, fun _ _ => serve_onward (exec_serve hexec).1⟩

theorem recorded_of_bounded (hr : Reach (nextTurn cfg n γ notifier env commands)
      (boundedStep notifier env commands)
      (poolStart cfg n γ notifier env commands (TracedStore.start retention capacity)) c) :
    Recorded c.shared := by
  refine hr.invariant Recorded
    ⟨fun _ h => absurd h List.not_mem_nil, fun _ h => absurd h List.not_mem_nil⟩ ?_
  intro c t e o k r s' hc _ hk hexec hrecorded
  have hown := own_safe hc t
  rw [hk] at hown
  exact hrecorded.serve hown.pre.1 hown.pre.2.1 (exec_serve hexec).1

/-- A worker at rest has left its loop or waits for a task. -/
theorem worker_at_rest (hr : Reach (nextTurn cfg n γ notifier env commands) anyStep
      (poolStart cfg n γ notifier env commands store) c)
    (hrest : AtRest (nextTurn cfg n γ notifier env commands) c)
    (hrunning : c.shared.terminated = false) (w : Fin n) :
    c.shared.queue.queue = [] ∧ (c.shared.stage w).resting = true ∧
      (c.shared.queue.shutdown = true → c.shared.left w = true) := by
  have hstation := flow_safe hr (.worker w)
  have hleaves := join_safe hr (.worker w)
  cases hthread : c.thread (.worker w) with
  | ret turn =>
    cases turn with
    | again => cases hrest.stopped hthread ⟨⟨0, 0, .stable⟩, false⟩
    | done =>
      rw [hthread] at hleaves
      have hleft := hleaves.post rfl
      obtain ⟨hdrained, hresting⟩ := (flow_of_reach hr).out w hleft
      exact ⟨hdrained.2, hresting, fun _ => hleft⟩
  | call o k =>
    rw [hthread] at hstation
    have hblocked := hrest.blocked hthread ⟨⟨0, 0, .stable⟩, false⟩
    obtain ⟨w', rfl, hopen, hempty⟩ | ⟨w', rfl, _⟩ := exec_blocks hrunning hblocked
    · refine ⟨hempty, hstation.pre.2.1, fun hshutdown => ?_⟩
      rw [hopen] at hshutdown
      cases hshutdown
    · exact hstation.pre.elim

/-- A caller at rest is through its commands. -/
theorem caller_at_rest (hr : Reach (nextTurn cfg n γ notifier env commands) anyStep
      (poolStart cfg n γ notifier env commands store) c)
    (hrest : AtRest (nextTurn cfg n γ notifier env commands) c)
    (hrunning : c.shared.terminated = false) (a : γ) : c.thread (.caller a) = .ret .done := by
  have hstation := flow_safe hr (.caller a)
  have hjoins := join_safe hr (.caller a)
  cases hthread : c.thread (.caller a) with
  | ret turn =>
    cases turn with
    | again => cases hrest.stopped hthread ⟨⟨0, 0, .stable⟩, false⟩
    | done => rfl
  | call o k =>
    rw [hthread] at hstation hjoins
    have hblocked := hrest.blocked hthread ⟨⟨0, 0, .stable⟩, false⟩
    obtain ⟨w, rfl, _⟩ | ⟨w, rfl, hinside⟩ := exec_blocks hrunning hblocked
    · cases hstation.pre
    · have hleft := (worker_at_rest hr hrest hrunning w).2.2 (hjoins.pre rfl)
      rw [hinside] at hleft
      cases hleft

/-- Every run of the pool is finite, whatever the threads do and in whatever order they take
turns. Where no thread can move and the process has not been terminated, every command has
returned, the queue is empty, every accepted task has been processed and its last snapshot
is a terminal one, and if the queue is shut down the workers have left their loops. -/
theorem pool_comes_to_rest [Finite γ] (hn : 0 < n)
    (hr : Reach (nextTurn cfg n γ notifier env commands) anyStep
      (poolStart cfg n γ notifier env commands (TracedStore.start retention capacity)) c) :
    Acc (Moves (nextTurn cfg n γ notifier env commands)) c ∧
    (AtRest (nextTurn cfg n γ notifier env commands) c → c.shared.terminated = false →
      (∀ a, c.thread (.caller a) = .ret .done) ∧ c.shared.queue.queue = [] ∧
      c.shared.processed.Perm c.shared.accepted ∧
      (c.shared.bounded → ∀ t ∈ c.shared.accepted,
        ∃ r, (snapshots t.submissionId c.shared.store.history).getLast? = some r ∧
          isTerminalStatus r.status = true) ∧
      (c.shared.queue.shutdown = true → ∀ w, c.shared.left w = true)) := by
  constructor
  · have hfinite : Finite (PoolThread n γ) := poolThread_finite
    refine (poolEconomy notifier env commands).terminates fun t => ?_
    exact hr.uses (threadBody_makes notifier env commands)
      (poolEconomy notifier env commands).calls t
  · intro hrest hrunning
    have hworker := worker_at_rest hr hrest hrunning
    have hempty := (hworker ⟨0, hn⟩).1
    have hperm := (flow_of_reach hr).processed_at_rest hempty fun w => (hworker w).2.1
    refine ⟨caller_at_rest hr hrest hrunning, hempty, hperm, fun hbounded t ht => ?_,
      fun hshutdown w => (hworker w).2.2 hshutdown⟩
    have hreach := reach_bounded hr hbounded
    exact (recorded_of_bounded hreach).last (owned_of_bounded hreach) ht (hperm.mem_iff.mpr ht)

end Runs

section Sample

/-- The thread has returned for good. -/
def hasReturned : Prog (poolMachine {} 1 Unit) Turn → Bool
  | .ret .done => true
  | _ => false

theorem returned_of_hasReturned {p : Prog (poolMachine {} 1 Unit) Turn}
    (h : hasReturned p = true) : p = .ret .done := by
  cases p with
  | ret turn => cases turn <;> first | rfl | cases h
  | call o k => cases h

/-- A submission and a shutdown, and the pool is at rest. -/
theorem one_submission_comes_to_rest :
    ∃ c, Reach (sampleTurn submitThenShut) anyStep (samplePool submitThenShut) c ∧
      AtRest (sampleTurn submitThenShut) c ∧ c.shared.accepted = [sampleTask] ∧
      c.shared.processed.Perm c.shared.accepted ∧
      (∃ r, (snapshots 1 c.shared.store.history).getLast? = some r ∧
        isTerminalStatus r.status = true) ∧ c.shared.left 0 = true := by
  have hrun : (run (sampleTurn submitThenShut) (samplePool submitThenShut)
      submitThenShutSchedule).map (fun c => (hasReturned (c.thread (.caller ())) &&
        hasReturned (c.thread (.worker 0)), decide (c.shared.accepted = [sampleTask] ∧
        c.shared.terminated = false ∧ c.shared.queue.shutdown = true ∧
        creations c.shared.store.history < 2 ^ 31 - 1))) = some (true, true) := by decide +kernel
  obtain ⟨c, hc, hobs⟩ := Option.map_eq_some_iff.mp hrun
  obtain ⟨hreturned, hstate⟩ := Prod.mk.inj hobs
  obtain ⟨hcaller, hworker⟩ := Bool.and_eq_true_iff.mp hreturned
  obtain ⟨haccepted, hrunning, hshutdown, hbounded⟩ := of_decide_eq_true hstate
  have hr := reach_of_run hc
  have hthread : ∀ t, c.thread t = .ret .done := by
    intro t
    cases t with
    | worker w =>
      obtain rfl : w = 0 := Subsingleton.elim w 0
      exact returned_of_hasReturned hworker
    | caller a => exact returned_of_hasReturned hcaller
  have hrest : AtRest (sampleTurn submitThenShut) c := by
    intro t e
    unfold step
    rw [hthread t]
    rfl
  obtain ⟨_, _, hperm, hlast, hleft⟩ := (pool_comes_to_rest (by decide) hr).2 hrest hrunning
  have htask : sampleTask ∈ c.shared.accepted := by
    rw [haccepted]
    exact List.mem_singleton_self _
  exact ⟨c, hr, hrest, haccepted, hperm, hlast hbounded sampleTask htask, hleft hshutdown 0⟩

end Sample

end JudgeServer.Dispatch
