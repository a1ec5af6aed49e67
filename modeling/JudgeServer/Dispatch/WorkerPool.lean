import JudgeServer.Dispatch.SubmissionQueue
import JudgeServer.Pipeline.SubmissionEmbedding
import JudgeServer.Pipeline.StoreMachine

/-!
# The worker pool

`dispatch/JudgeWorkerPool.cpp` with the submission half of `pipeline/SubmissionService.cpp`:
callers submit tasks, query the store and shut the pool down; workers wait for tasks,
judge them and notify. Every step that another thread can come between is one `PoolCall`.
The marks among the calls (`submitted`, `processSubmission`, `processed`, `returned`)
change nothing the program reads: they keep the record of who is where.
-/

namespace JudgeServer.Dispatch

open JudgeServer.Common
open JudgeServer.Pipeline
open JudgeServer.Lib.Interleave

/-- Where a worker is with the task it took last. -/
inductive Stage where
  | idle
  | fetched (task : SubmissionTask)
  | judging (task : SubmissionTask)
  | judged (task : SubmissionTask)
  deriving DecidableEq

/-- Who answers for an id: a `submitAsync` in progress, the queue, a worker, or nobody. -/
inductive Place (n : Nat) (γ : Type) where
  | nowhere
  | pushing (caller : γ)
  | queued
  | held (worker : Fin n)
  deriving DecidableEq

structure Pool (n : Nat) (γ : Type) where
  store : TracedStore := {}
  queue : SubmissionQueue SubmissionTask := {}
  stopped : Bool := false
  /-- The workers that have left `workerLoop`, and those that have been joined. -/
  left : Fin n → Bool := fun _ => false
  joined : Fin n → Bool := fun _ => false
  /-- `std::terminate` has been called. -/
  terminated : Bool := false
  /-- The tasks in the order in which `push` accepted and `pop` returned them. -/
  accepted : List SubmissionTask := []
  popped : List SubmissionTask := []
  /-- The calls of `processSubmission`, those that returned, and the final notifications. -/
  called : List SubmissionTask := []
  processed : List SubmissionTask := []
  finished : List SubmissionTask := []
  stage : Fin n → Stage := fun _ => .idle
  place : Int → Place n γ := fun _ => .nowhere

inductive PoolCall (n : Nat) (γ : Type) where
  | createSubmission (caller : γ) (request : SubmissionRequest)
  | push (caller : γ) (task : SubmissionTask)
  | submitted (caller : γ) (id result : Int)
  | store (c : StoreCall)
  | pop (worker : Fin n)
  | loadStopped
  | onSubmissionStarted (worker : Fin n) (task : SubmissionTask)
  | onSubmissionFinished (worker : Fin n) (task : SubmissionTask)
  | processSubmission (worker : Fin n) (task : SubmissionTask)
  | processed (worker : Fin n) (task : SubmissionTask)
  | leaveLoop (worker : Fin n)
  | shutdownQueue
  | exchangeStopped
  | storeStopped
  | joinable (worker : Fin n)
  | join (worker : Fin n)
  | destroyWorkers
  | returned (caller : γ)

def PoolCall.Reply {n : Nat} {γ : Type} : PoolCall n γ → Type
  | .createSubmission _ _ => Int
  | .push _ _ => Bool
  | .store c => c.Reply
  | .pop _ => Option (Nat × SubmissionTask)
  | .loadStopped => Bool
  | .exchangeStopped => Bool
  | .joinable _ => Bool
  | _ => Unit

/-- What the environment decides: the store's clock and order, and whether a callback throws. -/
structure PoolInput where
  store : StoreInput
  throws : Bool := false

section Calls

variable {n : Nat} {γ : Type} [DecidableEq γ]

/-- A callback of the notifier; an exception out of a worker ends the process. -/
def Pool.notify (s : Pool n γ) (e : PoolInput) : Pool n γ :=
  { s with terminated := e.throws }

/-- One call of a running process; `none` while it blocks. -/
def Pool.serve (cfg : CleanupConfig) (s : Pool n γ) (e : PoolInput) :
    (o : PoolCall n γ) → Option (o.Reply × Pool n γ)
  | .createSubmission caller request =>
      let r := perform cfg (.createSubmission request) e.store s.store
      some (r.1, { s with store := r.2, place := Function.update s.place r.1 (.pushing caller) })
  | .push _ task =>
      let r := s.queue.push task
      some (r.1, if r.1 then
          { s with
            queue := r.2
            accepted := s.accepted ++ [task]
            place := Function.update s.place task.submissionId .queued }
        else s)
  | .submitted caller id _ =>
      some ((), if s.place id = .pushing caller then
          { s with place := Function.update s.place id .nowhere }
        else s)
  | .store c =>
      let r := perform cfg c e.store s.store
      some (r.1, { s with store := r.2 })
  | .pop w =>
      match s.queue.pop with
      | none => none
      | some (none, q) => some (none, { s with queue := q })
      | some (some task, q) => some (some (s.popped.length, task),
          { s with
            queue := q
            popped := s.popped ++ [task]
            stage := Function.update s.stage w (.fetched task)
            place := Function.update s.place task.submissionId (.held w) })
  | .loadStopped => some (s.stopped, s)
  | .onSubmissionStarted _ _ => some ((), s.notify e)
  | .onSubmissionFinished w task =>
      some ((), { s.notify e with
        finished := s.finished ++ [task]
        stage := Function.update s.stage w .idle })
  | .processSubmission w task =>
      some ((), { s with
        called := s.called ++ [task]
        stage := Function.update s.stage w (.judging task) })
  | .processed w task =>
      some ((), { s with
        processed := s.processed ++ [task]
        stage := Function.update s.stage w (.judged task)
        place := Function.update s.place task.submissionId .nowhere })
  | .leaveLoop w => some ((), { s with left := Function.update s.left w true })
  | .shutdownQueue => some ((), { s with queue := s.queue.close })
  | .exchangeStopped => some (!s.stopped, { s with stopped := true })
  | .storeStopped => some ((), { s with stopped := true })
  | .joinable w => some (!s.joined w, s)
  | .join w =>
      if s.left w then some ((), { s with joined := Function.update s.joined w true }) else none
  | .destroyWorkers => some ((), { s with terminated := decide (∃ w, s.joined w = false) })
  | .returned _ => some ((), s)

def Pool.exec (cfg : CleanupConfig) (o : PoolCall n γ) (e : PoolInput) (s : Pool n γ) :
    Option (o.Reply × Pool n γ) :=
  if s.terminated then none else s.serve cfg e o

def poolMachine (cfg : CleanupConfig) (n : Nat) (γ : Type) [DecidableEq γ] :
    Machine (Pool n γ) PoolInput where
  Op := PoolCall n γ
  Res := PoolCall.Reply
  exec := Pool.exec cfg

end Calls

section Programs

variable {cfg : CleanupConfig} {n : Nat} {γ : Type} [DecidableEq γ]

def call (o : PoolCall n γ) : Prog (poolMachine cfg n γ) o.Reply :=
  Prog.op (poolMachine cfg n γ) o

/-- `-1` when no id was handed out or the queue refused the task. -/
def submitAsync (caller : γ) (request : SubmissionRequest) (replyChannelId : Bytes) :
    Prog (poolMachine cfg n γ) Int := do
  let submissionId : Int ← call (.createSubmission caller request)
  if submissionId ≤ 0 then
    call (.submitted caller submissionId (-1))
    pure (-1)
  else
    let accepted : Bool ← call (.push caller ⟨submissionId, request, replyChannelId⟩)
    let result : Int := if accepted then submissionId else -1
    call (.submitted caller submissionId result)
    pure result

/-- `if (notifier_ != nullptr && !stopped_.load())`. -/
def notifyUnlessStopped (notifier : Bool) (callback : PoolCall n γ) :
    Prog (poolMachine cfg n γ) Unit := do
  if notifier then
    let stopped : Bool ← call .loadStopped
    if stopped then pure ()
    else
      let _ ← call callback
      pure ()
  else pure ()

/-- The store as part of the pool. -/
def storeCall (c : (storeMachine cfg).Op) : Prog (poolMachine cfg n γ) ((storeMachine cfg).Res c) :=
  call (.store c)

def processSubmission (env : JudgeEnv) (submissionId : Int) (request : SubmissionRequest) :
    Prog (poolMachine cfg n γ) (Except StdException Unit) :=
  (Pipeline.processSubmission (persistOn cfg storeCall) env submissionId request).run

/-- `service_.processSubmission(task.submission_id, task.request)`, with the marks of its call
and of its return. -/
def judge (w : Fin n) (env : JudgeEnv) (task : SubmissionTask) :
    Prog (poolMachine cfg n γ) (Except StdException Unit) := do
  call (.processSubmission w task)
  let result ← processSubmission env task.submissionId task.request
  call (.processed w task)
  pure result

/-- A turn of `workerLoop`, and whether it is followed by another. -/
inductive Turn where
  | again
  | done
  deriving DecidableEq

/-- Each submission meets its own environment. -/
def workerTurn (notifier : Bool) (env : Nat → JudgeEnv) (w : Fin n) :
    Prog (poolMachine cfg n γ) Turn := do
  let task : Option (Nat × SubmissionTask) ← call (.pop w)
  match task with
  | none =>
      call (.leaveLoop w)
      pure .done
  | some (ticket, task) =>
      notifyUnlessStopped notifier (.onSubmissionStarted w task)
      let _ ← judge w (env ticket) task
      notifyUnlessStopped notifier (.onSubmissionFinished w task)
      pure .again

def joinWorkers : List (Fin n) → Prog (poolMachine cfg n γ) Unit
  | [] => pure ()
  | w :: rest => do
      let joinable : Bool ← call (.joinable w)
      if joinable then
        call (.join w)
        joinWorkers rest
      else joinWorkers rest

/-- `JudgeWorkerPool::stop`: only the call that sets the flag does the work. -/
def stop : Prog (poolMachine cfg n γ) Unit := do
  let first : Bool ← call .exchangeStopped
  if first then
    call .shutdownQueue
    joinWorkers (List.finRange n)
  else pure ()

def gracefulShutdown : Prog (poolMachine cfg n γ) Unit := do
  call .storeStopped
  stop

/-- The destructor; `workers_` is destroyed after its body. -/
def destroy : Prog (poolMachine cfg n γ) Unit := do
  stop
  call .destroyWorkers

/-- What a thread outside the pool may do. -/
inductive Command where
  | submitAsync (request : SubmissionRequest) (replyChannelId : Bytes)
  | query (id : Int)
  | shutdownQueue
  | stop
  | gracefulShutdown
  | destroy

def runCommand (caller : γ) : Command → Prog (poolMachine cfg n γ) Unit
  | .submitAsync request replyChannelId => do
      let _ ← submitAsync caller request replyChannelId
      pure ()
  | .query id => do
      let _ ← call (.store (.getResult id))
      pure ()
  | .shutdownQueue => call .shutdownQueue
  | .stop => do
      stop
      call (.returned caller)
  | .gracefulShutdown => do
      gracefulShutdown
      call (.returned caller)
  | .destroy => do
      destroy
      call (.returned caller)

def runCommands (caller : γ) : List Command → Prog (poolMachine cfg n γ) Turn
  | [] => pure .done
  | command :: rest => do
      runCommand caller command
      runCommands caller rest

end Programs

/-- The workers of the pool and the threads around it. -/
inductive PoolThread (n : Nat) (γ : Type) where
  | worker (w : Fin n)
  | caller (c : γ)
  deriving DecidableEq

section System

variable (cfg : CleanupConfig) (n : Nat) (γ : Type) [DecidableEq γ] (notifier : Bool)
  (env : Nat → JudgeEnv) (commands : γ → List Command)

def threadBody : PoolThread n γ → Prog (poolMachine cfg n γ) Turn
  | .worker w => workerTurn notifier env w
  | .caller c => runCommands c (commands c)

abbrev PoolConfig := Config (poolMachine cfg n γ) (PoolThread n γ) Turn

/-- A constructed pool: every worker at the start of its loop. -/
def poolStart (store : TracedStore) : PoolConfig cfg n γ where
  shared := { store := store }
  thread := threadBody cfg n γ notifier env commands

def nextTurn (t : PoolThread n γ) : Turn → Option (Prog (poolMachine cfg n γ) Turn)
  | .again => some (threadBody cfg n γ notifier env commands t)
  | .done => none

end System

end JudgeServer.Dispatch
