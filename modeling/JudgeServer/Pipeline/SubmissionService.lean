import JudgeServer.Pipeline.SubmissionVerdictReducer
import JudgeServer.Pipeline.StoreHistory
import JudgeServer.Lib.Pieces

/-!
# Judging one submission

`pipeline/SubmissionService.cpp`: `processSubmission` takes a submission through its
stages and persists a snapshot at each of them. Everything it calls outside the store
(the runner factory, the runner, the filesystem) is a value of `JudgeEnv` that may
answer anything or throw. The store is reached through one operation, `persistResult`,
so that the same program runs against the store alone and inside the whole server.
-/

namespace JudgeServer.Pipeline

open JudgeServer.Common
open JudgeServer.Lib.Interleave (Machine Prog)

/-- A `std::exception`, as far as the handler looks at it. -/
structure StdException where
  what : Bytes
  deriving DecidableEq, Repr

/-- A runner; successive `runCase` calls may answer differently on equal arguments. -/
structure ILanguageRunner where
  prepare : SubmissionRequest → Except StdException RunnerPrepareResult
  compile : SubmissionRequest → Except StdException RunnerCompileResult
  runCase : Nat → SubmissionRequest → RunnerCaseInput → Except StdException RunnerCaseResult

/-- The runner factory and the filesystem as `processSubmission` sees them. -/
structure JudgeEnv where
  createRunner : SubmissionLanguage → Except StdException (Option ILanguageRunner)
  runnerWorkDirFor : SubmissionRequest → Except StdException Bytes
  loadCasesForProblem : Bytes → Except StdException (List RunnerCaseInput)

def makeResult (submissionId : Int) (status : SubmissionStatus) (verdict : SubmissionVerdict)
    (message : Bytes := []) : SubmissionResult :=
  { submissionId, status, verdict, message }

section Program

variable {m : Type → Type} [Monad m]

/-- A call outside the store: its answer or its exception. -/
def calling {α : Type} (x : Except StdException α) : ExceptT StdException m α := ExceptT.mk (pure x)

variable (persistResult : Int → SubmissionResult → ExceptT StdException m Bool)

/-- The loop over the cases; `none` when an update was refused. -/
def runCases (runner : ILanguageRunner) (submissionId : Int) (executionRequest : SubmissionRequest) :
    Nat → SubmissionResult → List RunnerCaseInput →
    ExceptT StdException m (Option SubmissionResult)
  | _, runningResult, [] => pure (some runningResult)
  | i, runningResult, caseInput :: rest => do
      let caseResult ← calling (runner.runCase i executionRequest caseInput)
      let runningResult := { runningResult with
        caseResults := runningResult.caseResults ++ [caseResult.result]
        message := caseResult.message }
      if ← persistResult submissionId runningResult then
        runCases runner submissionId executionRequest (i + 1) runningResult rest
      else pure none

/-- From `RUNNING` on. -/
def runStage (env : JudgeEnv) (runner : ILanguageRunner) (submissionId : Int)
    (request executionRequest : SubmissionRequest) : ExceptT StdException m Unit := do
  let cases ← calling (env.loadCasesForProblem request.pid)
  if cases.isEmpty then
    let _ ← persistResult submissionId
      (makeResult submissionId .failed .systemError (ascii "failed to load problem cases"))
    pure ()
  else
    match ← runCases persistResult runner submissionId executionRequest 0
        (makeResult submissionId .running .pending) cases with
    | none => pure ()
    | some runningResult =>
        let _ ← persistResult submissionId
          { makeResult submissionId .finished (summarize runningResult.caseResults)
              runningResult.message with caseResults := runningResult.caseResults }
        pure ()

/-- From `COMPILING` on. -/
def compileStage (env : JudgeEnv) (runner : ILanguageRunner) (submissionId : Int)
    (request executionRequest : SubmissionRequest) : ExceptT StdException m Unit := do
  let compileResult ← calling (runner.compile executionRequest)
  if compileResult.ok then
    if ← persistResult submissionId (makeResult submissionId .running .pending) then
      runStage persistResult env runner submissionId request executionRequest
    else pure ()
  else
    let _ ← persistResult submissionId
      (makeResult submissionId .finished compileResult.verdict compileResult.message)
    pure ()

/-- The body of the `try` block. The guard that removes the work directory never
throws: `remove_all` is given an error code. -/
def judgeStages (env : JudgeEnv) (submissionId : Int) (request : SubmissionRequest) :
    ExceptT StdException m Unit := do
  if ← persistResult submissionId (makeResult submissionId .preparing .pending) then
    match ← calling (env.createRunner request.language) with
    | none =>
        let _ ← persistResult submissionId
          (makeResult submissionId .failed .systemError (ascii "unsupported language"))
        pure ()
    | some runner =>
        let executionRequest := { request with uuid := submissionId }
        let _ ← calling (env.runnerWorkDirFor executionRequest)
        let prepareResult ← calling (runner.prepare executionRequest)
        if prepareResult.ok then
          if ← persistResult submissionId (makeResult submissionId .compiling .pending) then
            compileStage persistResult env runner submissionId request executionRequest
          else pure ()
        else
          let _ ← persistResult submissionId
            (makeResult submissionId .failed .systemError prepareResult.message)
          pure ()
  else pure ()

def processSubmission (env : JudgeEnv) (submissionId : Int) (request : SubmissionRequest) :
    ExceptT StdException m Unit :=
  if submissionId ≤ 0 then pure ()
  else
    tryCatch (judgeStages persistResult env submissionId request) fun ex => do
      let _ ← persistResult submissionId (makeResult submissionId .failed .systemError ex.what)
      pure ()

end Program

section Calls

variable {σ ε : Type} {M : Machine σ ε} {P : M.Op → Prop}

theorem uses_calling {α β : Type} {x : Except StdException α} {f : α → ExceptT StdException (Prog M) β}
    (h : ∀ a, (f a).run.Uses P) : (calling x >>= f).run.Uses P := by
  cases x with
  | error ex => trivial
  | ok a => exact h a

variable {persist : Int → SubmissionResult → ExceptT StdException (Prog M) Bool}
  {id : Int} (hp : ∀ r, (persist id r).run.Uses P)

include hp

theorem runCases_uses (runner : ILanguageRunner) (request : SubmissionRequest)
    (cases : List RunnerCaseInput) (i : Nat) (running : SubmissionResult) :
    (runCases persist runner id request i running cases).run.Uses P := by
  induction cases generalizing i running with
  | nil => trivial
  | cons c rest ih =>
    refine uses_calling fun r => ?_
    refine Prog.Uses.except_bind (hp _) fun accepted => ?_
    cases accepted with
    | true => exact ih _ _
    | false => trivial

theorem runStage_uses (env : JudgeEnv) (runner : ILanguageRunner)
    (request executionRequest : SubmissionRequest) :
    (runStage persist env runner id request executionRequest).run.Uses P := by
  refine uses_calling fun cases => ?_
  split
  · exact Prog.Uses.except_bind (hp _) fun _ => trivial
  · refine Prog.Uses.except_bind (runCases_uses hp runner executionRequest cases 0 _) fun r => ?_
    cases r with
    | none => trivial
    | some running => exact Prog.Uses.except_bind (hp _) fun _ => trivial

theorem compileStage_uses (env : JudgeEnv) (runner : ILanguageRunner)
    (request executionRequest : SubmissionRequest) :
    (compileStage persist env runner id request executionRequest).run.Uses P := by
  refine uses_calling fun c => ?_
  split
  · refine Prog.Uses.except_bind (hp _) fun accepted => ?_
    cases accepted with
    | true => exact runStage_uses hp env runner request executionRequest
    | false => trivial
  · exact Prog.Uses.except_bind (hp _) fun _ => trivial

theorem judgeStages_uses (env : JudgeEnv) (request : SubmissionRequest) :
    (judgeStages persist env id request).run.Uses P := by
  refine Prog.Uses.except_bind (hp _) fun accepted => ?_
  cases accepted with
  | false => trivial
  | true =>
    refine uses_calling fun created => ?_
    cases created with
    | none => exact Prog.Uses.except_bind (hp _) fun _ => trivial
    | some runner =>
      refine uses_calling fun _ => uses_calling fun p => ?_
      split
      · refine Prog.Uses.except_bind (hp _) fun accepted => ?_
        cases accepted with
        | true => exact compileStage_uses hp env runner request _
        | false => trivial
      · exact Prog.Uses.except_bind (hp _) fun _ => trivial

/-- The only calls `processSubmission` makes are its updates. -/
theorem processSubmission_uses (env : JudgeEnv) (request : SubmissionRequest) :
    (processSubmission persist env id request).run.Uses P := by
  unfold processSubmission
  split
  · trivial
  · refine Prog.Uses.bind (judgeStages_uses hp env request) ?_
    intro x
    cases x with
    | ok a => trivial
    | error ex => exact Prog.Uses.except_bind (hp _) fun _ => trivial

end Calls

/-- `ResultStore::updateResult` as the program's operation. -/
def persistResult (cfg : CleanupConfig) (submissionId : Int) (result : SubmissionResult) :
    ExceptT StdException (Prog (storeMachine cfg)) Bool :=
  ExceptT.lift (Prog.op (storeMachine cfg) (.updateResult submissionId result))

end JudgeServer.Pipeline
