import JudgeServer.Runner.LanguageRunners

/-!
# Judging with the runners' effects

`processSubmission` once more, with runners that act on the machine and with the guard
that removes the work directory when the `try` block is left. Where the runners are given
by their answers and the guard does nothing, it is the program of `SubmissionService`.
-/

namespace JudgeServer.Runner

open JudgeServer.Common
open JudgeServer.Pipeline

/-- What `processSubmission` calls, with effects. -/
structure Surroundings (m : Type → Type) where
  createRunner : SubmissionLanguage → ExceptT StdException m (Option (LanguageRunner m))
  runnerWorkDirFor : SubmissionRequest → ExceptT StdException m Bytes
  loadCasesForProblem : Bytes → ExceptT StdException m (List RunnerCaseInput)
  /-- The destructor of `RunnerWorkDirCleanupGuard`. -/
  cleanup : Bytes → m Unit

section Program

variable {m : Type → Type} [Monad m]
  (persistResult : Int → SubmissionResult → ExceptT StdException m Bool)

def hostedCases (runner : LanguageRunner m) (submissionId : Int)
    (executionRequest : SubmissionRequest) :
    Nat → SubmissionResult → List RunnerCaseInput →
    ExceptT StdException m (Option SubmissionResult)
  | _, runningResult, [] => pure (some runningResult)
  | i, runningResult, caseInput :: rest => do
      let caseResult ← runner.runCase i executionRequest caseInput
      let runningResult := { runningResult with
        caseResults := runningResult.caseResults ++ [caseResult.result]
        message := caseResult.message }
      if ← persistResult submissionId runningResult then
        hostedCases runner submissionId executionRequest (i + 1) runningResult rest
      else pure none

def hostedRun (env : Surroundings m) (runner : LanguageRunner m) (submissionId : Int)
    (request executionRequest : SubmissionRequest) : ExceptT StdException m Unit := do
  let cases ← env.loadCasesForProblem request.pid
  if cases.isEmpty then
    let _ ← persistResult submissionId
      (makeResult submissionId .failed .systemError (ascii "failed to load problem cases"))
    pure ()
  else
    match ← hostedCases persistResult runner submissionId executionRequest 0
        (makeResult submissionId .running .pending) cases with
    | none => pure ()
    | some runningResult =>
        let _ ← persistResult submissionId
          { makeResult submissionId .finished (summarize runningResult.caseResults)
              runningResult.message with caseResults := runningResult.caseResults }
        pure ()

def hostedCompile (env : Surroundings m) (runner : LanguageRunner m) (submissionId : Int)
    (request executionRequest : SubmissionRequest) : ExceptT StdException m Unit := do
  let compileResult ← runner.compile executionRequest
  if compileResult.ok then
    if ← persistResult submissionId (makeResult submissionId .running .pending) then
      hostedRun persistResult env runner submissionId request executionRequest
    else pure ()
  else
    let _ ← persistResult submissionId
      (makeResult submissionId .finished compileResult.verdict compileResult.message)
    pure ()

/-- The part of the `try` block in which the guard lives. -/
def hostedPrepare (env : Surroundings m) (runner : LanguageRunner m) (submissionId : Int)
    (request executionRequest : SubmissionRequest) : ExceptT StdException m Unit := do
  let prepareResult ← runner.prepare executionRequest
  if prepareResult.ok then
    if ← persistResult submissionId (makeResult submissionId .compiling .pending) then
      hostedCompile persistResult env runner submissionId request executionRequest
    else pure ()
  else
    let _ ← persistResult submissionId
      (makeResult submissionId .failed .systemError prepareResult.message)
    pure ()

/-- The guard's destructor runs however the block is left. -/
def guarded (env : Surroundings m) (workDir : Bytes) (body : ExceptT StdException m Unit) :
    ExceptT StdException m Unit :=
  ExceptT.mk do
    let result ← body.run
    env.cleanup workDir
    pure result

def hostedStages (env : Surroundings m) (submissionId : Int) (request : SubmissionRequest) :
    ExceptT StdException m Unit := do
  if ← persistResult submissionId (makeResult submissionId .preparing .pending) then
    match ← env.createRunner request.language with
    | none =>
        let _ ← persistResult submissionId
          (makeResult submissionId .failed .systemError (ascii "unsupported language"))
        pure ()
    | some runner =>
        let executionRequest := { request with uuid := submissionId }
        let workDir ← env.runnerWorkDirFor executionRequest
        guarded env workDir
          (hostedPrepare persistResult env runner submissionId request executionRequest)
  else pure ()

def hostedSubmission (env : Surroundings m) (submissionId : Int) (request : SubmissionRequest) :
    ExceptT StdException m Unit :=
  if submissionId ≤ 0 then pure ()
  else
    tryCatch (hostedStages persistResult env submissionId request) fun ex => do
      let _ ← persistResult submissionId (makeResult submissionId .failed .systemError ex.what)
      pure ()

end Program

section Answers

variable {m : Type → Type} [Monad m]
  (persistResult : Int → SubmissionResult → ExceptT StdException m Bool)

def answering (runner : ILanguageRunner) : LanguageRunner m where
  prepare := fun request => calling (runner.prepare request)
  compile := fun request => calling (runner.compile request)
  runCase := fun i request caseInput => calling (runner.runCase i request caseInput)

def answered (env : JudgeEnv) : Surroundings m where
  createRunner := fun language =>
    calling ((env.createRunner language).map fun runner => runner.map answering)
  runnerWorkDirFor := fun request => calling (env.runnerWorkDirFor request)
  loadCasesForProblem := fun pid => calling (env.loadCasesForProblem pid)
  cleanup := fun _ => pure ()

theorem hostedCases_answered (runner : ILanguageRunner) (id : Int) (request : SubmissionRequest)
    (cases : List RunnerCaseInput) (i : Nat) (running : SubmissionResult) :
    hostedCases persistResult (answering runner) id request i running cases =
      runCases persistResult runner id request i running cases := by
  induction cases generalizing i running with
  | nil => rfl
  | cons c rest ih =>
    simp only [hostedCases, runCases, ih]
    rfl

theorem hostedRun_answered (env : JudgeEnv) (runner : ILanguageRunner) (id : Int)
    (request executionRequest : SubmissionRequest) :
    hostedRun persistResult (answered env) (answering runner) id request executionRequest =
      runStage persistResult env runner id request executionRequest := by
  unfold hostedRun runStage
  simp only [hostedCases_answered]
  rfl

theorem hostedCompile_answered (env : JudgeEnv) (runner : ILanguageRunner) (id : Int)
    (request executionRequest : SubmissionRequest) :
    hostedCompile persistResult (answered env) (answering runner) id request executionRequest =
      compileStage persistResult env runner id request executionRequest := by
  unfold hostedCompile compileStage
  simp only [hostedRun_answered]
  rfl

theorem hostedPrepare_answered (env : JudgeEnv) (runner : ILanguageRunner) (id : Int)
    (request executionRequest : SubmissionRequest) :
    hostedPrepare persistResult (answered env) (answering runner) id request executionRequest = (do
      let prepareResult ← calling (runner.prepare executionRequest)
      if prepareResult.ok then
        if ← persistResult id (makeResult id .compiling .pending) then
          compileStage persistResult env runner id request executionRequest
        else pure ()
      else
        let _ ← persistResult id (makeResult id .failed .systemError prepareResult.message)
        pure ()) := by
  unfold hostedPrepare
  simp only [hostedCompile_answered]
  rfl

variable [LawfulMonad m]

theorem guarded_answered (env : JudgeEnv) (workDir : Bytes) (body : ExceptT StdException m Unit) :
    guarded (answered env) workDir body = body := by
  unfold guarded answered
  simp only [pure_bind, bind_pure]
  rfl

theorem calling_ok_bind {α β : Type} (a : α) (f : α → ExceptT StdException m β) :
    (calling (.ok a) >>= f) = f a := by
  apply ExceptT.ext
  exact pure_bind (m := m) (Except.ok a) (ExceptT.bindCont f)

theorem calling_error_bind {α β : Type} (ex : StdException) (f : α → ExceptT StdException m β) :
    (calling (.error ex) >>= f) = calling (.error ex) := by
  apply ExceptT.ext
  exact pure_bind (m := m) (Except.error ex) (ExceptT.bindCont f)

theorem hostedStages_answered (env : JudgeEnv) (id : Int) (request : SubmissionRequest) :
    hostedStages persistResult (answered env) id request =
      judgeStages persistResult env id request := by
  unfold hostedStages judgeStages
  congr 1
  funext accepted
  cases accepted with
  | false => rfl
  | true =>
    simp only [if_true]
    cases hcreated : env.createRunner request.language with
    | error ex => simp only [answered, hcreated, Except.map, calling_error_bind]
    | ok created =>
      cases created with
      | none => simp only [answered, hcreated, Except.map, calling_ok_bind, Option.map_none]
      | some runner =>
        have hcreate : (answered env).createRunner request.language =
            (calling (.ok (some (answering runner))) :
              ExceptT StdException m (Option (LanguageRunner m))) := by
          simp only [answered, hcreated, Except.map, Option.map_some]
        rw [hcreate, calling_ok_bind, calling_ok_bind]
        simp only [guarded_answered, hostedPrepare_answered]
        rfl

/-- With answers in the place of effects this is `processSubmission`. -/
theorem hostedSubmission_answered (env : JudgeEnv) (id : Int) (request : SubmissionRequest) :
    hostedSubmission persistResult (answered env) id request =
      processSubmission persistResult env id request := by
  unfold hostedSubmission processSubmission
  rw [hostedStages_answered]

end Answers

end JudgeServer.Runner
