import JudgeServer.Pipeline.SubmissionOutcome
import JudgeServer.Lib.Pieces

/-!
# Judging inside a larger system

`processSubmission` reaches the store through one operation. Wherever that operation is
one of a larger machine, the program is the store's own with its calls replaced, so what
is known of its script holds there too.
-/

namespace JudgeServer.Pipeline

open JudgeServer.Common
open JudgeServer.Lib.Interleave

section Embedding

variable {σ ε : Type} {N : Machine σ ε} (cfg : CleanupConfig)
  (f : (c : (storeMachine cfg).Op) → Prog N ((storeMachine cfg).Res c))

/-- `persistResult` on another machine. -/
def persistOn (submissionId : Int) (result : SubmissionResult) :
    ExceptT StdException (Prog N) Bool :=
  ExceptT.lift (f (StoreCall.updateResult submissionId result))

theorem hoist_persist (id : Int) (r : SubmissionResult) :
    Prog.hoist f (persistResult cfg id r) = persistOn cfg f id r := rfl

theorem hoist_calling {α : Type} (x : Except StdException α) :
    Prog.hoist f (calling x) = calling x := rfl

theorem runCases_hoist (runner : ILanguageRunner) (id : Int) (request : SubmissionRequest)
    (cases : List RunnerCaseInput) (i : Nat) (running : SubmissionResult) :
    Prog.hoist f
      (runCases (persistResult cfg) runner id request i running cases) =
      runCases (persistOn cfg f) runner id request i running cases := by
  induction cases generalizing i running with
  | nil => rfl
  | cons c rest ih =>
    simp only [runCases, Prog.hoist_bind, hoist_calling, hoist_persist]
    congr 1
    funext r
    congr 1
    funext accepted
    cases accepted with
    | true => exact ih _ _
    | false => rfl

/-- A final update. -/
theorem persist_hoist (id : Int) (r : SubmissionResult) :
    Prog.hoist f (persistResult cfg id r >>= fun _ => pure ()) =
      (persistOn cfg f id r >>= fun _ => pure ()) := by
  rw [Prog.hoist_bind, hoist_persist]
  rfl

theorem runStage_hoist (env : JudgeEnv) (runner : ILanguageRunner) (id : Int)
    (request executionRequest : SubmissionRequest) :
    Prog.hoist f (runStage (persistResult cfg) env runner id request executionRequest) =
      runStage (persistOn cfg f) env runner id request executionRequest := by
  simp only [runStage, Prog.hoist_bind, hoist_calling]
  congr 1
  funext cases
  split
  · exact persist_hoist cfg f _ _
  · rw [Prog.hoist_bind, runCases_hoist]
    congr 1
    funext r
    cases r with
    | none => rfl
    | some running => exact persist_hoist cfg f _ _

theorem compileStage_hoist (env : JudgeEnv) (runner : ILanguageRunner) (id : Int)
    (request executionRequest : SubmissionRequest) :
    Prog.hoist f (compileStage (persistResult cfg) env runner id request executionRequest) =
      compileStage (persistOn cfg f) env runner id request executionRequest := by
  simp only [compileStage, Prog.hoist_bind, hoist_calling]
  congr 1
  funext compiled
  split
  · rw [Prog.hoist_bind, hoist_persist]
    congr 1
    funext accepted
    cases accepted with
    | true => exact runStage_hoist cfg f env runner id request executionRequest
    | false => rfl
  · exact persist_hoist cfg f _ _

theorem judgeStages_hoist (env : JudgeEnv) (id : Int) (request : SubmissionRequest) :
    Prog.hoist f (judgeStages (persistResult cfg) env id request) =
      judgeStages (persistOn cfg f) env id request := by
  simp only [judgeStages, Prog.hoist_bind, hoist_persist]
  congr 1
  funext accepted
  cases accepted with
  | false => rfl
  | true =>
    simp only [if_true, Prog.hoist_bind, hoist_calling]
    congr 1
    funext created
    cases created with
    | none => exact persist_hoist cfg f _ _
    | some runner =>
      simp only [Prog.hoist_bind, hoist_calling]
      congr 1
      funext _
      congr 1
      funext prepared
      split
      · rw [Prog.hoist_bind, hoist_persist]
        congr 1
        funext accepted
        cases accepted with
        | true => exact compileStage_hoist cfg f env runner id request _
        | false => rfl
      · exact persist_hoist cfg f _ _

/-- `processSubmission` on another machine is the store's program with its calls replaced. -/
theorem processSubmission_hoist (env : JudgeEnv) (id : Int) (request : SubmissionRequest) :
    Prog.hoist f (processSubmission (persistResult cfg) env id request) =
      processSubmission (persistOn cfg f) env id request := by
  unfold processSubmission
  split
  · rfl
  · rw [Prog.hoist_tryCatch, judgeStages_hoist]
    congr 1
    funext ex
    exact persist_hoist cfg f _ _

end Embedding
end JudgeServer.Pipeline
