import JudgeServer.Runner.JudgingRecords
import JudgeServer.Sjudge.Success

/-!
# What a snapshot reports

The case results in a snapshot are those of the problem's cases in their order, and each of
them is what the machine has answered for the submission: the numbers of a sandboxed run
and the verdict of the run or, where the run succeeded, of the comparison directly behind
it. Only a runner that refuses to run a case reports something else, a system error.
-/

namespace JudgeServer.Runner

open JudgeServer.Common
open JudgeServer.Pipeline
open JudgeServer.Lib.Interleave
open JudgeServer.Lib.LexicalPath
open JudgeServer.Sjudge (JudgeConfig JudgeResult)

/-- What is executed for a submission; there is no runner for C. -/
def executableOf (settings : RunnerSettings) (request : SubmissionRequest) : Option Bytes :=
  match request.language with
  | .cpp => some (join (workDirIn settings.temp request) (ascii "solution"))
  | .python => some (join (workDirIn settings.temp request) (ascii "run_python.sh"))
  | .c => none

def userOutputIn (settings : RunnerSettings) (request : SubmissionRequest)
    (testCase : RunnerCaseInput) : Bytes :=
  join (workDirIn settings.temp request) (userOutputName testCase)

/-- The answers of a comparison, and the verdict they lead to. -/
inductive Comparison (input expected user : Bytes) : SubmissionVerdict → List Answered → Prop where
  | checker (status : Int) (verdict : SubmissionVerdict)
      (h : verdict = if status = 0 then .ac else .wa) : Comparison input expected user verdict
      [⟨.pathExists checkerPath, (.ok true : Except StdException Bool)⟩,
        ⟨.system (checkerPath ++ ascii " " ++ input ++ ascii " " ++ user ++ ascii " " ++ expected) [],
          status⟩]
  | lines (expectedText userText : Bytes) (verdict : SubmissionVerdict)
      (h : verdict = if normalizeOutputLines expectedText = normalizeOutputLines userText then .ac
        else .wa) : Comparison input expected user verdict
      [⟨.pathExists checkerPath, (.ok false : Except StdException Bool)⟩,
        ⟨.readFile expected, expectedText⟩, ⟨.readFile user, userText⟩]

/-- A case was run, and its output compared if the run succeeded. -/
inductive RunWith (config : JudgeConfig) (testCase : RunnerCaseInput) (result : JudgeResult) :
    SubmissionVerdict → List Answered → Prop where
  | stopped (h : result.result ≠ .success) :
      RunWith config testCase result (mapJudgeResultToVerdict result.result.value)
        [⟨.runSjudger config, result⟩]
  | compared {verdict : SubmissionVerdict} {comparison : List Answered}
      (h : result.result = .success)
      (hc : Comparison testCase.inputPath testCase.expectedOutputPath config.outputPath verdict
        comparison) :
      RunWith config testCase result verdict (⟨.runSjudger config, result⟩ :: comparison)

theorem mapJudgeResultToVerdict_ac (result : JudgeResult) :
    mapJudgeResultToVerdict result.result.value = .ac ↔ result.result = .success := by
  cases result.result <;> decide

theorem mapJudgeResultToVerdict_ne_pending (n : Nat) : mapJudgeResultToVerdict n ≠ .pending := by
  unfold mapJudgeResultToVerdict
  split <;> decide

/-- The run is on record. -/
theorem RunWith.ran {config : JudgeConfig} {testCase : RunnerCaseInput} {result : JudgeResult}
    {verdict : SubmissionVerdict} {l : List Answered} (h : RunWith config testCase result verdict l) :
    ⟨.runSjudger config, result⟩ ∈ l := by
  cases h <;> exact List.mem_cons_self

theorem Comparison.ne_pending {input expected user : Bytes} {verdict : SubmissionVerdict}
    {l : List Answered} (h : Comparison input expected user verdict l) : verdict ≠ .pending := by
  cases h with
  | checker status _ h | lines expectedText userText _ h =>
    rw [h]
    split <;> decide

theorem RunWith.ne_pending {config : JudgeConfig} {testCase : RunnerCaseInput}
    {result : JudgeResult} {verdict : SubmissionVerdict} {l : List Answered}
    (h : RunWith config testCase result verdict l) : verdict ≠ .pending := by
  cases h with
  | stopped _ => exact mapJudgeResultToVerdict_ne_pending _
  | compared _ hc => exact hc.ne_pending

/-- The result of a case whose runner refused to run it. -/
def refusedResult (testCase : RunnerCaseInput) : SubmissionCaseResult :=
  { seqId := testCase.seqId, verdict := .systemError }

/-- A case result is in agreement with the record of the submission. -/
def CaseReported (cfg : CleanupConfig) (settings : RunnerSettings) (id : Int)
    (request : SubmissionRequest) (l : List Answered) (testCase : RunnerCaseInput)
    (r : SubmissionCaseResult) : Prop :=
  r = refusedResult testCase ∨ ∃ executable result verdict piece,
    executableOf settings request = some executable ∧
    RunWith (caseConfig (recordedHost cfg settings id) executable testCase
      (userOutputIn settings request testCase)) testCase result verdict piece ∧ piece <:+: l ∧
    r = { caseResultOf testCase.seqId result with verdict := verdict }

theorem CaseReported.grow {cfg : CleanupConfig} {settings : RunnerSettings} {id : Int}
    {request : SubmissionRequest} {l l' : List Answered} {testCase : RunnerCaseInput}
    {r : SubmissionCaseResult} (h : CaseReported cfg settings id request l testCase r)
    (hl : l <+: l') : CaseReported cfg settings id request l' testCase r := by
  obtain hrefused | ⟨executable, result, verdict, piece, he, hrun, hin, hr⟩ := h
  · exact Or.inl hrefused
  · exact Or.inr ⟨executable, result, verdict, piece, he, hrun, hin.trans hl.isInfix, hr⟩

theorem CaseReported.ne_pending {cfg : CleanupConfig} {settings : RunnerSettings} {id : Int}
    {request : SubmissionRequest} {l : List Answered} {testCase : RunnerCaseInput}
    {r : SubmissionCaseResult} (h : CaseReported cfg settings id request l testCase r) :
    r.verdict ≠ .pending := by
  obtain rfl | ⟨_, _, _, _, _, hrun, _, rfl⟩ := h
  · exact fun h => by cases h
  · exact hrun.ne_pending

section Cases

variable {cfg : CleanupConfig} {own : List (Int × SubmissionRequest)}
  {permitted : Int → SubmissionResult → List Answered → Prop} {settings : RunnerSettings}
  {id : Int} {l : List Answered} (hid : ∃ x ∈ own, x.1 = id)

include hid

theorem compareCaseOutput_notes (input expected user : Bytes) :
    Notes cfg own permitted id
      (compareCaseOutput (recordedHost cfg settings id) input expected user).run l
      fun x l' => ∀ verdict, x = .ok verdict →
        ∃ comparison, Comparison input expected user verdict comparison ∧ l' = l ++ comparison := by
  unfold compareCaseOutput
  refine notes_pathExists hid (fun found => ?_) fun e l' verdict h => by cases h
  cases found with
  | true =>
    refine notes_lift hid fun (status : Int) => notes_ret hid fun verdict h => ?_
    cases h
    rw [List.append_assoc]
    exact ⟨_, .checker status _ rfl, rfl⟩
  | false =>
    refine notes_lift hid fun expectedText => notes_lift hid fun userText =>
      notes_ret hid fun verdict h => ?_
    cases h
    rw [List.append_assoc, List.append_assoc]
    exact ⟨_, .lines expectedText userText _ rfl, rfl⟩

/-- What the answer of a runner says about the record. -/
def Reports (cfg : CleanupConfig) (settings : RunnerSettings) (id : Int)
    (request : SubmissionRequest) (testCase : RunnerCaseInput) :
    Except StdException RunnerCaseResult → List Answered → Prop
  | .ok r, l => CaseReported cfg settings id request l testCase r.result
  | .error _, _ => True

theorem refusedCase_notes {request : SubmissionRequest} (testCase : RunnerCaseInput)
    (message : Bytes) :
    Notes cfg own permitted id (.ret (.ok (refusedCase testCase message))) l
      (Reports cfg settings id request testCase) :=
  notes_ret hid (Or.inl rfl)

theorem executable_notes {request : SubmissionRequest} {executable : Bytes}
    (he : executableOf settings request = some executable) (testCase : RunnerCaseInput) :
    Notes cfg own permitted id (runExecutableCase (recordedHost cfg settings id) executable testCase
      (userOutputIn settings request testCase)).run l (Reports cfg settings id request testCase) := by
  have herr : ∀ e l', Reports cfg settings id request testCase (.error e) l' := fun _ _ => trivial
  have hexists : ∀ path, ((recordedHost cfg settings id).call (.pathExists path)).Uses
      (JudgesCall.HostedFor id) := fun path => ⟨⟨_, rfl⟩, fun _ => trivial⟩
  unfold runExecutableCase
  refine notes_skip hid (someMissing_uses hexists _) (fun missing l' _ => ?_) herr
  cases missing with
  | true => exact notes_ret hid (Or.inl rfl)
  | false =>
    refine notes_lift hid fun (result : JudgeResult) => ?_
    have hstopped : result.result ≠ .success → CaseReported cfg settings id request
        (l' ++ [⟨.runSjudger (caseConfig (recordedHost cfg settings id) executable testCase
          (userOutputIn settings request testCase)), result⟩]) testCase
        (caseResultOf testCase.seqId result) := fun hne =>
      Or.inr ⟨executable, result, _, _, he, .stopped hne, (List.suffix_append _ _).isInfix, rfl⟩
    by_cases hsystem : result.result = .systemError
    · rw [if_pos hsystem]
      exact notes_ret hid (hstopped (by rw [hsystem]; decide))
    rw [if_neg hsystem]
    by_cases hverdict : (caseResultOf testCase.seqId result).verdict = .ac
    · rw [if_pos hverdict]
      have hsuccess := (mapJudgeResultToVerdict_ac result).mp hverdict
      refine Notes.except_bind hid (compareCaseOutput_notes hid _ _ _) ?_ fun e l'' _ => herr e l''
      intro verdict l'' hcompared
      obtain ⟨comparison, hcomparison, rfl⟩ := hcompared verdict rfl
      refine notes_ret hid (Or.inr ⟨executable, result, verdict, _, he,
        .compared hsuccess hcomparison, ?_, rfl⟩)
      rw [List.append_assoc]
      exact (List.suffix_append _ _).isInfix
    · rw [if_neg hverdict]
      exact notes_ret hid (hstopped fun h => hverdict ((mapJudgeResultToVerdict_ac result).mpr h))

theorem cppRunCase_notes {request : SubmissionRequest} (hlanguage : request.language = .cpp)
    (testCase : RunnerCaseInput) :
    Notes cfg own permitted id (CppRunner.runCase (recordedHost cfg settings id) request testCase).run
      l (Reports cfg settings id request testCase) := by
  have herr : ∀ e l', Reports cfg settings id request testCase (.error e) l' := fun _ _ => trivial
  have hexists : ∀ path, ((recordedHost cfg settings id).call (.pathExists path)).Uses
      (JudgesCall.HostedFor id) := fun path => ⟨⟨_, rfl⟩, fun _ => trivial⟩
  unfold CppRunner.runCase
  split
  · refine notes_filePathFor hid (fun _ => notes_filePathFor hid (fun _ => ?_) herr) herr
    refine notes_skip hid (someMissing_uses hexists _) (fun missing l' _ => ?_) herr
    cases missing with
    | true => exact refusedCase_notes hid testCase _
    | false => exact executable_notes hid (by rw [executableOf, hlanguage]) testCase
  · exact refusedCase_notes hid testCase _

theorem pythonRunCase_notes {request : SubmissionRequest} (hlanguage : request.language = .python)
    (testCase : RunnerCaseInput) :
    Notes cfg own permitted id
      (PythonRunner.runCase (recordedHost cfg settings id) request testCase).run
      l (Reports cfg settings id request testCase) := by
  have herr : ∀ e l', Reports cfg settings id request testCase (.error e) l' := fun _ _ => trivial
  have hcall : ∀ c, ((recordedHost cfg settings id).call c).Uses (JudgesCall.HostedFor id) :=
    fun c => ⟨⟨_, rfl⟩, fun _ => trivial⟩
  unfold PythonRunner.runCase
  split
  · refine notes_filePathFor hid (fun _ => notes_filePathFor hid (fun _ =>
      notes_filePathFor hid (fun _ => ?_) herr) herr) herr
    refine notes_skip hid (someMissing_uses (fun _ => hcall _) _) (fun missing l' _ => ?_) herr
    cases missing with
    | true => exact refusedCase_notes hid testCase _
    | false =>
      refine notes_lift hid fun (good : Bool) => ?_
      cases good with
      | false => exact refusedCase_notes hid testCase _
      | true =>
        refine notes_lift hid fun _ => ?_
        refine notes_skip hid (hcall _) (fun _ l' _ => ?_) herr
        exact executable_notes hid (by rw [executableOf, hlanguage]) testCase
  · exact refusedCase_notes hid testCase _

end Cases

section Compilation

variable {cfg : CleanupConfig} {host : Host (Prog (recordMachine cfg))}
  {request : SubmissionRequest}

/-- A compilation that fails is not accepted. -/
abbrev Rejects (p : ExceptT StdException (Prog (recordMachine cfg)) RunnerCompileResult) : Prop :=
  p.run.Returns (IfOk fun r => r.ok = false → r.verdict ≠ .ac)

theorem cppCompile_rejects : Rejects (CppRunner.compile host request) := by
  unfold CppRunner.compile
  split
  · refine Prog.Returns.except_bind fun _ => Prog.Returns.except_bind fun _ =>
      Prog.Returns.except_bind fun _ => Prog.Returns.except_bind fun prepared => ?_
    cases prepared with
    | true =>
      refine Prog.Returns.except_bind fun _ => Prog.Returns.except_bind fun found => ?_
      cases found with
      | true => exact fun h => by cases h
      | false =>
        exact Prog.Returns.except_bind fun _ => Prog.Returns.except_bind fun _ =>
          Prog.Returns.except_bind fun _ => fun _ h => by cases h
    | false => exact fun _ h => by cases h
  · exact fun _ h => by cases h

theorem pythonCompile_rejects : Rejects (PythonRunner.compile host request) := by
  unfold PythonRunner.compile
  split
  · refine Prog.Returns.except_bind fun _ => Prog.Returns.except_bind fun _ =>
      Prog.Returns.except_bind fun prepared => ?_
    cases prepared with
    | true =>
      refine Prog.Returns.except_bind fun _ => Prog.Returns.except_bind fun _ =>
        Prog.Returns.except_bind fun found => ?_
      cases found with
      | true => exact fun h => by cases h
      | false => exact Prog.Returns.except_bind fun _ => fun _ h => by cases h
    | false => exact fun _ h => by cases h
  · exact fun _ h => by cases h

end Compilation

/-- A snapshot without case results, which does not accept the submission. -/
def Plain (r : SubmissionResult) : Prop :=
  r.caseResults = [] ∧ (r.status = .finished → r.verdict ≠ .ac)

/-- A snapshot with the results of the first cases, or of all of them and their summary. -/
def Report (cfg : CleanupConfig) (settings : RunnerSettings)
    (load : Bytes → Except StdException (List RunnerCaseInput)) (id : Int)
    (request : SubmissionRequest) (l : List Answered) (r : SubmissionResult) : Prop :=
  ∃ cases judged, load request.pid = .ok cases ∧ cases ≠ [] ∧ judged <+: cases ∧
    List.Forall₂ (CaseReported cfg settings id (executionRequest id request) l) judged
      r.caseResults ∧
    (r.status = .running ∨
      r.status = .finished ∧ judged = cases ∧ r.verdict = summarize r.caseResults)

/-- The snapshots that are stored for the submissions of a worker. -/
def truthful (cfg : CleanupConfig) (settings : RunnerSettings)
    (load : Int → Bytes → Except StdException (List RunnerCaseInput))
    (own : List (Int × SubmissionRequest)) (id : Int) (r : SubmissionResult)
    (l : List Answered) : Prop :=
  Plain r ∨ ∃ request, (id, request) ∈ own ∧ Report cfg settings (load id) id request l r

theorem forall₂_snoc {α β : Type} {R : α → β → Prop} {as : List α} {bs : List β}
    (h : List.Forall₂ R as bs) {a : α} {b : β} (hab : R a b) :
    List.Forall₂ R (as ++ [a]) (bs ++ [b]) :=
  List.rel_append h (.cons hab .nil)

section Submission

variable {cfg : CleanupConfig} {settings : RunnerSettings}
  {load : Int → Bytes → Except StdException (List RunnerCaseInput)}
  {own : List (Int × SubmissionRequest)} {id : Int} {request : SubmissionRequest}
  {l : List Answered}

theorem plain_makeResult {status : SubmissionStatus} {verdict : SubmissionVerdict} {message : Bytes}
    (h : status = .finished → verdict ≠ .ac) :
    truthful cfg settings load own id (makeResult id status verdict message) l :=
  Or.inl ⟨rfl, h⟩

/-- What a runner of the source brings to the proof. -/
structure JudgesFairly (cfg : CleanupConfig) (settings : RunnerSettings)
    (load : Int → Bytes → Except StdException (List RunnerCaseInput))
    (own : List (Int × SubmissionRequest)) (id : Int) (request : SubmissionRequest)
    (runner : LanguageRunner (Prog (recordMachine cfg))) : Prop where
  uses : RunnerUses (JudgesCall.HostedFor id) request runner
  rejects : Rejects (runner.compile request)
  reports : ∀ i testCase l, Notes cfg own (truthful cfg settings load own) id
    (runner.runCase i request testCase).run l (Reports cfg settings id request testCase)

theorem createRunner_fair (hid : ∃ x ∈ own, x.1 = id) {runner : LanguageRunner (Prog (recordMachine cfg))}
    (hr : createRunner (recordedHost cfg settings id) request.language = some runner) :
    JudgesFairly cfg settings load own id request runner := by
  have huses := createRunner_uses (confined_hosted cfg settings id request) hr
  cases hlanguage : request.language with
  | cpp =>
    rw [hlanguage] at hr
    cases hr
    exact ⟨huses, cppCompile_rejects, fun _ testCase _ => cppRunCase_notes hid hlanguage testCase⟩
  | python =>
    rw [hlanguage] at hr
    cases hr
    exact ⟨huses, pythonCompile_rejects,
      fun _ testCase _ => pythonRunCase_notes hid hlanguage testCase⟩
  | c =>
    rw [hlanguage] at hr
    cases hr

section Stages

variable {runner : LanguageRunner (Prog (recordMachine cfg))}

/-- The loop, from the point where the cases `before` have been judged. -/
theorem hostedCases_notes (hmem : (id, request) ∈ own)
    (hr : JudgesFairly cfg settings load own id (executionRequest id request) runner)
    {cases : List RunnerCaseInput} (hload : load id request.pid = .ok cases)
    (rest before : List RunnerCaseInput) (hcases : before ++ rest = cases) (i : Nat)
    (running : SubmissionResult) (hrunning : running.status = .running)
    (hs : List.Forall₂ (CaseReported cfg settings id (executionRequest id request) l) before
      running.caseResults) :
    Notes cfg own (truthful cfg settings load own) id
      (hostedCases (persistOnRecord cfg) runner id (executionRequest id request) i running rest).run l
      fun x l' => ∀ running', x = .ok (some running') →
        List.Forall₂ (CaseReported cfg settings id (executionRequest id request) l') cases
          running'.caseResults := by
  have hid : ∃ x ∈ own, x.1 = id := ⟨_, hmem, rfl⟩
  induction rest generalizing before i running l with
  | nil =>
    refine notes_ret hid ?_
    rintro running' heq
    cases heq
    rw [← hcases, List.append_nil]
    exact hs
  | cons testCase rest ih =>
    unfold hostedCases
    have hcase := (hr.reports i testCase l).and (notes_of_uses hid (hr.uses.runCase i testCase))
    refine Notes.except_bind hid hcase ?_ fun e l' _ running' heq => by cases heq
    rintro r l' ⟨hreported, hl⟩
    have hnext := forall₂_snoc (hs.imp fun _ _ h => h.grow hl) hreported
    have hjudged : before ++ [testCase] ++ rest = cases := by rw [← hcases, List.append_assoc]; rfl
    refine notes_persist hid ?_ fun accepted => ?_
    · refine Or.inr ⟨request, hmem, cases, before ++ [testCase], hload, ?_, ?_, hnext, Or.inl hrunning⟩
      · rw [← hcases]
        exact List.append_ne_nil_of_right_ne_nil _ (List.cons_ne_nil _ _)
      · exact ⟨rest, hjudged⟩
    · cases accepted with
      | true => exact ih (before ++ [testCase]) hjudged (i + 1) _ hrunning hnext
      | false =>
        refine notes_ret hid ?_
        rintro running' heq
        cases heq

/-- From `RUNNING` on. -/
theorem hostedRun_notes (hmem : (id, request) ∈ own)
    (hr : JudgesFairly cfg settings load own id (executionRequest id request) runner) :
    Notes cfg own (truthful cfg settings load own) id
      (hostedRun (persistOnRecord cfg) (hostSurroundings (recordedHost cfg settings id) (load id))
        runner id request (executionRequest id request)).run l fun _ _ => True := by
  have hid : ∃ x ∈ own, x.1 = id := ⟨_, hmem, rfl⟩
  unfold hostedRun
  have hcases : (hostSurroundings (recordedHost cfg settings id) (load id)).loadCasesForProblem
      request.pid = calling (load id request.pid) := rfl
  rw [hcases]
  cases hload : load id request.pid with
  | error ex => exact notes_ret hid trivial
  | ok cases =>
    rw [calling_ok_bind]
    cases cases with
    | nil => exact notes_persist hid (plain_makeResult fun h => by cases h) fun _ => notes_ret hid trivial
    | cons first rest =>
      have hloop := hostedCases_notes (l := l) hmem hr hload (first :: rest) [] rfl 0
        (makeResult id .running .pending) rfl .nil
      refine Notes.except_bind hid hloop ?_ fun _ _ _ => trivial
      intro finished l' hs
      cases finished with
      | none => exact notes_ret hid trivial
      | some running =>
        refine notes_persist hid ?_ fun _ => notes_ret hid trivial
        exact Or.inr ⟨request, hmem, _, _, hload, List.cons_ne_nil _ _, List.prefix_refl _,
          hs running rfl, Or.inr ⟨rfl, rfl, rfl⟩⟩

/-- All that follows the creation of the runner. -/
theorem hostedPrepare_notes (hmem : (id, request) ∈ own)
    (hr : JudgesFairly cfg settings load own id (executionRequest id request) runner) :
    Notes cfg own (truthful cfg settings load own) id
      (hostedPrepare (persistOnRecord cfg)
        (hostSurroundings (recordedHost cfg settings id) (load id)) runner id request
        (executionRequest id request)).run l fun _ _ => True := by
  have hid : ∃ x ∈ own, x.1 = id := ⟨_, hmem, rfl⟩
  unfold hostedPrepare
  refine notes_skip hid hr.uses.prepare (fun prepared l' _ => ?_) fun _ _ => trivial
  cases prepared.ok with
  | false => exact notes_persist hid (plain_makeResult fun h => by cases h) fun _ => notes_ret hid trivial
  | true =>
    refine notes_persist hid (plain_makeResult fun h => by cases h) fun accepted => ?_
    cases accepted with
    | false => exact notes_ret hid trivial
    | true =>
      unfold hostedCompile
      refine Notes.except_bind hid ((notes_of_uses hid hr.uses.compile).returns hr.rejects) ?_
        fun _ _ _ => trivial
      rintro compiled l'' ⟨-, hrejects⟩
      by_cases hok : compiled.ok = true
      · rw [if_pos hok]
        refine notes_persist hid (plain_makeResult fun h => by cases h) fun accepted => ?_
        cases accepted with
        | false => exact notes_ret hid trivial
        | true => exact hostedRun_notes hmem hr
      · rw [if_neg hok]
        refine notes_persist hid (plain_makeResult fun _ => ?_) fun _ => notes_ret hid trivial
        exact hrejects (Bool.eq_false_of_not_eq_true hok)

/-- The guard's removal comes after all snapshots. -/
theorem hostedStages_notes (hmem : (id, request) ∈ own) :
    Notes cfg own (truthful cfg settings load own) id
      (hostedStages (persistOnRecord cfg)
        (hostSurroundings (recordedHost cfg settings id) (load id)) id request).run l
      fun _ _ => True := by
  have hid : ∃ x ∈ own, x.1 = id := ⟨_, hmem, rfl⟩
  unfold hostedStages
  refine notes_persist hid (plain_makeResult fun h => by cases h) fun accepted => ?_
  cases accepted with
  | false => exact notes_ret hid trivial
  | true =>
    have hcreate : (hostSurroundings (recordedHost cfg settings id) (load id)).createRunner
        request.language = pure (createRunner (recordedHost cfg settings id) request.language) := rfl
    rw [if_pos rfl, hcreate, pure_bind]
    cases hcreated : createRunner (recordedHost cfg settings id) request.language with
    | none =>
      exact notes_persist hid (plain_makeResult fun h => by cases h) fun _ => notes_ret hid trivial
    | some runner =>
      have hfair : JudgesFairly cfg settings load own id (executionRequest id request) runner :=
        createRunner_fair hid hcreated
      refine notes_runnerWorkDirFor hid ?_ fun _ => trivial
      refine Notes.bind (hostedPrepare_notes hmem hfair) fun result l' _ => ?_
      have hcleanup := cleanup_uses
        (confined_hosted cfg settings id (executionRequest id request)) (load id)
      exact Notes.bind (notes_of_uses hid hcleanup) fun _ _ _ => notes_ret hid trivial

theorem judgeOne_notes (hmem : (id, request) ∈ own) :
    Notes cfg own (truthful cfg settings load own) id
      (judgeOne cfg settings load id request).run l fun _ _ => True := by
  have hid : ∃ x ∈ own, x.1 = id := ⟨_, hmem, rfl⟩
  unfold judgeOne hostedSubmission
  split
  · exact notes_ret hid trivial
  · refine Notes.bind (hostedStages_notes hmem) fun result l' _ => ?_
    cases result with
    | ok _ => exact notes_ret hid trivial
    | error ex =>
      exact notes_persist hid (plain_makeResult fun h => by cases h) fun _ => notes_ret hid trivial

end Stages

theorem judgeInTurn_safe {rest : List (Int × SubmissionRequest)} (hsub : rest ⊆ own) (s : Records) :
    Safe (recordContract cfg own (truthful cfg settings load own)) (fun _ _ => True)
      (judgeInTurn cfg settings load rest) s := by
  induction rest generalizing s with
  | nil => exact fun _ _ => trivial
  | cons x rest ih =>
    obtain ⟨hx, hrest⟩ := List.cons_subset.mp hsub
    have hone : Safe (recordContract cfg own (truthful cfg settings load own))
        (fun _ _ => True) (judgeOne cfg settings load x.1 x.2).run s := judgeOne_notes hx s rfl
    exact Safe.bind (hone.mono fun _ s' _ => ih hrest s')

end Submission

section Workers

variable {cfg : CleanupConfig} {settings : RunnerSettings}
  {load : Int → Bytes → Except StdException (List RunnerCaseInput)} {τ : Type} [DecidableEq τ]
  {work : τ → List (Int × SubmissionRequest)} {store : TracedStore}
  {ok : Config (recordMachine cfg) τ Unit → τ → JudgesInput → Prop}
  {d : Config (recordMachine cfg) τ Unit}

omit [DecidableEq τ] in
/-- A step of one worker leaves the records of the others' submissions as they are. -/
theorem record_rely (hapart : WorkApart work) {t t' : τ} (hne : t' ≠ t) {o : JudgesCall}
    {e : JudgesInput} {s s' : Records} {r : o.Reply}
    (hown : ∀ id c, o = .host id c → ∃ x ∈ work t, x.1 = id)
    (hexec : (recordMachine cfg).exec o e s = some (r, s')) :
    ∀ x ∈ work t', s'.answers x.1 = s.answers x.1 := by
  intro x hx
  cases o with
  | store c =>
    cases hexec
    rfl
  | host id c =>
    cases hexec
    obtain ⟨y, hy, rfl⟩ := hown id c rfl
    exact note_answers_other (hapart t' t hne x hx y hy) _

theorem workers_safe (hapart : WorkApart work)
    (hd : Reach (noSecondTurn cfg) ok (recordsStart cfg settings load work store) d) (t : τ) :
    Safe (recordContract cfg (work t) (truthful cfg settings load (work t)))
      (fun _ _ => True) (d.thread t) d.shared := by
  refine hd.safe (fun t => recordContract cfg (work t) (truthful cfg settings load (work t)))
    (fun _ _ _ => True) (fun t => judgeInTurn_safe (List.Subset.refl _) _)
    (fun _ _ _ _ h => by cases h) ?_ t
  intro c t e o k r s' _ _ _ hpre hexec
  refine ⟨trivial, fun t' hne => record_rely hapart hne ?_ hexec⟩
  rintro id q rfl
  exact hpre

/-- What a call of a worker adds to the snapshots is a snapshot its contract permits, or a
newly queued one. -/
theorem snapshots_perform (q : StoreCall) (i : StoreInput) (t : TracedStore) {id : Int}
    {r : SubmissionResult} (hr : r ∈ snapshots id (perform cfg q i t).2.history) :
    r ∈ snapshots id t.history ∨ (r.caseResults = [] ∧ r.status = .queued) ∨
      ∃ r', q = .updateResult id r' ∧ r = { r' with submissionId := id } := by
  have hsnoc : ∀ e : Entry, (perform cfg q i t).2.history = t.history ++ [e] →
      r ∈ snapshots id t.history ∨ e.stored id = some r := by
    intro e he
    rw [he, snapshots_snoc, List.mem_append, Option.mem_toList] at hr
    exact hr
  cases q with
  | createSubmission request =>
    obtain h | h := hsnoc (.created _) rfl
    · exact Or.inl h
    · simp only [Entry.stored] at h
      split_ifs at h
      cases h
      exact Or.inr (Or.inl ⟨rfl, rfl⟩)
  | updateResult i' r' =>
    obtain h | h := hsnoc (.updated i' r' _) rfl
    · exact Or.inl h
    · simp only [Entry.stored] at h
      split_ifs at h with hstored
      obtain ⟨rfl, -⟩ := hstored
      cases h
      exact Or.inr (Or.inr ⟨r', rfl, rfl⟩)
  | getResult i' =>
    obtain h | h := hsnoc (.got i' _) rfl
    · exact Or.inl h
    · cases h

/-- Every snapshot was there before the workers, or is plain, or is the report of a submission
that a worker was given. -/
def AllTruthful (cfg : CleanupConfig) (settings : RunnerSettings)
    (load : Int → Bytes → Except StdException (List RunnerCaseInput))
    (work : τ → List (Int × SubmissionRequest)) (store : TracedStore) (s : Records) : Prop :=
  ∀ id, ∀ r ∈ snapshots id s.store.history, r ∈ snapshots id store.history ∨ Plain r ∨
    ∃ w request, (id, request) ∈ work w ∧
      Report cfg settings (load id) id request (s.answers id) r

theorem note_grows (s : Records) (id i : Int) (x : Answered) :
    s.answers i <+: (s.note id x).answers i := by
  by_cases h : i = id
  · rw [h, note_answers_self]
    exact List.prefix_append _ _
  · rw [note_answers_other h]

omit [DecidableEq τ] in
theorem Report.grow {id : Int} {request : SubmissionRequest} {l l' : List Answered}
    {r : SubmissionResult} (h : Report cfg settings (load id) id request l r) (hl : l <+: l') :
    Report cfg settings (load id) id request l' r := by
  obtain ⟨cases, judged, hload, hne, hprefix, hall, hstatus⟩ := h
  exact ⟨cases, judged, hload, hne, hprefix, hall.imp fun _ _ h => h.grow hl, hstatus⟩

theorem allTruthful_of_reach (hapart : WorkApart work)
    (hd : Reach (noSecondTurn cfg) ok (recordsStart cfg settings load work store) d) :
    AllTruthful cfg settings load work store d.shared := by
  refine hd.invariant (AllTruthful cfg settings load work store) (fun id r hr => Or.inl hr) ?_
  intro c t e o k r s' hc _ hk hexec h
  have hpre := (workers_safe hapart hc t).pre_head (by rw [hk]; rfl : (c.thread t).head = some o)
  cases o with
  | host id q =>
    cases hexec
    intro i r hr
    obtain hold | hplain | ⟨w, request, hmem, hreport⟩ := h i r hr
    · exact Or.inl hold
    · exact Or.inr (Or.inl hplain)
    · exact Or.inr (Or.inr ⟨w, request, hmem, hreport.grow (note_grows _ _ _ _)⟩)
  | store q =>
    cases hexec
    intro i r hr
    obtain hold | ⟨hresults, hqueued⟩ | ⟨r', rfl, rfl⟩ :=
      snapshots_perform q e.store c.shared.store hr
    · exact h i r hold
    · exact Or.inr (Or.inl ⟨hresults, fun hfinished => by rw [hqueued] at hfinished; cases hfinished⟩)
    · obtain hplain | ⟨request, hmem, hreport⟩ := hpre
      · exact Or.inr (Or.inl hplain)
      · exact Or.inr (Or.inr ⟨t, request, hmem, hreport⟩)

/-- The sandbox answers with the result of an execution. -/
def sandboxed : Config (recordMachine cfg) τ Unit → τ → JudgesInput → Prop :=
  fun _ _ e => ∀ config, ∃ execution,
    Sjudge.runSjudger config execution = some (e.reply (.runSjudger config))

def FromSandbox (s : Records) : Prop :=
  ∀ id config (result : JudgeResult), ⟨.runSjudger config, result⟩ ∈ s.answers id →
    ∃ execution, Sjudge.runSjudger config execution = some result

theorem fromSandbox_of_reach
    (hd : Reach (noSecondTurn cfg) sandboxed (recordsStart cfg settings load work store) d) :
    FromSandbox d.shared := by
  refine hd.invariant FromSandbox ?_ ?_
  · exact fun _ _ _ h => absurd h List.not_mem_nil
  intro c t e o k r s' _ hok _ hexec h
  cases o with
  | store q =>
    cases hexec
    exact h
  | host id q =>
    cases hexec
    intro i config result hmem
    by_cases hi : i = id
    · rw [hi, note_answers_self, List.mem_append, List.mem_singleton] at hmem
      obtain hold | hnew := hmem
      · exact h id config result hold
      · cases hnew
        exact hok config
    · rw [note_answers_other hi] at hmem
      exact h i config result hmem

/-- A case result is a refusal, or the outcome of a sandboxed run of the submission. -/
def MeasuredCase (cfg : CleanupConfig) (settings : RunnerSettings) (id : Int)
    (request : SubmissionRequest) (l : List Answered) (testCase : RunnerCaseInput)
    (r : SubmissionCaseResult) : Prop :=
  r = refusedResult testCase ∨ ∃ executable result verdict piece execution,
    executableOf settings request = some executable ∧
    RunWith (caseConfig (recordedHost cfg settings id) executable testCase
      (userOutputIn settings request testCase)) testCase result verdict piece ∧ piece <:+: l ∧
    Sjudge.runSjudger (caseConfig (recordedHost cfg settings id) executable testCase
      (userOutputIn settings request testCase)) execution = some result ∧
    r = { caseResultOf testCase.seqId result with verdict := verdict }

/-- However the workers take turns: a snapshot with case results belongs to a submission that a
worker was given. They are the results of the first cases of its problem in their order, or
in a final snapshot of all of them, whose summary is then the verdict; and each is a refusal
or the outcome of a sandboxed run of the submission with the case's input and limits, together
with the comparison directly behind it if the run succeeded. -/
theorem snapshots_are_reports (hapart : WorkApart work)
    (hd : Reach (noSecondTurn cfg) sandboxed (recordsStart cfg settings load work store) d)
    (hfresh : ∀ id, ∀ r ∈ snapshots id store.history, r.caseResults = [])
    (id : Int) (r : SubmissionResult) (hr : r ∈ snapshots id d.shared.store.history)
    (hresults : r.caseResults ≠ []) :
    ∃ w request cases judged, (id, request) ∈ work w ∧ load id request.pid = .ok cases ∧
      judged <+: cases ∧
      (r.status = .running ∨
        r.status = .finished ∧ judged = cases ∧ r.verdict = summarize r.caseResults) ∧
      List.Forall₂ (MeasuredCase cfg settings id (executionRequest id request) (d.shared.answers id))
        judged r.caseResults := by
  obtain hold | ⟨hnone, -⟩ | ⟨w, request, hmem, cases, judged, hload, -, hprefix, hall, hstatus⟩ :=
    allTruthful_of_reach hapart hd id r hr
  · exact absurd (hfresh id r hold) hresults
  · exact absurd hnone hresults
  refine ⟨w, request, cases, judged, hmem, hload, hprefix, hstatus, hall.imp ?_⟩
  rintro testCase c (hrefused | ⟨executable, result, verdict, piece, he, hrun, hin, hc⟩)
  · exact Or.inl hrefused
  · obtain ⟨execution, hexecution⟩ :=
      fromSandbox_of_reach hd id _ result (hin.subset hrun.ran)
    exact Or.inr ⟨executable, result, verdict, piece, execution, he, hrun, hin, hexecution, hc⟩

end Workers

section Sample

def oneWorker (_ : Unit) : List (Int × SubmissionRequest) := [(1, codedRequest)]

def plainCase : RunnerCaseInput :=
  ⟨1, ascii "/data/1.in", ascii "/data/1.out", 1000, 2000, 131072⟩

/-- Every call succeeds, and every program in the sandbox runs as `e` says. -/
def sandboxReply (e : Sjudge.Execution) : (c : HostCall) → c.Reply
  | .tempDirectoryPath => .ok ()
  | .pathExists _ => .ok true
  | .removeAll _ => ()
  | .createDirectories _ => false
  | .openOutput _ => true
  | .writeOutput _ _ => ()
  | .readFile _ => []
  | .permissions _ => .ok ()
  | .runCommandCaptureStdout _ _ => .ok []
  | .system _ _ => (0 : Int)
  | .runSjudger config => (Sjudge.runSjudger config e).getD {}

def sandboxInput (e : Sjudge.Execution) : JudgesInput := ⟨⟨0, 0, .stable⟩, sandboxReply e⟩

/-- The sample execution ends, whatever its limits. -/
theorem runSjudger_sample (config : JudgeConfig) :
    (Sjudge.runSjudger config (Sjudge.sampleExecution 0)).isSome = true := by
  unfold Sjudge.runSjudger Sjudge.sjudgerEnding Sjudge.validateJudgeConfig
  split
  · rfl
  · have hfork : ¬ (Sjudge.sampleExecution 0).fork < 0 := by decide
    rw [if_neg hfork, Option.isSome_map]
    simp only [Sjudge.monitorEnding, Sjudge.sampleExecution, Sjudge.monitorChildProcess]
    split_ifs <;> rfl

theorem sandboxInput_sandboxed (c : Config (recordMachine {}) Unit Unit) :
    sandboxed c () (sandboxInput (Sjudge.sampleExecution 0)) := by
  intro config
  obtain ⟨result, hresult⟩ := Option.isSome_iff_exists.mp (runSjudger_sample config)
  have hreply : (sandboxInput (Sjudge.sampleExecution 0)).reply (.runSjudger config) =
      (Sjudge.runSjudger config (Sjudge.sampleExecution 0)).getD {} := rfl
  refine ⟨Sjudge.sampleExecution 0, ?_⟩
  rw [hreply, hresult, Option.getD_some]
  rfl

/-- A submission of one case, judged from beginning to end. -/
def judgedSchedule (e : Sjudge.Execution) : List (Unit × JudgesInput) :=
  List.replicate 31 ((), sandboxInput e)

theorem reach_of_judged {d : Config (recordMachine {}) Unit Unit}
    (hd : run (noSecondTurn {}) (recordsStart {} tmpSettings (fun _ _ => .ok [plainCase])
      oneWorker sampleStore) (judgedSchedule (Sjudge.sampleExecution 0)) = some d) :
    Reach (noSecondTurn {}) sandboxed
      (recordsStart {} tmpSettings (fun _ _ => .ok [plainCase]) oneWorker sampleStore) d := by
  refine Reach.run_of (fun x hx c => ?_) .refl hd
  rw [List.eq_of_mem_replicate hx]
  exact sandboxInput_sandboxed c

theorem oneWorker_apart : WorkApart oneWorker := fun _ _ hne => absurd rfl hne

/-- The store holds one queued record. -/
theorem sampleStore_queued {id : Int} {r : SubmissionResult}
    (hr : r ∈ snapshots id sampleStore.history) : r.caseResults = [] ∧ r.status = .queued := by
  have hhistory : sampleStore.history = [.created 1] := by decide +kernel
  obtain ⟨e, he, hstored⟩ := List.mem_filterMap.mp hr
  rw [hhistory, List.mem_singleton] at he
  rw [he] at hstored
  simp only [Entry.stored] at hstored
  split_ifs at hstored
  cases hstored
  exact ⟨rfl, rfl⟩

def sampleReported : Config (recordMachine {}) Unit Unit → Bool := fun d =>
  (snapshots 1 d.shared.store.history).any fun r => !r.caseResults.isEmpty

/-- The one case of the sample submission is reported as it was run. -/
theorem one_case_is_reported :
    ∃ d, Reach (noSecondTurn {}) sandboxed
        (recordsStart {} tmpSettings (fun _ _ => .ok [plainCase]) oneWorker sampleStore) d ∧
      ∃ r ∈ snapshots 1 d.shared.store.history, r.caseResults ≠ [] ∧ ∃ judged,
        judged <+: [plainCase] ∧
        List.Forall₂ (MeasuredCase {} tmpSettings 1 (executionRequest 1 codedRequest)
          (d.shared.answers 1)) judged r.caseResults := by
  have hrun : (run (noSecondTurn {}) (recordsStart {} tmpSettings (fun _ _ => .ok [plainCase])
      oneWorker sampleStore) (judgedSchedule (Sjudge.sampleExecution 0))).map sampleReported =
        some true := by decide +kernel
  obtain ⟨d, hd, hreported⟩ := Option.map_eq_some_iff.mp hrun
  have hreach := reach_of_judged hd
  obtain ⟨r, hr, hresults⟩ := List.any_eq_true.mp hreported
  have hne : r.caseResults ≠ [] := by simpa using hresults
  obtain ⟨w, request, cases, judged, hmem, hload, hprefix, -, hall⟩ :=
    snapshots_are_reports oneWorker_apart hreach (fun _ _ h => (sampleStore_queued h).1) 1 r hr hne
  obtain rfl : request = codedRequest := by simpa [oneWorker] using hmem
  obtain rfl : [plainCase] = cases := by simpa using hload
  exact ⟨d, hreach, r, hr, hne, judged, hprefix, hall⟩

end Sample

end JudgeServer.Runner
