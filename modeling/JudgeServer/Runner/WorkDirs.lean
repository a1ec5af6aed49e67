import JudgeServer.Runner.HostedSubmission
import JudgeServer.Pipeline.SubmissionOutcome
import JudgeServer.Lib.Pieces

/-!
# The work directories

Every call of a submission's runner that creates, writes or removes something stays in
the submission's own work directory, and two submissions have different ones.
-/

namespace JudgeServer.Runner

open JudgeServer.Common
open JudgeServer.Pipeline
open JudgeServer.Lib.Interleave
open JudgeServer.Lib.LexicalPath
open JudgeServer.Lib.Decimal

/-- What a call creates, writes or removes, with everything below it. -/
def HostCall.targets : HostCall → List Bytes
  | .removeAll path => [path]
  | .openOutput path => [path]
  | .writeOutput path _ => [path]
  | .permissions path => [path]
  | .runCommandCaptureStdout _ outputs => outputs
  | .system _ outputs => outputs
  | .runSjudger config => [config.outputPath, config.errorPath]
  | _ => []

/-- The paths a call may change; `create_directories` also makes the directories above. -/
def HostCall.Affects (c : HostCall) (p : Bytes) : Prop :=
  (∃ target ∈ c.targets, Within target p) ∨ ∃ dir, c = .createDirectories dir ∧ Within p dir

/-- The call keeps to a directory. -/
structure HostCall.StaysIn (dir : Bytes) (c : HostCall) : Prop where
  targets : ∀ target ∈ c.targets, Within dir target
  created : ∀ path, c = .createDirectories path → path = dir

def workDirName (uuid : Int) : Bytes := ascii "oj_compile_" ++ decimalInt uuid

theorem proper_of_chars {name : Bytes} (b : UInt8) (rest : Bytes) (hname : name = b :: rest)
    (hb : b ≠ 46) (hslash : slash ∉ name) : Proper name := by
  refine ⟨?_, ?_, ?_, hslash⟩ <;> subst hname <;> simp [dot, dotdot, hb]

theorem slash_not_mem_decimalInt (a : Int) : slash ∉ decimalInt a :=
  not_mem_decimalInt (by decide) (by decide) a

theorem workDirName_proper (uuid : Int) : Proper (workDirName uuid) := by
  refine proper_of_chars 111 (ascii "j_compile_" ++ decimalInt uuid) rfl (by decide) ?_
  unfold workDirName
  rw [List.mem_append]
  exact not_or.mpr ⟨by decide, slash_not_mem_decimalInt uuid⟩

theorem userOutputName_proper (testCase : RunnerCaseInput) : Proper (userOutputName testCase) := by
  refine proper_of_chars 99 (ascii "ase_" ++ decimalInt testCase.seqId ++ ascii ".user.out") rfl
    (by decide) ?_
  unfold userOutputName
  rw [List.mem_append, List.mem_append]
  exact not_or.mpr ⟨not_or.mpr ⟨by decide, slash_not_mem_decimalInt _⟩, by decide⟩

theorem errorName_proper (testCase : RunnerCaseInput) :
    Proper (userOutputName testCase ++ ascii ".err") := by
  obtain ⟨hne, _, _, hslash⟩ := userOutputName_proper testCase
  refine proper_of_chars 99 (ascii "ase_" ++ decimalInt testCase.seqId ++ ascii ".user.out" ++
    ascii ".err") rfl (by decide) ?_
  rw [List.mem_append]
  exact not_or.mpr ⟨hslash, by decide⟩

/-- No path lies in the directories of two requests with different keys. -/
theorem uuid_eq_of_within {temp p : Bytes} {r r' : SubmissionRequest}
    (h : Within (workDirIn temp r) p) (h' : Within (workDirIn temp r') p) : r.uuid = r'.uuid := by
  have hname := name_eq_of_within (workDirName_proper r.uuid) (workDirName_proper r'.uuid) h h'
  exact decimalInt_injective (List.append_cancel_left hname)

/-- A call that stays in one directory affects nothing in another. -/
theorem HostCall.StaysIn.apart {temp : Bytes} {r r' : SubmissionRequest} {c : HostCall}
    (h : c.StaysIn (workDirIn temp r)) (hne : r.uuid ≠ r'.uuid) {p : Bytes} (hp : c.Affects p) :
    ¬ Within (workDirIn temp r') p := by
  intro hin
  obtain ⟨target, htarget, hbelow⟩ | ⟨dir, hdir, habove⟩ := hp
  · exact hne (uuid_eq_of_within ((h.targets target htarget).trans hbelow) hin)
  · obtain rfl := h.created dir hdir
    exact hne (uuid_eq_of_within (Within.refl _) (hin.trans habove))

section Uses

variable {σ ε : Type} {N : Machine σ ε} {P : N.Op → Prop} {host : Host (Prog N)}
  {request : SubmissionRequest}

/-- The host's calls in the request's directory satisfy `P`. -/
def Confined (host : Host (Prog N)) (P : N.Op → Prop) (request : SubmissionRequest) : Prop :=
  ∀ c, HostCall.StaysIn (workDirIn host.temp request) c → (host.call c).Uses P

/-- A call without effect on files. -/
theorem staysIn_nothing {dir : Bytes} {c : HostCall} (ht : c.targets = [])
    (hc : ∀ path, c ≠ .createDirectories path) : c.StaysIn dir := by
  refine ⟨?_, fun path heq => absurd heq (hc path)⟩
  rw [ht]
  exact fun _ h => absurd h List.not_mem_nil

theorem staysIn_targets {dir : Bytes} {c : HostCall} (ht : ∀ t ∈ c.targets, Within dir t)
    (hc : ∀ path, c ≠ .createDirectories path) : c.StaysIn dir :=
  ⟨ht, fun path heq => absurd heq (hc path)⟩

theorem staysIn_file {dir path : Bytes} {c : HostCall} (ht : c.targets = [path])
    (hc : ∀ path, c ≠ .createDirectories path) (hp : Within dir path) : c.StaysIn dir := by
  refine staysIn_targets ?_ hc
  rw [ht]
  intro t h
  rw [List.mem_singleton.mp h]
  exact hp

theorem Confined.quiet (hc : Confined host P request) {c : HostCall} (ht : c.targets = [])
    (hne : ∀ path, c ≠ .createDirectories path) : (host.call c).Uses P :=
  hc c (staysIn_nothing ht hne)

theorem Confined.file (hc : Confined host P request) {c : HostCall} {path : Bytes}
    (ht : c.targets = [path]) (hne : ∀ path, c ≠ .createDirectories path)
    (hp : Within (workDirIn host.temp request) path) : (host.call c).Uses P :=
  hc c (staysIn_file ht hne hp)

theorem lift_uses {α : Type} {p : Prog N α} (h : p.Uses P) :
    (ExceptT.lift p : ExceptT StdException (Prog N) α).run.Uses P :=
  h.bind fun _ => trivial

theorem return_uses {α : Type} (a : α) : (pure a : ExceptT StdException (Prog N) α).run.Uses P :=
  trivial

/-- Whatever follows gets the request's own directory. -/
theorem runnerWorkDirFor_bind (htemp : (host.call .tempDirectoryPath).Uses P) {α : Type}
    {f : Bytes → ExceptT StdException (Prog N) α}
    (hf : (f (workDirIn host.temp request)).run.Uses P) :
    (runnerWorkDirFor host request >>= f).run.Uses P := by
  unfold runnerWorkDirFor
  rw [bind_assoc]
  refine Prog.Uses.except_bind htemp fun _ => ?_
  rw [pure_bind]
  exact hf

theorem filePathFor_bind (htemp : (host.call .tempDirectoryPath).Uses P) {α : Type} {name : Bytes}
    {f : Bytes → ExceptT StdException (Prog N) α}
    (hf : (f (join (workDirIn host.temp request) name)).run.Uses P) :
    (filePathFor host request name >>= f).run.Uses P := by
  unfold filePathFor
  rw [bind_assoc]
  refine runnerWorkDirFor_bind htemp ?_
  rw [pure_bind]
  exact hf

theorem someMissing_uses (hexists : ∀ path, (host.call (.pathExists path)).Uses P)
    (paths : List Bytes) : (someMissing host paths).run.Uses P := by
  induction paths with
  | nil => exact return_uses _
  | cons path rest ih =>
    refine Prog.Uses.except_bind (hexists path) fun found => ?_
    split
    · exact ih
    · exact return_uses _

theorem Confined.temp (hc : Confined host P request) : (host.call .tempDirectoryPath).Uses P :=
  hc.quiet rfl (by simp)

theorem Confined.exists (hc : Confined host P request) (path : Bytes) :
    (host.call (.pathExists path)).Uses P :=
  hc.quiet rfl (by simp)

section Calls

variable (hc : Confined host P request)

include hc

theorem pathExists_uses (path : Bytes) : (pathExists host path).run.Uses P :=
  hc.quiet rfl (by simp)

theorem readFile_uses (path : Bytes) : (readFile host path).run.Uses P :=
  lift_uses (hc.quiet rfl (by simp))

theorem removeAll_uses : (removeAll host (workDirIn host.temp request)).run.Uses P :=
  lift_uses (hc.file rfl (by simp) (Within.refl _))

theorem openOutput_uses {path : Bytes} (hp : Within (workDirIn host.temp request) path) :
    (openOutput host path).run.Uses P :=
  lift_uses (hc.file rfl (by simp) hp)

theorem writeOutput_uses {path : Bytes} (hp : Within (workDirIn host.temp request) path)
    (text : Bytes) : (writeOutput host path text).run.Uses P :=
  lift_uses (hc.file rfl (by simp) hp)

theorem prepareWith_uses (language : String) {sourceName : Bytes} (hname : Proper sourceName) :
    (prepareWith host language sourceName request).run.Uses P := by
  have hsource := within_join (workDirIn host.temp request) hname
  unfold prepareWith
  split
  · refine runnerWorkDirFor_bind hc.temp (filePathFor_bind hc.temp ?_)
    refine (removeAll_uses hc).except_bind fun _ => ?_
    refine (lift_uses (hc (.createDirectories _) ⟨?_, ?_⟩)).except_bind fun failed => ?_
    · exact fun _ h => absurd h List.not_mem_nil
    · intro path heq
      cases heq
      rfl
    · split
      · exact return_uses _
      · refine (openOutput_uses hc hsource).except_bind fun good => ?_
        split
        · exact (writeOutput_uses hc hsource _).except_bind fun _ => return_uses _
        · exact return_uses _
  · exact return_uses _

theorem compileCppSourceFile_uses (source : Bytes) {executable log : Bytes}
    (he : Within (workDirIn host.temp request) executable)
    (hl : Within (workDirIn host.temp request) log) :
    (compileCppSourceFile host source executable log).run.Uses P := by
  refine Prog.Uses.bind ?_ fun result => by cases result <;> trivial
  refine Prog.Uses.except_bind ?_ fun output => ?_
  · refine hc _ (staysIn_targets ?_ (by simp))
    intro t ht
    obtain rfl | rfl : t = executable ∨ t = log := by simpa [HostCall.targets] using ht
    · exact he
    · exact hl
  · exact (pathExists_uses hc executable).except_bind fun _ => return_uses _

theorem cppCompile_uses : (CppRunner.compile host request).run.Uses P := by
  have hin : ∀ name, Proper name →
      Within (workDirIn host.temp request) (join (workDirIn host.temp request) name) :=
    fun name h => within_join _ h
  unfold CppRunner.compile
  split
  · refine filePathFor_bind hc.temp (filePathFor_bind hc.temp (filePathFor_bind hc.temp ?_))
    refine (pathExists_uses hc _).except_bind fun prepared => ?_
    split
    · refine Prog.Uses.except_bind (compileCppSourceFile_uses hc _ ?_ ?_) fun compiled => ?_
      · exact hin _ ⟨by decide, by decide, by decide, by decide⟩
      · exact hin _ ⟨by decide, by decide, by decide, by decide⟩
      · refine Prog.Uses.except_bind ?_ fun found => ?_
        · split
          · exact pathExists_uses hc _
          · exact return_uses _
        · split
          · exact return_uses _
          · refine (readFile_uses hc _).except_bind fun _ => runnerWorkDirFor_bind hc.temp ?_
            exact (removeAll_uses hc).except_bind fun _ => return_uses _
    · exact return_uses _
  · exact return_uses _

theorem pythonCompile_uses : (PythonRunner.compile host request).run.Uses P := by
  unfold PythonRunner.compile
  split
  · refine filePathFor_bind hc.temp (filePathFor_bind hc.temp ?_)
    refine (pathExists_uses hc _).except_bind fun prepared => ?_
    split
    · refine filePathFor_bind hc.temp ?_
      refine Prog.Uses.except_bind (lift_uses (hc _ (staysIn_targets ?_ (by simp)))) fun status => ?_
      · intro t ht
        obtain rfl | rfl : t = join (workDirIn host.temp request) (ascii "compile.log") ∨
            t = join (workDirIn host.temp request) (ascii "__pycache__") := by
          simpa [HostCall.targets] using ht
        · exact within_join _ ⟨by decide, by decide, by decide, by decide⟩
        · exact within_join _ ⟨by decide, by decide, by decide, by decide⟩
      · refine Prog.Uses.except_bind ?_ fun found => ?_
        · split
          · exact return_uses _
          · exact pathExists_uses hc _
        · split
          · exact return_uses _
          · exact (readFile_uses hc _).except_bind fun _ => return_uses _
    · exact return_uses _
  · exact return_uses _

theorem compareCaseOutput_uses (input expected user : Bytes) :
    (compareCaseOutput host input expected user).run.Uses P := by
  unfold compareCaseOutput
  refine (pathExists_uses hc _).except_bind fun found => ?_
  split
  · have hsystem : ∀ command, (host.call (.system command [])).Uses P :=
      fun command => hc.quiet rfl (by simp)
    exact Prog.Uses.except_bind (lift_uses (hsystem _)) fun _ => return_uses _
  · refine (readFile_uses hc _).except_bind fun _ => ?_
    exact (readFile_uses hc _).except_bind fun _ => return_uses _

theorem runExecutableCase_uses (executable : Bytes) (testCase : RunnerCaseInput) :
    (runExecutableCase host executable testCase
      (join (workDirIn host.temp request) (userOutputName testCase))).run.Uses P := by
  unfold runExecutableCase
  refine (someMissing_uses hc.exists _).except_bind fun missing => ?_
  split
  · exact return_uses _
  · refine Prog.Uses.except_bind (lift_uses (hc _ (staysIn_targets ?_ (by simp)))) fun result => ?_
    · intro t ht
      obtain rfl | rfl : t = join (workDirIn host.temp request) (userOutputName testCase) ∨
          t = join (workDirIn host.temp request) (userOutputName testCase) ++ ascii ".err" := by
        simpa [HostCall.targets, caseConfig] using ht
      · exact within_join _ (userOutputName_proper testCase)
      · rw [← join_append _ (userOutputName_proper testCase).1]
        exact within_join _ (errorName_proper testCase)
    · split
      · exact return_uses _
      · dsimp only
        split
        · exact (compareCaseOutput_uses hc _ _ _).except_bind fun _ => return_uses _
        · exact return_uses _

theorem cppRunCase_uses (testCase : RunnerCaseInput) :
    (CppRunner.runCase host request testCase).run.Uses P := by
  unfold CppRunner.runCase
  split
  · refine filePathFor_bind hc.temp (filePathFor_bind hc.temp ?_)
    refine (someMissing_uses hc.exists _).except_bind fun missing => ?_
    split
    · exact return_uses _
    · exact runExecutableCase_uses hc _ testCase
  · exact return_uses _

theorem pythonRunCase_uses (testCase : RunnerCaseInput) :
    (PythonRunner.runCase host request testCase).run.Uses P := by
  have hwrapper := within_join (workDirIn host.temp request) 
    (show Proper (ascii "run_python.sh") from ⟨by decide, by decide, by decide, by decide⟩)
  unfold PythonRunner.runCase
  split
  · refine filePathFor_bind hc.temp (filePathFor_bind hc.temp (filePathFor_bind hc.temp ?_))
    refine (someMissing_uses hc.exists _).except_bind fun missing => ?_
    split
    · exact return_uses _
    · refine (openOutput_uses hc hwrapper).except_bind fun good => ?_
      split
      · refine (writeOutput_uses hc hwrapper _).except_bind fun _ => ?_
        have hmode : (host.call (.permissions _)).Uses P := hc.file rfl (by simp) hwrapper
        exact Prog.Uses.except_bind hmode fun _ => runExecutableCase_uses hc _ testCase
      · exact return_uses _
  · exact return_uses _

end Calls

/-- A runner all of whose calls for a request satisfy `P`. -/
structure RunnerUses (P : N.Op → Prop) (request : SubmissionRequest)
    (runner : LanguageRunner (Prog N)) : Prop where
  prepare : (runner.prepare request).run.Uses P
  compile : (runner.compile request).run.Uses P
  runCase : ∀ i testCase, (runner.runCase i request testCase).run.Uses P

theorem createRunner_uses (hc : Confined host P request) {language : SubmissionLanguage}
    {runner : LanguageRunner (Prog N)} (hr : createRunner host language = some runner) :
    RunnerUses P request runner := by
  cases language with
  | cpp =>
    cases hr
    exact ⟨prepareWith_uses hc _ ⟨by decide, by decide, by decide, by decide⟩, cppCompile_uses hc,
      fun _ => cppRunCase_uses hc⟩
  | python =>
    cases hr
    exact ⟨prepareWith_uses hc _ ⟨by decide, by decide, by decide, by decide⟩, pythonCompile_uses hc,
      fun _ => pythonRunCase_uses hc⟩
  | c => cases hr

/-- The runners of the source and the guard on a host; the test data is only read. -/
def hostSurroundings (host : Host (Prog N))
    (load : Bytes → Except StdException (List RunnerCaseInput)) : Surroundings (Prog N) where
  createRunner := fun language => pure (createRunner host language)
  runnerWorkDirFor := runnerWorkDirFor host
  loadCasesForProblem := fun pid => calling (load pid)
  cleanup := fun workDir =>
    if host.keepRunnerWorkDir || workDir.isEmpty then pure ()
    else host.call (.removeAll workDir)

theorem cleanup_uses (hc : Confined host P request)
    (load : Bytes → Except StdException (List RunnerCaseInput)) :
    ((hostSurroundings host load).cleanup (workDirIn host.temp request)).Uses P := by
  have hremove : (host.call (.removeAll (workDirIn host.temp request))).Uses P :=
    hc.file rfl (by simp) (Within.refl _)
  have hguard : ∀ keep : Bool, (if keep then (pure () : Prog N Unit)
      else host.call (.removeAll (workDirIn host.temp request))).Uses P := by
    intro keep
    cases keep with
    | true => trivial
    | false => exact hremove
  exact hguard _

section Submission

variable {persist : Int → SubmissionResult → ExceptT StdException (Prog N) Bool} {id : Int}
  (hp : ∀ r, (persist id r).run.Uses P)

include hp

theorem hostedCases_uses {runner : LanguageRunner (Prog N)} (hr : RunnerUses P request runner)
    (cases : List RunnerCaseInput) (i : Nat) (running : SubmissionResult) :
    (hostedCases persist runner id request i running cases).run.Uses P := by
  induction cases generalizing i running with
  | nil => exact return_uses _
  | cons c rest ih =>
    refine (hr.runCase i c).except_bind fun r => ?_
    refine (hp _).except_bind fun accepted => ?_
    split
    · exact ih _ _
    · exact return_uses _

theorem hostedRun_uses {runner : LanguageRunner (Prog N)} (hr : RunnerUses P request runner)
    (load : Bytes → Except StdException (List RunnerCaseInput)) (original : SubmissionRequest) :
    (hostedRun persist (hostSurroundings host load) runner id original request).run.Uses P := by
  unfold hostedRun
  refine uses_calling fun cases => ?_
  split
  · exact (hp _).except_bind fun _ => return_uses _
  · refine (hostedCases_uses hp hr cases 0 _).except_bind fun r => ?_
    cases r with
    | none => exact return_uses _
    | some running => exact (hp _).except_bind fun _ => return_uses _

theorem hostedPrepare_uses {runner : LanguageRunner (Prog N)} (hr : RunnerUses P request runner)
    (load : Bytes → Except StdException (List RunnerCaseInput)) (original : SubmissionRequest) :
    (hostedPrepare persist (hostSurroundings host load) runner id original request).run.Uses P := by
  unfold hostedPrepare
  refine hr.prepare.except_bind fun prepared => ?_
  split
  · refine (hp _).except_bind fun accepted => ?_
    split
    · unfold hostedCompile
      refine hr.compile.except_bind fun compiled => ?_
      split
      · refine (hp _).except_bind fun accepted => ?_
        split
        · exact hostedRun_uses hp hr load original
        · exact return_uses _
      · exact (hp _).except_bind fun _ => return_uses _
    · exact return_uses _
  · exact (hp _).except_bind fun _ => return_uses _

/-- Judging under an id makes only calls that stay in the directory of that id. -/
theorem hostedSubmission_uses (load : Bytes → Except StdException (List RunnerCaseInput))
    (original : SubmissionRequest) (hc : Confined host P (executionRequest id original)) :
    (hostedSubmission persist (hostSurroundings host load) id original).run.Uses P := by
  unfold hostedSubmission
  split
  · exact return_uses _
  · refine Prog.Uses.bind ?_ fun result => ?_
    · unfold hostedStages
      refine (hp _).except_bind fun accepted => ?_
      split
      · have hcreate : (hostSurroundings host load).createRunner original.language =
            pure (createRunner host original.language) := rfl
        rw [hcreate, pure_bind]
        cases hcreated : createRunner host original.language with
        | none => exact (hp _).except_bind fun _ => return_uses _
        | some runner =>
          have hr := createRunner_uses hc hcreated
          refine runnerWorkDirFor_bind hc.temp (Prog.Uses.bind (hostedPrepare_uses hp hr load original) ?_)
          exact fun result => (cleanup_uses hc load).bind fun _ => trivial
      · exact return_uses _
    · cases result with
      | ok _ => trivial
      | error ex => exact (hp _).except_bind fun _ => return_uses _

end Submission

end Uses

end JudgeServer.Runner
