import JudgeServer.Runner.RunnerSupport

/-!
# The language runners

`runner/CppRunner.cpp`, `runner/PythonRunner.cpp` and `runner/RunnerFactory.cpp`. Both
runners prepare a submission in the same way; they differ in what compiling means and in
the file that is executed.
-/

namespace JudgeServer.Runner

open JudgeServer.Common
open JudgeServer.Pipeline (StdException)
open JudgeServer.Lib.Decimal (decimalInt)
open JudgeServer.Lib.LexicalPath

/-- A runner whose calls have effects. The number of earlier calls is there for runners
that are given by their answers; the runners of the source do not look at it. -/
structure LanguageRunner (m : Type → Type) where
  prepare : SubmissionRequest → ExceptT StdException m RunnerPrepareResult
  compile : SubmissionRequest → ExceptT StdException m RunnerCompileResult
  runCase : Nat → SubmissionRequest → RunnerCaseInput → ExceptT StdException m RunnerCaseResult

def hasBasicRequestFields (request : SubmissionRequest) : Bool :=
  0 < request.uuid && request.code ≠ []

def requiresMessage (language : String) : Bytes := ascii language ++ ascii " runner requires uuid and code"

section Programs

variable {m : Type → Type} [Monad m] (host : Host m)

/-- A file of the work directory; every path is computed anew. -/
def filePathFor (request : SubmissionRequest) (name : Bytes) : ExceptT StdException m Bytes := do
  let workDir ← runnerWorkDirFor host request
  pure (join workDir name)

def userOutputName (testCase : RunnerCaseInput) : Bytes :=
  ascii "case_" ++ decimalInt testCase.seqId ++ ascii ".user.out"

/-- The `prepare` of both runners. -/
def prepareWith (language : String) (sourceName : Bytes) (request : SubmissionRequest) :
    ExceptT StdException m RunnerPrepareResult := do
  if hasBasicRequestFields request then
    let workDir ← runnerWorkDirFor host request
    let sourcePath ← filePathFor host request sourceName
    removeAll host workDir
    if ← createDirectories host workDir then
      return ⟨false, ascii "failed to create " ++ ascii language ++ ascii " runner work dir"⟩
    if ← openOutput host sourcePath then
      writeOutput host sourcePath request.code
      return ⟨true, sourcePath⟩
    return ⟨false, ascii "failed to write " ++ ascii language ++ ascii " source file"⟩
  return ⟨false, requiresMessage language⟩

/-- The case result of a runner that refuses to run. -/
def refusedCase (testCase : RunnerCaseInput) (message : Bytes) : RunnerCaseResult :=
  ⟨{ seqId := testCase.seqId, verdict := .systemError }, message⟩

def CppRunner.prepare : SubmissionRequest → ExceptT StdException m RunnerPrepareResult :=
  prepareWith host "cpp" (ascii "solution.cpp")

def CppRunner.compile (request : SubmissionRequest) :
    ExceptT StdException m RunnerCompileResult := do
  if hasBasicRequestFields request then
    let sourcePath ← filePathFor host request (ascii "solution.cpp")
    let executablePath ← filePathFor host request (ascii "solution")
    let compileLogPath ← filePathFor host request (ascii "compile.log")
    if ← pathExists host sourcePath then
      let compiled ← compileCppSourceFile host sourcePath executablePath compileLogPath
      if ← (if compiled.1 then pathExists host executablePath else pure false) then
        return ⟨true, .ac, executablePath⟩
      let compileMessage ← readFile host compileLogPath
      let workDir ← runnerWorkDirFor host request
      removeAll host workDir
      return ⟨false, .ce, if compileMessage = [] then compiled.2 else compileMessage⟩
    return ⟨false, .systemError, ascii "cpp source file not prepared"⟩
  return ⟨false, .systemError, requiresMessage "cpp"⟩

def CppRunner.runCase (request : SubmissionRequest) (testCase : RunnerCaseInput) :
    ExceptT StdException m RunnerCaseResult := do
  if hasBasicRequestFields request then
    let executablePath ← filePathFor host request (ascii "solution")
    let userOutputPath ← filePathFor host request (userOutputName testCase)
    if ← someMissing host [executablePath, testCase.inputPath, testCase.expectedOutputPath] then
      return refusedCase testCase (ascii "cpp runner missing executable or case files")
    runExecutableCase host executablePath testCase userOutputPath
  else return refusedCase testCase (requiresMessage "cpp")

def PythonRunner.prepare : SubmissionRequest → ExceptT StdException m RunnerPrepareResult :=
  prepareWith host "python" (ascii "solution.py")

/-- The syntax check writes the log and the interpreter's cache directory. -/
def PythonRunner.compile (request : SubmissionRequest) :
    ExceptT StdException m RunnerCompileResult := do
  if hasBasicRequestFields request then
    let sourcePath ← filePathFor host request (ascii "solution.py")
    let compileLogPath ← filePathFor host request (ascii "compile.log")
    if ← pathExists host sourcePath then
      let pycachePath ← filePathFor host request (ascii "__pycache__")
      let status ← system host (ascii "python3 -m py_compile '" ++
        shellEscapeSingleQuotes sourcePath ++ ascii "' > '" ++
        shellEscapeSingleQuotes compileLogPath ++ ascii "' 2>&1") [compileLogPath, pycachePath]
      if ← (if status = 0 then pure true else pathExists host pycachePath) then
        return ⟨true, .ac, sourcePath⟩
      let message ← readFile host compileLogPath
      return ⟨false, .ce, message⟩
    return ⟨false, .systemError, ascii "python source file not prepared"⟩
  return ⟨false, .systemError, requiresMessage "python"⟩

def PythonRunner.runCase (request : SubmissionRequest) (testCase : RunnerCaseInput) :
    ExceptT StdException m RunnerCaseResult := do
  if hasBasicRequestFields request then
    let sourcePath ← filePathFor host request (ascii "solution.py")
    let userOutputPath ← filePathFor host request (userOutputName testCase)
    let wrapperPath ← filePathFor host request (ascii "run_python.sh")
    if ← someMissing host [sourcePath, testCase.inputPath, testCase.expectedOutputPath] then
      return refusedCase testCase (ascii "python runner missing source or case files")
    if ← openOutput host wrapperPath then
      writeOutput host wrapperPath (ascii "#!/bin/sh\nexec python3 '" ++
        shellEscapeSingleQuotes sourcePath ++ ascii "'\n")
      permissions host wrapperPath
      runExecutableCase host wrapperPath testCase userOutputPath
    else return refusedCase testCase (ascii "failed to create python wrapper script")
  else return refusedCase testCase (requiresMessage "python")

def cppRunner : LanguageRunner m where
  prepare := CppRunner.prepare host
  compile := CppRunner.compile host
  runCase := fun _ => CppRunner.runCase host

def pythonRunner : LanguageRunner m where
  prepare := PythonRunner.prepare host
  compile := PythonRunner.compile host
  runCase := fun _ => PythonRunner.runCase host

def createRunner : SubmissionLanguage → Option (LanguageRunner m)
  | .cpp => some (cppRunner host)
  | .python => some (pythonRunner host)
  | .c => none

end Programs

end JudgeServer.Runner
