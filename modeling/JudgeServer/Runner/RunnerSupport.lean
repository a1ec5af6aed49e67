import JudgeServer.Pipeline.SubmissionService
import JudgeServer.Sjudge.RunSjudger
import JudgeServer.Lib.LexicalPath
import Mathlib.Data.List.DropRight

/-!
# What the runners do outside the process

`runner/RunnerSupport.h`, `RunnerExecutionSupport.cpp` and `RunnerCompileSupport.cpp`.
Everything a runner asks of the machine is a `HostCall`; the programs are written for
any monad that answers them.
-/

namespace JudgeServer.Runner

open JudgeServer.Common
open JudgeServer.Pipeline (StdException)
open JudgeServer.Sjudge (JudgeConfig JudgeResult)
open JudgeServer.Lib.Decimal (decimalInt)
open JudgeServer.Lib.LexicalPath

/-- The calls with their arguments. A command line comes with the files it names for
writing, and with the directory in which an interpreter keeps its byte code. -/
inductive HostCall where
  | tempDirectoryPath
  | pathExists (path : Bytes)
  | removeAll (path : Bytes)
  | createDirectories (path : Bytes)
  | openOutput (path : Bytes)
  | writeOutput (path text : Bytes)
  | readFile (path : Bytes)
  | permissions (path : Bytes)
  | runCommandCaptureStdout (command : Bytes) (outputs : List Bytes)
  | system (command : Bytes) (outputs : List Bytes)
  | runSjudger (config : JudgeConfig)

/-- The calls without an error code may throw. `createDirectories` says whether it failed,
`openOutput` whether the stream is good. -/
def HostCall.Reply : HostCall → Type
  | .tempDirectoryPath => Except StdException Unit
  | .pathExists _ => Except StdException Bool
  | .removeAll _ => Unit
  | .createDirectories _ => Bool
  | .openOutput _ => Bool
  | .writeOutput _ _ => Unit
  | .readFile _ => Bytes
  | .permissions _ => Except StdException Unit
  | .runCommandCaptureStdout _ _ => Except StdException Bytes
  | .system _ _ => Int
  | .runSjudger _ => JudgeResult

structure RunnerSettings where
  /-- The directory `TMPDIR` names. -/
  temp : Bytes
  /-- `Config::getKeepRunnerWorkDir`. -/
  keepRunnerWorkDir : Bool := false
  /-- A configuration with the fields the server's own configuration decides. -/
  sjudge : JudgeConfig := {}

/-- The machine under the runners and the configuration they read. -/
structure Host (m : Type → Type) extends RunnerSettings where
  call : (c : HostCall) → m c.Reply

/-- The lines `std::getline` reads. -/
def getlines (content : Bytes) : List Bytes :=
  let parts := content.splitOn 10
  if parts.getLast? = some [] then parts.dropLast else parts

def trimmed (b : UInt8) : Bool := b = 32 || b = 9 || b = 13

def trimLineRight (line : Bytes) : Bytes := line.rdropWhile trimmed

/-- The lines of a file's content as they are compared. -/
def normalizeOutputLines (content : Bytes) : List Bytes :=
  ((getlines content).map trimLineRight).rdropWhile (· = [])

def mapJudgeResultToVerdict : Nat → SubmissionVerdict
  | 0 => .ac
  | 1 => .tle
  | 2 => .tle
  | 3 => .mle
  | 4 => .re
  | 5 => .systemError
  | _ => .unknown

def shellEscapeSingleQuotes (value : Bytes) : Bytes :=
  value.flatMap fun b => if b = 39 then ascii "'\\''" else [b]

/-- `path::parent_path`. -/
def parentPath (path : Bytes) : Bytes :=
  let dir := path.rdropWhile (· ≠ slash)
  if dir.all (· = slash) then dir.take 1 else dir.rdropWhile (· = slash)

section Programs

variable {m : Type → Type} [Monad m] (host : Host m)

def throwing {α : Type} (x : m (Except StdException α)) : ExceptT StdException m α := ExceptT.mk x

def pathExists (path : Bytes) : ExceptT StdException m Bool :=
  throwing (host.call (.pathExists path))

/-- `!fs::exists(a) || !fs::exists(b) || ...`. -/
def someMissing : List Bytes → ExceptT StdException m Bool
  | [] => pure false
  | path :: rest => do
      if ← pathExists host path then someMissing rest else pure true

def removeAll (path : Bytes) : ExceptT StdException m Unit :=
  ExceptT.lift (host.call (.removeAll path))

def createDirectories (path : Bytes) : ExceptT StdException m Bool :=
  ExceptT.lift (host.call (.createDirectories path))

def openOutput (path : Bytes) : ExceptT StdException m Bool :=
  ExceptT.lift (host.call (.openOutput path))

def writeOutput (path text : Bytes) : ExceptT StdException m Unit :=
  ExceptT.lift (host.call (.writeOutput path text))

def readFile (path : Bytes) : ExceptT StdException m Bytes :=
  ExceptT.lift (host.call (.readFile path))

def permissions (path : Bytes) : ExceptT StdException m Unit :=
  throwing (host.call (.permissions path))

def runCommandCaptureStdout (command : Bytes) (outputs : List Bytes) :
    ExceptT StdException m Bytes :=
  throwing (host.call (.runCommandCaptureStdout command outputs))

def system (command : Bytes) (outputs : List Bytes) : ExceptT StdException m Int :=
  ExceptT.lift (host.call (.system command outputs))

def runSjudger (config : JudgeConfig) : ExceptT StdException m JudgeResult :=
  ExceptT.lift (host.call (.runSjudger config))

/-- The directory of a request below the temporary directory. -/
def workDirIn (temp : Bytes) (request : SubmissionRequest) : Bytes :=
  join temp (ascii "oj_compile_" ++ decimalInt request.uuid)

def runnerWorkDirFor (request : SubmissionRequest) : ExceptT StdException m Bytes := do
  throwing (host.call .tempDirectoryPath)
  pure (workDirIn host.temp request)

def checkerPath : Bytes := ascii "/judge/checker/fcmp2"

/-- The checker's command line writes no file. -/
def compareCaseOutput (inputPath expectedOutput userOutput : Bytes) :
    ExceptT StdException m SubmissionVerdict := do
  if ← pathExists host checkerPath then
    let status ← system host (checkerPath ++ ascii " " ++ inputPath ++ ascii " " ++ userOutput ++
      ascii " " ++ expectedOutput) []
    pure (if status = 0 then .ac else .wa)
  else
    let expected ← readFile host expectedOutput
    let user ← readFile host userOutput
    pure (if normalizeOutputLines expected = normalizeOutputLines user then .ac else .wa)

/-- Limits that are not positive are `SJUDGE_UNLIMITED`, which is zero. -/
def caseConfig (executablePath : Bytes) (testCase : RunnerCaseInput) (userOutputPath : Bytes) :
    JudgeConfig :=
  { host.sjudge with
    maxCpuTimeMs := if 0 < testCase.cpuTimeLimitMs then
      UInt32.ofInt testCase.cpuTimeLimitMs else 0
    maxRealTimeMs := if 0 < testCase.realTimeLimitMs then
      UInt32.ofInt testCase.realTimeLimitMs else 0
    maxMemoryBytes := if 0 < testCase.memoryLimitKb then
      UInt64.ofNat (testCase.memoryLimitKb * 1024) else 0
    cwd := parentPath executablePath
    exePath := executablePath
    args := [executablePath]
    inputPath := testCase.inputPath
    outputPath := userOutputPath
    errorPath := userOutputPath ++ ascii ".err" }

/-- What is copied from the sandbox's result. -/
def caseResultOf (seqId : Int) (result : JudgeResult) : SubmissionCaseResult where
  seqId := seqId
  verdict := mapJudgeResultToVerdict result.result.value
  cpuTimeMs := result.cpuTimeMs
  realTimeMs := result.realTimeMs
  memoryKb := if 0 < result.memoryBytes then (result.memoryBytes / 1024).toNat else 0
  signal := result.signal
  exitCode := result.exitCode
  errorCode := result.error

def runExecutableCase (executablePath : Bytes) (testCase : RunnerCaseInput)
    (userOutputPath : Bytes) : ExceptT StdException m RunnerCaseResult := do
  if ← someMissing host [executablePath, testCase.inputPath, testCase.expectedOutputPath] then
    return ⟨{ seqId := testCase.seqId, verdict := .systemError },
      ascii "missing executable or case files"⟩
  let result ← runSjudger host (caseConfig host executablePath testCase userOutputPath)
  let caseResult := caseResultOf testCase.seqId result
  if result.result = .systemError then
    return ⟨caseResult, ascii "failed to execute in-process sjudger"⟩
  if caseResult.verdict = .ac then
    let verdict ← compareCaseOutput host testCase.inputPath testCase.expectedOutputPath userOutputPath
    return ⟨{ caseResult with verdict := verdict },
      if verdict = .ac then userOutputPath else ascii "output mismatch"⟩
  return ⟨caseResult, []⟩

/-- Whether the executable is there after the compiler has run, and what it printed. -/
def compileCppSourceFile (sourceFile executableFile compileLogFile : Bytes) :
    ExceptT StdException m (Bool × Bytes) :=
  let compileCommand := ascii "g++ -std=c++17 -O2 -DONLINE_JUDGE  -o " ++ executableFile ++
    ascii " " ++ sourceFile ++ ascii " 2> " ++ compileLogFile
  tryCatch (do
    let compileOutput ← runCommandCaptureStdout host compileCommand [executableFile, compileLogFile]
    let found ← pathExists host executableFile
    pure (found, compileOutput)) fun _ => pure (false, [])

end Programs

end JudgeServer.Runner
