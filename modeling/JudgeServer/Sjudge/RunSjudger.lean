import JudgeServer.Sjudge.ChildSetup

/-!
# The parent side of the sandbox

`sjudge/ParentMonitor.cpp`, `ResultMapper.cpp` and `sjudge_call.cpp`: polling the child,
and turning how it ended into a verdict. A setup failure and the user's own exit code
travel through the same eight bits of the wait status.
-/

namespace JudgeServer.Sjudge

/-- The two ways a process ends that `wait4` reports without `WUNTRACED`. -/
inductive ProcessEnd where
  | exited (code : Fin 256)
  | signaled (signal : Signal) (core : Bool)
  deriving DecidableEq, Repr

/-- The status word, and the macros of `sys/wait.h` that take it apart. -/
def ProcessEnd.status : ProcessEnd → Nat
  | exited code => code.val * 256
  | signaled signal core => signal.number + if core then 128 else 0

def wifexited (status : Nat) : Bool := status % 128 = 0
def wexitstatus (status : Nat) : Nat := status / 256 % 256
def wtermsig (status : Nat) : Nat := status % 128
def wifsignaled (status : Nat) : Bool := status % 128 ≠ 0 && status % 128 ≠ 127

structure Rusage where
  utimeSec : Int
  utimeUsec : Int
  maxrssKb : Int
  deriving DecidableEq, Repr

structure MonitorResult where
  waitStatus : Nat := 0
  signal : Nat := 0
  exitCode : Nat := 0
  realTimeMs : Int := 0
  cpuTimeMs : Int := 0
  memoryBytes : Int := 0
  timedOut : Bool := false
  error : Nat := 0
  deriving DecidableEq, Repr

structure JudgeResult where
  cpuTimeMs : Int := 0
  realTimeMs : Int := 0
  memoryBytes : Int := 0
  signal : Nat := 0
  exitCode : Nat := 0
  error : Nat := 0
  result : JudgeResultId := .systemError
  deriving DecidableEq, Repr

/-- An answer of `wait4`, with the reading of the steady clock that follows it. -/
inductive Wait4 where
  | running (elapsedMs : Int)
  | failed
  | reaped (usage : Rusage) (elapsedMs : Int)
  deriving DecidableEq, Repr

/-- Everything outside the program that one run of `run_sjudger` depends on. -/
structure Execution where
  libseccomp : Bool
  /-- What `fork` returns in the parent. -/
  fork : Int
  kernel : Kernel
  /-- How the process ends once the setup code no longer runs in it. -/
  program : ProcessEnd
  /-- How it is found to have ended after the parent sent `SIGKILL`. -/
  afterKill : ProcessEnd
  waits : List Wait4

def timevalToMs (usage : Rusage) : Int :=
  toInt32 (usage.utimeSec * 1000 + usage.utimeUsec.tdiv 1000)

def fillResultFromWaitStatus (result : MonitorResult) (status : Nat) (usage : Rusage)
    (elapsedMs : Int) : MonitorResult :=
  { result with
    waitStatus := status
    signal := if wifsignaled status then wtermsig status else 0
    exitCode := if wifexited status then wexitstatus status else 0
    cpuTimeMs := timevalToMs usage
    realTimeMs := toInt32 elapsedMs
    memoryBytes := usage.maxrssKb * 1024 }

def realTimeLimitExceeded (elapsedMs : Int) (realTimeLimitMs : UInt32) : Bool :=
  realTimeLimitMs > 0 && elapsedMs > toInt32 realTimeLimitMs.toNat

/-- The blocking `wait4` after the kill; `none` while it blocks. -/
def collectKilledChild (afterKill : ProcessEnd) (result : MonitorResult) :
    List Wait4 → Option MonitorResult
  | [] => none
  | .running _ :: rest => collectKilledChild afterKill result rest
  | .failed :: _ => some { result with error := JudgeResultId.waitFailed.value }
  | .reaped usage elapsedMs :: _ =>
      let result := fillResultFromWaitStatus result afterKill.status usage elapsedMs
      some (if result.signal = 0 then { result with signal := sigkill.number } else result)

/-- The polling loop; `none` while the child is still being waited for. -/
def monitorChildProcess (childEnd afterKill : ProcessEnd) (realTimeLimitMs : UInt32)
    (result : MonitorResult) : List Wait4 → Option MonitorResult
  | [] => none
  | .reaped usage elapsedMs :: _ =>
      some (fillResultFromWaitStatus result childEnd.status usage elapsedMs)
  | .failed :: _ => some { result with error := JudgeResultId.waitFailed.value }
  | .running elapsedMs :: rest =>
      let result := { result with realTimeMs := toInt32 elapsedMs }
      if realTimeLimitExceeded result.realTimeMs realTimeLimitMs then
        collectKilledChild afterKill { result with timedOut := true } rest
      else
        monitorChildProcess childEnd afterKill realTimeLimitMs result rest

def mapMonitorResultToJudgeCode (config : JudgeConfig) (monitor : MonitorResult) : JudgeResultId :=
  if monitor.timedOut then .realTimeLimitExceeded
  else if config.maxMemoryBytes > 0 ∧
      monitor.memoryBytes > Int.bmod config.maxMemoryBytes.toNat (2 ^ 64) then .memoryLimitExceeded
  else if config.maxCpuTimeMs > 0 ∧ monitor.cpuTimeMs > toInt32 config.maxCpuTimeMs.toNat then
    .cpuTimeLimitExceeded
  else if config.maxMemoryBytes > 0 ∧ (monitor.signal = sigsegv.number ∨
      monitor.signal = sigabrt.number ∨ monitor.signal = sigkill.number) then .memoryLimitExceeded
  else if config.maxMemoryBytes > 0 ∧ monitor.exitCode = 127 then .memoryLimitExceeded
  else if monitor.signal ≠ 0 ∨ monitor.exitCode ≠ 0 then .runtimeError
  else .success

def isChildSetupErrorCode (exitCode : Nat) : Bool :=
  [JudgeResultId.systemError, .waitFailed, .invalidConfig, .forkFailed, .loadSeccompFailed,
    .setrlimitFailed, .cgroupFailed, .dup2Failed, .setuidFailed, .execveFailed].any
    fun id => id.value = exitCode

/-- `none` is an accepted configuration. -/
def validateJudgeConfig (config : JudgeConfig) : Option JudgeResultId :=
  if config.exePath = [] then some .invalidConfig else none

def runChild (config : JudgeConfig) (e : Execution) :
    Except ChildStop (Unit × List SetupCall) :=
  runChildProcessOrExit e.kernel e.libseccomp config []

/-- How the forked process ends if the parent leaves it alone, by how its setup ended. An
exception leads out of the setup, and the rest is up to what the process then runs. -/
def endOf {α : Type} (program : ProcessEnd) : Except ChildStop α → ProcessEnd
  | .ok _ => program
  | .error (.exited _ code) => .exited (Fin.ofNat 256 code)
  | .error (.escaped _) => program
  | .error (.killed signal) => .signaled signal false

def childEnd (config : JudgeConfig) (e : Execution) : ProcessEnd := endOf e.program (runChild config e)

/-- The parent's wait for a child that ends in this way. -/
def monitorEnding (config : JudgeConfig) (e : Execution) (childEnd : ProcessEnd) :
    Option MonitorResult :=
  monitorChildProcess childEnd e.afterKill config.maxRealTimeMs {} e.waits

def monitorChild (config : JudgeConfig) (e : Execution) : Option MonitorResult :=
  monitorEnding config e (childEnd config e)

/-- The end of `run_sjudger`, once the child has been waited for. -/
def judgeMonitored (config : JudgeConfig) (monitor : MonitorResult) : JudgeResult :=
  let result : JudgeResult :=
    { cpuTimeMs := monitor.cpuTimeMs
      realTimeMs := monitor.realTimeMs
      memoryBytes := monitor.memoryBytes
      signal := monitor.signal
      exitCode := monitor.exitCode }
  if monitor.error ≠ 0 then
    { result with result := .systemError, error := monitor.error }
  else if result.signal = 0 ∧ result.exitCode ≠ 0 ∧ isChildSetupErrorCode result.exitCode then
    { result with result := .systemError, error := result.exitCode }
  else
    { result with error := 0, result := mapMonitorResultToJudgeCode config monitor }

/-- `run_sjudger` with a child that ends in this way. -/
def sjudgerEnding (config : JudgeConfig) (e : Execution) (childEnd : ProcessEnd) :
    Option JudgeResult :=
  match validateJudgeConfig config with
  | some errorCode => some { result := .systemError, error := errorCode.value }
  | none =>
      if e.fork < 0 then
        some { result := .systemError, error := JudgeResultId.forkFailed.value }
      else (monitorEnding config e childEnd).map (judgeMonitored config)

def runSjudger (config : JudgeConfig) (e : Execution) : Option JudgeResult :=
  sjudgerEnding config e (childEnd config e)

section Status

variable (result : MonitorResult) (usage : Rusage) (elapsedMs : Int)

theorem fill_exited (code : Fin 256) :
    (fillResultFromWaitStatus result (ProcessEnd.exited code).status usage elapsedMs).signal = 0 ∧
    (fillResultFromWaitStatus result (ProcessEnd.exited code).status usage elapsedMs).exitCode
      = code.val := by
  have hmod : code.val * 256 % 128 = 0 := by omega
  simp [fillResultFromWaitStatus, ProcessEnd.status, wifsignaled, wifexited, wexitstatus, hmod]

theorem fill_signaled (signal : Signal) (core : Bool) :
    (fillResultFromWaitStatus result (ProcessEnd.signaled signal core).status usage
      elapsedMs).signal = signal.number ∧
    (fillResultFromWaitStatus result (ProcessEnd.signaled signal core).status usage
      elapsedMs).exitCode = 0 := by
  have hvalid := signal.valid
  have hmod : (signal.number + if core then 128 else 0) % 128 = signal.number := by
    cases core <;> simp <;> omega
  have hpos : signal.number ≠ 0 := by omega
  have hlt : signal.number ≠ 127 := by omega
  simp [fillResultFromWaitStatus, ProcessEnd.status, wifsignaled, wifexited, wtermsig, hmod, hpos,
    hlt]

end Status

theorem collectKilledChild_timedOut {afterKill : ProcessEnd} {result monitor : MonitorResult}
    {waits : List Wait4} (ht : result.timedOut = true)
    (h : collectKilledChild afterKill result waits = some monitor) : monitor.timedOut = true := by
  induction waits with
  | nil => simp [collectKilledChild] at h
  | cons wait rest ih =>
    cases wait with
    | running elapsedMs => exact ih h
    | failed =>
      simp only [collectKilledChild, Option.some.injEq] at h
      rw [← h]
      exact ht
    | reaped usage elapsedMs =>
      simp only [collectKilledChild, Option.some.injEq] at h
      rw [← h]
      split <;> exact ht

/-- A child that was neither lost nor killed is reported with its own status. -/
theorem monitorChildProcess_reaped {childEnd afterKill : ProcessEnd} {limit : UInt32}
    {result monitor : MonitorResult} {waits : List Wait4} (hr : result.timedOut = false)
    (h : monitorChildProcess childEnd afterKill limit result waits = some monitor)
    (herror : monitor.error = 0) (htime : monitor.timedOut = false) :
    ∃ start usage elapsedMs,
      monitor = fillResultFromWaitStatus start childEnd.status usage elapsedMs := by
  induction waits generalizing result with
  | nil => simp [monitorChildProcess] at h
  | cons wait rest ih =>
    cases wait with
    | reaped usage elapsedMs =>
      simp only [monitorChildProcess, Option.some.injEq] at h
      exact ⟨result, usage, elapsedMs, h.symm⟩
    | failed =>
      simp only [monitorChildProcess, Option.some.injEq] at h
      rw [← h] at herror
      simp [JudgeResultId.value] at herror
    | running elapsedMs =>
      simp only [monitorChildProcess] at h
      split at h
      · have hout := collectKilledChild_timedOut rfl h
        rw [hout] at htime
        cases htime
      · apply ih _ h
        exact hr

/-- The results that are about the user's program. -/
def userVerdicts : List JudgeResultId :=
  [.success, .cpuTimeLimitExceeded, .memoryLimitExceeded, .runtimeError]

theorem map_userVerdicts (config : JudgeConfig) {monitor : MonitorResult}
    (h : monitor.timedOut = false) :
    mapMonitorResultToJudgeCode config monitor ∈ userVerdicts := by
  unfold mapMonitorResultToJudgeCode
  rw [h]
  split_ifs <;> simp_all [userVerdicts]

/-- `execve` has taken effect. -/
def Executed (config : JudgeConfig) (e : Execution) : Prop :=
  (runChild config e).toOption.isSome = true

/-- `fs::is_directory` threw, and the exception left the setup code. -/
def Escaped (config : JudgeConfig) (e : Execution) : Prop :=
  runChild config e = .error (.escaped .cgroup)

theorem step_code_reserved (step : SetupStep) :
    isChildSetupErrorCode step.code.value = true ∧ step.code.value < 256 := by
  cases step <;> decide

theorem sjudgerEnding_waited {config : JudgeConfig} (hexe : config.exePath ≠ []) {e : Execution}
    (hfork : 0 < e.fork) {childEnd : ProcessEnd} {monitor : MonitorResult}
    (hmonitor : monitorEnding config e childEnd = some monitor) :
    sjudgerEnding config e childEnd = some (judgeMonitored config monitor) := by
  have hvalid : validateJudgeConfig config = none := by simp [validateJudgeConfig, hexe]
  have hfork' : ¬ e.fork < 0 := by omega
  simp [sjudgerEnding, hvalid, hfork', hmonitor]

/-- Every call succeeds: descriptors and process numbers are positive, the rest return 0. -/
def obligingKernel : Kernel := fun _ c =>
  match c with
  | .open _ _ => .returned 3
  | .isDirectory _ => .returned 1
  | .getpid => .returned 42
  | .seccompInit => .returned 1
  | _ => .returned 0

/-- The configuration of one C++ case, and a child that ends with this exit code. -/
def sampleConfig : JudgeConfig :=
  { maxCpuTimeMs := 1000, maxRealTimeMs := 2000, maxMemoryBytes := 134217728
    exePath := ascii "/tmp/oj_compile_1/solution", inputPath := ascii "1.in"
    outputPath := ascii "1.user.out", errorPath := ascii "1.user.out.err" }

def sampleExecution (code : Fin 256) : Execution :=
  { libseccomp := true, fork := 42, kernel := obligingKernel, program := .exited code
    afterKill := .signaled sigkill false
    waits := [.running 1, .running 2, .reaped ⟨0, 1500, 3400⟩ 3] }

end JudgeServer.Sjudge
