import JudgeServer.Common.SubmissionTypes
import JudgeServer.Lib.Decimal

/-!
# The child side of the sandbox

`sjudge/JudgeTypes.h`, `ChildSetup.cpp`, `CgroupSupport.cpp`, `Privilege.cpp` and
`SeccompPolicy.cpp`: what the forked process does between `fork` and `execve`. Each
library or system call is one `SetupCall`; a `Kernel` answers it from the calls made so
far, so nothing is assumed about which of them fail, nor about when the process is killed.
The allocations between the calls are taken to succeed here: of the exceptions only that of
`fs::is_directory` is modelled, and `ChildExceptions` adds the others.
-/

namespace JudgeServer.Sjudge

open JudgeServer.Lib.Decimal (decimal decimalInt)

structure JudgeConfig where
  maxCpuTimeMs : UInt32 := 0
  maxRealTimeMs : UInt32 := 0
  maxMemoryBytes : UInt64 := 0
  maxStackBytes : UInt64 := 0
  maxOutputBytes : UInt64 := 0
  cwd : Bytes := []
  exePath : Bytes := ascii "1"
  inputPath : Bytes := ascii "/dev/stdin"
  outputPath : Bytes := ascii "/dev/stdout"
  errorPath : Bytes := ascii "/dev/stderr"
  args : List Bytes := []
  enableSeccomp : Bool := false
  seccompDenyNetwork : Bool := true
  seccompDenyProcessSpawn : Bool := true
  runUid : UInt32 := 0
  runGid : UInt32 := 0
  clearSupplementaryGroups : Bool := false
  cgroupPath : Bytes := []
  cgroupMemoryMaxBytes : UInt64 := 0
  cgroupPidsMax : UInt32 := 0
  cgroupCpuMaxQuotaUs : UInt64 := 0
  cgroupCpuMaxPeriodUs : UInt64 := 100000

/-- Verdicts and infrastructure errors share one enumeration in the source. -/
inductive JudgeResultId where
  | success | cpuTimeLimitExceeded | realTimeLimitExceeded | memoryLimitExceeded
  | runtimeError | systemError
  | waitFailed | invalidConfig | forkFailed | pthreadFailed | rootRequired
  | loadSeccompFailed | setrlimitFailed | cgroupFailed | dup2Failed | setuidFailed
  | execveFailed | spjError | compileFail
  deriving DecidableEq, Repr

/-- The enumerator's integer value. -/
def JudgeResultId.value : JudgeResultId → Nat
  | success => 0
  | cpuTimeLimitExceeded => 1
  | realTimeLimitExceeded => 2
  | memoryLimitExceeded => 3
  | runtimeError => 4
  | systemError => 5
  | waitFailed => 6
  | invalidConfig => 7
  | forkFailed => 8
  | pthreadFailed => 9
  | rootRequired => 10
  | loadSeccompFailed => 11
  | setrlimitFailed => 12
  | cgroupFailed => 13
  | dup2Failed => 14
  | setuidFailed => 15
  | execveFailed => 16
  | spjError => 17
  | compileFail => 18

inductive Resource where
  | stack | addressSpace | fileSize | cpu
  deriving DecidableEq, Repr

inductive ControlFile where
  | memoryMax | pidsMax | cpuMax | cgroupProcs
  deriving DecidableEq, Repr

inductive DeniedSyscall where
  | socket | connect | accept | accept4 | bind | listen | sendto | recvfrom | sendmsg | recvmsg
  | shutdown | clone | fork | vfork | clone3
  deriving DecidableEq, Repr

inductive OpenMode where
  | readOnly | writeCreateTruncate
  deriving DecidableEq, Repr

/-- The calls the child makes; a stream call stands for an operation of `std::ofstream`. -/
inductive SetupCall where
  | chdir (path : Bytes)
  | open (path : Bytes) (mode : OpenMode)
  | dup2 (fd target : Int)
  | close (fd : Int)
  | setrlimit (resource : Resource) (value : UInt64)
  | isDirectory (path : Bytes)
  | openStream (dir : Bytes) (file : ControlFile)
  | writeStream (file : ControlFile) (text : Bytes)
  | closeStream (file : ControlFile)
  | getpid
  | setgroups
  | setgid (gid : UInt32)
  | setuid (uid : UInt32)
  | seccompInit
  | seccompRuleAdd (syscall : DeniedSyscall)
  | seccompLoad
  | seccompRelease
  | execve (path : Bytes) (argv : List Bytes)
  deriving DecidableEq, Repr

/-- A signal that can end a process. -/
structure Signal where
  number : Nat
  valid : 0 < number ∧ number < 127
  deriving DecidableEq, Repr

def sigabrt : Signal := ⟨6, by decide⟩
def sigkill : Signal := ⟨9, by decide⟩
def sigsegv : Signal := ⟨11, by decide⟩

inductive Answer where
  | returned (value : Int)
  | killed (signal : Signal)

/-- What the machine answers to a call, given the earlier ones, latest first. -/
abbrev Kernel := List SetupCall → SetupCall → Answer

inductive SetupStep where
  | chdir | redirect | setrlimit | cgroup | privilege | seccomp | execve
  deriving DecidableEq, Repr

/-- How the setup code stops short of the user's program. -/
inductive ChildStop where
  /-- `_exit` was called in this step. -/
  | exited (step : SetupStep) (code : Nat)
  /-- An exception left `run_child_process_or_exit` in this step. -/
  | escaped (step : SetupStep)
  | killed (signal : Signal)
  deriving DecidableEq, Repr

abbrev Child := StateT (List SetupCall) (Except ChildStop)

section Steps

variable (kernel : Kernel)

def call (c : SetupCall) : Child Int := fun calls =>
  match kernel calls c with
  | .returned value => .ok (value, c :: calls)
  | .killed signal => .error (.killed signal)

def exitWith {α : Type} (step : SetupStep) (code : JudgeResultId) : Child α :=
  throw (.exited step code.value)

def exitIf (c : Prop) [Decidable c] (step : SetupStep) (code : JudgeResultId) : Child Unit :=
  if c then exitWith step code else pure ()

def changeWorkingDirectoryOrExit (config : JudgeConfig) : Child Unit := do
  if config.cwd ≠ [] then
    exitIf ((← call kernel (.chdir config.cwd)) ≠ 0) .chdir .systemError

def redirectFdOrExit (path : Bytes) (mode : OpenMode) (targetFd : Int) : Child Unit := do
  let fd ← call kernel (.open path mode)
  exitIf (fd < 0) .redirect .dup2Failed
  exitIf ((← call kernel (.dup2 fd targetFd)) < 0) .redirect .dup2Failed
  let _ ← call kernel (.close fd)

/-- Equal output and error paths are opened and truncated once. -/
def redirectStandardStreamsOrExit (config : JudgeConfig) : Child Unit := do
  redirectFdOrExit kernel config.inputPath .readOnly 0
  if config.outputPath = config.errorPath then
    let fd ← call kernel (.open config.outputPath .writeCreateTruncate)
    exitIf (fd < 0) .redirect .dup2Failed
    exitIf ((← call kernel (.dup2 fd 1)) < 0) .redirect .dup2Failed
    exitIf ((← call kernel (.dup2 fd 2)) < 0) .redirect .dup2Failed
    let _ ← call kernel (.close fd)
  else
    redirectFdOrExit kernel config.outputPath .writeCreateTruncate 1
    redirectFdOrExit kernel config.errorPath .writeCreateTruncate 2

def applyLimitOrExit (resource : Resource) (value : UInt64) : Child Unit := do
  if value ≠ 0 then
    exitIf ((← call kernel (.setrlimit resource value)) ≠ 0) .setrlimit .setrlimitFailed

/-- The rounding up to seconds is 32-bit arithmetic: it wraps before it is widened. -/
def applyResourceLimitsOrExit (config : JudgeConfig) : Child Unit := do
  applyLimitOrExit kernel .stack config.maxStackBytes
  applyLimitOrExit kernel .addressSpace config.maxMemoryBytes
  applyLimitOrExit kernel .fileSize config.maxOutputBytes
  if config.maxCpuTimeMs > 0 then
    applyLimitOrExit kernel .cpu ((config.maxCpuTimeMs + 999) / 1000).toUInt64

/-- What reaches the file when the stream is destroyed is not looked at. -/
def writeControlFile (dir : Bytes) (file : ControlFile) (text : Bytes) : Child Bool := do
  if (← call kernel (.openStream dir file)) < 0 then
    return false
  let written ← call kernel (.writeStream file text)
  let _ ← call kernel (.closeStream file)
  return decide (0 ≤ written)

def writeOptionalLimit (dir : Bytes) (file : ControlFile) (value : UInt64) : Child Bool := do
  if value = 0 then
    return true
  writeControlFile kernel dir file (decimal value.toNat)

/-- `cpu.max`, when a quota is configured; a zero period stands for 100000. -/
def writeCpuMax (config : JudgeConfig) : Child Bool := do
  if config.cgroupCpuMaxQuotaUs > 0 then
    let period :=
      if config.cgroupCpuMaxPeriodUs > 0 then config.cgroupCpuMaxPeriodUs else 100000
    writeControlFile kernel config.cgroupPath .cpuMax
      (decimal config.cgroupCpuMaxQuotaUs.toNat ++ ascii " " ++ decimal period.toNat)
  else
    return true

/-- `fs::is_directory` throws when it cannot tell. -/
def isDirectory (path : Bytes) : Child Bool := do
  let status ← call kernel (.isDirectory path)
  if status < 0 then throw (.escaped .cgroup) else return decide (status ≠ 0)

/-- The error code is `none` on success. -/
def applyCgroupIfConfigured (config : JudgeConfig) : Child (Option JudgeResultId) := do
  if config.cgroupPath = [] then
    return none
  if !(← isDirectory kernel config.cgroupPath) then
    return some .cgroupFailed
  if !(← writeOptionalLimit kernel config.cgroupPath .memoryMax config.cgroupMemoryMaxBytes) then
    return some .cgroupFailed
  if !(← writeOptionalLimit kernel config.cgroupPath .pidsMax config.cgroupPidsMax.toUInt64) then
    return some .cgroupFailed
  if !(← writeCpuMax kernel config) then
    return some .cgroupFailed
  let pid ← call kernel .getpid
  if !(← writeControlFile kernel config.cgroupPath .cgroupProcs (decimalInt pid)) then
    return some .cgroupFailed
  return none

def applyCgroupOrExit (config : JudgeConfig) : Child Unit := do
  match ← applyCgroupIfConfigured kernel config with
  | some errorCode => exitWith .cgroup errorCode
  | none => pure ()

/-- `c && call(...) != 0`. -/
def refused (c : Bool) (s : SetupCall) : Child Bool := do
  if c then return decide ((← call kernel s) ≠ 0) else return false

def dropPrivilegesIfConfigured (config : JudgeConfig) : Child (Option JudgeResultId) := do
  if config.runUid = 0 ∧ config.runGid = 0 ∧ config.clearSupplementaryGroups = false then
    return none
  if ← refused kernel config.clearSupplementaryGroups .setgroups then
    return some .setuidFailed
  if ← refused kernel (config.runGid != 0) (.setgid config.runGid) then
    return some .setuidFailed
  if ← refused kernel (config.runUid != 0) (.setuid config.runUid) then
    return some .setuidFailed
  return none

def dropPrivilegesOrExit (config : JudgeConfig) : Child Unit := do
  match ← dropPrivilegesIfConfigured kernel config with
  | some errorCode => exitWith .privilege errorCode
  | none => pure ()

/-- Adds rules until one is refused. -/
def addKillRules : List DeniedSyscall → Child Bool
  | [] => pure true
  | syscall :: rest => do
      if (← call kernel (.seccompRuleAdd syscall)) = 0 then addKillRules rest else return false

def denyNetworkSyscalls : Child Bool :=
  addKillRules kernel [.socket, .connect, .accept, .accept4, .bind, .listen, .sendto, .recvfrom,
    .sendmsg, .recvmsg, .shutdown]

def denyProcessSpawnSyscalls : Child Bool :=
  addKillRules kernel [.clone, .fork, .vfork, .clone3]

/-- `ok && p`. -/
def andThen (ok : Bool) (p : Child Bool) : Child Bool := if ok then p else pure false

def denyIf (c : Bool) (p : Child Bool) : Child Bool := if c then p else pure true

/-- The build with libseccomp; without it the policy is a stub that always succeeds. -/
def applySeccompIfEnabled (libseccomp : Bool) (config : JudgeConfig) :
    Child (Option JudgeResultId) := do
  if libseccomp = false then
    return none
  if config.enableSeccomp = false then
    return none
  if (← call kernel .seccompInit) = 0 then
    return some .loadSeccompFailed
  let network ← denyIf config.seccompDenyNetwork (denyNetworkSyscalls kernel)
  let ok ← andThen network
    (denyIf config.seccompDenyProcessSpawn (denyProcessSpawnSyscalls kernel))
  let loaded ← andThen ok (do return decide ((← call kernel .seccompLoad) = 0))
  let _ ← call kernel .seccompRelease
  if !loaded then
    return some .loadSeccompFailed
  return none

def applySeccompPolicyOrExit (libseccomp : Bool) (config : JudgeConfig) : Child Unit := do
  match ← applySeccompIfEnabled kernel libseccomp config with
  | some errorCode => exitWith .seccomp errorCode
  | none => pure ()

def buildArgv (config : JudgeConfig) : List Bytes :=
  if config.args = [] then [config.exePath] else config.args

/-- Returns when `execve` has taken effect: the process is the user's program from then on. -/
def execProgramOrExit (config : JudgeConfig) : Child Unit := do
  exitIf ((← call kernel (.execve config.exePath (buildArgv config))) < 0) .execve .execveFailed

def runChildProcessOrExit (libseccomp : Bool) (config : JudgeConfig) : Child Unit := do
  changeWorkingDirectoryOrExit kernel config
  redirectStandardStreamsOrExit kernel config
  applyResourceLimitsOrExit kernel config
  applyCgroupOrExit kernel config
  dropPrivilegesOrExit kernel config
  applySeccompPolicyOrExit kernel libseccomp config
  execProgramOrExit kernel config

end Steps

section Returned

variable {kernel : Kernel} {α β : Type} {calls calls' : List SetupCall}

theorem bind_returned {p : Child α} {f : α → Child β} {b : β}
    (h : (p >>= f) calls = .ok (b, calls')) :
    ∃ a mid, p calls = .ok (a, mid) ∧ f a mid = .ok (b, calls') := by
  change (p calls >>= fun r => f r.1 r.2 : Except ChildStop _) = _ at h
  cases hp : p calls with
  | error stop =>
    rw [hp] at h
    cases h
  | ok r =>
    rw [hp] at h
    exact ⟨r.1, r.2, rfl, h⟩

theorem call_returned {c : SetupCall} {value : Int} (h : call kernel c calls = .ok (value, calls')) :
    calls' = c :: calls := by
  unfold call at h
  split at h
  · exact (Prod.mk.inj (Except.ok.inj h)).2.symm
  · cases h

theorem exitIf_returned {c : Prop} [Decidable c] {step : SetupStep} {code : JudgeResultId} {u : Unit}
    (h : exitIf c step code calls = .ok (u, calls')) : ¬ c ∧ calls' = calls := by
  unfold exitIf at h
  by_cases hc : c
  · rw [if_pos hc] at h
    cases h
  · rw [if_neg hc] at h
    exact ⟨hc, (Prod.mk.inj (Except.ok.inj h)).2.symm⟩

/-- A limit is set unless it is zero. -/
theorem applyLimitOrExit_returned {resource : Resource} {value : UInt64} {u : Unit}
    (h : applyLimitOrExit kernel resource value calls = .ok (u, calls')) :
    calls' = if value = 0 then calls else .setrlimit resource value :: calls := by
  unfold applyLimitOrExit at h
  by_cases h0 : value = 0
  · rw [if_neg (not_not.mpr h0)] at h
    rw [if_pos h0]
    exact (Prod.mk.inj (Except.ok.inj h)).2.symm
  · rw [if_pos h0] at h
    rw [if_neg h0]
    obtain ⟨answer, mid, hcall, hexit⟩ := bind_returned h
    obtain ⟨-, rfl⟩ := exitIf_returned hexit
    exact call_returned hcall

end Returned

/-- Whatever the machine answers, `p` returns a value in `post` or stops within `stops`. -/
def Meets {α : Type} (stops : ChildStop → Prop) (post : α → Prop) (p : Child α) : Prop :=
  ∀ calls, match p calls with
    | .ok (a, _) => post a
    | .error stop => stops stop

section Rules

variable {α β : Type} {stops : ChildStop → Prop} {post : α → Prop} {q : β → Prop}

theorem Meets.pure {a : α} (h : post a) : Meets stops post (Pure.pure a) := fun _ => h

theorem Meets.bind {p : Child α} {f : α → Child β} (hp : Meets stops post p)
    (hf : ∀ a, post a → Meets stops q (f a)) : Meets stops q (p >>= f) := by
  intro calls
  have h := hp calls
  change (match (p calls >>= fun r => f r.1 r.2 : Except ChildStop _) with
    | .ok (a, _) => q a
    | .error stop => stops stop)
  cases hcase : p calls with
  | error stop => rw [hcase] at h; exact h
  | ok r => rw [hcase] at h; exact hf r.1 h r.2

theorem Meets.ite {c : Prop} [Decidable c] {p p' : Child α} (hp : c → Meets stops post p)
    (hp' : ¬ c → Meets stops post p') : Meets stops post (if c then p else p') := by
  by_cases h : c
  · rw [if_pos h]
    exact hp h
  · rw [if_neg h]
    exact hp' h

theorem Meets.throw {stop : ChildStop} (h : stops stop) :
    Meets stops post (MonadExcept.throw stop : Child α) := fun _ => h

end Rules

/-- The code each step is documented to exit with. -/
def SetupStep.code : SetupStep → JudgeResultId
  | chdir => .systemError
  | redirect => .dup2Failed
  | setrlimit => .setrlimitFailed
  | cgroup => .cgroupFailed
  | privilege => .setuidFailed
  | seccomp => .loadSeccompFailed
  | execve => .execveFailed

/-- An `_exit` carries its own step's code, and only the cgroup step throws. -/
def OwnCode : ChildStop → Prop
  | .exited step code => code = step.code.value
  | .escaped step => step = .cgroup
  | .killed _ => True

/-- Stopping with the step's own code is among the ways to stop, and so is being killed. -/
structure Admits (stops : ChildStop → Prop) : Prop where
  exited : ∀ step : SetupStep, stops (.exited step step.code.value)
  killed : ∀ signal, stops (.killed signal)

theorem admits_ownCode : Admits OwnCode where
  exited := fun _ => rfl
  killed := fun _ => trivial

/-- The error code a helper hands back is the one its step exits with. -/
def Reports (step : SetupStep) (errorCode : Option JudgeResultId) : Prop :=
  errorCode = none ∨ errorCode = some step.code

section Ends

variable {kernel : Kernel} {α : Type} {post : α → Prop} {stops : ChildStop → Prop}
  (admits : Admits stops)

/-- A query, the step's code if the answer is bad, and the rest of the step otherwise. -/
theorem reportIf_meets (step : SetupStep) {bad : α → Prop} [DecidablePred bad] {p : Child α}
    {q : Child (Option JudgeResultId)} (hp : Meets stops (fun _ => True) p)
    (hq : Meets stops (Reports step) q) :
    Meets stops (Reports step) (do
      let answer ← p
      if bad answer then pure (some step.code) else q) := by
  apply Meets.bind hp
  intro answer _
  exact Meets.ite (fun _ => Meets.pure (Or.inr rfl)) fun _ => hq

theorem andThen_meets {ok : Bool} {p : Child Bool} (h : Meets stops (fun _ => True) p) :
    Meets stops (fun _ => True) (andThen ok p) :=
  Meets.ite (fun _ => h) fun _ => Meets.pure trivial

include admits

theorem call_meets {c : SetupCall} : Meets stops (fun _ => True) (call kernel c) := by
  intro calls
  unfold call
  cases kernel calls c with
  | returned value => trivial
  | killed signal => exact admits.killed signal

theorem exitWith_meets (step : SetupStep) :
    Meets stops post (exitWith step step.code : Child α) :=
  Meets.throw (admits.exited step)

theorem exitIf_meets (c : Prop) [Decidable c] (step : SetupStep) :
    Meets stops (fun _ => True) (exitIf c step step.code) :=
  Meets.ite (fun _ => exitWith_meets admits step) fun _ => Meets.pure trivial

theorem changeWorkingDirectoryOrExit_meets (config : JudgeConfig) :
    Meets stops (fun _ => True) (changeWorkingDirectoryOrExit kernel config) :=
  Meets.ite (fun _ => Meets.bind (call_meets admits) fun _ _ => exitIf_meets admits _ .chdir)
    fun _ => Meets.pure trivial

theorem redirectFdOrExit_meets (path : Bytes) (mode : OpenMode) (targetFd : Int) :
    Meets stops (fun _ => True) (redirectFdOrExit kernel path mode targetFd) := by
  unfold redirectFdOrExit
  apply Meets.bind (call_meets admits)
  intro fd _
  apply Meets.bind (exitIf_meets admits _ .redirect)
  intro _ _
  apply Meets.bind (call_meets admits)
  intro r _
  apply Meets.bind (exitIf_meets admits _ .redirect)
  exact fun _ _ => Meets.bind (call_meets admits) fun _ _ => Meets.pure trivial

theorem redirectStandardStreamsOrExit_meets (config : JudgeConfig) :
    Meets stops (fun _ => True) (redirectStandardStreamsOrExit kernel config) := by
  unfold redirectStandardStreamsOrExit
  apply Meets.bind (redirectFdOrExit_meets admits _ _ _)
  intro _ _
  apply Meets.ite
  · intro _
    apply Meets.bind (call_meets admits)
    intro fd _
    apply Meets.bind (exitIf_meets admits _ .redirect)
    intro _ _
    apply Meets.bind (call_meets admits)
    intro r _
    apply Meets.bind (exitIf_meets admits _ .redirect)
    intro _ _
    apply Meets.bind (call_meets admits)
    intro r' _
    apply Meets.bind (exitIf_meets admits _ .redirect)
    exact fun _ _ => Meets.bind (call_meets admits) fun _ _ => Meets.pure trivial
  · intro _
    apply Meets.bind (redirectFdOrExit_meets admits _ _ _)
    exact fun _ _ => redirectFdOrExit_meets admits _ _ _

theorem applyLimitOrExit_meets (resource : Resource) (value : UInt64) :
    Meets stops (fun _ => True) (applyLimitOrExit kernel resource value) :=
  Meets.ite (fun _ => Meets.bind (call_meets admits) fun _ _ => exitIf_meets admits _ .setrlimit)
    fun _ => Meets.pure trivial

theorem applyResourceLimitsOrExit_meets (config : JudgeConfig) :
    Meets stops (fun _ => True) (applyResourceLimitsOrExit kernel config) := by
  unfold applyResourceLimitsOrExit
  apply Meets.bind (applyLimitOrExit_meets admits _ _)
  intro _ _
  apply Meets.bind (applyLimitOrExit_meets admits _ _)
  intro _ _
  apply Meets.bind (applyLimitOrExit_meets admits _ _)
  intro _ _
  exact Meets.ite (fun _ => applyLimitOrExit_meets admits _ _) fun _ => Meets.pure trivial

theorem writeControlFile_meets (dir : Bytes) (file : ControlFile) (text : Bytes) :
    Meets stops (fun _ => True) (writeControlFile kernel dir file text) := by
  unfold writeControlFile
  apply Meets.bind (call_meets admits)
  intro opened _
  apply Meets.ite
  · exact fun _ => Meets.pure trivial
  · intro _
    apply Meets.bind (call_meets admits)
    intro written _
    exact Meets.bind (call_meets admits) fun _ _ => Meets.pure trivial

theorem writeOptionalLimit_meets (dir : Bytes) (file : ControlFile) (value : UInt64) :
    Meets stops (fun _ => True) (writeOptionalLimit kernel dir file value) :=
  Meets.ite (fun _ => Meets.pure trivial) fun _ => writeControlFile_meets admits _ _ _

theorem writeCpuMax_meets (config : JudgeConfig) :
    Meets stops (fun _ => True) (writeCpuMax kernel config) :=
  Meets.ite (fun _ => writeControlFile_meets admits _ _ _) fun _ => Meets.pure trivial

theorem exitOnError_meets {step : SetupStep} {p : Child (Option JudgeResultId)}
    (h : Meets stops (Reports step) p) :
    Meets stops (fun _ => True) (do
      match ← p with
      | some errorCode => exitWith step errorCode
      | none => pure () : Child Unit) := by
  apply Meets.bind h
  intro errorCode he
  obtain rfl | rfl := he
  · exact Meets.pure trivial
  · exact exitWith_meets admits step

theorem isDirectory_meets (hescaped : stops (.escaped .cgroup)) (path : Bytes) :
    Meets stops (fun _ => True) (isDirectory kernel path) := by
  apply Meets.bind (call_meets admits)
  intro status _
  exact Meets.ite (fun _ => Meets.throw hescaped) fun _ => Meets.pure trivial

theorem applyCgroupIfConfigured_meets {config : JudgeConfig}
    (hescaped : config.cgroupPath ≠ [] → stops (.escaped .cgroup)) :
    Meets stops (Reports .cgroup) (applyCgroupIfConfigured kernel config) := by
  unfold applyCgroupIfConfigured
  apply Meets.ite
  · exact fun _ => Meets.pure (Or.inl rfl)
  intro hpath
  apply reportIf_meets .cgroup (isDirectory_meets admits (hescaped hpath) _)
  apply reportIf_meets .cgroup (writeOptionalLimit_meets admits _ _ _)
  apply reportIf_meets .cgroup (writeOptionalLimit_meets admits _ _ _)
  apply reportIf_meets .cgroup (writeCpuMax_meets admits config)
  apply Meets.bind (call_meets admits)
  intro pid _
  apply reportIf_meets .cgroup (writeControlFile_meets admits _ _ _)
  exact Meets.pure (Or.inl rfl)

theorem refused_meets (c : Bool) (s : SetupCall) :
    Meets stops (fun _ => True) (refused kernel c s) :=
  Meets.ite (fun _ => Meets.bind (call_meets admits) fun _ _ => Meets.pure trivial)
    fun _ => Meets.pure trivial

theorem dropPrivilegesIfConfigured_meets (config : JudgeConfig) :
    Meets stops (Reports .privilege) (dropPrivilegesIfConfigured kernel config) := by
  unfold dropPrivilegesIfConfigured
  apply Meets.ite
  · exact fun _ => Meets.pure (Or.inl rfl)
  intro _
  apply reportIf_meets .privilege (refused_meets admits _ _)
  apply reportIf_meets .privilege (refused_meets admits _ _)
  apply reportIf_meets .privilege (refused_meets admits _ _)
  exact Meets.pure (Or.inl rfl)

theorem addKillRules_meets (rules : List DeniedSyscall) :
    Meets stops (fun _ => True) (addKillRules kernel rules) := by
  induction rules with
  | nil => exact Meets.pure trivial
  | cons syscall rest ih =>
    apply Meets.bind (call_meets admits)
    intro answer _
    exact Meets.ite (fun _ => ih) fun _ => Meets.pure trivial

theorem applySeccompIfEnabled_meets (libseccomp : Bool) (config : JudgeConfig) :
    Meets stops (Reports .seccomp) (applySeccompIfEnabled kernel libseccomp config) := by
  unfold applySeccompIfEnabled
  apply Meets.ite
  · exact fun _ => Meets.pure (Or.inl rfl)
  intro _
  apply Meets.ite
  · exact fun _ => Meets.pure (Or.inl rfl)
  intro _
  apply reportIf_meets .seccomp (call_meets admits)
  apply Meets.bind (Meets.ite (fun _ => addKillRules_meets admits _) fun _ => Meets.pure trivial)
  intro network _
  apply Meets.bind (andThen_meets (Meets.ite (fun _ => addKillRules_meets admits _)
    fun _ => Meets.pure trivial))
  intro ok _
  apply Meets.bind (andThen_meets (Meets.bind (call_meets admits) fun _ _ => Meets.pure trivial))
  intro loaded _
  apply Meets.bind (call_meets admits)
  intro _ _
  exact Meets.ite (fun _ => Meets.pure (Or.inr rfl)) fun _ => Meets.pure (Or.inl rfl)

/-- Only with a group to examine can an exception be among the ends. -/
theorem runChildProcessOrExit_meets (kernel : Kernel) (libseccomp : Bool) (config : JudgeConfig)
    (hescaped : config.cgroupPath ≠ [] → stops (.escaped .cgroup)) :
    Meets stops (fun _ => True) (runChildProcessOrExit kernel libseccomp config) := by
  unfold runChildProcessOrExit
  apply Meets.bind (changeWorkingDirectoryOrExit_meets admits config)
  intro _ _
  apply Meets.bind (redirectStandardStreamsOrExit_meets admits config)
  intro _ _
  apply Meets.bind (applyResourceLimitsOrExit_meets admits config)
  intro _ _
  apply Meets.bind (exitOnError_meets admits (applyCgroupIfConfigured_meets admits hescaped))
  intro _ _
  apply Meets.bind (exitOnError_meets admits (dropPrivilegesIfConfigured_meets admits config))
  intro _ _
  apply Meets.bind (exitOnError_meets admits (applySeccompIfEnabled_meets admits libseccomp config))
  intro _ _
  exact Meets.bind (call_meets admits) fun _ _ => exitIf_meets admits _ .execve

end Ends

end JudgeServer.Sjudge
