import JudgeServer.Sjudge.RunSjudger

/-!
# Exceptions in the forked child

`ChildSetup.cpp` and `CgroupSupport.cpp` with the calls in them that can throw: building
and joining paths, `fs::is_directory`, formatting numbers, the buffer of a stream, and the
growth of `argv`. Nothing between them and the worker's `catch` clause is in the child
only, so an exception leaves the process with the server's code. The log of a run keeps
each throwing call with its outcome, also when the run ends with an exception.
-/

namespace JudgeServer.Sjudge

open JudgeServer.Lib.Decimal (decimal decimalInt)

/-- The calls that can throw, by where they are made. -/
inductive ThrowSite where
  /-- The copy of `cgroup_path` into a path. -/
  | cgroupPath
  | isDirectory
  /-- `cgroup_dir / file`. -/
  | controlPath (file : ControlFile)
  /-- `std::to_string`, and the concatenation for `cpu.max`. -/
  | controlText (file : ControlFile)
  /-- The buffer an opened stream allocates. -/
  | streamBuffer (file : ControlFile)
  /-- `argv.push_back`. -/
  | argv (index : Nat)
  deriving DecidableEq, Repr

def ThrowSite.step : ThrowSite → SetupStep
  | .argv _ => .execve
  | _ => .cgroup

/-- The calls made so far, latest first, and the throwing ones with whether they threw. -/
structure ChildLog where
  calls : List SetupCall := []
  throwing : List (ThrowSite × Bool) := []

/-- The kernel, and which allocations fail after what has happened so far. -/
structure Machine where
  kernel : Kernel
  allocationFails : ChildLog → ThrowSite → Bool

/-- The log outlives an exception. -/
abbrev ThrowingChild := ExceptT ChildStop (StateM ChildLog)

/-- A part of the setup in which nothing throws. -/
def quietly {α : Type} (p : Child α) : ThrowingChild α := ExceptT.mk fun log =>
  match p log.calls with
  | .ok (a, calls) => (.ok a, { log with calls := calls })
  | .error stop => (.error stop, log)

def mayThrow (site : ThrowSite) (threw : Bool) : ThrowingChild Unit := ExceptT.mk fun log =>
  (if threw then .error (.escaped site.step) else .ok (),
    { log with throwing := (site, threw) :: log.throwing })

namespace Throwing

variable (machine : Machine)

def allocate (site : ThrowSite) : ThrowingChild Unit := ExceptT.mk fun log =>
  (mayThrow site (machine.allocationFails log site)).run log

def isDirectory (path : Bytes) : ThrowingChild Bool := do
  let status ← quietly (call machine.kernel (.isDirectory path))
  mayThrow .isDirectory (decide (status < 0))
  return decide (status ≠ 0)

/-- The end of `write_control_file`, once the stream is open. -/
def writeOpened (file : ControlFile) (text : Bytes) : Child Bool := do
  let written ← call machine.kernel (.writeStream file text)
  let _ ← call machine.kernel (.closeStream file)
  return decide (0 ≤ written)

def writeControlFile (dir : Bytes) (file : ControlFile) (text : Bytes) : ThrowingChild Bool := do
  if (← quietly (call machine.kernel (.openStream dir file))) < 0 then
    return false
  allocate machine (.streamBuffer file)
  quietly (writeOpened machine file text)

def writeOptionalLimit (dir : Bytes) (file : ControlFile) (value : UInt64) :
    ThrowingChild Bool := do
  if value = 0 then
    return true
  allocate machine (.controlPath file)
  allocate machine (.controlText file)
  writeControlFile machine dir file (decimal value.toNat)

def writeCpuMax (config : JudgeConfig) : ThrowingChild Bool := do
  if config.cgroupCpuMaxQuotaUs > 0 then
    let period :=
      if config.cgroupCpuMaxPeriodUs > 0 then config.cgroupCpuMaxPeriodUs else 100000
    allocate machine (.controlPath .cpuMax)
    allocate machine (.controlText .cpuMax)
    writeControlFile machine config.cgroupPath .cpuMax
      (decimal config.cgroupCpuMaxQuotaUs.toNat ++ ascii " " ++ decimal period.toNat)
  else
    return true

def writeProcs (config : JudgeConfig) : ThrowingChild Bool := do
  allocate machine (.controlPath .cgroupProcs)
  let pid ← quietly (call machine.kernel .getpid)
  allocate machine (.controlText .cgroupProcs)
  writeControlFile machine config.cgroupPath .cgroupProcs (decimalInt pid)

def applyCgroupIfConfigured (config : JudgeConfig) : ThrowingChild (Option JudgeResultId) := do
  if config.cgroupPath = [] then
    return none
  allocate machine .cgroupPath
  if !(← isDirectory machine config.cgroupPath) then
    return some .cgroupFailed
  if !(← writeOptionalLimit machine config.cgroupPath .memoryMax config.cgroupMemoryMaxBytes) then
    return some .cgroupFailed
  if !(← writeOptionalLimit machine config.cgroupPath .pidsMax config.cgroupPidsMax.toUInt64) then
    return some .cgroupFailed
  if !(← writeCpuMax machine config) then
    return some .cgroupFailed
  if !(← writeProcs machine config) then
    return some .cgroupFailed
  return none

def applyCgroupOrExit (config : JudgeConfig) : ThrowingChild Unit := do
  match ← applyCgroupIfConfigured machine config with
  | some errorCode => quietly (exitWith .cgroup errorCode)
  | none => pure ()

/-- One `push_back` for each pointer, from this index on. -/
def pushBacks : Nat → List Bytes → ThrowingChild Unit
  | index, [] => allocate machine (.argv index)
  | index, _ :: rest => do
      allocate machine (.argv index)
      pushBacks (index + 1) rest

/-- The arguments, and the null pointer after them. -/
def buildArgv (config : JudgeConfig) : ThrowingChild (List Bytes) := do
  pushBacks machine 0 (Sjudge.buildArgv config)
  return Sjudge.buildArgv config

def execProgramOrExit (config : JudgeConfig) : ThrowingChild Unit := do
  let argv ← buildArgv machine config
  let answer ← quietly (call machine.kernel (.execve config.exePath argv))
  quietly (exitIf (answer < 0) .execve .execveFailed)

def runChildProcessOrExit (libseccomp : Bool) (config : JudgeConfig) : ThrowingChild Unit := do
  quietly (changeWorkingDirectoryOrExit machine.kernel config)
  quietly (redirectStandardStreamsOrExit machine.kernel config)
  quietly (applyResourceLimitsOrExit machine.kernel config)
  applyCgroupOrExit machine config
  quietly (dropPrivilegesOrExit machine.kernel config)
  quietly (applySeccompPolicyOrExit machine.kernel libseccomp config)
  execProgramOrExit machine config

end Throwing

/-- Whatever the machine answers and wherever it fails to allocate, `p` returns a value in
`post` or stops within `stops`. -/
def Throwing.Meets {α : Type} (stops : ChildStop → Prop) (post : α → Prop)
    (p : ThrowingChild α) : Prop :=
  ∀ log, match (p.run log).1 with
    | .ok a => post a
    | .error stop => stops stop

section Rules

variable {α β : Type} {stops : ChildStop → Prop} {post : α → Prop} {q : β → Prop}

theorem run_bind (p : ThrowingChild α) (f : α → ThrowingChild β) (log : ChildLog) :
    (p >>= f).run log =
      match (p.run log).1 with
      | .ok a => (f a).run (p.run log).2
      | .error stop => (.error stop, (p.run log).2) := by
  rw [ExceptT.run_bind]
  change StateT.bind p.run _ log = _
  unfold StateT.bind
  obtain ⟨result, log'⟩ := p.run log
  cases result <;> rfl

theorem run_quietly (p : Child α) (log : ChildLog) :
    (quietly p).run log =
      match p log.calls with
      | .ok (a, calls) => (.ok a, { log with calls := calls })
      | .error stop => (.error stop, log) := rfl

theorem Throwing.Meets.pure {a : α} (h : post a) : Throwing.Meets stops post (Pure.pure a) :=
  fun _ => h

theorem Throwing.Meets.bind {p : ThrowingChild α} {f : α → ThrowingChild β}
    (hp : Throwing.Meets stops post p) (hf : ∀ a, post a → Throwing.Meets stops q (f a)) :
    Throwing.Meets stops q (p >>= f) := by
  intro log
  have hfirst := hp log
  rw [run_bind]
  cases hresult : (p.run log).1 with
  | ok a =>
    rw [hresult] at hfirst
    exact hf a hfirst (p.run log).2
  | error stop =>
    rw [hresult] at hfirst
    exact hfirst

theorem Throwing.Meets.ite {c : Prop} [Decidable c] {p p' : ThrowingChild α}
    (hp : c → Throwing.Meets stops post p) (hp' : ¬ c → Throwing.Meets stops post p') :
    Throwing.Meets stops post (if c then p else p') := by
  by_cases h : c
  · rw [if_pos h]
    exact hp h
  · rw [if_neg h]
    exact hp' h

theorem quietly_meets {p : Child α} (h : Meets stops post p) :
    Throwing.Meets stops post (quietly p) := by
  intro log
  have hmeets := h log.calls
  rw [run_quietly]
  cases hp : p log.calls with
  | ok r =>
    rw [hp] at hmeets
    exact hmeets
  | error stop =>
    rw [hp] at hmeets
    exact hmeets

end Rules

/-- An `_exit` carries its own step's code, and two of the steps make calls that throw. -/
def OwnEnd : ChildStop → Prop
  | .exited step code => code = step.code.value
  | .escaped step => step = .cgroup ∨ step = .execve
  | .killed _ => True

theorem admits_ownEnd : Admits OwnEnd where
  exited := fun _ => rfl
  killed := fun _ => trivial

namespace Throwing

variable {machine : Machine}

theorem mayThrow_meets (site : ThrowSite) (threw : Bool) :
    Meets OwnEnd (fun _ => True) (mayThrow site threw) := by
  intro log
  cases threw with
  | false => trivial
  | true =>
    cases site with
    | argv index => exact Or.inr rfl
    | cgroupPath => exact Or.inl rfl
    | isDirectory => exact Or.inl rfl
    | controlPath file => exact Or.inl rfl
    | controlText file => exact Or.inl rfl
    | streamBuffer file => exact Or.inl rfl

theorem allocate_meets (site : ThrowSite) : Meets OwnEnd (fun _ => True) (allocate machine site) :=
  fun log => mayThrow_meets site (machine.allocationFails log site) log

theorem call_meets (c : SetupCall) :
    Meets OwnEnd (fun _ => True) (quietly (call machine.kernel c)) :=
  quietly_meets (Sjudge.call_meets admits_ownEnd)

theorem isDirectory_meets (path : Bytes) :
    Meets OwnEnd (fun _ => True) (isDirectory machine path) := by
  apply Meets.bind (call_meets _)
  intro status _
  apply Meets.bind (mayThrow_meets _ _)
  exact fun _ _ => Meets.pure trivial

theorem writeControlFile_meets (dir : Bytes) (file : ControlFile) (text : Bytes) :
    Meets OwnEnd (fun _ => True) (writeControlFile machine dir file text) := by
  apply Meets.bind (call_meets _)
  intro opened _
  apply Meets.ite
  · exact fun _ => Meets.pure trivial
  intro _
  apply Meets.bind (allocate_meets _)
  intro _ _
  apply quietly_meets
  apply Sjudge.Meets.bind (Sjudge.call_meets admits_ownEnd)
  intro written _
  exact Sjudge.Meets.bind (Sjudge.call_meets admits_ownEnd) fun _ _ => Sjudge.Meets.pure trivial

theorem writeOptionalLimit_meets (dir : Bytes) (file : ControlFile) (value : UInt64) :
    Meets OwnEnd (fun _ => True) (writeOptionalLimit machine dir file value) := by
  apply Meets.ite
  · exact fun _ => Meets.pure trivial
  intro _
  apply Meets.bind (allocate_meets _)
  intro _ _
  apply Meets.bind (allocate_meets _)
  exact fun _ _ => writeControlFile_meets _ _ _

theorem writeCpuMax_meets (config : JudgeConfig) :
    Meets OwnEnd (fun _ => True) (writeCpuMax machine config) := by
  apply Meets.ite
  · intro _
    apply Meets.bind (allocate_meets _)
    intro _ _
    apply Meets.bind (allocate_meets _)
    exact fun _ _ => writeControlFile_meets _ _ _
  · exact fun _ => Meets.pure trivial

theorem writeProcs_meets (config : JudgeConfig) :
    Meets OwnEnd (fun _ => True) (writeProcs machine config) := by
  apply Meets.bind (allocate_meets _)
  intro _ _
  apply Meets.bind (call_meets _)
  intro pid _
  apply Meets.bind (allocate_meets _)
  exact fun _ _ => writeControlFile_meets _ _ _

/-- A query, the cgroup step's code if the answer is no, and the rest otherwise. -/
theorem orFailed_meets {p : ThrowingChild Bool} {rest : ThrowingChild (Option JudgeResultId)}
    (hp : Meets OwnEnd (fun _ => True) p) (hrest : Meets OwnEnd (Reports .cgroup) rest) :
    Meets OwnEnd (Reports .cgroup) (do
      if !(← p) then return some .cgroupFailed
      rest) := by
  apply Meets.bind hp
  intro answer _
  exact Meets.ite (fun _ => Meets.pure (Or.inr rfl)) fun _ => hrest

theorem applyCgroupIfConfigured_meets (config : JudgeConfig) :
    Meets OwnEnd (Reports .cgroup) (applyCgroupIfConfigured machine config) := by
  unfold applyCgroupIfConfigured
  apply Meets.ite
  · exact fun _ => Meets.pure (Or.inl rfl)
  intro _
  apply Meets.bind (allocate_meets _)
  intro _ _
  apply orFailed_meets (isDirectory_meets _)
  apply orFailed_meets (writeOptionalLimit_meets _ _ _)
  apply orFailed_meets (writeOptionalLimit_meets _ _ _)
  apply orFailed_meets (writeCpuMax_meets config)
  apply orFailed_meets (writeProcs_meets config)
  exact Meets.pure (Or.inl rfl)

theorem applyCgroupOrExit_meets (config : JudgeConfig) :
    Meets OwnEnd (fun _ => True) (applyCgroupOrExit machine config) := by
  apply Meets.bind (applyCgroupIfConfigured_meets config)
  intro errorCode he
  obtain rfl | rfl := he
  · exact Meets.pure trivial
  · exact quietly_meets (exitWith_meets admits_ownEnd .cgroup)

theorem pushBacks_meets (index : Nat) (args : List Bytes) :
    Meets OwnEnd (fun _ => True) (pushBacks machine index args) := by
  induction args generalizing index with
  | nil => exact allocate_meets _
  | cons arg rest ih => exact Meets.bind (allocate_meets _) fun _ _ => ih (index + 1)

theorem execProgramOrExit_meets (config : JudgeConfig) :
    Meets OwnEnd (fun _ => True) (execProgramOrExit machine config) := by
  have hargv : Meets OwnEnd (fun _ => True) (buildArgv machine config) :=
    Meets.bind (pushBacks_meets 0 _) fun _ _ => Meets.pure trivial
  apply Meets.bind hargv
  intro argv _
  apply Meets.bind (call_meets _)
  intro answer _
  exact quietly_meets (exitIf_meets admits_ownEnd _ .execve)

theorem runChildProcessOrExit_meets (machine : Machine) (libseccomp : Bool) (config : JudgeConfig) :
    Meets OwnEnd (fun _ => True) (runChildProcessOrExit machine libseccomp config) := by
  unfold runChildProcessOrExit
  apply Meets.bind (quietly_meets (changeWorkingDirectoryOrExit_meets admits_ownEnd config))
  intro _ _
  apply Meets.bind (quietly_meets (redirectStandardStreamsOrExit_meets admits_ownEnd config))
  intro _ _
  apply Meets.bind (quietly_meets (applyResourceLimitsOrExit_meets admits_ownEnd config))
  intro _ _
  apply Meets.bind (applyCgroupOrExit_meets config)
  intro _ _
  apply Meets.bind (quietly_meets (exitOnError_meets admits_ownEnd
    (dropPrivilegesIfConfigured_meets admits_ownEnd config)))
  intro _ _
  apply Meets.bind (quietly_meets (exitOnError_meets admits_ownEnd
    (applySeccompIfEnabled_meets admits_ownEnd libseccomp config)))
  exact fun _ _ => execProgramOrExit_meets config

end Throwing

/-- Both programs make the same calls and end in the same way. -/
def Matches {α : Type} (p : ThrowingChild α) (q : Child α) : Prop :=
  ∀ log, match q log.calls with
    | .ok (a, calls) => (p.run log).1 = .ok a ∧ (p.run log).2.calls = calls
    | .error stop => (p.run log).1 = .error stop

section Matching

variable {α β : Type}

theorem Matches.pure (a : α) : Matches (Pure.pure a) (Pure.pure a) := fun _ => ⟨rfl, rfl⟩

theorem quietly_matches (p : Child α) : Matches (quietly p) p := by
  intro log
  rw [run_quietly]
  cases p log.calls with
  | ok r => exact ⟨rfl, rfl⟩
  | error stop => rfl

theorem Matches.bind {p : ThrowingChild α} {q : Child α} {f : α → ThrowingChild β}
    {g : α → Child β} (hp : Matches p q) (hf : ∀ a, Matches (f a) (g a)) :
    Matches (p >>= f) (q >>= g) := by
  intro log
  have hfirst := hp log
  change (match (q log.calls >>= fun r => g r.1 r.2 : Except ChildStop _) with
    | .ok (b, calls) => _
    | .error stop => _)
  rw [run_bind]
  cases hq : q log.calls with
  | error stop =>
    rw [hq] at hfirst
    rw [hfirst]
    rfl
  | ok r =>
    rw [hq] at hfirst
    have hrest := hf r.1 (p.run log).2
    rw [hfirst.2] at hrest
    rw [hfirst.1]
    exact hrest

theorem Matches.ite {c : Prop} [Decidable c] {p p' : ThrowingChild α} {q q' : Child α}
    (hp : Matches p q) (hp' : Matches p' q') :
    Matches (if c then p else p') (if c then q else q') := by
  by_cases h : c
  · rw [if_pos h, if_pos h]
    exact hp
  · rw [if_neg h, if_neg h]
    exact hp'

end Matching

namespace Throwing

variable {machine : Machine} (h : ∀ log site, machine.allocationFails log site = false)

include h

theorem allocate_matches {α : Type} {site : ThrowSite} {f : Unit → ThrowingChild α} {q : Child α}
    (hf : Matches (f ()) q) : Matches (allocate machine site >>= f) q := by
  intro log
  have hrest := hf { log with throwing := (site, false) :: log.throwing }
  have hrun : (allocate machine site).run log =
      (.ok (), { log with throwing := (site, false) :: log.throwing }) := by
    show (mayThrow site (machine.allocationFails log site)).run log = _
    rw [h]
    rfl
  rw [run_bind, hrun]
  exact hrest

theorem writeControlFile_matches (dir : Bytes) (file : ControlFile) (text : Bytes) :
    Matches (writeControlFile machine dir file text)
      (Sjudge.writeControlFile machine.kernel dir file text) := by
  apply Matches.bind (quietly_matches _)
  intro opened
  apply Matches.ite (Matches.pure _)
  apply allocate_matches h
  exact quietly_matches _

theorem writeOptionalLimit_matches (dir : Bytes) (file : ControlFile) (value : UInt64) :
    Matches (writeOptionalLimit machine dir file value)
      (Sjudge.writeOptionalLimit machine.kernel dir file value) := by
  apply Matches.ite (Matches.pure _)
  apply allocate_matches h
  apply allocate_matches h
  exact writeControlFile_matches h _ _ _

theorem writeCpuMax_matches (config : JudgeConfig) :
    Matches (writeCpuMax machine config) (Sjudge.writeCpuMax machine.kernel config) := by
  apply Matches.ite
  · apply allocate_matches h
    apply allocate_matches h
    exact writeControlFile_matches h _ _ _
  · exact Matches.pure _

omit h in
theorem isDirectory_matches (path : Bytes) :
    Matches (isDirectory machine path) (Sjudge.isDirectory machine.kernel path) := by
  apply Matches.bind (quietly_matches _)
  intro status log
  by_cases hs : status < 0
  · simp only [hs, if_true]
    rfl
  · simp only [hs, if_false]
    exact ⟨rfl, rfl⟩

omit h in
/-- A query on both sides, with the same rest. -/
theorem orFailed_matches {p : ThrowingChild Bool} {q : Child Bool}
    {rest : ThrowingChild (Option JudgeResultId)} {rest' : Child (Option JudgeResultId)}
    (hp : Matches p q) (hrest : Matches rest rest') :
    Matches (do
      if !(← p) then return some .cgroupFailed
      rest) (do
      if !(← q) then return some .cgroupFailed
      rest') := by
  apply Matches.bind hp
  intro answer
  exact Matches.ite (Matches.pure _) hrest

theorem applyCgroupIfConfigured_matches (config : JudgeConfig) :
    Matches (applyCgroupIfConfigured machine config)
      (Sjudge.applyCgroupIfConfigured machine.kernel config) := by
  apply Matches.ite (Matches.pure _)
  apply allocate_matches h
  apply orFailed_matches (isDirectory_matches _)
  apply orFailed_matches (writeOptionalLimit_matches h _ _ _)
  apply orFailed_matches (writeOptionalLimit_matches h _ _ _)
  apply orFailed_matches (writeCpuMax_matches h config)
  unfold writeProcs
  simp only [bind_assoc]
  apply allocate_matches h
  apply Matches.bind (quietly_matches _)
  intro pid
  apply allocate_matches h
  exact orFailed_matches (writeControlFile_matches h _ _ _) (Matches.pure _)

theorem pushBacks_matches {α : Type} (index : Nat) (args : List Bytes)
    {f : Unit → ThrowingChild α} {q : Child α} (hf : Matches (f ()) q) :
    Matches (pushBacks machine index args >>= f) q := by
  induction args generalizing index with
  | nil => exact allocate_matches h hf
  | cons arg rest ih =>
    rw [pushBacks, bind_assoc]
    exact allocate_matches h (ih (index + 1))

/-- The model without exceptions is this one on a machine whose allocations succeed. -/
theorem runChildProcessOrExit_matches (libseccomp : Bool) (config : JudgeConfig) :
    Matches (runChildProcessOrExit machine libseccomp config)
      (Sjudge.runChildProcessOrExit machine.kernel libseccomp config) := by
  apply Matches.bind (quietly_matches _)
  intro _
  apply Matches.bind (quietly_matches _)
  intro _
  apply Matches.bind (quietly_matches _)
  intro _
  apply Matches.bind
  · apply Matches.bind (applyCgroupIfConfigured_matches h config)
    intro errorCode
    cases errorCode with
    | none => exact Matches.pure _
    | some code => exact quietly_matches _
  intro _
  apply Matches.bind (quietly_matches _)
  intro _
  apply Matches.bind (quietly_matches _)
  intro _
  unfold execProgramOrExit buildArgv
  rw [bind_assoc]
  apply pushBacks_matches h
  rw [pure_bind]
  apply Matches.bind (quietly_matches _)
  exact fun _ => quietly_matches _

end Throwing

end JudgeServer.Sjudge
