import JudgeServer.Sjudge.ThrowingPlan

/-!
# Infrastructure errors and user errors

`run_sjudger` over the child with exceptions. A setup failure and the user's own exit code
reach the parent through the same eight bits, and a process that an exception led out of
the setup ends as it will. The result names a failed step exactly when the machine and the
program leave the two apart.
-/

namespace JudgeServer.Sjudge

/-- One run of `run_sjudger`, with the allocations that fail in the child. -/
structure ThrowingExecution extends Execution where
  allocationFails : ChildLog → ThrowSite → Bool

def ThrowingExecution.machine (e : ThrowingExecution) : Machine := ⟨e.kernel, e.allocationFails⟩

namespace Throwing

def runChild (config : JudgeConfig) (e : ThrowingExecution) : Except ChildStop Unit :=
  ((runChildProcessOrExit e.machine e.libseccomp config).run {}).1

def childEnd (config : JudgeConfig) (e : ThrowingExecution) : ProcessEnd :=
  endOf e.program (runChild config e)

def monitorChild (config : JudgeConfig) (e : ThrowingExecution) : Option MonitorResult :=
  monitorEnding config e.toExecution (childEnd config e)

def runSjudger (config : JudgeConfig) (e : ThrowingExecution) : Option JudgeResult :=
  sjudgerEnding config e.toExecution (childEnd config e)

/-- Where every allocation succeeds, this is `run_sjudger` without the allocations. -/
theorem runSjudger_eq (config : JudgeConfig) {e : ThrowingExecution}
    (h : ∀ log site, e.allocationFails log site = false) :
    runSjudger config e = Sjudge.runSjudger config e.toExecution := by
  have hserved : ∀ log site, e.machine.allocationFails log site = false := h
  have hmatches := runChildProcessOrExit_matches hserved e.libseccomp config {}
  have hend : childEnd config e = Sjudge.childEnd config e.toExecution := by
    unfold childEnd runChild Sjudge.childEnd Sjudge.runChild
    change endOf e.program ((runChildProcessOrExit e.machine e.libseccomp config).run {}).1 =
      endOf e.program (Sjudge.runChildProcessOrExit e.machine.kernel e.libseccomp config [])
    cases hrun : Sjudge.runChildProcessOrExit e.machine.kernel e.libseccomp config [] with
    | ok ran =>
      rw [hrun] at hmatches
      rw [hmatches.1]
      rfl
    | error stop =>
      rw [hrun] at hmatches
      rw [hmatches]
      cases stop <;> rfl
  rw [runSjudger, hend, Sjudge.runSjudger]

/-- The setup step in which the child failed. -/
def failedStep (config : JudgeConfig) (e : ThrowingExecution) : Option SetupStep :=
  match runChild config e with
  | .error (.exited step _) => some step
  | .error (.escaped step) => some step
  | _ => none

end Throwing

theorem systemError_notMem_userVerdicts {id : JudgeResultId} (h : id ∈ userVerdicts) :
    id ≠ .systemError := by
  rintro rfl
  simp [userVerdicts] at h

/-- A normal exit is an infrastructure error exactly when its code is a reserved one. -/
theorem judgeMonitored_exited (config : JudgeConfig) {monitor : MonitorResult} {code : Nat}
    (herror : monitor.error = 0) (hsignal : monitor.signal = 0) (hcode : monitor.exitCode = code)
    (hreserved : isChildSetupErrorCode code = true) :
    (judgeMonitored config monitor).result = .systemError ∧
      (judgeMonitored config monitor).error = code := by
  have hne : code ≠ 0 := by
    rintro rfl
    revert hreserved
    decide
  simp [judgeMonitored, herror, hsignal, hcode, hne, hreserved]

/-- Any other end is a verdict on the user's program. -/
theorem judgeMonitored_user (config : JudgeConfig) {monitor : MonitorResult}
    (herror : monitor.error = 0) (htime : monitor.timedOut = false)
    (h : monitor.signal = 0 → isChildSetupErrorCode monitor.exitCode = false) :
    (judgeMonitored config monitor).result ∈ userVerdicts ∧
      (judgeMonitored config monitor).error = 0 := by
  have hmap := map_userVerdicts config htime
  by_cases hsignal : monitor.signal = 0
  · simp [judgeMonitored, herror, hsignal, h hsignal, hmap]
  · simp [judgeMonitored, herror, hsignal, hmap]

/-- Infrastructure errors are exactly the setup failures, and never the user's program. -/
structure Separates (config : JudgeConfig) (e : ThrowingExecution) (r : JudgeResult) : Prop where
  systemError_iff : r.result = .systemError ↔ ∃ step, Throwing.failedStep config e = some step
  own_code : ∀ step, Throwing.failedStep config e = some step → r.error = step.code.value
  user : Throwing.runChild config e = .ok () → r.result ∈ userVerdicts ∧ r.error = 0

/-- The plan of the setup with its allocations is carried out to the end. -/
def Reached (config : JudgeConfig) (e : ThrowingExecution) : Prop :=
  ∃ handles log,
    CarriedOut e.machine {} (setupPlan e.libseccomp config handles).withAllocations log

/-- An exception is thrown where the plan has come, in this step of the setup. -/
def LedOut (config : JudgeConfig) (e : ThrowingExecution) (step : SetupStep) : Prop :=
  ∃ handles, ThrownIn e.machine step {} (setupPlan e.libseccomp config handles).withAllocations

/-- The process exits with the code of this step. -/
def ProcessEnd.ExitsFor (processEnd : ProcessEnd) (step : SetupStep) : Prop :=
  ∃ code, processEnd = .exited code ∧ code.val = step.code.value

/-- The user's program does not exit with a reserved code, and a process that an exception
led out of the setup exits with the code of the step it failed in. -/
def EndsApart (config : JudgeConfig) (e : ThrowingExecution) : Prop :=
  (Reached config e → ∀ code, e.program = .exited code → isChildSetupErrorCode code = false) ∧
  ∀ step, LedOut config e step → e.program.ExitsFor step

theorem reached_iff (config : JudgeConfig) (e : ThrowingExecution) :
    Reached config e ↔ Throwing.runChild config e = .ok () := by
  have hreturns := (runChildProcessOrExit_along e.machine e.libseccomp config).returns {}
  unfold Throwing.runChild Reached
  rw [exists_comm]
  simp only [← hreturns]
  constructor
  · rintro ⟨log, hrun⟩
    rw [hrun]
  · intro hok
    exact ⟨_, Prod.ext hok rfl⟩

theorem ledOut_iff (config : JudgeConfig) (e : ThrowingExecution) (step : SetupStep) :
    LedOut config e step ↔ Throwing.runChild config e = .error (.escaped step) :=
  ((runChildProcessOrExit_along e.machine e.libseccomp config).escapes {} step).symm

/-- What `run_sjudger` makes of the end of a child it waited for in time. -/
inductive JudgedBy (config : JudgeConfig) (r : JudgeResult) : ProcessEnd → Prop
  | reserved {code : Fin 256} (h : isChildSetupErrorCode code = true)
      (hresult : r.result = .systemError) (herror : r.error = code) : JudgedBy config r (.exited code)
  | exited {code : Fin 256} (h : isChildSetupErrorCode code = false)
      (hresult : r.result ∈ userVerdicts) (herror : r.error = 0) : JudgedBy config r (.exited code)
  | signaled {signal : Signal} {core : Bool} (hresult : r.result ∈ userVerdicts)
      (herror : r.error = 0) : JudgedBy config r (.signaled signal core)

theorem judged_of_monitor {config : JudgeConfig} {e : Execution} {childEnd : ProcessEnd}
    {monitor : MonitorResult} (hmonitor : monitorEnding config e childEnd = some monitor)
    (herror : monitor.error = 0) (htime : monitor.timedOut = false) :
    JudgedBy config (judgeMonitored config monitor) childEnd := by
  obtain ⟨start, usage, elapsedMs, hfill⟩ := monitorChildProcess_reaped rfl hmonitor herror htime
  cases childEnd with
  | exited code =>
    obtain ⟨hsignal, hcode⟩ := fill_exited start usage elapsedMs code
    rw [← hfill] at hsignal hcode
    cases hres : isChildSetupErrorCode code with
    | true =>
      obtain ⟨h1, h2⟩ := judgeMonitored_exited config herror hsignal hcode hres
      exact .reserved hres h1 h2
    | false =>
      obtain ⟨h1, h2⟩ := judgeMonitored_user config herror htime
        (by rw [hcode]; exact fun _ => hres)
      exact .exited hres h1 h2
  | signaled signal core =>
    obtain ⟨hsignal, -⟩ := fill_signaled start usage elapsedMs signal core
    rw [← hfill] at hsignal
    have hpos := signal.valid.1
    obtain ⟨h1, h2⟩ := judgeMonitored_user config herror htime (by omega)
    exact .signaled h1 h2

namespace Throwing

variable {config : JudgeConfig} {e : ThrowingExecution} {r : JudgeResult}

/-- After `execve` the result is the user's verdict unless the exit code is reserved. -/
theorem separates_executed (hrun : runChild config e = .ok ())
    (hjudged : JudgedBy config r (childEnd config e)) :
    Separates config e r ↔ ∀ code, e.program = .exited code → isChildSetupErrorCode code = false := by
  have hstep : failedStep config e = none := by simp [failedStep, hrun]
  have hend : childEnd config e = e.program := by simp [childEnd, endOf, hrun]
  rw [hend] at hjudged
  constructor
  · intro hsep code hcode
    rw [hcode] at hjudged
    cases hjudged with
    | reserved _ hresult _ =>
      exact absurd hresult (systemError_notMem_userVerdicts (hsep.user hrun).1)
    | exited hfree _ _ => exact hfree
  · intro hapart
    have huser : r.result ∈ userVerdicts ∧ r.error = 0 := by
      cases hprogram : e.program with
      | exited code =>
        rw [hprogram] at hjudged
        cases hjudged with
        | reserved h _ _ =>
          rw [hapart code hprogram] at h
          cases h
        | exited _ hresult herror => exact ⟨hresult, herror⟩
      | signaled signal core =>
        rw [hprogram] at hjudged
        cases hjudged with
        | signaled hresult herror => exact ⟨hresult, herror⟩
    have hne := systemError_notMem_userVerdicts huser.1
    constructor
    · simp [hstep, hne]
    · simp [hstep]
    · exact fun _ => huser

/-- A failed step is told apart exactly when the process ends with the step's own code. -/
theorem separates_failed {step : SetupStep} (hstep : failedStep config e = some step)
    (hrun : runChild config e ≠ .ok ()) (hjudged : JudgedBy config r (childEnd config e)) :
    Separates config e r ↔ (childEnd config e).ExitsFor step := by
  have hreserved := (step_code_reserved step).1
  constructor
  · intro hsep
    have hsystem := hsep.systemError_iff.mpr ⟨_, hstep⟩
    have hown := hsep.own_code _ hstep
    revert hjudged
    cases childEnd config e with
    | signaled signal core =>
      intro hjudged
      cases hjudged with
      | signaled hresult _ => exact absurd hsystem (systemError_notMem_userVerdicts hresult)
    | exited code =>
      intro hjudged
      cases hjudged with
      | exited _ hresult _ => exact absurd hsystem (systemError_notMem_userVerdicts hresult)
      | reserved _ _ herror => exact ⟨code, rfl, herror.symm.trans hown⟩
  · rintro ⟨code, hend, hval⟩
    rw [hend] at hjudged
    cases hjudged with
    | exited h _ _ =>
      rw [hval, hreserved] at h
      cases h
    | reserved _ hresult herror =>
      rw [hval] at herror
      constructor
      · simp [hresult, hstep]
      · simp [hstep, herror]
      · exact fun h => absurd h hrun

/-- Being killed during the setup is no failed step, and is not reported as one. -/
theorem separates_killed {signal : Signal} (hrun : runChild config e = .error (.killed signal))
    (hjudged : JudgedBy config r (childEnd config e)) : Separates config e r := by
  have hend : childEnd config e = .signaled signal false := by simp [childEnd, endOf, hrun]
  rw [hend] at hjudged
  cases hjudged with
  | signaled hresult herror =>
    have hne := systemError_notMem_userVerdicts hresult
    constructor
    · simp [failedStep, hrun, hne]
    · simp [failedStep, hrun]
    · simp [hrun]

theorem separates_iff (hjudged : JudgedBy config r (childEnd config e)) :
    Separates config e r ↔ EndsApart config e := by
  have hmeets := Throwing.runChildProcessOrExit_meets e.machine e.libseccomp config {}
  unfold EndsApart
  simp only [reached_iff, ledOut_iff]
  cases hrun : runChild config e with
  | ok u =>
    rw [separates_executed hrun hjudged]
    simp
  | error stop =>
    rw [show ((runChildProcessOrExit e.machine e.libseccomp config).run {}).1 = _ from hrun]
      at hmeets
    have hne : runChild config e ≠ .ok () := by simp [hrun]
    cases stop with
    | exited step code =>
      have hcode : code = step.code.value := hmeets
      have hstep : failedStep config e = some step := by simp [failedStep, hrun]
      have hend : childEnd config e = .exited (Fin.ofNat 256 code) := by
        simp [childEnd, endOf, hrun]
      have hexits : (childEnd config e).ExitsFor step := by
        refine ⟨_, hend, ?_⟩
        rw [hcode]
        exact Nat.mod_eq_of_lt (step_code_reserved step).2
      rw [separates_failed hstep hne hjudged]
      simp [hexits]
    | escaped step =>
      have hstep : failedStep config e = some step := by simp [failedStep, hrun]
      have hend : childEnd config e = e.program := by simp [childEnd, endOf, hrun]
      rw [separates_failed hstep hne hjudged, hend]
      simp
    | killed signal =>
      simp [separates_killed hrun hjudged]

end Throwing

/-- For a child that was forked, waited for and not timed out, whatever the machine answers
and wherever an exception leaves the setup: setup failures and the user's program are told
apart exactly when they end apart. -/
theorem sjudger_separates_iff (config : JudgeConfig) (hexe : config.exePath ≠ [])
    (e : ThrowingExecution) (hfork : 0 < e.fork) (monitor : MonitorResult)
    (hmonitor : Throwing.monitorChild config e = some monitor) (herror : monitor.error = 0)
    (htime : monitor.timedOut = false) :
    (∃ r, Throwing.runSjudger config e = some r ∧ Separates config e r) ↔ EndsApart config e := by
  rw [Throwing.runSjudger, sjudgerEnding_waited hexe hfork hmonitor]
  have hiff := Throwing.separates_iff (judged_of_monitor hmonitor herror htime)
  constructor
  · rintro ⟨r, hr, hsep⟩
    cases hr
    exact hiff.mp hsep
  · intro hapart
    exact ⟨_, rfl, hiff.mpr hapart⟩

/-- The execution of `sampleExecution`, with memory for every allocation. -/
def amplySupplied (code : Fin 256) : ThrowingExecution :=
  { sampleExecution code with allocationFails := fun _ _ => false }

theorem amplySupplied_executed (code : Fin 256) :
    Throwing.runChild sampleConfig (amplySupplied code) = .ok () := by
  have h : ((Throwing.runChildProcessOrExit ⟨obligingKernel, fun _ _ => false⟩ true
      sampleConfig).run {}).1 = .ok () := by decide +kernel
  exact h

theorem sjudger_separates_nonzero_exit :
    ∃ r, Throwing.runSjudger sampleConfig (amplySupplied 1) = some r ∧
      Separates sampleConfig (amplySupplied 1) r := by
  apply (sjudger_separates_iff sampleConfig (by decide) (amplySupplied 1) (by decide) _ rfl rfl
    rfl).mpr
  constructor
  · intro _ code hcode
    cases hcode
    decide
  · intro step hled
    have hescaped := (ledOut_iff _ _ _).mp hled
    rw [amplySupplied_executed 1] at hescaped
    cases hescaped

/-- A program that ends with `return 5` is reported as a failure of the judge. -/
theorem user_exit_reported_as_system_error :
    Throwing.runChild sampleConfig (amplySupplied 5) = .ok () ∧
    (∃ monitor, Throwing.monitorChild sampleConfig (amplySupplied 5) = some monitor ∧
      monitor.error = 0 ∧ monitor.timedOut = false) ∧
    ∃ r, Throwing.runSjudger sampleConfig (amplySupplied 5) = some r ∧ r.result = .systemError ∧
      r.error = 5 ∧ ¬ Separates sampleConfig (amplySupplied 5) r := by
  refine ⟨amplySupplied_executed 5, ⟨_, rfl, rfl, rfl⟩, _, rfl, by decide +kernel, by decide +kernel, ?_⟩
  intro hsep
  have hsystem := hsep.user (amplySupplied_executed 5)
  exact systemError_notMem_userVerdicts hsystem.1 (by decide +kernel)

end JudgeServer.Sjudge

