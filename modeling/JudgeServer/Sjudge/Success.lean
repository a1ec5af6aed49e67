import JudgeServer.Sjudge.SetupPlan

/-!
# When a run succeeds

`SUCCESS` is what the parent makes of one end of the child only: the user's program ran
behind the whole setup, returned zero, was not found overdue and kept to its memory and
to its CPU time.
-/

namespace JudgeServer.Sjudge

/-- The peak memory and the user time of a child are within the limits that are set. -/
structure WithinLimits (config : JudgeConfig) (usage : Rusage) : Prop where
  memory : config.maxMemoryBytes > 0 →
    usage.maxrssKb * 1024 ≤ Int.bmod config.maxMemoryBytes.toNat (2 ^ 64)
  cpuTime : config.maxCpuTimeMs > 0 → timevalToMs usage ≤ toInt32 config.maxCpuTimeMs.toNat

/-- The child was reaped in time and within its limits. -/
def ReapedWithin (config : JudgeConfig) (e : Execution) : Prop :=
  ∃ reaped, reaping e.waits = some reaped ∧ ¬ Overdue config.maxRealTimeMs reaped.polls ∧
    WithinLimits config reaped.usage

theorem withinLimits_iff {config : JudgeConfig} {monitor : MonitorResult} {usage : Rusage}
    (hmemory : monitor.memoryBytes = usage.maxrssKb * 1024)
    (hcpu : monitor.cpuTimeMs = timevalToMs usage) :
    WithinLimits config usage ↔ ¬ MemoryPeakTest config monitor ∧ ¬ CpuTimeTest config monitor := by
  unfold MemoryPeakTest CpuTimeTest
  rw [hmemory, hcpu, not_and, not_and, not_lt, not_lt]
  exact ⟨fun h => ⟨h.memory, h.cpuTime⟩, fun h => ⟨h.1, h.2⟩⟩

theorem map_success_iff (config : JudgeConfig) (monitor : MonitorResult) :
    mapMonitorResultToJudgeCode config monitor = .success ↔
      monitor.timedOut = false ∧ monitor.signal = 0 ∧ monitor.exitCode = 0 ∧
        ¬ MemoryPeakTest config monitor ∧ ¬ CpuTimeTest config monitor := by
  unfold mapMonitorResultToJudgeCode MemoryPeakTest CpuTimeTest
  split_ifs with htime hmemory hcpu hsignal hcode huser
  · exact iff_of_false (by decide) fun h => by simp [htime] at h
  · exact iff_of_false (by decide) fun h => h.2.2.2.1 hmemory
  · exact iff_of_false (by decide) fun h => h.2.2.2.2 hcpu
  · refine iff_of_false (by decide) fun h => ?_
    obtain ⟨-, h' | h' | h'⟩ := hsignal <;> rw [h.2.1] at h' <;> cases h'
  · refine iff_of_false (by decide) fun h => ?_
    have hzero := h.2.2.1
    rw [hcode.2] at hzero
    cases hzero
  · exact iff_of_false (by decide) fun h => huser.elim (fun h' => h' h.2.1) fun h' => h' h.2.2.1
  · obtain ⟨hsignal, hcode⟩ := not_or.mp huser
    refine iff_of_true rfl ⟨Bool.eq_false_of_not_eq_true htime, not_not.mp hsignal,
      not_not.mp hcode, hmemory, hcpu⟩

theorem judgeMonitored_success_iff (config : JudgeConfig) (monitor : MonitorResult) :
    (judgeMonitored config monitor).result = .success ↔
      monitor.error = 0 ∧ mapMonitorResultToJudgeCode config monitor = .success := by
  unfold judgeMonitored
  dsimp only
  by_cases herror : monitor.error = 0
  · rw [if_neg (not_not.mpr herror)]
    by_cases hcode : monitor.exitCode = 0
    · rw [if_neg (fun h => h.2.1 hcode)]
      simp [herror]
    · have hmap : mapMonitorResultToJudgeCode config monitor ≠ .success := fun h =>
        hcode ((map_success_iff config monitor).mp h).2.2.1
      split
      · simp [hmap]
      · simp [herror]
  · rw [if_pos herror]
    simp [herror]

/-- No step of the setup exits with zero. -/
theorem childEnd_exited_zero (config : JudgeConfig) (e : Execution) :
    childEnd config e = .exited 0 ↔
      e.program = .exited 0 ∧ (Executed config e ∨ Escaped config e) := by
  have hmeets := runChildProcessOrExit_meets admits_ownCode e.kernel e.libseccomp config
    (fun _ => rfl) []
  unfold childEnd endOf Executed Escaped
  cases hrun : runChild config e with
  | ok ran => simp [Except.toOption]
  | error stop =>
    rw [show runChildProcessOrExit e.kernel e.libseccomp config [] = _ from hrun] at hmeets
    cases stop with
    | exited step code =>
      have hcode : code = step.code.value := hmeets
      have hne : Fin.ofNat 256 code ≠ 0 := by
        rw [hcode]
        cases step <;> decide
      refine iff_of_false (fun h => hne (ProcessEnd.exited.inj h)) ?_
      rintro ⟨-, h | h⟩
      · cases h
      · cases h
    | escaped step =>
      have hstep : step = .cgroup := hmeets
      rw [hstep]
      simp
    | killed signal => simp [Except.toOption]

/-- Without a group there is no directory to examine. -/
theorem not_escaped_of_ungrouped {config : JudgeConfig} (h : config.cgroupPath = [])
    (e : Execution) : ¬ Escaped config e := by
  intro hescaped
  have admits : Admits fun stop => stop ≠ .escaped .cgroup := ⟨fun _ => nofun, fun _ => nofun⟩
  have hmeets := runChildProcessOrExit_meets admits e.kernel e.libseccomp config
    (fun hgroup => absurd h hgroup) []
  rw [show runChildProcessOrExit e.kernel e.libseccomp config [] = _ from hescaped] at hmeets
  exact hmeets rfl

theorem executed_iff (config : JudgeConfig) (e : Execution) :
    Executed config e ↔ ∃ handles, Granted e.kernel [] (setupPlan e.libseccomp config handles) := by
  have hok : Executed config e ↔ ∃ calls, runChild config e = .ok ((), calls) := by
    unfold Executed
    cases runChild config e with
    | ok ran => simp [Except.toOption, Prod.ext_iff]
    | error stop => simp [Except.toOption]
  rw [hok]
  unfold runChild
  simp only [runChildProcessOrExit_follows e.libseccomp config _ _, Carried]
  constructor
  · rintro ⟨_, handles, hgranted, _⟩
    exact ⟨handles, hgranted⟩
  · rintro ⟨handles, hgranted⟩
    exact ⟨_, handles, hgranted, rfl⟩

/-- A status word of a process that exited with zero. -/
theorem status_zero_iff {processEnd : ProcessEnd} {start : MonitorResult} {usage : Rusage}
    {elapsedMs : Int} :
    (fillResultFromWaitStatus start processEnd.status usage elapsedMs).signal = 0 ∧
        (fillResultFromWaitStatus start processEnd.status usage elapsedMs).exitCode = 0 ↔
      processEnd = .exited 0 := by
  cases processEnd with
  | exited code =>
    obtain ⟨hsignal, hcode⟩ := fill_exited start usage elapsedMs code
    rw [hsignal, hcode]
    constructor
    · intro h
      exact congrArg ProcessEnd.exited (Fin.ext h.2)
    · intro h
      cases h
      exact ⟨rfl, rfl⟩
  | signaled signal core =>
    obtain ⟨hsignal, -⟩ := fill_signaled start usage elapsedMs signal core
    have hpos : signal.number ≠ 0 := Nat.pos_iff_ne_zero.mp signal.valid.1
    rw [hsignal]
    simp [hpos]

/-- What the parent makes of the waits. -/
theorem monitored_success_iff (config : JudgeConfig) (e : Execution) :
    (∃ monitor, monitorChild config e = some monitor ∧
        (judgeMonitored config monitor).result = .success) ↔
      childEnd config e = .exited 0 ∧ ReapedWithin config e := by
  simp only [judgeMonitored_success_iff, map_success_iff]
  unfold ReapedWithin
  cases hreaped : reaping e.waits with
  | none =>
    constructor
    · rintro ⟨monitor, hmonitor, herror, -⟩
      exact absurd herror (error_of_not_reaped hreaped hmonitor)
    · rintro ⟨-, reaped, hnone, -⟩
      cases hnone
  | some reaped =>
    have hsome : ∀ P : Reaping → Prop, (∃ r, some reaped = some r ∧ P r) ↔ P reaped := by simp
    rw [hsome]
    obtain ⟨hoverdue, monitor, hmonitor, hkilled⟩ | ⟨hoverdue, start, htimed, herror, hmonitor⟩ :=
      monitorChild_of_reaping config hreaped
    · -- Killed for its time: the flag is set.
      simp [hmonitor, hkilled.timedOut, hoverdue]
    · generalize hfill : fillResultFromWaitStatus start (childEnd config e).status reaped.usage
        reaped.elapsedMs = monitor at hmonitor
      have hok : monitor.error = 0 := by rw [← hfill]; exact herror
      have htime : monitor.timedOut = false := by rw [← hfill]; exact htimed
      have hmemory : monitor.memoryBytes = reaped.usage.maxrssKb * 1024 := by rw [← hfill]; rfl
      have hcpu : monitor.cpuTimeMs = timevalToMs reaped.usage := by rw [← hfill]; rfl
      have hstatus := @status_zero_iff (childEnd config e) start reaped.usage reaped.elapsedMs
      rw [hfill] at hstatus
      rw [← hstatus, withinLimits_iff hmemory hcpu, hmonitor]
      constructor
      · rintro ⟨_, hsome', -, -, hsignal, hcode, hpeak, hlate⟩
        cases hsome'
        exact ⟨⟨hsignal, hcode⟩, hoverdue, hpeak, hlate⟩
      · rintro ⟨⟨hsignal, hcode⟩, -, hpeak, hlate⟩
        exact ⟨monitor, rfl, hok, htime, hsignal, hcode, hpeak, hlate⟩

/-- Success in the words of the parent. -/
theorem runSjudger_success_iff (config : JudgeConfig) (e : Execution) :
    (∃ r, runSjudger config e = some r ∧ r.result = .success) ↔
      config.exePath ≠ [] ∧ 0 ≤ e.fork ∧ childEnd config e = .exited 0 ∧ ReapedWithin config e := by
  unfold runSjudger sjudgerEnding validateJudgeConfig
  by_cases hexe : config.exePath = []
  · simp [hexe]
  rw [if_neg hexe]
  by_cases hfork : e.fork < 0
  · have hneg : ¬ 0 ≤ e.fork := not_le.mpr hfork
    simp [hfork, hneg]
  · have hresult : (∃ r, (monitorChild config e).map (judgeMonitored config) = some r ∧
        r.result = .success) ↔ ∃ monitor, monitorChild config e = some monitor ∧
          (judgeMonitored config monitor).result = .success := by
      simp [Option.map_eq_some_iff]
    simp only [if_neg hfork]
    rw [← monitorChild, hresult, monitored_success_iff]
    constructor
    · rintro ⟨hend, hreaped⟩
      exact ⟨hexe, not_lt.mp hfork, hend, hreaped⟩
    · rintro ⟨-, -, hend, hreaped⟩
      exact ⟨hend, hreaped⟩

/-- A run succeeds exactly if the executable is named, the child was forked, the setup's plan
was granted (or an exception led out of it), the process returned zero, and it was reaped
in time and within its limits. -/
theorem success_iff (config : JudgeConfig) (e : Execution) :
    (∃ r, runSjudger config e = some r ∧ r.result = .success) ↔
      config.exePath ≠ [] ∧ 0 ≤ e.fork ∧ e.program = .exited 0 ∧
        ((∃ handles, Granted e.kernel [] (setupPlan e.libseccomp config handles)) ∨
          Escaped config e) ∧
        ReapedWithin config e := by
  rw [runSjudger_success_iff, childEnd_exited_zero, executed_iff, and_assoc]

end JudgeServer.Sjudge
