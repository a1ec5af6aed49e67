import JudgeServer.Sjudge.RunSjudger

/-!
# When a limit has been reached

The parent looks at the clock at two places: after a poll that finds the child running,
where the limit is tested, and after the `wait4` that reaps it, where it is not. The
kernel counts user and system time against `RLIMIT_CPU`, the verdict looks at the user
time alone. What is reported agrees with what was decided only if these coincide.
-/

namespace JudgeServer.Sjudge

/-- The readings of the polls that found the child running, and what the reaping `wait4`
delivered, with the reading after it. -/
structure Reaping where
  polls : List Int
  usage : Rusage
  elapsedMs : Int
  deriving DecidableEq, Repr

/-- `none` if `wait4` fails before the child is reaped, or the child never is. -/
def reaping : List Wait4 → Option Reaping
  | [] => none
  | .failed :: _ => none
  | .reaped usage elapsedMs :: _ => some ⟨[], usage, elapsedMs⟩
  | .running elapsedMs :: rest =>
      (reaping rest).map fun r => { r with polls := elapsedMs :: r.polls }

/-- The test of the polling loop, on the reading as the `int` it becomes. -/
def Exceeds (limit : UInt32) (elapsedMs : Int) : Prop :=
  realTimeLimitExceeded (toInt32 elapsedMs) limit = true

/-- A poll found the child running past the limit. -/
def Overdue (limit : UInt32) (polls : List Int) : Prop := ∃ t ∈ polls, Exceeds limit t

instance (limit : UInt32) (elapsedMs : Int) : Decidable (Exceeds limit elapsedMs) :=
  inferInstanceAs (Decidable (_ = true))

instance (limit : UInt32) (polls : List Int) : Decidable (Overdue limit polls) :=
  inferInstanceAs (Decidable (∃ t ∈ polls, Exceeds limit t))

section Monitor

variable {childEnd afterKill : ProcessEnd} {limit : UInt32} {result : MonitorResult}
  {waits : List Wait4} {r : Reaping}

/-- What is reported of a child that was killed for being overdue. -/
structure Killed (error : Nat) (elapsedMs : Int) (monitor : MonitorResult) : Prop where
  timedOut : monitor.timedOut = true
  error : monitor.error = error
  realTimeMs : monitor.realTimeMs = toInt32 elapsedMs
  signal : monitor.signal ≠ 0

theorem collectKilledChild_of_reaping (ht : result.timedOut = true) (h : reaping waits = some r) :
    ∃ monitor, collectKilledChild afterKill result waits = some monitor ∧
      Killed result.error r.elapsedMs monitor := by
  induction waits generalizing r with
  | nil => cases h
  | cons wait rest ih =>
    cases wait with
    | failed => cases h
    | running elapsedMs =>
      obtain ⟨r', hr', rfl⟩ := Option.map_eq_some_iff.mp h
      have hrest := ih hr'
      exact hrest
    | reaped usage elapsedMs =>
      obtain rfl := Option.some.inj h
      refine ⟨_, rfl, ?_⟩
      split
      · exact ⟨ht, rfl, rfl, Nat.succ_ne_zero _⟩
      · next hsignal => exact ⟨ht, rfl, rfl, hsignal⟩

/-- A child reaped after a poll had found it overdue was killed; otherwise it is reported
with its own status. -/
theorem monitorChildProcess_of_reaping (result : MonitorResult) (h : reaping waits = some r) :
    (Overdue limit r.polls ∧ ∃ monitor,
      monitorChildProcess childEnd afterKill limit result waits = some monitor ∧
      Killed result.error r.elapsedMs monitor) ∨
    (¬ Overdue limit r.polls ∧ ∃ start : MonitorResult,
      start.timedOut = result.timedOut ∧ start.error = result.error ∧
      monitorChildProcess childEnd afterKill limit result waits =
        some (fillResultFromWaitStatus start childEnd.status r.usage r.elapsedMs)) := by
  induction waits generalizing r result with
  | nil => cases h
  | cons wait rest ih =>
    cases wait with
    | failed => cases h
    | reaped usage elapsedMs =>
      obtain rfl := Option.some.inj h
      refine Or.inr ⟨?_, result, rfl, rfl, rfl⟩
      rintro ⟨t, ht, -⟩
      cases ht
    | running elapsedMs =>
      obtain ⟨r', hr', rfl⟩ := Option.map_eq_some_iff.mp h
      simp only [monitorChildProcess]
      by_cases hexceeds : realTimeLimitExceeded (toInt32 elapsedMs) limit = true
      · rw [if_pos hexceeds]
        refine Or.inl ⟨⟨elapsedMs, List.mem_cons_self, hexceeds⟩, ?_⟩
        exact collectKilledChild_of_reaping rfl hr'
      · rw [if_neg hexceeds]
        have hpolls : Overdue limit (elapsedMs :: r'.polls) ↔ Overdue limit r'.polls := by
          unfold Overdue
          rw [List.exists_mem_cons_iff]
          exact or_iff_right hexceeds
        rw [hpolls]
        exact ih { result with realTimeMs := toInt32 elapsedMs } hr'

theorem monitorChild_of_reaping (config : JudgeConfig) {e : Execution}
    (h : reaping e.waits = some r) :
    (Overdue config.maxRealTimeMs r.polls ∧ ∃ monitor, monitorChild config e = some monitor ∧
      Killed 0 r.elapsedMs monitor) ∨
    (¬ Overdue config.maxRealTimeMs r.polls ∧ ∃ start : MonitorResult,
      start.timedOut = false ∧ start.error = 0 ∧ monitorChild config e =
        some (fillResultFromWaitStatus start (Sjudge.childEnd config e).status r.usage
          r.elapsedMs)) :=
  monitorChildProcess_of_reaping {} h

theorem error_of_not_reaped (h : reaping waits = none) {monitor : MonitorResult}
    (hmonitor : monitorChildProcess childEnd afterKill limit result waits = some monitor) :
    monitor.error ≠ 0 := by
  have hcollect : ∀ {waits : List Wait4} {result : MonitorResult}, reaping waits = none →
      collectKilledChild afterKill result waits = some monitor → monitor.error ≠ 0 := by
    intro waits
    induction waits with
    | nil =>
      intro result _ hc
      cases hc
    | cons wait rest ih =>
      intro result hr hc
      cases wait with
      | failed =>
        obtain rfl := Option.some.inj hc
        exact Nat.succ_ne_zero _
      | running elapsedMs => exact ih (Option.map_eq_none_iff.mp hr) hc
      | reaped usage elapsedMs => cases hr
  induction waits generalizing result with
  | nil => cases hmonitor
  | cons wait rest ih =>
    cases wait with
    | failed =>
      obtain rfl := Option.some.inj hmonitor
      exact Nat.succ_ne_zero _
    | reaped usage elapsedMs => cases h
    | running elapsedMs =>
      have hrest := Option.map_eq_none_iff.mp h
      simp only [monitorChildProcess] at hmonitor
      split at hmonitor
      · exact hcollect hrest hmonitor
      · exact ih hrest hmonitor

end Monitor

/-- What `run_sjudger` makes of a run without an infrastructure error. -/
theorem runSjudger_ok {config : JudgeConfig} {e : Execution} {r : JudgeResult}
    (hr : runSjudger config e = some r) (herror : r.error = 0) :
    ∃ monitor, monitorChild config e = some monitor ∧ monitor.error = 0 ∧
      r.realTimeMs = monitor.realTimeMs ∧
      r.result = mapMonitorResultToJudgeCode config monitor := by
  unfold runSjudger sjudgerEnding at hr
  split at hr
  · next code hcode =>
    obtain rfl := Option.some.inj hr
    simp only [validateJudgeConfig] at hcode
    split at hcode
    · obtain rfl := Option.some.inj hcode
      cases herror
    · cases hcode
  · split at hr
    · obtain rfl := Option.some.inj hr
      cases herror
    · obtain ⟨monitor, hmonitor, rfl⟩ := Option.map_eq_some_iff.mp hr
      refine ⟨monitor, hmonitor, ?_⟩
      unfold judgeMonitored at herror ⊢
      dsimp only at herror ⊢
      split at herror
      · next hne => exact absurd herror hne
      · next hok =>
        split at herror
        · next hreserved => exact absurd herror hreserved.2.1
        · next huser =>
          rw [if_neg hok, if_neg huser]
          exact ⟨not_not.mp hok, rfl, rfl⟩

/-- The reported real time and the verdict say the same about the limit. -/
structure TimesAgree (limit : UInt32) (r : JudgeResult) : Prop where
  verdict_iff : r.result = .realTimeLimitExceeded ↔ (limit.toNat : Int) < r.realTimeMs
  not_success : (limit.toNat : Int) < r.realTimeMs → r.result ≠ .success

/-- The child is reaped past the limit exactly if an earlier poll had found it running
past the limit. -/
def NoticedInTime (limit : UInt32) (r : Reaping) : Prop :=
  Exceeds limit r.elapsedMs ↔ Overdue limit r.polls

theorem exceeds_iff {limit : UInt32} (hpos : 0 < limit.toNat) (hlt : limit.toNat < 2 ^ 31)
    (elapsedMs : Int) : Exceeds limit elapsedMs ↔ (limit.toNat : Int) < toInt32 elapsedMs := by
  have hlimit : limit > 0 := UInt32.lt_iff_toNat_lt.mpr hpos
  simp [Exceeds, realTimeLimitExceeded, hlimit, toInt32_of_lt hlt]

theorem map_timedOut {config : JudgeConfig} {monitor : MonitorResult}
    (h : monitor.timedOut = true) :
    mapMonitorResultToJudgeCode config monitor = .realTimeLimitExceeded := by
  unfold mapMonitorResultToJudgeCode
  rw [if_pos h]

theorem realTimeLimitExceeded_notMem_userVerdicts {id : JudgeResultId} (h : id ∈ userVerdicts) :
    id ≠ .realTimeLimitExceeded := by
  rintro rfl
  simp [userVerdicts] at h

/-- The readings of a steady clock. -/
def Clocked (r : Reaping) : Prop :=
  (r.polls ++ [r.elapsedMs]).Pairwise (· ≤ ·) ∧ ∀ t ∈ r.polls ++ [r.elapsedMs], 0 ≤ t

/-- A child found overdue is still overdue when it is reaped, unless the reading wraps. -/
theorem exceeds_of_overdue {limit : UInt32} (hpos : 0 < limit.toNat) (hlt : limit.toNat < 2 ^ 31)
    {r : Reaping} (hclock : Clocked r) (hshort : r.elapsedMs < 2 ^ 31)
    (h : Overdue limit r.polls) : Exceeds limit r.elapsedMs := by
  obtain ⟨t, ht, hexceeds⟩ := h
  have hle : t ≤ r.elapsedMs := (List.pairwise_append.mp hclock.1).2.2 t ht _ List.mem_cons_self
  have ht0 := hclock.2 t (List.mem_append_left _ ht)
  have hcast : ∀ x : Int, 0 ≤ x → x < 2 ^ 31 → toInt32 x = x := by
    intro x h0 h31
    obtain ⟨n, rfl⟩ := Int.eq_ofNat_of_zero_le h0
    exact toInt32_of_lt (by omega)
  rw [exceeds_iff hpos hlt] at hexceeds ⊢
  rw [hcast t ht0 (by omega)] at hexceeds
  rw [hcast _ (by omega) hshort]
  omega

/-- The verdict agrees with the reported time exactly when the child was noticed in time. -/
theorem timesAgree_iff (config : JudgeConfig) (hpos : 0 < config.maxRealTimeMs.toNat)
    (hlt : config.maxRealTimeMs.toNat < 2 ^ 31) (e : Execution) (r : JudgeResult)
    (hr : runSjudger config e = some r) (herror : r.error = 0) :
    ∃ reaped, reaping e.waits = some reaped ∧
      (TimesAgree config.maxRealTimeMs r ↔ NoticedInTime config.maxRealTimeMs reaped) := by
  obtain ⟨monitor, hmonitor, hok, htime, hresult⟩ := runSjudger_ok hr herror
  cases hreaped : reaping e.waits with
  | none => exact absurd hok (error_of_not_reaped hreaped hmonitor)
  | some reaped =>
    refine ⟨reaped, rfl, ?_⟩
    have hexceeds := exceeds_iff hpos hlt reaped.elapsedMs
    obtain ⟨hoverdue, monitor', hmonitor', hkilled⟩ | ⟨hoverdue, start, htimed, -, hmonitor'⟩ :=
      monitorChild_of_reaping config hreaped
    · -- Killed: the verdict is fixed, and the time is that of the later reading.
      obtain rfl := Option.some.inj (hmonitor'.symm.trans hmonitor)
      have hverdict : r.result = .realTimeLimitExceeded := by
        rw [hresult]
        exact map_timedOut hkilled.timedOut
      rw [hkilled.realTimeMs] at htime
      unfold NoticedInTime
      rw [hexceeds, ← htime, iff_true_right hoverdue]
      constructor
      · exact fun h => h.verdict_iff.mp hverdict
      · intro h
        exact ⟨iff_of_true hverdict h, fun _ => by rw [hverdict]; decide⟩
    · -- Reaped by a poll: no test was made with the reading that is reported.
      obtain rfl := Option.some.inj (hmonitor'.symm.trans hmonitor)
      have huser : mapMonitorResultToJudgeCode config (fillResultFromWaitStatus start
          (childEnd config e).status reaped.usage reaped.elapsedMs) ∈ userVerdicts :=
        map_userVerdicts config htimed
      rw [← hresult] at huser
      have hverdict := realTimeLimitExceeded_notMem_userVerdicts huser
      change r.realTimeMs = toInt32 reaped.elapsedMs at htime
      unfold NoticedInTime
      rw [hexceeds, ← htime, iff_false_right hoverdue]
      constructor
      · exact fun h hlate => hverdict (h.verdict_iff.mpr hlate)
      · intro h
        exact ⟨iff_of_false hverdict h, fun hlate => absurd hlate h⟩

/-- For every limit that is a positive `int` and every run without an infrastructure error,
the verdict agrees with the reported time exactly when the child was noticed in time. On a
steady clock that does not reach `2 ^ 31` milliseconds this can only fail by reaping a child
past the limit that no poll had found there. -/
theorem real_time_agrees_iff (config : JudgeConfig) (hpos : 0 < config.maxRealTimeMs.toNat)
    (hlt : config.maxRealTimeMs.toNat < 2 ^ 31) (e : Execution) (r : JudgeResult)
    (hr : runSjudger config e = some r) (herror : r.error = 0) :
    ∃ reaped, reaping e.waits = some reaped ∧
      (TimesAgree config.maxRealTimeMs r ↔ NoticedInTime config.maxRealTimeMs reaped) ∧
      (Clocked reaped → reaped.elapsedMs < 2 ^ 31 →
        (TimesAgree config.maxRealTimeMs r ↔
          (Exceeds config.maxRealTimeMs reaped.elapsedMs →
            Overdue config.maxRealTimeMs reaped.polls))) := by
  obtain ⟨reaped, hreaped, hiff⟩ := timesAgree_iff config hpos hlt e r hr herror
  refine ⟨reaped, hreaped, hiff, fun hclock hshort => ?_⟩
  rw [hiff]
  constructor
  · exact Iff.mp
  · exact fun h => ⟨h, exceeds_of_overdue hpos hlt hclock hshort⟩

/-- The case of `sampleConfig`, with a limit of two seconds, waited for in this way. -/
def polledExecution (program : ProcessEnd) (waits : List Wait4) : Execution :=
  { libseccomp := true, fork := 42, kernel := obligingKernel, program := program
    afterKill := .signaled sigkill false, waits := waits }

theorem real_time_agrees_in_time :
    ∃ r, runSjudger sampleConfig (sampleExecution 0) = some r ∧
      TimesAgree sampleConfig.maxRealTimeMs r := by
  refine ⟨_, rfl, ?_⟩
  obtain ⟨reaped, hreaped, hiff, -⟩ := real_time_agrees_iff sampleConfig (by decide) (by decide)
    (sampleExecution 0) _ rfl (by decide +kernel)
  obtain rfl : _ = reaped := Option.some.inj hreaped
  rw [hiff]
  unfold NoticedInTime
  decide +kernel

/-- The child ends between the poll at 1999 ms and the one at 2003 ms: it succeeds, in a time
that is over the limit. -/
theorem late_success :
    ∃ r, runSjudger sampleConfig
        (polledExecution (.exited 0) [.running 1999, .reaped ⟨0, 1500, 3400⟩ 2003]) = some r ∧
      r.error = 0 ∧ r.result = .success ∧ r.realTimeMs = 2003 ∧
      ¬ TimesAgree sampleConfig.maxRealTimeMs r := by
  refine ⟨_, rfl, by decide +kernel, by decide +kernel, by decide +kernel, ?_⟩
  intro h
  exact h.not_success (by decide +kernel) (by decide +kernel)

/-- The user time in microseconds. -/
def Rusage.utimeUs (usage : Rusage) : Int := usage.utimeSec * 1000000 + usage.utimeUsec

/-- A child that the kernel ends with `SIGKILL` because its user and system time have reached
the `RLIMIT_CPU` that was set before `execve`; the parent did not find it overdue, and its
peak memory is within the limit. -/
structure CpuKill (config : JudgeConfig) (e : Execution) (calls : List SetupCall)
    (seconds : UInt64) (reaped : Reaping) (stimeUs : Int) : Prop where
  accepted : config.exePath ≠ []
  forked : 0 < e.fork
  ran : runChild config e = .ok ((), calls)
  installed : .setrlimit .cpu seconds ∈ calls
  killed : e.program = .signaled sigkill false
  waited : reaping e.waits = some reaped
  in_time : ¬ Overdue config.maxRealTimeMs reaped.polls
  within_memory : reaped.usage.maxrssKb * 1024 ≤ config.maxMemoryBytes.toNat
  user_time : 0 ≤ reaped.usage.utimeUs
  system_time : 0 ≤ stimeUs
  reached : (seconds.toNat * 1000000 : Int) ≤ reaped.usage.utimeUs + stimeUs

theorem bmod_of_lt {n : Nat} (h : n < 2 ^ 63) : Int.bmod n (2 ^ 64) = n := by
  apply Int.bmod_eq_of_le <;> omega

/-- The mapper on a child ended by `SIGKILL` within its memory. -/
theorem map_sigkill {config : JudgeConfig} {monitor : MonitorResult}
    (hcpu : 0 < config.maxCpuTimeMs.toNat) (hcpu' : config.maxCpuTimeMs.toNat < 2 ^ 31)
    (hmem : 0 < config.maxMemoryBytes.toNat) (hmem' : config.maxMemoryBytes.toNat < 2 ^ 63)
    (htime : monitor.timedOut = false) (hsignal : monitor.signal = sigkill.number)
    (hpeak : monitor.memoryBytes ≤ config.maxMemoryBytes.toNat) :
    mapMonitorResultToJudgeCode config monitor =
      if (config.maxCpuTimeMs.toNat : Int) < monitor.cpuTimeMs then .cpuTimeLimitExceeded
      else .memoryLimitExceeded := by
  have hmem0 : config.maxMemoryBytes > 0 := UInt64.lt_iff_toNat_lt.mpr hmem
  have hcpu0 : config.maxCpuTimeMs > 0 := UInt32.lt_iff_toNat_lt.mpr hcpu
  unfold mapMonitorResultToJudgeCode
  rw [htime, bmod_of_lt hmem', toInt32_of_lt hcpu']
  simp only [Bool.false_eq_true, if_false, hmem0, hcpu0, true_and, hsignal, or_true, if_true,
    not_lt.mpr hpeak, gt_iff_lt]

/-- For positive limits that their signed types hold, a child the kernel killed for its CPU
time is reported so exactly when its user time alone is over the limit. -/
theorem cpu_kill_reported_iff (config : JudgeConfig) (hcpu : 0 < config.maxCpuTimeMs.toNat)
    (hcpu' : config.maxCpuTimeMs.toNat < 2 ^ 31) (hmem : 0 < config.maxMemoryBytes.toNat)
    (hmem' : config.maxMemoryBytes.toNat < 2 ^ 63) (e : Execution) (calls : List SetupCall)
    (seconds : UInt64) (reaped : Reaping) (stimeUs : Int)
    (hkill : CpuKill config e calls seconds reaped stimeUs) :
    ∃ r, runSjudger config e = some r ∧
      (r.result = .cpuTimeLimitExceeded ∧ r.result ≠ .memoryLimitExceeded ↔
        (config.maxCpuTimeMs.toNat : Int) < timevalToMs reaped.usage) := by
  have hend : childEnd config e = .signaled sigkill false := by
    simp [childEnd, endOf, hkill.ran, hkill.killed]
  obtain ⟨hoverdue, -⟩ | ⟨-, start, htimed, herror, hmonitor⟩ :=
    monitorChild_of_reaping config hkill.waited
  · exact absurd hoverdue hkill.in_time
  rw [hend] at hmonitor
  obtain ⟨hsignal, -⟩ := fill_signaled start reaped.usage reaped.elapsedMs sigkill false
  refine ⟨_, sjudgerEnding_waited hkill.accepted hkill.forked hmonitor, ?_⟩
  generalize hfill : fillResultFromWaitStatus start (ProcessEnd.signaled sigkill false).status
    reaped.usage reaped.elapsedMs = monitor at hsignal
  have hcputime : monitor.cpuTimeMs = timevalToMs reaped.usage := by rw [← hfill]; rfl
  have hmemory : monitor.memoryBytes = reaped.usage.maxrssKb * 1024 := by rw [← hfill]; rfl
  have hok : monitor.error = 0 := by rw [← hfill]; exact herror
  have htime : monitor.timedOut = false := by rw [← hfill]; exact htimed
  have hresult : (judgeMonitored config monitor).result =
      mapMonitorResultToJudgeCode config monitor := by
    simp [judgeMonitored, hok, hsignal, sigkill]
  rw [hresult, map_sigkill hcpu hcpu' hmem hmem' htime hsignal
    (by rw [hmemory]; exact hkill.within_memory), hcputime]
  split
  · next hlate => simp [hlate]
  · next hlate => simp [hlate]

/-- The child of `sampleConfig` is ended by its limit of one second. -/
def cpuKilledExecution (usage : Rusage) : Execution :=
  polledExecution (.signaled sigkill false) [.running 900, .reaped usage 1004]

theorem sample_cpuKill (usage : Rusage) (stimeUs : Int) (hu : 0 ≤ usage.utimeUs) (hs : 0 ≤ stimeUs)
    (hpeak : usage.maxrssKb = 3400) (h : 1000000 ≤ usage.utimeUs + stimeUs) : ∃ calls,
    CpuKill sampleConfig (cpuKilledExecution usage) calls 1 ⟨[900], usage, 1004⟩ stimeUs := by
  obtain ⟨calls, hran, hinstalled⟩ : ∃ calls,
      runChildProcessOrExit obligingKernel true sampleConfig [] = .ok ((), calls) ∧
        SetupCall.setrlimit .cpu 1 ∈ calls := ⟨_, rfl, by decide +kernel⟩
  have hfork : (0 : Int) < 42 := by decide
  have hpolls : ¬ Overdue sampleConfig.maxRealTimeMs [900] := by decide +kernel
  have hmemory : usage.maxrssKb * 1024 ≤ sampleConfig.maxMemoryBytes.toNat := by
    rw [hpeak]
    decide +kernel
  refine ⟨calls, ⟨by decide, hfork, hran, hinstalled, rfl, rfl, hpolls, hmemory, hu, hs, ?_⟩⟩
  show (1 * 1000000 : Int) ≤ usage.utimeUs + stimeUs
  omega

theorem cpu_kill_reported_user_time :
    ∃ r, runSjudger sampleConfig (cpuKilledExecution ⟨1, 2000, 3400⟩) = some r ∧
      r.result = .cpuTimeLimitExceeded := by
  obtain ⟨calls, hkill⟩ := sample_cpuKill ⟨1, 2000, 3400⟩ 0 (by decide) (by decide) rfl
    (by decide)
  obtain ⟨r, hr, hiff⟩ := cpu_kill_reported_iff sampleConfig (by decide) (by decide) (by decide)
    (by decide) _ calls 1 _ 0 hkill
  exact ⟨r, hr, (hiff.mpr (by decide +kernel)).1⟩

/-- A second of CPU time, 0.4 of it spent in the kernel, is reported as too much memory. -/
theorem cpu_kill_reported_as_memory :
    (∃ calls, CpuKill sampleConfig (cpuKilledExecution ⟨0, 600000, 3400⟩) calls 1
      ⟨[900], ⟨0, 600000, 3400⟩, 1004⟩ 400000) ∧
    ∃ r, runSjudger sampleConfig (cpuKilledExecution ⟨0, 600000, 3400⟩) = some r ∧
      r.result = .memoryLimitExceeded := by
  exact ⟨sample_cpuKill _ _ (by decide) (by decide) rfl (by decide), _, rfl, by decide +kernel⟩

/-- `monitor.memory_bytes > max_memory_bytes`, if that is set. -/
def MemoryPeakTest (config : JudgeConfig) (monitor : MonitorResult) : Prop :=
  config.maxMemoryBytes > 0 ∧
    monitor.memoryBytes > Int.bmod config.maxMemoryBytes.toNat (2 ^ 64)

/-- `monitor.cpu_time_ms > max_cpu_time_ms`, if that is set. -/
def CpuTimeTest (config : JudgeConfig) (monitor : MonitorResult) : Prop :=
  config.maxCpuTimeMs > 0 ∧ monitor.cpuTimeMs > toInt32 config.maxCpuTimeMs.toNat

instance (config : JudgeConfig) (monitor : MonitorResult) :
    Decidable (MemoryPeakTest config monitor) :=
  inferInstanceAs (Decidable (_ ∧ _))

instance (config : JudgeConfig) (monitor : MonitorResult) :
    Decidable (CpuTimeTest config monitor) :=
  inferInstanceAs (Decidable (_ ∧ _))

/-- Without a time-out the two tests come first. -/
theorem map_of_tests (config : JudgeConfig) (monitor : MonitorResult)
    (h : monitor.timedOut = false) :
    ∃ rest, rest ≠ .cpuTimeLimitExceeded ∧ mapMonitorResultToJudgeCode config monitor =
      if MemoryPeakTest config monitor then .memoryLimitExceeded
      else if CpuTimeTest config monitor then .cpuTimeLimitExceeded else rest := by
  unfold mapMonitorResultToJudgeCode
  rw [h]
  refine ⟨_, ?_, rfl⟩
  split_ifs <;> decide

end JudgeServer.Sjudge
