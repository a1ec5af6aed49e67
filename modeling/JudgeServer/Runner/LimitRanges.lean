import JudgeServer.Runner.RunnerSupport
import JudgeServer.Sjudge.Limits

/-!
# Limits over their whole range

A limit passes from the case to the configuration of the sandbox, from there to
`setrlimit`, to the polling loop and to the mapper, and is compared with what was measured
of the child. On the way it is multiplied, rounded up and cast. Each limit is enforced as
it is written exactly as long as none of these steps leaves the range of its type.
-/

namespace JudgeServer.Runner

open JudgeServer.Common
open JudgeServer.Sjudge

theorem toInt32_eq_self_iff (n : Nat) : toInt32 n = n ↔ n < 2 ^ 31 := by
  constructor
  · intro h
    have hlt : toInt32 n < (2 ^ 32 + 1) / 2 := Int.bmod_lt (by decide)
    rw [h] at hlt
    omega
  · exact toInt32_of_lt

theorem bmod_eq_self_iff (n : Nat) : Int.bmod n (2 ^ 64) = n ↔ n < 2 ^ 63 := by
  constructor
  · intro h
    have hlt : Int.bmod n (2 ^ 64) < (2 ^ 64 + 1) / 2 := Int.bmod_lt (by decide)
    rw [h] at hlt
    omega
  · exact bmod_of_lt

/-- The limits of CPU time among the calls of a child. -/
def cpuLimits (calls : List SetupCall) : List UInt64 :=
  calls.filterMap fun c => match c with
    | .setrlimit .cpu seconds => some seconds
    | _ => none

theorem cpuLimits_other {resource : Resource} {value : UInt64} (h : resource ≠ .cpu)
    (calls : List SetupCall) :
    cpuLimits (if value = 0 then calls else .setrlimit resource value :: calls) = cpuLimits calls := by
  split
  · rfl
  · cases resource with
    | cpu => exact absurd rfl h
    | stack => rfl
    | addressSpace => rfl
    | fileSize => rfl

/-- The one limit of CPU time a child sets, if it is not zero after the rounding. -/
theorem applyResourceLimitsOrExit_returned {kernel : Kernel} {config : JudgeConfig}
    {calls : List SetupCall} {u : Unit}
    (h : applyResourceLimitsOrExit kernel config [] = .ok (u, calls)) :
    cpuLimits calls =
      if config.maxCpuTimeMs > 0 ∧ ((config.maxCpuTimeMs + 999) / 1000).toUInt64 ≠ 0 then
        [((config.maxCpuTimeMs + 999) / 1000).toUInt64] else [] := by
  unfold applyResourceLimitsOrExit at h
  obtain ⟨_, c1, h1, h⟩ := bind_returned h
  obtain ⟨_, c2, h2, h⟩ := bind_returned h
  obtain ⟨_, c3, h3, h⟩ := bind_returned h
  have hnone : cpuLimits c3 = [] := by
    rw [applyLimitOrExit_returned h3, cpuLimits_other (by decide), applyLimitOrExit_returned h2,
      cpuLimits_other (by decide), applyLimitOrExit_returned h1, cpuLimits_other (by decide)]
    rfl
  by_cases hcpu : config.maxCpuTimeMs > 0
  · rw [if_pos hcpu] at h
    rw [applyLimitOrExit_returned h]
    by_cases hzero : ((config.maxCpuTimeMs + 999) / 1000).toUInt64 = 0
    · rw [if_pos hzero, if_neg fun hand => hand.2 hzero, hnone]
    · rw [if_neg hzero, if_pos ⟨hcpu, hzero⟩]
      show _ :: cpuLimits c3 = _
      rw [hnone]
  · rw [if_neg hcpu] at h
    rw [if_neg fun hand => hcpu hand.1, ← (Prod.mk.inj (Except.ok.inj h)).2, hnone]

/-- The seconds, when the rounding does not wrap. -/
theorem seconds_toNat {ms : UInt32} (h : ms.toNat < 2 ^ 31) :
    ((ms + 999) / 1000).toUInt64.toNat = (ms.toNat + 999) / 1000 := by
  rw [UInt32.toNat_toUInt64, UInt32.toNat_div, UInt32.toNat_add]
  have h999 : (999 : UInt32).toNat = 999 := rfl
  have h1000 : (1000 : UInt32).toNat = 1000 := rfl
  rw [h999, h1000, Nat.mod_eq_of_lt (by omega)]

/-- What the kernel and the clock say about a child, before any conversion. -/
structure Measured where
  usage : Rusage
  elapsedMs : Nat
  utime : 0 ≤ usage.utimeSec ∧ 0 ≤ usage.utimeUsec ∧ usage.utimeUsec < 1000000
  maxrss : 0 ≤ usage.maxrssKb ∧ usage.maxrssKb * 1024 < 2 ^ 63

namespace Measured

/-- The user time in whole milliseconds. -/
def utimeMs (x : Measured) : Nat := (x.usage.utimeUs / 1000).toNat

/-- What the monitor makes of it. -/
def monitor (x : Measured) : MonitorResult := fillResultFromWaitStatus {} 0 x.usage x.elapsedMs

theorem cpuTimeMs_eq (x : Measured) : x.monitor.cpuTimeMs = toInt32 x.utimeMs := by
  obtain ⟨hsec, husec, -⟩ := x.utime
  have hms : x.usage.utimeSec * 1000 + x.usage.utimeUsec.tdiv 1000 = (x.utimeMs : Int) := by
    unfold utimeMs Rusage.utimeUs
    rw [Int.tdiv_eq_ediv_of_nonneg husec]
    omega
  show timevalToMs x.usage = _
  rw [timevalToMs, hms]

end Measured

/-- The members of a case as values of their types. -/
structure WellTyped (testCase : RunnerCaseInput) : Prop where
  cpu : testCase.cpuTimeLimitMs < 2 ^ 31
  real : testCase.realTimeLimitMs < 2 ^ 31
  memory : testCase.memoryLimitKb < 2 ^ 64

/-- Every limit is enforced as it is written, with exact arithmetic as the measure. -/
structure LimitsEnforced {m : Type → Type} (host : Host m) (testCase : RunnerCaseInput)
    (config : JudgeConfig) (x : Measured) : Prop where
  /-- The memory limit passed on, and that only no limit becomes no limit. -/
  memory : ∀ executable output,
    (caseConfig host executable testCase output).maxMemoryBytes.toNat =
        testCase.memoryLimitKb * 1024 ∧
      ((caseConfig host executable testCase output).maxMemoryBytes = 0 → testCase.memoryLimitKb = 0)
  times : ∀ executable output,
    ((caseConfig host executable testCase output).maxCpuTimeMs.toNat : Int) =
        max testCase.cpuTimeLimitMs 0 ∧
      ((caseConfig host executable testCase output).maxRealTimeMs.toNat : Int) =
        max testCase.realTimeLimitMs 0
  /-- The seconds are rounded up, so a positive limit is at least one. -/
  installed : ∀ kernel calls, applyResourceLimitsOrExit kernel config [] = .ok ((), calls) →
    (cpuLimits calls).map UInt64.toNat =
      if config.maxCpuTimeMs.toNat = 0 then [] else [(config.maxCpuTimeMs.toNat + 999) / 1000]
  kills : Exceeds config.maxRealTimeMs x.elapsedMs →
    0 < config.maxRealTimeMs.toNat ∧ config.maxRealTimeMs.toNat < x.elapsedMs
  peak : MemoryPeakTest config x.monitor ↔
    0 < config.maxMemoryBytes.toNat ∧
      (config.maxMemoryBytes.toNat : Int) < x.usage.maxrssKb * 1024
  cpu : CpuTimeTest config x.monitor ↔
    0 < config.maxCpuTimeMs.toNat ∧ config.maxCpuTimeMs.toNat < x.utimeMs
  /-- The mapper decides by the exact comparisons. -/
  mapped : ∃ rest, rest ≠ .cpuTimeLimitExceeded ∧ mapMonitorResultToJudgeCode config x.monitor =
    if 0 < config.maxMemoryBytes.toNat ∧
        (config.maxMemoryBytes.toNat : Int) < x.usage.maxrssKb * 1024 then .memoryLimitExceeded
    else if 0 < config.maxCpuTimeMs.toNat ∧ config.maxCpuTimeMs.toNat < x.utimeMs then
      .cpuTimeLimitExceeded
    else rest
  /-- No cast on the way changes a value. -/
  casts : toInt32 config.maxRealTimeMs.toNat = config.maxRealTimeMs.toNat ∧
    toInt32 config.maxCpuTimeMs.toNat = config.maxCpuTimeMs.toNat ∧
    Int.bmod config.maxMemoryBytes.toNat (2 ^ 64) = config.maxMemoryBytes.toNat ∧
    x.monitor.cpuTimeMs = x.utimeMs ∧ x.monitor.realTimeMs = x.elapsedMs

/-- The limits and the measurements are within the signed types they pass through. -/
structure LimitsFit (testCase : RunnerCaseInput) (config : JudgeConfig) (x : Measured) : Prop where
  memoryKb : testCase.memoryLimitKb < 2 ^ 54
  cpu : config.maxCpuTimeMs.toNat < 2 ^ 31
  real : config.maxRealTimeMs.toNat < 2 ^ 31
  memory : config.maxMemoryBytes.toNat < 2 ^ 63
  utime : x.utimeMs < 2 ^ 31
  elapsed : x.elapsedMs < 2 ^ 31

section Passing

variable {m : Type → Type} {host : Host m} {testCase : RunnerCaseInput}

theorem caseConfig_memory (executable output : Bytes) :
    (caseConfig host executable testCase output).maxMemoryBytes =
      UInt64.ofNat (testCase.memoryLimitKb * 1024) := by
  unfold caseConfig
  dsimp only
  split
  · rfl
  · next h =>
    have h0 : testCase.memoryLimitKb = 0 := by omega
    rw [h0]
    rfl

theorem ofInt_toNat {n : Int} (h0 : 0 < n) (h : n < 2 ^ 31) : ((UInt32.ofInt n).toNat : Int) = n := by
  rw [UInt32.ofInt, UInt32.toNat_ofNat']
  omega

theorem caseConfig_times (h : WellTyped testCase) (executable output : Bytes) :
    ((caseConfig host executable testCase output).maxCpuTimeMs.toNat : Int) =
        max testCase.cpuTimeLimitMs 0 ∧
      ((caseConfig host executable testCase output).maxRealTimeMs.toNat : Int) =
        max testCase.realTimeLimitMs 0 := by
  unfold caseConfig
  dsimp only
  constructor
  · split
    · next h0 => rw [ofInt_toNat h0 h.cpu, max_eq_left (by omega)]
    · next h0 => rw [max_eq_right (by omega)]; rfl
  · split
    · next h0 => rw [ofInt_toNat h0 h.real, max_eq_left (by omega)]
    · next h0 => rw [max_eq_right (by omega)]; rfl

end Passing

theorem installed_of_fits {config : JudgeConfig} (h : config.maxCpuTimeMs.toNat < 2 ^ 31)
    {kernel : Kernel} {calls : List SetupCall}
    (hrun : applyResourceLimitsOrExit kernel config [] = .ok ((), calls)) :
    (cpuLimits calls).map UInt64.toNat =
      if config.maxCpuTimeMs.toNat = 0 then [] else [(config.maxCpuTimeMs.toNat + 999) / 1000] := by
  have hpos : config.maxCpuTimeMs > 0 ↔ config.maxCpuTimeMs.toNat ≠ 0 := by
    rw [gt_iff_lt, UInt32.lt_iff_toNat_lt]
    exact Nat.pos_iff_ne_zero
  have hseconds := seconds_toNat h
  rw [applyResourceLimitsOrExit_returned hrun]
  by_cases h0 : config.maxCpuTimeMs.toNat = 0
  · rw [if_pos h0, if_neg fun hand => hpos.mp hand.1 h0]
    rfl
  · have hne : ((config.maxCpuTimeMs + 999) / 1000).toUInt64 ≠ 0 := by
      intro hzero
      rw [hzero] at hseconds
      have h0' : (0 : UInt64).toNat = 0 := rfl
      omega
    rw [if_neg h0, if_pos ⟨hpos.mpr h0, hne⟩, List.map_singleton, hseconds]

/-- The limits of a case and of a configuration are enforced as written, on what was measured
of a child, exactly when they and the measurements fit their signed types and the memory
limit fits 64 bits in bytes. -/
theorem limits_enforced_iff {m : Type → Type} (host : Host m) (testCase : RunnerCaseInput)
    (htypes : WellTyped testCase) (config : JudgeConfig) (x : Measured) :
    LimitsEnforced host testCase config x ↔ LimitsFit testCase config x := by
  have hkb := htypes.memory
  have hpassed : (UInt64.ofNat (testCase.memoryLimitKb * 1024)).toNat =
      testCase.memoryLimitKb * 1024 % 2 ^ 64 := by
    rw [UInt64.toNat_ofNat']
  have hreal : x.monitor.realTimeMs = toInt32 x.elapsedMs := by
    simp only [Measured.monitor, fillResultFromWaitStatus]
  constructor
  · intro h
    obtain ⟨c1, c2, c3, c4, c5⟩ := h.casts
    rw [x.cpuTimeMs_eq] at c4
    rw [hreal] at c5
    refine ⟨?_, (toInt32_eq_self_iff _).mp c2, (toInt32_eq_self_iff _).mp c1,
      (bmod_eq_self_iff _).mp c3, (toInt32_eq_self_iff _).mp c4, (toInt32_eq_self_iff _).mp c5⟩
    have hmemory := (h.memory [] []).1
    rw [caseConfig_memory, hpassed] at hmemory
    omega
  · intro h
    have c1 := (toInt32_eq_self_iff _).mpr h.real
    have c2 := (toInt32_eq_self_iff _).mpr h.cpu
    have c3 := (bmod_eq_self_iff _).mpr h.memory
    have c4 := (toInt32_eq_self_iff _).mpr h.utime
    have c5 := (toInt32_eq_self_iff _).mpr h.elapsed
    have hkb' := h.memoryKb
    have hpeak : MemoryPeakTest config x.monitor ↔ 0 < config.maxMemoryBytes.toNat ∧
        (config.maxMemoryBytes.toNat : Int) < x.usage.maxrssKb * 1024 := by
      unfold MemoryPeakTest
      rw [c3, gt_iff_lt, UInt64.lt_iff_toNat_lt]
      exact Iff.rfl
    have hcpu : CpuTimeTest config x.monitor ↔
        0 < config.maxCpuTimeMs.toNat ∧ config.maxCpuTimeMs.toNat < x.utimeMs := by
      unfold CpuTimeTest
      rw [c2, x.cpuTimeMs_eq, c4, gt_iff_lt, gt_iff_lt, UInt32.lt_iff_toNat_lt, Int.ofNat_lt]
      exact Iff.rfl
    obtain ⟨rest, hrest, hmap⟩ := map_of_tests config x.monitor rfl
    simp only [hpeak, hcpu] at hmap
    refine ⟨fun executable output => ?_, caseConfig_times htypes,
      fun kernel calls hrun => installed_of_fits h.cpu hrun, ?_, hpeak, hcpu, ⟨rest, hrest, hmap⟩,
      c1, c2, c3, (x.cpuTimeMs_eq.trans c4), (hreal.trans c5)⟩
    · rw [caseConfig_memory]
      have hexact : (UInt64.ofNat (testCase.memoryLimitKb * 1024)).toNat =
          testCase.memoryLimitKb * 1024 := by omega
      refine ⟨hexact, fun hzero => ?_⟩
      rw [hzero] at hexact
      have h0 : (0 : UInt64).toNat = 0 := rfl
      omega
    · intro hexceeds
      simp only [Exceeds, realTimeLimitExceeded, Bool.and_eq_true, decide_eq_true_eq, c1, c5,
        gt_iff_lt, UInt32.lt_iff_toNat_lt] at hexceeds
      have h0 : (0 : UInt32).toNat = 0 := rfl
      omega

/-- The configuration of a case is computed without asking the machine. -/
def unaskedHost : Host Option where
  temp := ascii "/tmp"
  call := fun _ => none

/-- A case as `load_cases_for_problem` makes them, with this memory limit. -/
def sampleCase (memoryLimitKb : Nat) : RunnerCaseInput :=
  { seqId := 1, inputPath := ascii "1.in", expectedOutputPath := ascii "1.out"
    cpuTimeLimitMs := 1000, realTimeLimitMs := 1000, memoryLimitKb := memoryLimitKb }

def sampleMeasured : Measured where
  usage := ⟨0, 1500, 3400⟩
  elapsedMs := 3
  utime := by decide
  maxrss := by decide

theorem limits_enforced_usual :
    LimitsEnforced unaskedHost (sampleCase 1048576) sampleConfig sampleMeasured :=
  (limits_enforced_iff unaskedHost (sampleCase 1048576) ⟨by decide, by decide, by decide⟩
    sampleConfig sampleMeasured).mpr
    ⟨by decide, by decide, by decide, by decide, by decide, by decide⟩

/-- At the top of the ranges limits vanish, or are exceeded from the start. -/
theorem limits_wrap :
    (caseConfig unaskedHost [] (sampleCase 18014398509481984) []).maxMemoryBytes = 0 ∧
    (∃ calls, applyResourceLimitsOrExit obligingKernel
        { sampleConfig with maxCpuTimeMs := 4294967295 } [] = .ok ((), calls) ∧
      cpuLimits calls = []) ∧
    Exceeds 2147483648 0 ∧
    MemoryPeakTest { sampleConfig with maxMemoryBytes := 9223372036854775808 }
      sampleMeasured.monitor ∧
    CpuTimeTest { sampleConfig with maxCpuTimeMs := 2147483648 } sampleMeasured.monitor ∧
    ¬ LimitsEnforced unaskedHost (sampleCase 18014398509481984) sampleConfig sampleMeasured := by
  refine ⟨by decide +kernel, ⟨_, rfl, by decide +kernel⟩, by decide +kernel, by decide +kernel,
    by decide +kernel, ?_⟩
  intro h
  have hzero := (h.memory [] []).2 (by decide +kernel)
  revert hzero
  decide +kernel

end JudgeServer.Runner
