import Mathlib.Algebra.Group.Nat.Defs
import Mathlib.Algebra.Group.Int.Defs

/-!
# Shared submission data

The enumerations and records of `common/SubmissionTypes.h`, together with the
runner-facing records of `runner/ILanguageRunner.h`. A C++ `std::string` is a
byte string here: nothing in the server forces it to be text. Fields of type
`int` that are only carried around are integers.
-/

namespace JudgeServer

/-- The contents of a `std::string`. -/
abbrev Bytes := List UInt8

/-- The bytes of an ASCII string literal of the source. -/
def ascii (s : String) : Bytes := s.toList.map fun c => c.toNat.toUInt8

/-- `static_cast<int>` of a wider integer on the target ABI: the low 32 bits, read as signed. -/
def toInt32 (n : Int) : Int := Int.bmod n (2 ^ 32)

theorem toInt32_of_lt {n : Nat} (h : n < 2 ^ 31) : toInt32 n = n := by
  unfold toInt32
  apply Int.bmod_eq_of_le <;> omega

namespace Common

inductive SubmissionStatus where
  | queued | preparing | compiling | running | finished | failed
  deriving DecidableEq, Repr

inductive SubmissionLanguage where
  | cpp | c | python
  deriving DecidableEq, Repr

inductive SubmissionVerdict where
  | pending | ac | wa | tle | mle | re | ole | pe | ce | unknown | systemError
  deriving DecidableEq, Repr

structure SubmissionRequest where
  uuid : Int
  pid : Bytes
  language : SubmissionLanguage
  code : Bytes
  deriving DecidableEq, Repr

structure SubmissionCaseResult where
  seqId : Int := 0
  verdict : SubmissionVerdict := .pending
  cpuTimeMs : Int := 0
  realTimeMs : Int := 0
  memoryKb : Nat := 0
  signal : Int := 0
  exitCode : Int := 0
  errorCode : Int := 0
  deriving DecidableEq, Repr

/-- A complete snapshot of one submission at one moment. -/
structure SubmissionResult where
  submissionId : Int := -1
  status : SubmissionStatus := .queued
  verdict : SubmissionVerdict := .pending
  message : Bytes := []
  caseResults : List SubmissionCaseResult := []
  deriving DecidableEq, Repr

structure RunnerPrepareResult where
  ok : Bool
  message : Bytes
  deriving DecidableEq, Repr

structure RunnerCompileResult where
  ok : Bool
  verdict : SubmissionVerdict
  message : Bytes
  deriving DecidableEq, Repr

structure RunnerCaseInput where
  seqId : Int
  inputPath : Bytes
  expectedOutputPath : Bytes
  cpuTimeLimitMs : Int
  realTimeLimitMs : Int
  memoryLimitKb : Nat
  deriving DecidableEq, Repr

structure RunnerCaseResult where
  result : SubmissionCaseResult
  message : Bytes
  deriving DecidableEq, Repr

end Common
end JudgeServer
