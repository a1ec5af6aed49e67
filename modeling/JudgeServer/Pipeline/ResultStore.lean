import JudgeServer.Common.SubmissionTypes
import JudgeServer.Lib.KeyedMap
import Mathlib.Data.List.Sort
import Mathlib.Algebra.Order.Group.Int

/-!
# The result store

`pipeline/ResultStore.cpp`: the latest snapshot of every submission, a forward-only
status machine, and the lazy eviction that runs inside every locked operation.
Clock readings are arguments, so one call of the source is one function here.
-/

namespace JudgeServer.Pipeline

open JudgeServer.Common
open JudgeServer.Lib.KeyedMap

/-- A `steady_clock` reading in nanoseconds. -/
abbrev TimePoint := Int

/-- `std::chrono::seconds(n)` on the clock's own scale. -/
def seconds (n : Int) : Int := n * 1000000000

def isTerminalStatus (status : SubmissionStatus) : Bool :=
  status = .finished || status = .failed

/-- The status machine of the source, tests in the source's order. -/
def isValidTransition (current next : SubmissionStatus) : Bool :=
  if isTerminalStatus current then false
  else if current = next then true
  else match current with
    | .queued => next = .preparing || next = .failed
    | .preparing => next = .compiling || next = .failed
    | .compiling => next = .running || next = .finished || next = .failed
    | .running => next = .finished || next = .failed
    | .finished => false
    | .failed => false

structure StoredSubmission where
  result : SubmissionResult
  lastAccessAt : TimePoint
  finishedAt : Option TimePoint
  deriving DecidableEq, Repr

/-- The two values of `Config` that the store reads, with the defaults of the accessors. -/
structure CleanupConfig where
  resultRetentionSeconds : Int := 600
  maxStoredResults : Int := 1000

structure ResultStore where
  nextSubmissionId : Int := 1
  results : Table Int StoredSubmission := ∅
  overrideRetentionSeconds : Option Int := none
  overrideMaxStoredResults : Option Int := none

/-- One behaviour of `std::sort` on the finished entries. The comparator looks at
the time only and the input order is that of a hash map, so entries with equal
times may come out in any order. -/
structure EntrySort where
  sort : List (Int × TimePoint) → List (Int × TimePoint)
  perm : ∀ l, (sort l).Perm l
  sorted : ∀ l, (sort l).Pairwise fun a b => a.2 ≤ b.2

/-- The stable order, one of those `std::sort` may produce. -/
def EntrySort.stable : EntrySort where
  sort := List.insertionSort fun a b => a.2 ≤ b.2
  perm := List.perm_insertionSort _
  sorted := List.pairwise_insertionSort _

namespace ResultStore

def resultRetentionSecondsLocked (cfg : CleanupConfig) (st : ResultStore) : Int :=
  match st.overrideRetentionSeconds with
  | some n => n
  | none => cfg.resultRetentionSeconds

def maxStoredResultsLocked (cfg : CleanupConfig) (st : ResultStore) : Int :=
  match st.overrideMaxStoredResults with
  | some n => n
  | none => cfg.maxStoredResults

/-- The expiry test of the first pass, negated: this record stays. -/
def unexpired (retention : Int) (now : TimePoint) (stored : StoredSubmission) : Bool :=
  match stored.finishedAt with
  | none => true
  | some t => !decide (now - t ≥ retention)

/-- The second pass: erase in the given order until the table fits. -/
def evictOldest (maxStored : Int) :
    List (Int × TimePoint) → Table Int StoredSubmission → Table Int StoredSubmission
  | [], m => m
  | e :: rest, m =>
      if toInt32 (size m) ≤ maxStored then m else evictOldest maxStored rest (m.erase e.1)

def finishedEntries (m : Table Int StoredSubmission) : List (Int × TimePoint) :=
  m.entries.filterMap fun e => e.2.finishedAt.map fun t => (e.1, t)

/-- The first pass over the whole table. -/
def expire (cfg : CleanupConfig) (now : TimePoint) (st : ResultStore) : Table Int StoredSubmission :=
  if st.resultRetentionSecondsLocked cfg ≥ 0 then
    keep (unexpired (seconds (st.resultRetentionSecondsLocked cfg)) now) st.results
  else st.results

def cleanupExpiredResultsLocked (cfg : CleanupConfig) (srt : EntrySort) (now : TimePoint)
    (st : ResultStore) : ResultStore :=
  let results := st.expire cfg now
  let maxStored := st.maxStoredResultsLocked cfg
  if maxStored ≤ 0 ∨ toInt32 (size results) ≤ maxStored then { st with results := results }
  else { st with results := evictOldest maxStored (srt.sort (finishedEntries results)) results }

/-- `createSubmission`; the source reads the clock twice. The request is ignored, as it is there. -/
def createSubmission (cfg : CleanupConfig) (srt : EntrySort) (now later : TimePoint)
    (_request : SubmissionRequest) (st : ResultStore) : Int × ResultStore :=
  let st := st.cleanupExpiredResultsLocked cfg srt now
  let id := st.nextSubmissionId
  let stored : StoredSubmission :=
    { result := { submissionId := id, status := .queued }, lastAccessAt := later, finishedAt := none }
  (id, { st with
    nextSubmissionId := toInt32 (id + 1)
    results := st.results.insert id stored })

/-- The record `updateResult` writes over an existing one. -/
def overwrite (id : Int) (result : SubmissionResult) (now : TimePoint)
    (stored : StoredSubmission) : StoredSubmission :=
  { result := { result with submissionId := id }
    lastAccessAt := now
    finishedAt := if isTerminalStatus result.status then some now else stored.finishedAt }

def updateResult (cfg : CleanupConfig) (srt : EntrySort) (now : TimePoint) (id : Int)
    (result : SubmissionResult) (st : ResultStore) : Bool × ResultStore :=
  let st := st.cleanupExpiredResultsLocked cfg srt now
  match st.results.lookup id with
  | none => (false, st)
  | some stored =>
      if isValidTransition stored.result.status result.status then
        let st := { st with results := st.results.insert id (overwrite id result now stored) }
        (true, st.cleanupExpiredResultsLocked cfg srt now)
      else (false, st)

def getResult (cfg : CleanupConfig) (srt : EntrySort) (now : TimePoint) (id : Int)
    (st : ResultStore) : Option SubmissionResult × ResultStore :=
  let st := st.cleanupExpiredResultsLocked cfg srt now
  match st.results.lookup id with
  | none => (none, st)
  | some stored =>
      (some stored.result,
        { st with results := st.results.insert id { stored with lastAccessAt := now } })

end ResultStore
end JudgeServer.Pipeline
