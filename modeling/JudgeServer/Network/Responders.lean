import JudgeServer.Dispatch.SubmissionQueue
import JudgeServer.Protocol.JudgeProtocol
import JudgeServer.Pipeline.WorkerRun

/-!
# Messages made from stored snapshots

`network/SubmissionEventResponder.cpp` and `network/QueryRequestHandler.cpp`: a lookup
in the store followed by an encoding. The lookup is a parameter, so that the same
functions serve on a bare store and inside the server. An encoding that throws leaves
them as an exception.
-/

namespace JudgeServer.Network

open JudgeServer.Common
open JudgeServer.Dispatch
open JudgeServer.Lib.Utf8
open JudgeServer.Lib.Interleave
open JudgeServer.Pipeline
open JudgeServer.Protocol

/-- The message of a started event, from the answer of the lookup. -/
def startedMessage : Option SubmissionResult → Except JsonError (Option Bytes)
  | none => .ok none
  | some result =>
      if result.status = .queued then .ok none
      else (encodeSubmissionUpdate result).map some

/-- The message of a finished event. -/
def finishedMessage : Option SubmissionResult → Except JsonError (Option Bytes)
  | none => .ok none
  | some result => (encodeResult result).map some

/-- The response to a query. -/
def queryResponse : Option SubmissionResult → Except JsonError Bytes
  | none => encodeError (ascii "submission not found")
  | some result => encodeResult result

section Responders

variable {m : Type → Type} [Monad m] (query : Int → m (Option SubmissionResult))

def onSubmissionStarted (task : SubmissionTask) : ExceptT JsonError m (Option Bytes) :=
  ExceptT.mk (startedMessage <$> query task.submissionId)

def onSubmissionFinished (task : SubmissionTask) : ExceptT JsonError m (Option Bytes) :=
  ExceptT.mk (finishedMessage <$> query task.submissionId)

def handleQuery (request : QueryResultRequest) : ExceptT JsonError m Bytes :=
  ExceptT.mk (queryResponse <$> query request.submissionId)

end Responders

/-- `SubmissionService::query` on a store alone, at one instant. -/
def queryAt (cfg : CleanupConfig) (srt : EntrySort) (now : TimePoint) (id : Int) :
    StateM ResultStore (Option SubmissionResult) :=
  fun st => st.getResult cfg srt now id

theorem onSubmissionFinished_at (cfg : CleanupConfig) (srt : EntrySort) (now : TimePoint)
    (task : SubmissionTask) (st : ResultStore) :
    ((onSubmissionFinished (queryAt cfg srt now) task).run st).1 =
      finishedMessage (st.getResult cfg srt now task.submissionId).1 := rfl

theorem handleQuery_at (cfg : CleanupConfig) (srt : EntrySort) (now : TimePoint)
    (request : QueryResultRequest) (st : ResultStore) :
    ((handleQuery (queryAt cfg srt now) request).run st).1 =
      queryResponse (st.getResult cfg srt now request.submissionId).1 := rfl

theorem returns_map {ε α β : Type} {x : Except ε α} {f : α → β} :
    Returns (x.map f) ↔ Returns x := by
  cases x with
  | error e =>
    constructor
    · intro h
      obtain ⟨b, hb⟩ := h
      cases hb
    · intro h
      obtain ⟨a, ha⟩ := h
      cases ha
  | ok a => exact ⟨fun _ => returns_ok a, fun _ => returns_ok (f a)⟩

/-- The snapshot found, if any, has text for its message. -/
def TextMessage (answer : Option SubmissionResult) : Prop :=
  ∀ r, answer = some r → ValidUtf8 r.message

theorem finishedMessage_returns (answer : Option SubmissionResult) :
    Returns (finishedMessage answer) ↔ TextMessage answer := by
  cases answer with
  | none =>
    constructor
    · intro _ r hr
      cases hr
    · intro _
      exact returns_ok none
  | some result =>
    change Returns ((encodeResult result).map some) ↔ _
    rw [returns_map, encodeResult_returns]
    constructor
    · intro h r hr
      obtain rfl := Option.some.inj hr
      exact h
    · intro h
      exact h result rfl

theorem queryResponse_returns (answer : Option SubmissionResult) :
    Returns (queryResponse answer) ↔ TextMessage answer := by
  cases answer with
  | none =>
    constructor
    · intro _ r hr
      cases hr
    · intro _
      exact (encodeError_returns _).mpr (validUtf8_ascii (by decide))
  | some result =>
    change Returns (encodeResult result) ↔ _
    rw [encodeResult_returns]
    constructor
    · intro h r hr
      obtain rfl := Option.some.inj hr
      exact h
    · intro h
      exact h result rfl

/-- The encoders return a payload, and the two callers that send stored snapshots are
left without an exception, exactly when the message is valid UTF-8. -/
theorem encoding_returns_iff_text (r : SubmissionResult) (cfg : CleanupConfig) (srt : EntrySort)
    (now : TimePoint) (st : ResultStore) (task : SubmissionTask) (request : QueryResultRequest) :
    ((Returns (encodeResult r) ↔ ValidUtf8 r.message) ∧
      (Returns (encodeSubmissionUpdate r) ↔ ValidUtf8 r.message) ∧
      (Returns (encodeSubmissionFinished r) ↔ ValidUtf8 r.message)) ∧
    (Returns ((onSubmissionFinished (queryAt cfg srt now) task).run st).1 ↔
      TextMessage (st.getResult cfg srt now task.submissionId).1) ∧
    (Returns ((handleQuery (queryAt cfg srt now) request).run st).1 ↔
      TextMessage (st.getResult cfg srt now request.submissionId).1) := by
  refine ⟨⟨encodeResult_returns r, encodeSubmissionUpdate_returns r,
    encodeSubmissionFinished_returns r⟩, ?_, ?_⟩
  · rw [onSubmissionFinished_at, finishedMessage_returns]
  · rw [handleQuery_at, queryResponse_returns]

/-- A compiler whose log is a single byte that no text contains. -/
def binaryLogEnv : JudgeEnv :=
  { sampleEnv 1 5 with
    createRunner := fun _ => .ok (some
      { sampleRunner 5 with compile := fun _ => .ok ⟨false, .ce, [0xFF]⟩ }) }

/-- The worker alone, until it has returned. -/
def binaryLogRun : Option (WorkerConfig {} Empty) :=
  run noRestart (workerConfig {} binaryLogEnv 1 sampleRequest sampleStore Empty.elim)
    [(none, ⟨0, 0, .stable⟩), (none, ⟨0, 0, .stable⟩), (none, ⟨0, 0, .stable⟩)]

/-- `processSubmission` stores that log, and the finished event then throws. -/
theorem binary_log_throws :
    ∃ c r, binaryLogRun = some c ∧
      (c.shared.store.getResult {} .stable 0 1).1 = some r ∧ r.status = .finished ∧
      ¬ Returns (encodeResult r) ∧ ¬ Returns (encodeSubmissionUpdate r) ∧
      ¬ Returns (encodeSubmissionFinished r) ∧
      ¬ Returns ((onSubmissionFinished (queryAt {} .stable 0)
        ⟨1, sampleRequest, ascii "0:1"⟩).run c.shared.store).1 ∧
      ¬ Returns ((handleQuery (queryAt {} .stable 0) ⟨1⟩).run c.shared.store).1 := by
  let r : SubmissionResult := makeResult 1 .finished .ce [0xFF]
  have hrun : (binaryLogRun.map fun c => (c.shared.store.getResult {} .stable 0 1).1) =
      some (some r) := by decide
  obtain ⟨c, hc, hget⟩ := Option.map_eq_some_iff.mp hrun
  have hbad : ¬ ValidUtf8 r.message := by
    rw [← dumpEscaped_returns]
    intro h
    obtain ⟨b, hb⟩ := h
    cases hb
  refine ⟨c, r, hc, hget, rfl, ?_, ?_, ?_, ?_, ?_⟩
  · rwa [encodeResult_returns]
  · rwa [encodeSubmissionUpdate_returns]
  · rwa [encodeSubmissionFinished_returns]
  · rw [onSubmissionFinished_at, finishedMessage_returns]
    intro h
    exact hbad (h r hget)
  · rw [handleQuery_at, queryResponse_returns]
    intro h
    exact hbad (h r hget)

end JudgeServer.Network
