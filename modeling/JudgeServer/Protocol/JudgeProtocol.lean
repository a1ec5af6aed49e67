import JudgeServer.Protocol.Dump

/-!
# The judge protocol

`protocol/JudgeProtocol.cpp`: the JSON bodies of the protocol's messages. Parsing is
left to a parameter that stands for `json::parse`; what the decoders do with the
parsed value is here. A parsed floating-point number is the rational value of the
double.
-/

namespace JudgeServer.Protocol

open JudgeServer.Common
open JudgeServer.Lib.Utf8

structure QueryResultRequest where
  submissionId : Int
  deriving DecidableEq, Repr

/-- `json::parse`, with `none` for an exception. -/
abbrev JsonParse := Bytes → Option (Json Rat)

/-- `static_cast<int>` of a double: towards zero, and the smallest `int` outside the
range, as the target's conversion instruction has it. -/
def intOfFloat (x : Rat) : Int :=
  let n := x.num.tdiv x.den
  if -2 ^ 31 ≤ n ∧ n < 2 ^ 31 then n else -2 ^ 31

namespace Json

variable {φ : Type}

/-- `contains` and `at` of an object. -/
def field (key : Bytes) : Json φ → Option (Json φ)
  | .object fields => (fields.find? fun f => f.1 = key).map Prod.snd
  | _ => none

/-- `get<std::string>()`. -/
def getString : Json φ → Option Bytes
  | .string value => some value
  | _ => none

/-- `get<int>()`: every number and every boolean converts, without a range check. -/
def getInt : Json Rat → Option Int
  | .numberInteger value => some (toInt32 value)
  | .numberUnsigned value => some (toInt32 value)
  | .numberFloat value => some (intOfFloat value)
  | .boolean value => some (if value then 1 else 0)
  | _ => none

end Json

/-- The parsed payload if it is an object. -/
def parseObjectPayload (parse : JsonParse) (payload : Bytes) : Option (Json Rat) :=
  match parse payload with
  | some (.object fields) => some (.object fields)
  | _ => none

def hasType (parsed : Json Rat) (expectedType : Bytes) : Bool :=
  match parsed.field (ascii "type") with
  | some (.string value) => value = expectedType
  | _ => false

def toSubmissionLanguage (legacyLanguage : Int) : Option SubmissionLanguage :=
  if legacyLanguage = 0 then some .cpp
  else if legacyLanguage = 1 then some .c
  else if legacyLanguage = 2 then some .python
  else none

def decodeRequest (parse : JsonParse) (payload : Bytes) : Option SubmissionRequest := do
  let parsed ← parseObjectPayload parse payload
  guard (hasType parsed (ascii "submit"))
  let uuid ← parsed.field (ascii "uuid")
  let pid ← parsed.field (ascii "pid")
  let lang ← parsed.field (ascii "lang")
  let code ← parsed.field (ascii "code")
  let language ← toSubmissionLanguage (← lang.getInt)
  return { uuid := ← uuid.getInt, pid := ← pid.getString, language, code := ← code.getString }

def decodeQueryRequest (parse : JsonParse) (payload : Bytes) : Option QueryResultRequest := do
  let parsed ← parseObjectPayload parse payload
  guard (hasType parsed (ascii "query_result"))
  let id ← parsed.field (ascii "submission_id")
  return { submissionId := ← id.getInt }

def toStatusString : SubmissionStatus → Bytes
  | .queued => ascii "QUEUED"
  | .preparing => ascii "PREPARING"
  | .compiling => ascii "COMPILING"
  | .running => ascii "RUNNING"
  | .finished => ascii "FINISHED"
  | .failed => ascii "FAILED"

def toVerdictString : SubmissionVerdict → Bytes
  | .pending => ascii "PENDING"
  | .ac => ascii "AC"
  | .wa => ascii "WA"
  | .tle => ascii "TLE"
  | .mle => ascii "MLE"
  | .re => ascii "RE"
  | .ole => ascii "OLE"
  | .pe => ascii "PE"
  | .ce => ascii "CE"
  | .unknown => ascii "UNKNOWN"
  | .systemError => ascii "SYSTEM_ERROR"

def encodeCaseResult (caseResult : SubmissionCaseResult) : Json Empty :=
  .ofFields [
    (ascii "seq_id", .numberInteger caseResult.seqId),
    (ascii "verdict", .string (toVerdictString caseResult.verdict)),
    (ascii "cpu_time_ms", .numberInteger caseResult.cpuTimeMs),
    (ascii "real_time_ms", .numberInteger caseResult.realTimeMs),
    (ascii "memory_kb", .numberUnsigned caseResult.memoryKb),
    (ascii "signal", .numberInteger caseResult.signal),
    (ascii "exit_code", .numberInteger caseResult.exitCode),
    (ascii "error_code", .numberInteger caseResult.errorCode)]

def encodeAsyncEnvelope (type : Bytes) (submissionId : Int) (status : SubmissionStatus)
    (verdict : SubmissionVerdict) (message : Bytes) : Json Empty :=
  .ofFields [
    (ascii "type", .string type),
    (ascii "submission_id", .numberInteger submissionId),
    (ascii "status", .string (toStatusString status)),
    (ascii "verdict", .string (toVerdictString verdict)),
    (ascii "message", .string message),
    (ascii "case_results", .array [])]

def encodeLegacyEnvelope (submissionId : Int) (status : SubmissionStatus)
    (verdict : SubmissionVerdict) (message : Bytes) (code : Int) : Json Empty :=
  .ofFields [
    (ascii "submission_id", .numberInteger submissionId),
    (ascii "status", .string (toStatusString status)),
    (ascii "verdict", .string (toVerdictString verdict)),
    (ascii "message", .string message),
    (ascii "code", .numberInteger code),
    (ascii "msg", .string message),
    (ascii "case_results", .array [])]

def encodeSubmissionAck (submissionId : Int) : Except JsonError Bytes :=
  dump (encodeAsyncEnvelope (ascii "submission_ack") submissionId .queued .pending (ascii "queued"))

/-- The common body of the two result messages. -/
def encodeWithCases (type : Bytes) (result : SubmissionResult) : Except JsonError Bytes :=
  dump (result.caseResults.foldl
    (fun encoded caseResult => encoded.pushBack (ascii "case_results") (encodeCaseResult caseResult))
    (encodeAsyncEnvelope type result.submissionId result.status result.verdict result.message))

def encodeSubmissionUpdate (result : SubmissionResult) : Except JsonError Bytes :=
  encodeWithCases (ascii "submission_update") result

def encodeSubmissionFinished (result : SubmissionResult) : Except JsonError Bytes :=
  encodeWithCases (ascii "submission_finished") result

def encodeResult (result : SubmissionResult) : Except JsonError Bytes :=
  if result.status = .finished ∨ result.status = .failed then encodeSubmissionFinished result
  else encodeSubmissionUpdate result

def encodeError (message : Bytes) : Except JsonError Bytes :=
  dump (encodeLegacyEnvelope (-1) .failed .systemError message (-1))

/-- The envelope as it is serialised, keys in order. -/
theorem encodeAsyncEnvelope_eq (type : Bytes) (submissionId : Int) (status : SubmissionStatus)
    (verdict : SubmissionVerdict) (message : Bytes) :
    encodeAsyncEnvelope type submissionId status verdict message = .object [
      (ascii "case_results", .array []),
      (ascii "message", .string message),
      (ascii "status", .string (toStatusString status)),
      (ascii "submission_id", .numberInteger submissionId),
      (ascii "type", .string type),
      (ascii "verdict", .string (toVerdictString verdict))] := by
  rfl

/-- The serialised fields of a message with the given cases. -/
def messageFields (type : Bytes) (result : SubmissionResult) (cases : List (Json Empty)) :
    List (Bytes × Json Empty) := [
  (ascii "case_results", .array cases),
  (ascii "message", .string result.message),
  (ascii "status", .string (toStatusString result.status)),
  (ascii "submission_id", .numberInteger result.submissionId),
  (ascii "type", .string type),
  (ascii "verdict", .string (toVerdictString result.verdict))]

theorem pushBack_cases (type : Bytes) (result : SubmissionResult) (cases : List SubmissionCaseResult)
    (before : List (Json Empty)) :
    cases.foldl (fun encoded c => encoded.pushBack (ascii "case_results") (encodeCaseResult c))
      (Json.object (messageFields type result before)) =
      Json.object (messageFields type result (before ++ cases.map encodeCaseResult)) := by
  induction cases generalizing before with
  | nil => simp
  | cons c cases ih =>
    have hpush : (Json.object (messageFields type result before)).pushBack
        (ascii "case_results") (encodeCaseResult c) =
        .object (messageFields type result (before ++ [encodeCaseResult c])) := rfl
    rw [List.foldl_cons, hpush, ih, List.map_cons, List.append_assoc]
    rfl

theorem encodeWithCases_eq (type : Bytes) (result : SubmissionResult) :
    encodeWithCases type result =
      dump (.object (messageFields type result (result.caseResults.map encodeCaseResult))) := by
  unfold encodeWithCases
  rw [encodeAsyncEnvelope_eq]
  exact congrArg dump (pushBack_cases type result result.caseResults [])

theorem toStatusString_valid (status : SubmissionStatus) : ValidUtf8 (toStatusString status) := by
  cases status <;> exact validUtf8_ascii (by decide)

theorem toVerdictString_valid (verdict : SubmissionVerdict) :
    ValidUtf8 (toVerdictString verdict) := by
  cases verdict <;> exact validUtf8_ascii (by decide)

theorem encodeCaseResult_text (c : SubmissionCaseResult) : Text (encodeCaseResult c) := by
  have heq : encodeCaseResult c = .object [
      (ascii "cpu_time_ms", .numberInteger c.cpuTimeMs),
      (ascii "error_code", .numberInteger c.errorCode),
      (ascii "exit_code", .numberInteger c.exitCode),
      (ascii "memory_kb", .numberUnsigned c.memoryKb),
      (ascii "real_time_ms", .numberInteger c.realTimeMs),
      (ascii "seq_id", .numberInteger c.seqId),
      (ascii "signal", .numberInteger c.signal),
      (ascii "verdict", .string (toVerdictString c.verdict))] := rfl
  rw [heq, Text]
  simp (disch := decide) only [textFields_key, textFields_nil, Text, true_and, and_true]
  exact toVerdictString_valid c.verdict

theorem caseResults_text (cases : List SubmissionCaseResult) :
    TextElements (cases.map encodeCaseResult) := by
  induction cases with
  | nil => trivial
  | cons c cases ih => exact ⟨encodeCaseResult_text c, ih⟩

/-- A result message is produced exactly when its type and its message are valid text:
every other string in it is a constant of the protocol. -/
theorem encodeWithCases_returns (type : Bytes) (result : SubmissionResult) (ht : ValidUtf8 type) :
    Returns (encodeWithCases type result) ↔ ValidUtf8 result.message := by
  rw [encodeWithCases_eq, dump_returns, Text, messageFields]
  simp (disch := decide) only [textFields_key, textFields_nil, Text, true_and, and_true]
  constructor
  · rintro ⟨_, hm, _⟩
    exact hm
  · intro hm
    exact ⟨caseResults_text _, hm, toStatusString_valid _, ht, toVerdictString_valid _⟩

theorem encodeSubmissionUpdate_returns (result : SubmissionResult) :
    Returns (encodeSubmissionUpdate result) ↔ ValidUtf8 result.message :=
  encodeWithCases_returns _ result (validUtf8_ascii (by decide))

theorem encodeSubmissionFinished_returns (result : SubmissionResult) :
    Returns (encodeSubmissionFinished result) ↔ ValidUtf8 result.message :=
  encodeWithCases_returns _ result (validUtf8_ascii (by decide))

theorem encodeResult_returns (result : SubmissionResult) :
    Returns (encodeResult result) ↔ ValidUtf8 result.message := by
  unfold encodeResult
  split
  · exact encodeSubmissionFinished_returns result
  · exact encodeSubmissionUpdate_returns result

theorem encodeError_returns (message : Bytes) :
    Returns (encodeError message) ↔ ValidUtf8 message := by
  have heq : encodeLegacyEnvelope (-1) .failed .systemError message (-1) = .object [
      (ascii "case_results", .array []),
      (ascii "code", .numberInteger (-1)),
      (ascii "message", .string message),
      (ascii "msg", .string message),
      (ascii "status", .string (toStatusString .failed)),
      (ascii "submission_id", .numberInteger (-1)),
      (ascii "verdict", .string (toVerdictString .systemError))] := rfl
  unfold encodeError
  rw [heq, dump_returns, Text]
  simp (disch := decide) only [textFields_key, textFields_nil, Text, TextElements, true_and,
    and_true]
  constructor
  · rintro ⟨hm, _⟩
    exact hm
  · intro hm
    exact ⟨hm, hm, toStatusString_valid _, toVerdictString_valid _⟩

end JudgeServer.Protocol
