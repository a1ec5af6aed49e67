import JudgeServer.Protocol.JudgeProtocol
import JudgeServer.Protocol.DumpReading

/-!
# What a result message says

The two tables, the case encoder and the envelope keep every field apart, and `dump`
keeps apart what they build. A payload therefore comes from one result only, and it says
which of the two message types it is.
-/

namespace JudgeServer.Protocol

open JudgeServer.Common
open JudgeServer.Lib.Utf8

theorem toStatusString_injective : Function.Injective toStatusString := by
  intro a b h
  cases a <;> cases b <;> first | rfl | exact absurd h (by decide)

theorem toVerdictString_injective : Function.Injective toVerdictString := by
  intro a b h
  cases a <;> cases b <;> first | rfl | exact absurd h (by decide)

/-- The case object as it is serialised, its one unsigned number read as a signed one. -/
theorem plain_encodeCaseResult (c : SubmissionCaseResult) : plain (encodeCaseResult c) = .object [
      (ascii "cpu_time_ms", .numberInteger c.cpuTimeMs),
      (ascii "error_code", .numberInteger c.errorCode),
      (ascii "exit_code", .numberInteger c.exitCode),
      (ascii "memory_kb", .numberInteger c.memoryKb),
      (ascii "real_time_ms", .numberInteger c.realTimeMs),
      (ascii "seq_id", .numberInteger c.seqId),
      (ascii "signal", .numberInteger c.signal),
      (ascii "verdict", .string (toVerdictString c.verdict))] := by
  rfl

theorem encodeCaseResult_injective {c c' : SubmissionCaseResult}
    (h : plain (encodeCaseResult c) = plain (encodeCaseResult c')) : c = c' := by
  rw [plain_encodeCaseResult, plain_encodeCaseResult] at h
  simp only [Json.object.injEq, List.cons.injEq, Prod.mk.injEq, Json.numberInteger.injEq,
    Json.string.injEq, true_and, and_true, Nat.cast_inj] at h
  obtain ⟨hcpu, herror, hexit, hmemory, hreal, hseq, hsignal, hverdict⟩ := h
  cases c
  cases c'
  simp only [SubmissionCaseResult.mk.injEq]
  exact ⟨hseq, toVerdictString_injective hverdict, hcpu, hreal, hmemory, hsignal, hexit, herror⟩

theorem caseResults_injective {cases cases' : List SubmissionCaseResult}
    (h : plainElements (cases.map encodeCaseResult) =
      plainElements (cases'.map encodeCaseResult)) : cases = cases' := by
  induction cases generalizing cases' with
  | nil =>
    cases cases' with
    | nil => rfl
    | cons c' rest' => cases h
  | cons c rest ih =>
    cases cases' with
    | nil => cases h
    | cons c' rest' =>
      obtain ⟨hc, hrest⟩ := List.cons.inj h
      rw [encodeCaseResult_injective hc, ih hrest]

/-- The type of the message for a status. -/
def resultType (status : SubmissionStatus) : Bytes :=
  if status = .finished ∨ status = .failed then ascii "submission_finished"
  else ascii "submission_update"

theorem encodeResult_eq (result : SubmissionResult) :
    encodeResult result = dump (.object (messageFields (resultType result.status) result
      (result.caseResults.map encodeCaseResult))) := by
  rw [← encodeWithCases_eq]
  unfold encodeResult resultType
  split
  · rfl
  · rfl

theorem plain_messageFields (type : Bytes) (result : SubmissionResult) (cases : List (Json Empty)) :
    plain (.object (messageFields type result cases)) = .object [
      (ascii "case_results", .array (plainElements cases)),
      (ascii "message", .string result.message),
      (ascii "status", .string (toStatusString result.status)),
      (ascii "submission_id", .numberInteger result.submissionId),
      (ascii "type", .string type),
      (ascii "verdict", .string (toVerdictString result.verdict))] := by
  rfl

/-- A payload comes from one result only. -/
theorem encodeResult_inj {r r' : SubmissionResult} {payload : Bytes}
    (h : encodeResult r = .ok payload) (h' : encodeResult r' = .ok payload) : r = r' := by
  rw [encodeResult_eq] at h h'
  have hplain := dump_injective h h'
  rw [plain_messageFields, plain_messageFields] at hplain
  simp only [Json.object.injEq, List.cons.injEq, Prod.mk.injEq, Json.numberInteger.injEq,
    Json.string.injEq, Json.array.injEq, true_and, and_true] at hplain
  obtain ⟨hcases, hmessage, hstatus, hid, _, hverdict⟩ := hplain
  cases r
  cases r'
  simp only [SubmissionResult.mk.injEq]
  exact ⟨hid, toStatusString_injective hstatus, toVerdictString_injective hverdict, hmessage,
    caseResults_injective hcases⟩

theorem field_plain (j : Json Empty) (key : Bytes) :
    (plain j).field key = (j.field key).map plain := by
  have hfields : ∀ fields : List (Bytes × Json Empty),
      ((plainFields fields).find? fun f => f.1 = key).map Prod.snd =
        ((fields.find? fun f => f.1 = key).map Prod.snd).map plain := by
    intro fields
    induction fields with
    | nil => rfl
    | cons f fields ih =>
      rw [plainFields, List.find?_cons, List.find?_cons]
      by_cases hf : f.1 = key
      · simp [hf]
      · simp only [hf, decide_false]
        exact ih
  cases j with
  | object fields => exact hfields fields
  | numberFloat value => exact value.elim
  | _ => rfl

theorem plain_eq_string {j : Json Empty} {s : Bytes} (h : plain j = .string s) : j = .string s := by
  cases j with
  | string value => exact h
  | numberFloat value => exact value.elim
  | _ => cases h

/-- The payload is the text of a value, and each value with that text has this type. -/
def PayloadType (payload type : Bytes) : Prop :=
  (∃ j, dump j = .ok payload) ∧
    ∀ j, dump j = .ok payload → j.field (ascii "type") = some (.string type)

theorem payloadType_unique {payload type type' : Bytes} (h : PayloadType payload type)
    (h' : PayloadType payload type') : type = type' := by
  obtain ⟨j, hj⟩ := h.1
  have hstring := h.2 j hj
  rw [h'.2 j hj, Option.some.injEq, Json.string.injEq] at hstring
  exact hstring.symm

theorem encodeResult_type {r : SubmissionResult} {payload : Bytes}
    (h : encodeResult r = .ok payload) : PayloadType payload (resultType r.status) := by
  rw [encodeResult_eq] at h
  refine ⟨⟨_, h⟩, ?_⟩
  intro j hj
  have hfield := field_plain j (ascii "type")
  rw [dump_injective hj h, field_plain] at hfield
  have htype : (Json.object (messageFields (resultType r.status) r
      (r.caseResults.map encodeCaseResult))).field (ascii "type") =
      some (.string (resultType r.status)) := by
    rfl
  rw [htype] at hfield
  obtain ⟨value, hvalue, hplain⟩ := Option.map_eq_some_iff.mp hfield.symm
  rw [hvalue, plain_eq_string hplain]

/-- Result messages lose nothing: results whose messages are text have payloads, which
are equal only if the results are, and whose type tells the final ones. -/
theorem result_encoding_faithful (r r' : SubmissionResult) (h : ValidUtf8 r.message)
    (h' : ValidUtf8 r'.message) :
    ∃ payload payload', encodeResult r = .ok payload ∧ encodeResult r' = .ok payload' ∧
      (payload = payload' → r = r') ∧
      (PayloadType payload (ascii "submission_finished") ↔
        r.status = .finished ∨ r.status = .failed) ∧
      (PayloadType payload (ascii "submission_update") ↔
        ¬(r.status = .finished ∨ r.status = .failed)) := by
  obtain ⟨payload, hp⟩ := (encodeResult_returns r).mpr h
  obtain ⟨payload', hp'⟩ := (encodeResult_returns r').mpr h'
  have htype := encodeResult_type hp
  unfold resultType at htype
  refine ⟨payload, payload', hp, hp', ?_, ?_⟩
  · intro heq
    rw [← heq] at hp'
    exact encodeResult_inj hp hp'
  · by_cases hs : r.status = .finished ∨ r.status = .failed
    · rw [if_pos hs] at htype
      refine ⟨iff_of_true htype hs, iff_of_false ?_ (not_not_intro hs)⟩
      intro hupdate
      exact absurd (payloadType_unique hupdate htype) (by decide)
    · rw [if_neg hs] at htype
      refine ⟨iff_of_false ?_ hs, iff_of_true htype hs⟩
      intro hfinished
      exact absurd (payloadType_unique hfinished htype) (by decide)

def sampleRunning : SubmissionResult where
  submissionId := 7
  status := .running
  message := ascii "running \"1\"\n"
  caseResults := [{ seqId := 1, verdict := .ac, memoryKb := 2 ^ 64 - 1 }]

def sampleFinished : SubmissionResult where
  submissionId := 7
  status := .finished
  verdict := .wa
  message := ascii "done"
  caseResults := [{ seqId := 1, verdict := .wa, signal := -1 }]

theorem result_encoding_faithful_samples :
    ∃ payload payload', encodeResult sampleRunning = .ok payload ∧
      encodeResult sampleFinished = .ok payload' ∧
      (payload = payload' → sampleRunning = sampleFinished) ∧
      (PayloadType payload (ascii "submission_finished") ↔
        sampleRunning.status = .finished ∨ sampleRunning.status = .failed) ∧
      (PayloadType payload (ascii "submission_update") ↔
        ¬(sampleRunning.status = .finished ∨ sampleRunning.status = .failed)) :=
  result_encoding_faithful sampleRunning sampleFinished (validUtf8_ascii (by decide))
    (validUtf8_ascii (by decide))

end JudgeServer.Protocol
