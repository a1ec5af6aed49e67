import JudgeServer.Protocol.RoundTrip
import JudgeServer.Protocol.RequestGrammar
import JudgeServer.Protocol.ResultEncoding

/-!
# Messages as text

The decoders and the encoders together with the parser they are used with. A client that
parses a result message finds every field of the result in it and nothing is ambiguous;
the requests that some payload decodes to are those whose strings are UTF-8.
-/

namespace JudgeServer.Protocol

open JudgeServer.Common
open JudgeServer.Lib.Utf8
open JudgeServer.Protocol.Parser

/-- `json::parse` as the decoders use it. -/
def jsonParse (strtod : Bytes → Option Rat) : JsonParse := fun payload =>
  (parse strtod payload).toOption

theorem jsonParse_eq_some_iff {strtod : Bytes → Option Rat} {payload : Bytes} {value : Json Rat} :
    jsonParse strtod payload = some value ↔ parse strtod payload = .ok value := by
  unfold jsonParse
  cases parse strtod payload with
  | error e => simp [Except.toOption]
  | ok v => simp [Except.toOption]

theorem storable_field {φ : Type} {j v : Json φ} {key : Bytes} (h : Storable j)
    (hv : j.field key = some v) : Storable v := by
  cases j with
  | object fields =>
    obtain ⟨f, hf, rfl⟩ := Option.map_eq_some_iff.mp hv
    exact (storableFields_iff.mp h.2 f (List.mem_of_find?_eq_some hf)).2
  | _ => cases hv

theorem toInt32_range (n : Int) : -2 ^ 31 ≤ toInt32 n ∧ toInt32 n < 2 ^ 31 := by
  unfold toInt32
  have hlow := Int.le_bmod (x := n) (m := 2 ^ 32) (by decide)
  have hhigh := Int.bmod_lt (x := n) (m := 2 ^ 32) (by decide)
  omega

theorem getInt_range {v : Json Rat} {n : Int} (h : v.getInt = some n) :
    -2 ^ 31 ≤ n ∧ n < 2 ^ 31 := by
  cases v with
  | numberInteger value =>
    obtain rfl := Option.some.inj h
    exact toInt32_range value
  | numberUnsigned value =>
    obtain rfl := Option.some.inj h
    exact toInt32_range value
  | numberFloat value =>
    obtain rfl := Option.some.inj h
    unfold intOfFloat
    dsimp only
    split
    · next hrange => exact hrange
    · decide
  | boolean value =>
    obtain rfl := Option.some.inj h
    cases value <;> decide
  | _ => cases h

/-- The message of `docs/protocol.md` for a request. -/
def submitMessage (request : SubmissionRequest) : Json Empty :=
  .ofFields [
    (ascii "type", .string (ascii "submit")),
    (ascii "uuid", .numberInteger request.uuid),
    (ascii "pid", .string request.pid),
    (ascii "lang", .numberInteger (languageNumber request.language)),
    (ascii "code", .string request.code)]

theorem submitMessage_eq (request : SubmissionRequest) : submitMessage request = .object [
      (ascii "code", .string request.code),
      (ascii "lang", .numberInteger (languageNumber request.language)),
      (ascii "pid", .string request.pid),
      (ascii "type", .string (ascii "submit")),
      (ascii "uuid", .numberInteger request.uuid)] := by
  rfl

theorem languageNumber_range (language : SubmissionLanguage) :
    0 ≤ languageNumber language ∧ languageNumber language < 3 := by
  cases language <;> decide

theorem storableFields_key {key : Bytes} {value : Json Empty} {rest : List (Bytes × Json Empty)}
    (h : (key.all fun b => b.toNat < 0x80) = true) :
    StorableFields ((key, value) :: rest) ↔ Storable value ∧ StorableFields rest := by
  rw [StorableFields, and_iff_right (validUtf8_ascii h)]

theorem storableFields_nil : StorableFields ([] : List (Bytes × Json Empty)) ↔ True := Iff.rfl

theorem submitMessage_storable {request : SubmissionRequest} (hpid : ValidUtf8 request.pid)
    (hcode : ValidUtf8 request.code) (huuid : -2 ^ 31 ≤ request.uuid ∧ request.uuid < 2 ^ 31) :
    Storable (submitMessage request) := by
  have hlang := languageNumber_range request.language
  rw [submitMessage_eq, Storable]
  constructor
  · exact sortedKeys_of_keys (by simp only [List.map_cons, List.map_nil]; decide)
  · simp (disch := decide) only [storableFields_key, storableFields_nil, Storable, and_true]
    exact ⟨hcode, by omega, hpid, validUtf8_ascii (by decide), by omega⟩

theorem isInt_reread {n : Int} (h : -2 ^ 31 ≤ n ∧ n < 2 ^ 31) :
    (reread (.numberInteger n) : Json Rat).IsInt n := by
  rw [reread]
  split
  · exact ⟨Or.inl rfl, h⟩
  · next hneg => exact ⟨Or.inr ⟨rfl, by omega⟩, h⟩

theorem submitMessage_message (request : SubmissionRequest)
    (huuid : -2 ^ 31 ≤ request.uuid ∧ request.uuid < 2 ^ 31) :
    SubmitMessage (reread (submitMessage request)) request := by
  have hlang := languageNumber_range request.language
  rw [submitMessage_eq]
  exact ⟨⟨_, rfl⟩, rfl, ⟨_, rfl, isInt_reread huuid⟩, rfl, ⟨_, rfl, isInt_reread (by omega)⟩, rfl⟩

/-- The requests that reach the server: some payload decodes to a request exactly if its
strings are UTF-8 and its number is an `int`. -/
theorem decodable_iff (strtod : Bytes → Option Rat) (request : SubmissionRequest) :
    (∃ payload, decodeRequest (jsonParse strtod) payload = some request) ↔
      ValidUtf8 request.pid ∧ ValidUtf8 request.code ∧
        -2 ^ 31 ≤ request.uuid ∧ request.uuid < 2 ^ 31 := by
  constructor
  · rintro ⟨payload, h⟩
    obtain ⟨parsed, hparse, -, -, uuid, lang, huuid, hlang, hpid, hcode, hu, -⟩ :=
      decodeRequest_eq_some_iff.mp h
    have hstorable := parse_storable (jsonParse_eq_some_iff.mp hparse)
    have hpid' : Storable (.string request.pid : Json Rat) := storable_field hstorable hpid
    have hcode' : Storable (.string request.code : Json Rat) := storable_field hstorable hcode
    exact ⟨hpid', hcode', getInt_range hu⟩
  · rintro ⟨hpid, hcode, huuid⟩
    have hstorable := submitMessage_storable hpid hcode huuid
    have htext : Text (submitMessage request) := by
      rw [submitMessage_eq, Text]
      simp (disch := decide) only [textFields_key, textFields_nil, Text, true_and, and_true]
      exact ⟨hcode, hpid, validUtf8_ascii (by decide)⟩
    obtain ⟨payload, hdump⟩ := (dump_returns _).mpr htext
    refine ⟨payload, decodeRequest_of_message ?_ (submitMessage_message request huuid)⟩
    exact jsonParse_eq_some_iff.mpr (parse_dump hdump hstorable)

section Results

variable {φ : Type}

/-- The number a client reads from a value. -/
def Json.IsNumber (v : Json φ) (n : Int) : Prop :=
  (v = .numberInteger n ∧ n < 0) ∨ (v = .numberUnsigned n.toNat ∧ 0 ≤ n)

theorem Json.IsNumber.unique {v : Json φ} {n m : Int} (h : v.IsNumber n) (h' : v.IsNumber m) :
    n = m := by
  obtain ⟨rfl, hn⟩ | ⟨rfl, hn⟩ := h
  · obtain ⟨heq, hm⟩ | ⟨heq, hm⟩ := h'
    · exact Json.numberInteger.inj heq
    · cases heq
  · obtain ⟨heq, hm⟩ | ⟨heq, hm⟩ := h'
    · cases heq
    · have hnat := Json.numberUnsigned.inj heq
      omega

def Json.HasNumber (j : Json φ) (key : Bytes) (n : Int) : Prop :=
  ∃ v, j.field key = some v ∧ v.IsNumber n

def Json.HasString (j : Json φ) (key : Bytes) (s : Bytes) : Prop := j.field key = some (.string s)

theorem Json.HasNumber.unique {j : Json φ} {key : Bytes} {n m : Int} (h : j.HasNumber key n)
    (h' : j.HasNumber key m) : n = m := by
  obtain ⟨v, hv, hn⟩ := h
  obtain ⟨w, hw, hm⟩ := h'
  rw [hv] at hw
  obtain rfl := Option.some.inj hw
  exact hn.unique hm

theorem Json.HasString.unique {j : Json φ} {key s t : Bytes} (h : j.HasString key s)
    (h' : j.HasString key t) : s = t := by
  unfold Json.HasString at h h'
  rw [h] at h'
  exact Json.string.inj (Option.some.inj h')

/-- An element of `case_results`, field by field. -/
structure CaseMessage (j : Json φ) (c : SubmissionCaseResult) : Prop where
  seqId : j.HasNumber (ascii "seq_id") c.seqId
  verdict : j.HasString (ascii "verdict") (toVerdictString c.verdict)
  cpuTimeMs : j.HasNumber (ascii "cpu_time_ms") c.cpuTimeMs
  realTimeMs : j.HasNumber (ascii "real_time_ms") c.realTimeMs
  memoryKb : j.HasNumber (ascii "memory_kb") c.memoryKb
  signal : j.HasNumber (ascii "signal") c.signal
  exitCode : j.HasNumber (ascii "exit_code") c.exitCode
  errorCode : j.HasNumber (ascii "error_code") c.errorCode

/-- A result message, field by field. -/
structure ResultMessage (j : Json φ) (r : SubmissionResult) : Prop where
  type : j.HasString (ascii "type") (resultType r.status)
  submissionId : j.HasNumber (ascii "submission_id") r.submissionId
  status : j.HasString (ascii "status") (toStatusString r.status)
  verdict : j.HasString (ascii "verdict") (toVerdictString r.verdict)
  message : j.HasString (ascii "message") r.message
  caseResults : ∃ elements, j.field (ascii "case_results") = some (.array elements) ∧
    List.Forall₂ CaseMessage elements r.caseResults

theorem CaseMessage.unique {j : Json φ} {c c' : SubmissionCaseResult} (h : CaseMessage j c)
    (h' : CaseMessage j c') : c = c' := by
  have hmemory : c.memoryKb = c'.memoryKb := by
    exact Int.ofNat.inj (h.memoryKb.unique h'.memoryKb)
  have hverdict := toVerdictString_injective (h.verdict.unique h'.verdict)
  cases c
  cases c'
  simp only [SubmissionCaseResult.mk.injEq]
  exact ⟨h.seqId.unique h'.seqId, hverdict, h.cpuTimeMs.unique h'.cpuTimeMs,
    h.realTimeMs.unique h'.realTimeMs, hmemory, h.signal.unique h'.signal,
    h.exitCode.unique h'.exitCode, h.errorCode.unique h'.errorCode⟩

theorem caseMessages_unique {elements : List (Json φ)} {cs cs' : List SubmissionCaseResult}
    (h : List.Forall₂ CaseMessage elements cs) (h' : List.Forall₂ CaseMessage elements cs') :
    cs = cs' := by
  induction h generalizing cs' with
  | nil =>
    cases h'
    rfl
  | cons hc _ ih =>
    cases h' with
    | cons hc' hrest => rw [hc.unique hc', ih hrest]

theorem ResultMessage.unique {j : Json φ} {r r' : SubmissionResult} (h : ResultMessage j r)
    (h' : ResultMessage j r') : r = r' := by
  obtain ⟨elements, hfield, hcases⟩ := h.caseResults
  obtain ⟨elements', hfield', hcases'⟩ := h'.caseResults
  rw [hfield] at hfield'
  obtain rfl := Json.array.inj (Option.some.inj hfield')
  have hstatus := toStatusString_injective (h.status.unique h'.status)
  have hverdict := toVerdictString_injective (h.verdict.unique h'.verdict)
  have hcs := caseMessages_unique hcases hcases'
  cases r
  cases r'
  simp only [SubmissionResult.mk.injEq]
  exact ⟨h.submissionId.unique h'.submissionId, hstatus, hverdict, h.message.unique h'.message, hcs⟩

/-- The numbers of a result are of their C++ types. -/
structure CaseInRange (c : SubmissionCaseResult) : Prop where
  ints : ∀ n ∈ [c.seqId, c.cpuTimeMs, c.realTimeMs, c.signal, c.exitCode, c.errorCode],
    -2 ^ 31 ≤ n ∧ n < 2 ^ 31
  memory : c.memoryKb < 2 ^ 64

structure ResultInRange (r : SubmissionResult) : Prop where
  submissionId : -2 ^ 31 ≤ r.submissionId ∧ r.submissionId < 2 ^ 31
  cases : ∀ c ∈ r.caseResults, CaseInRange c

theorem isNumber_reread (n : Int) : (reread (.numberInteger n) : Json φ).IsNumber n := by
  rw [reread]
  split
  · next hneg => exact Or.inl ⟨rfl, hneg⟩
  · next hneg => exact Or.inr ⟨rfl, by omega⟩

theorem caseMessage_reread (c : SubmissionCaseResult) :
    CaseMessage (reread (encodeCaseResult c) : Json φ) c where
  seqId := ⟨_, rfl, isNumber_reread _⟩
  verdict := rfl
  cpuTimeMs := ⟨_, rfl, isNumber_reread _⟩
  realTimeMs := ⟨_, rfl, isNumber_reread _⟩
  memoryKb := ⟨_, rfl, Or.inr ⟨rfl, by omega⟩⟩
  signal := ⟨_, rfl, isNumber_reread _⟩
  exitCode := ⟨_, rfl, isNumber_reread _⟩
  errorCode := ⟨_, rfl, isNumber_reread _⟩

theorem caseMessages_reread (cs : List SubmissionCaseResult) :
    List.Forall₂ CaseMessage (rereadElements (cs.map encodeCaseResult) : List (Json φ)) cs := by
  induction cs with
  | nil => exact .nil
  | cons c cs ih => exact .cons (caseMessage_reread c) ih

theorem resultMessage_reread (r : SubmissionResult) :
    ResultMessage (reread (.object (messageFields (resultType r.status) r
      (r.caseResults.map encodeCaseResult))) : Json φ) r where
  type := rfl
  submissionId := ⟨_, rfl, isNumber_reread _⟩
  status := rfl
  verdict := rfl
  message := rfl
  caseResults := ⟨_, rfl, caseMessages_reread _⟩

theorem encodeCaseResult_storable {c : SubmissionCaseResult} (h : CaseInRange c) :
    Storable (encodeCaseResult c) := by
  have heq : encodeCaseResult c = .object [
      (ascii "cpu_time_ms", .numberInteger c.cpuTimeMs),
      (ascii "error_code", .numberInteger c.errorCode),
      (ascii "exit_code", .numberInteger c.exitCode),
      (ascii "memory_kb", .numberUnsigned c.memoryKb),
      (ascii "real_time_ms", .numberInteger c.realTimeMs),
      (ascii "seq_id", .numberInteger c.seqId),
      (ascii "signal", .numberInteger c.signal),
      (ascii "verdict", .string (toVerdictString c.verdict))] := rfl
  have hints := h.ints
  have hmemory := h.memory
  simp only [List.mem_cons, List.not_mem_nil, or_false, forall_eq_or_imp, forall_eq] at hints
  rw [heq, Storable]
  constructor
  · exact sortedKeys_of_keys (by simp only [List.map_cons, List.map_nil]; decide)
  · simp (disch := decide) only [storableFields_key, storableFields_nil, Storable, and_true]
    refine ⟨?_, ?_, ?_, hmemory, ?_, ?_, ?_, toVerdictString_valid c.verdict⟩ <;> omega

theorem caseResults_storable {cs : List SubmissionCaseResult} (h : ∀ c ∈ cs, CaseInRange c) :
    StorableElements (cs.map encodeCaseResult) := by
  induction cs with
  | nil => trivial
  | cons c cs ih =>
    exact ⟨encodeCaseResult_storable (h c List.mem_cons_self),
      ih fun c' hc' => h c' (List.mem_cons_of_mem c hc')⟩

theorem resultType_valid (status : SubmissionStatus) : ValidUtf8 (resultType status) := by
  unfold resultType
  split <;> exact validUtf8_ascii (by decide)

theorem messageFields_storable {r : SubmissionResult} (h : ResultInRange r)
    (hmessage : ValidUtf8 r.message) :
    Storable (.object (messageFields (resultType r.status) r
      (r.caseResults.map encodeCaseResult))) := by
  have hid := h.submissionId
  rw [messageFields, Storable]
  constructor
  · exact sortedKeys_of_keys (by simp only [List.map_cons, List.map_nil]; decide)
  · simp (disch := decide) only [storableFields_key, storableFields_nil, Storable, and_true]
    exact ⟨caseResults_storable h.cases, hmessage, toStatusString_valid _, by omega,
      resultType_valid _, toVerdictString_valid _⟩

/-- A client that parses a result message gets the result back: every field is there, and
no other result has a message with these fields. -/
theorem result_message_read_back (strtod : Bytes → Option φ) (r : SubmissionResult)
    (hrange : ResultInRange r) (hmessage : ValidUtf8 r.message) :
    ∃ payload parsed, encodeResult r = .ok payload ∧ parse strtod payload = .ok parsed ∧
      ResultMessage parsed r ∧ ∀ r', ResultMessage parsed r' → r' = r := by
  obtain ⟨payload, hpayload⟩ := (encodeResult_returns r).mpr hmessage
  have hread := resultMessage_reread (φ := φ) r
  refine ⟨payload, _, hpayload, parse_dump ?_ (messageFields_storable hrange hmessage), hread, ?_⟩
  · rwa [← encodeResult_eq]
  · intro r' hr'
    exact hr'.unique hread

theorem result_message_read_back_sample :
    ∃ payload parsed, encodeResult sampleRunning = .ok payload ∧
      parse (fun _ => (none : Option Rat)) payload = .ok parsed ∧
      ResultMessage parsed sampleRunning ∧ ∀ r', ResultMessage parsed r' → r' = sampleRunning :=
  result_message_read_back _ sampleRunning ⟨by decide, by
    intro c hc
    obtain rfl := List.mem_singleton.mp hc
    exact ⟨by decide, by decide⟩⟩ (validUtf8_ascii (by decide))

end Results

end JudgeServer.Protocol
