import JudgeServer.Protocol.JudgeProtocol
import Mathlib.Data.Option.Basic

/-!
# The grammar of requests

What `docs/protocol.md` lets a client send, stated on the parsed payload, against what
the two decoders accept. They leave the type of a numeric field to `get<int>()`, which
converts booleans and floating-point numbers and wraps integers that are out of range.
-/

namespace JudgeServer.Protocol

open JudgeServer.Common

/-- A JSON integer that an `int` can hold. -/
def Json.IsInt (v : Json Rat) (n : Int) : Prop :=
  (v = .numberInteger n ∨ v = .numberUnsigned n.toNat ∧ 0 ≤ n) ∧ -2 ^ 31 ≤ n ∧ n < 2 ^ 31

/-- The values that `get<int>()` converts although they are no such integer: a boolean, a
floating-point number, an integer outside the range of `int`. -/
def Json.looseInt : Json Rat → Bool
  | .boolean _ => true
  | .numberFloat _ => true
  | .numberInteger value => decide (value < -2 ^ 31 ∨ 2 ^ 31 ≤ value)
  | .numberUnsigned value => decide (2 ^ 31 ≤ value)
  | _ => false

/-- The number a language has in the protocol. -/
def languageNumber : SubmissionLanguage → Int
  | .cpp => 0
  | .c => 1
  | .python => 2

/-- A `submit` message, field by field. -/
structure SubmitMessage (parsed : Json Rat) (request : SubmissionRequest) : Prop where
  object : ∃ fields, parsed = .object fields
  type : parsed.field (ascii "type") = some (.string (ascii "submit"))
  uuid : ∃ v, parsed.field (ascii "uuid") = some v ∧ v.IsInt request.uuid
  pid : parsed.field (ascii "pid") = some (.string request.pid)
  lang : ∃ v, parsed.field (ascii "lang") = some v ∧ v.IsInt (languageNumber request.language)
  code : parsed.field (ascii "code") = some (.string request.code)

structure QueryMessage (parsed : Json Rat) (request : QueryResultRequest) : Prop where
  object : ∃ fields, parsed = .object fields
  type : parsed.field (ascii "type") = some (.string (ascii "query_result"))
  submissionId : ∃ v, parsed.field (ascii "submission_id") = some v ∧ v.IsInt request.submissionId

/-- The decoders accept this payload exactly if it is such a message, with its values. -/
structure DecodesGrammar (parse : JsonParse) (payload : Bytes) : Prop where
  submit : ∀ request, decodeRequest parse payload = some request ↔
    ∃ parsed, parse payload = some parsed ∧ SubmitMessage parsed request
  query : ∀ request, decodeQueryRequest parse payload = some request ↔
    ∃ parsed, parse payload = some parsed ∧ QueryMessage parsed request

/-- A `submit` object in which only the kind or the range of a number is wrong. -/
structure LooseSubmit (parsed : Json Rat) : Prop where
  type : hasType parsed (ascii "submit") = true
  pid : ∃ pid, parsed.field (ascii "pid") = some (.string pid)
  code : ∃ code, parsed.field (ascii "code") = some (.string code)
  numbers : ∃ uuid lang, parsed.field (ascii "uuid") = some uuid ∧
    parsed.field (ascii "lang") = some lang ∧ uuid.getInt.isSome = true ∧
    (lang.getInt.bind toSubmissionLanguage).isSome = true ∧
    (uuid.looseInt = true ∨ lang.looseInt = true)

structure LooseQuery (parsed : Json Rat) : Prop where
  type : hasType parsed (ascii "query_result") = true
  submissionId : ∃ v, parsed.field (ascii "submission_id") = some v ∧ v.looseInt = true

theorem hasType_iff {parsed : Json Rat} {type : Bytes} :
    hasType parsed type = true ↔ parsed.field (ascii "type") = some (.string type) := by
  unfold hasType
  split
  · rename_i value hfield
    simp [hfield]
  · rename_i hother
    simp only [Bool.false_eq_true, false_iff]
    exact hother type

theorem getString_eq_some_iff {v : Json Rat} {s : Bytes} :
    v.getString = some s ↔ v = .string s := by
  cases v <;> simp [Json.getString]

theorem toSubmissionLanguage_eq_some_iff {n : Int} {language : SubmissionLanguage} :
    toSubmissionLanguage n = some language ↔ n = languageNumber language := by
  unfold toSubmissionLanguage
  cases language <;> simp only [languageNumber] <;> split_ifs <;> simp_all

theorem toInt32_of_range {n : Int} (hlow : -2 ^ 31 ≤ n) (hhigh : n < 2 ^ 31) : toInt32 n = n := by
  unfold toInt32
  apply Int.bmod_eq_of_le <;> omega

/-- Away from the loose values, the conversion is exact. -/
theorem isInt_iff {v : Json Rat} {n : Int} :
    v.IsInt n ↔ v.getInt = some n ∧ v.looseInt = false := by
  cases v with
  | numberInteger m =>
    simp only [Json.IsInt, Json.numberInteger.injEq, reduceCtorEq, false_and, or_false, Json.getInt,
      Json.looseInt, Option.some.injEq, decide_eq_false_iff_not, not_or, not_lt, not_le]
    constructor
    · rintro ⟨rfl, hlow, hhigh⟩
      exact ⟨toInt32_of_range hlow hhigh, hlow, hhigh⟩
    · rintro ⟨hn, hlow, hhigh⟩
      rw [toInt32_of_range hlow hhigh] at hn
      exact ⟨hn, hn ▸ hlow, hn ▸ hhigh⟩
  | numberUnsigned m =>
    simp only [Json.IsInt, Json.numberUnsigned.injEq, reduceCtorEq, false_or, Json.getInt,
      Json.looseInt, Option.some.injEq, decide_eq_false_iff_not, not_le]
    constructor
    · rintro ⟨⟨rfl, hnonneg⟩, hlow, hhigh⟩
      rw [Int.toNat_of_nonneg hnonneg]
      exact ⟨toInt32_of_range hlow hhigh, by omega⟩
    · rintro ⟨hn, hlt⟩
      rw [toInt32_of_lt hlt] at hn
      omega
  | _ => simp [Json.IsInt, Json.getInt, Json.looseInt]

theorem parseObjectPayload_eq_some_iff {parse : JsonParse} {payload : Bytes} {parsed : Json Rat} :
    parseObjectPayload parse payload = some parsed ↔
      parse payload = some parsed ∧ ∃ fields, parsed = .object fields := by
  unfold parseObjectPayload
  split
  · rename_i fields hparse
    rw [hparse, Option.some.injEq]
    constructor
    · rintro rfl
      exact ⟨rfl, fields, rfl⟩
    · exact And.left
  · rename_i hother
    simp only [reduceCtorEq, false_iff]
    rintro ⟨hparse, fields, rfl⟩
    exact hother fields hparse

/-- Everything `decodeRequest` looks at. -/
theorem decodeRequest_eq_some_iff {parse : JsonParse} {payload : Bytes}
    {request : SubmissionRequest} :
    decodeRequest parse payload = some request ↔
      ∃ parsed, parse payload = some parsed ∧ (∃ fields, parsed = .object fields) ∧
        hasType parsed (ascii "submit") = true ∧
        ∃ uuid lang, parsed.field (ascii "uuid") = some uuid ∧
          parsed.field (ascii "lang") = some lang ∧
          parsed.field (ascii "pid") = some (.string request.pid) ∧
          parsed.field (ascii "code") = some (.string request.code) ∧
          uuid.getInt = some request.uuid ∧
          lang.getInt = some (languageNumber request.language) := by
  unfold decodeRequest
  constructor
  · intro h
    obtain ⟨parsed, hparsed, h⟩ := Option.bind_eq_some_iff.mp h
    obtain ⟨_, htype, h⟩ := Option.bind_eq_some_iff.mp h
    obtain ⟨uuid, huuid, h⟩ := Option.bind_eq_some_iff.mp h
    obtain ⟨pid, hpid, h⟩ := Option.bind_eq_some_iff.mp h
    obtain ⟨lang, hlang, h⟩ := Option.bind_eq_some_iff.mp h
    obtain ⟨code, hcode, h⟩ := Option.bind_eq_some_iff.mp h
    obtain ⟨n, hn, h⟩ := Option.bind_eq_some_iff.mp h
    obtain ⟨language, hlanguage, h⟩ := Option.bind_eq_some_iff.mp h
    obtain ⟨u, hu, h⟩ := Option.bind_eq_some_iff.mp h
    obtain ⟨p, hp, h⟩ := Option.bind_eq_some_iff.mp h
    obtain ⟨c, hc, h⟩ := Option.bind_eq_some_iff.mp h
    obtain rfl := Option.some.inj h
    obtain ⟨hparse, hobject⟩ := parseObjectPayload_eq_some_iff.mp hparsed
    obtain rfl := toSubmissionLanguage_eq_some_iff.mp hlanguage
    obtain rfl := getString_eq_some_iff.mp hp
    obtain rfl := getString_eq_some_iff.mp hc
    exact ⟨parsed, hparse, hobject, (Option.guard_eq_some' _).mp htype, uuid, lang, huuid, hlang,
      hpid, hcode, hu, hn⟩
  · rintro ⟨parsed, hparse, hobject, htype, uuid, lang, huuid, hlang, hpid, hcode, hu, hn⟩
    refine Option.bind_eq_some_iff.mpr ⟨_, parseObjectPayload_eq_some_iff.mpr ⟨hparse, hobject⟩, ?_⟩
    refine Option.bind_eq_some_iff.mpr ⟨(), (Option.guard_eq_some' _).mpr htype, ?_⟩
    refine Option.bind_eq_some_iff.mpr ⟨_, huuid, ?_⟩
    refine Option.bind_eq_some_iff.mpr ⟨_, hpid, ?_⟩
    refine Option.bind_eq_some_iff.mpr ⟨_, hlang, ?_⟩
    refine Option.bind_eq_some_iff.mpr ⟨_, hcode, ?_⟩
    refine Option.bind_eq_some_iff.mpr ⟨_, hn, ?_⟩
    refine Option.bind_eq_some_iff.mpr ⟨_, toSubmissionLanguage_eq_some_iff.mpr rfl, ?_⟩
    exact Option.bind_eq_some_iff.mpr ⟨_, hu, rfl⟩

theorem decodeQueryRequest_eq_some_iff {parse : JsonParse} {payload : Bytes}
    {request : QueryResultRequest} :
    decodeQueryRequest parse payload = some request ↔
      ∃ parsed, parse payload = some parsed ∧ (∃ fields, parsed = .object fields) ∧
        hasType parsed (ascii "query_result") = true ∧
        ∃ v, parsed.field (ascii "submission_id") = some v ∧
          v.getInt = some request.submissionId := by
  simp only [decodeQueryRequest, bind, Option.bind_eq_some_iff, parseObjectPayload_eq_some_iff,
    Option.guard_eq_some', pure, Option.some.injEq]
  constructor
  · rintro ⟨parsed, ⟨hparse, hobject⟩, -, htype, v, hv, n, hn, rfl⟩
    exact ⟨parsed, hparse, hobject, htype, v, hv, hn⟩
  · rintro ⟨parsed, hparse, hobject, htype, v, hv, hn⟩
    exact ⟨parsed, ⟨hparse, hobject⟩, (), htype, v, hv, _, hn, rfl⟩

theorem object_of_field {parsed v : Json Rat} {key : Bytes} (h : parsed.field key = some v) :
    ∃ fields, parsed = .object fields := by
  cases parsed with
  | object fields => exact ⟨fields, rfl⟩
  | _ => simp [Json.field] at h

section Payload

variable {parse : JsonParse} {payload : Bytes}

/-- A documented message is accepted, with its values. -/
theorem decodeRequest_of_message {parsed : Json Rat} {request : SubmissionRequest}
    (hparse : parse payload = some parsed) (h : SubmitMessage parsed request) :
    decodeRequest parse payload = some request := by
  obtain ⟨uuid, huuid, hu⟩ := h.uuid
  obtain ⟨lang, hlang, hl⟩ := h.lang
  rw [isInt_iff] at hu hl
  rw [decodeRequest_eq_some_iff]
  exact ⟨parsed, hparse, h.object, hasType_iff.mpr h.type, uuid, lang, huuid, hlang, h.pid, h.code,
    hu.1, hl.1⟩

theorem decodeQueryRequest_of_message {parsed : Json Rat} {request : QueryResultRequest}
    (hparse : parse payload = some parsed) (h : QueryMessage parsed request) :
    decodeQueryRequest parse payload = some request := by
  obtain ⟨v, hv, hid⟩ := h.submissionId
  rw [isInt_iff] at hid
  rw [decodeQueryRequest_eq_some_iff]
  exact ⟨parsed, hparse, h.object, hasType_iff.mpr h.type, v, hv, hid.1⟩

/-- What is accepted is documented unless a number in it is loose. -/
theorem message_of_decodeRequest {request : SubmissionRequest}
    (h : decodeRequest parse payload = some request) :
    ∃ parsed, parse payload = some parsed ∧ (SubmitMessage parsed request ∨ LooseSubmit parsed) := by
  rw [decodeRequest_eq_some_iff] at h
  obtain ⟨parsed, hparse, hobject, htype, uuid, lang, huuid, hlang, hpid, hcode, hu, hl⟩ := h
  refine ⟨parsed, hparse, ?_⟩
  by_cases hloose : uuid.looseInt = true ∨ lang.looseInt = true
  · have hlanguage : (lang.getInt.bind toSubmissionLanguage).isSome = true := by
      rw [hl, Option.bind_some, toSubmissionLanguage_eq_some_iff.mpr rfl]
      rfl
    exact Or.inr ⟨htype, ⟨_, hpid⟩, ⟨_, hcode⟩, uuid, lang, huuid, hlang, by rw [hu]; rfl,
      hlanguage, hloose⟩
  · simp only [not_or, Bool.not_eq_true] at hloose
    have huuidInt : uuid.IsInt request.uuid := by
      rw [isInt_iff]
      exact ⟨hu, hloose.1⟩
    have hlangInt : lang.IsInt (languageNumber request.language) := by
      rw [isInt_iff]
      exact ⟨hl, hloose.2⟩
    exact Or.inl ⟨hobject, hasType_iff.mp htype, ⟨uuid, huuid, huuidInt⟩, hpid,
      ⟨lang, hlang, hlangInt⟩, hcode⟩

theorem message_of_decodeQueryRequest {request : QueryResultRequest}
    (h : decodeQueryRequest parse payload = some request) :
    ∃ parsed, parse payload = some parsed ∧ (QueryMessage parsed request ∨ LooseQuery parsed) := by
  rw [decodeQueryRequest_eq_some_iff] at h
  obtain ⟨parsed, hparse, hobject, htype, v, hv, hn⟩ := h
  refine ⟨parsed, hparse, ?_⟩
  by_cases hloose : v.looseInt = true
  · exact Or.inr ⟨htype, v, hv, hloose⟩
  · rw [Bool.not_eq_true] at hloose
    have hint : v.IsInt request.submissionId := by
      rw [isInt_iff]
      exact ⟨hn, hloose⟩
    exact Or.inl ⟨hobject, hasType_iff.mp htype, v, hv, hint⟩

/-- A loose `submit` object is accepted all the same. -/
theorem decodeRequest_of_loose {parsed : Json Rat} (hparse : parse payload = some parsed)
    (h : LooseSubmit parsed) :
    ∃ request, decodeRequest parse payload = some request ∧ ¬ SubmitMessage parsed request := by
  obtain ⟨pid, hpid⟩ := h.pid
  obtain ⟨code, hcode⟩ := h.code
  obtain ⟨uuid, lang, huuid, hlang, hu, hl, hloose⟩ := h.numbers
  obtain ⟨u, hu⟩ := Option.isSome_iff_exists.mp hu
  obtain ⟨language, hl⟩ := Option.isSome_iff_exists.mp hl
  obtain ⟨n, hn, hlanguage⟩ := Option.bind_eq_some_iff.mp hl
  rw [toSubmissionLanguage_eq_some_iff] at hlanguage
  refine ⟨⟨u, pid, language, code⟩, ?_, ?_⟩
  · rw [decodeRequest_eq_some_iff]
    exact ⟨parsed, hparse, object_of_field huuid, h.type, uuid, lang, huuid, hlang, hpid, hcode, hu,
      hlanguage ▸ hn⟩
  · intro hmessage
    obtain ⟨v, hv, hv'⟩ := hmessage.uuid
    obtain ⟨w, hw, hw'⟩ := hmessage.lang
    rw [huuid] at hv
    rw [hlang] at hw
    cases hv
    cases hw
    rw [isInt_iff] at hv' hw'
    rw [hv'.2, hw'.2] at hloose
    simp at hloose

theorem getInt_of_looseInt {v : Json Rat} (h : v.looseInt = true) :
    ∃ n, v.getInt = some n := by
  cases v <;> simp_all [Json.looseInt, Json.getInt]

theorem decodeQueryRequest_of_loose {parsed : Json Rat} (hparse : parse payload = some parsed)
    (h : LooseQuery parsed) :
    ∃ request, decodeQueryRequest parse payload = some request ∧ ¬ QueryMessage parsed request := by
  obtain ⟨v, hv, hloose⟩ := h.submissionId
  obtain ⟨n, hn⟩ := getInt_of_looseInt hloose
  refine ⟨⟨n⟩, ?_, ?_⟩
  · rw [decodeQueryRequest_eq_some_iff]
    exact ⟨parsed, hparse, object_of_field hv, h.type, v, hv, hn⟩
  · intro hmessage
    obtain ⟨w, hw, hw'⟩ := hmessage.submissionId
    rw [hv] at hw
    cases hw
    rw [isInt_iff] at hw'
    rw [hw'.2] at hloose
    cases hloose

end Payload

/-- The decoders accept the documented grammar on exactly the payloads in which no
boolean, floating-point number or oversized integer stands for a number. -/
theorem decodes_grammar_iff (parse : JsonParse) (payload : Bytes) :
    DecodesGrammar parse payload ↔
      ∀ parsed, parse payload = some parsed → ¬ LooseSubmit parsed ∧ ¬ LooseQuery parsed := by
  constructor
  · intro h parsed hparse
    constructor
    · intro hloose
      obtain ⟨request, hdecode, hnot⟩ := decodeRequest_of_loose hparse hloose
      obtain ⟨parsed', hparse', hmessage⟩ := (h.submit request).mp hdecode
      rw [hparse] at hparse'
      cases hparse'
      exact hnot hmessage
    · intro hloose
      obtain ⟨request, hdecode, hnot⟩ := decodeQueryRequest_of_loose hparse hloose
      obtain ⟨parsed', hparse', hmessage⟩ := (h.query request).mp hdecode
      rw [hparse] at hparse'
      cases hparse'
      exact hnot hmessage
  · intro h
    constructor
    · intro request
      constructor
      · intro hdecode
        obtain ⟨parsed, hparse, hmessage | hloose⟩ := message_of_decodeRequest hdecode
        · exact ⟨parsed, hparse, hmessage⟩
        · exact absurd hloose (h parsed hparse).1
      · rintro ⟨parsed, hparse, hmessage⟩
        exact decodeRequest_of_message hparse hmessage
    · intro request
      constructor
      · intro hdecode
        obtain ⟨parsed, hparse, hmessage | hloose⟩ := message_of_decodeQueryRequest hdecode
        · exact ⟨parsed, hparse, hmessage⟩
        · exact absurd hloose (h parsed hparse).2
      · rintro ⟨parsed, hparse, hmessage⟩
        exact decodeQueryRequest_of_message hparse hmessage

/-- A `submit` message with an oversized `uuid` and a boolean `lang`, and its parse. -/
def loosePayload : Bytes :=
  ascii "\x7b\"type\":\"submit\",\"uuid\":4294967297,\"pid\":\"1000\",\"lang\":true,\"code\":\"\"\x7d"

def looseParsed : Json Rat :=
  .ofFields [
    (ascii "type", .string (ascii "submit")),
    (ascii "uuid", .numberUnsigned 4294967297),
    (ascii "pid", .string (ascii "1000")),
    (ascii "lang", .boolean true),
    (ascii "code", .string [])]

def looseParse : JsonParse := fun payload => if payload = loosePayload then some looseParsed else none

theorem loose_payload_decoded :
    decodeRequest looseParse loosePayload = some ⟨1, ascii "1000", .c, []⟩ ∧
      ¬ DecodesGrammar looseParse loosePayload := by
  have hparse : looseParse loosePayload = some looseParsed := if_pos rfl
  have hdecode : decodeRequest looseParse loosePayload = some ⟨1, ascii "1000", .c, []⟩ := by
    rw [decodeRequest_eq_some_iff]
    exact ⟨looseParsed, hparse, ⟨_, rfl⟩, by decide, _, _, rfl, rfl, rfl, rfl, by decide, by decide⟩
  refine ⟨hdecode, fun h => ?_⟩
  obtain ⟨parsed, hparsed, hmessage⟩ := (h.submit _).mp hdecode
  rw [hparse] at hparsed
  cases hparsed
  obtain ⟨v, hv, hint⟩ := hmessage.lang
  have hbool : v = .boolean true := (Option.some.inj hv).symm
  rw [hbool] at hint
  exact absurd (isInt_iff.mp hint).2 (by decide)

end JudgeServer.Protocol
