import JudgeServer.Network.ReplyChannel
import JudgeServer.Network.BarrierHistory

/-!
# The names of reply channels

The barrier is keyed by the text of a channel, delivery by the pair that `parse` makes of
it. From channel to text and back nothing is lost, so channels do not share an entry of
the barrier. From text to channel `parse` inherits the leniency of `std::stoi` and
`std::stoull`: what it accepts is a pair of spellings, of which only the plain ones are
the text of a channel.
-/

namespace JudgeServer.Network

open JudgeServer.Lib.Decimal

namespace ReplyChannel

/-- A slot number is not negative, a session number is positive, and both fit their types. -/
def Admitted (c : ReplyChannel) : Prop :=
  (0 ≤ c.slotId ∧ c.slotId < 2 ^ 31) ∧ 0 < c.sessionId ∧ c.sessionId < 2 ^ 64

theorem parse_toString_admitted {c : ReplyChannel} (h : c.Admitted) :
    parse c.toString = some c := by
  obtain ⟨⟨hlo, hhi⟩, hpos, hn⟩ := h
  have hread : parse c.toString = if c.slotId < 0 ∨ c.sessionId = 0 then none else some c :=
    parse_toString (by omega) hhi hn
  rw [hread, if_neg (by omega)]

theorem toString_injective {c d : ReplyChannel} (hc : c.Admitted) (hd : d.Admitted)
    (h : c.toString = d.toString) : c = d := by
  have hread := parse_toString_admitted hc
  rw [h, parse_toString_admitted hd] at hread
  exact (Option.some.inj hread).symm

end ReplyChannel

section Entries

variable {α : Type}

/-- The barrier after a sequence of calls. -/
def AckBarrier.after (b : AckBarrier α) (calls : List (BarrierCall α)) : AckBarrier α :=
  calls.foldl (fun b call => (b.perform call).2) b

/-- Calls for other channels leave the entry of a channel as it is. -/
theorem after_other {channel : Bytes} {calls : List (BarrierCall α)}
    (h : ∀ call ∈ calls, call.channel ≠ channel) (b : AckBarrier α) :
    (b.after calls).deferredFor channel = b.deferredFor channel ∧
      (channel ∈ (b.after calls).awaiting ↔ channel ∈ b.awaiting) := by
  induction calls generalizing b with
  | nil => exact ⟨rfl, Iff.rfl⟩
  | cons call calls ih =>
    obtain ⟨hdeferred, hawaiting, -⟩ := perform_other (b := b) (h call List.mem_cons_self)
    obtain ⟨ih1, ih2⟩ := ih (fun x hx => h x (List.mem_cons_of_mem call hx)) (b.perform call).2
    exact ⟨ih1.trans hdeferred, ih2.trans hawaiting⟩

end Entries

/-- A channel is read back from its text; different channels have different texts, and
whatever is called on the barrier for one, the entry of the other stays. -/
theorem channel_text_identifies (α : Type) (c d : ReplyChannel) (hc : c.Admitted)
    (hd : d.Admitted) :
    ReplyChannel.parse c.toString = some c ∧
    (c ≠ d → c.toString ≠ d.toString ∧
      ∀ (b : AckBarrier α) (calls : List (BarrierCall α)),
        (∀ call ∈ calls, call.channel = c.toString) →
        (b.after calls).deferredFor d.toString = b.deferredFor d.toString ∧
        (d.toString ∈ (b.after calls).awaiting ↔ d.toString ∈ b.awaiting)) := by
  refine ⟨ReplyChannel.parse_toString_admitted hc, fun hne => ?_⟩
  have htext : c.toString ≠ d.toString := fun h => hne (ReplyChannel.toString_injective hc hd h)
  refine ⟨htext, fun b calls hcalls => ?_⟩
  apply after_other
  intro call hcall
  rw [hcalls call hcall]
  exact htext

theorem channel_text_identifies_extremes :
    ReplyChannel.parse (ReplyChannel.toString ⟨2147483647, 18446744073709551615⟩) =
      some ⟨2147483647, 18446744073709551615⟩ ∧
    ReplyChannel.toString ⟨2147483647, 18446744073709551615⟩ ≠ ReplyChannel.toString ⟨3, 42⟩ := by
  have h := channel_text_identifies Bytes ⟨2147483647, 18446744073709551615⟩ ⟨3, 42⟩
    ⟨⟨by decide, by decide⟩, by decide, by decide⟩ ⟨⟨by decide, by decide⟩, by decide, by decide⟩
  exact ⟨h.1, (h.2 (by decide)).1⟩

/-- Two numerals around a colon. -/
structure ChannelSpelling where
  slot : Spelling
  session : Spelling

namespace ChannelSpelling

def text (sp : ChannelSpelling) : Bytes := sp.slot.text ++ 58 :: sp.session.text

/-- The slot is zero or carries no minus sign, the session is not zero, and the numbers
are within the ranges of `std::stoi` and `std::stoull`. -/
def InRange (sp : ChannelSpelling) : Prop :=
  (sp.slot.negative = true → sp.slot.magnitude = 0) ∧ sp.slot.magnitude < 2 ^ 31 ∧
    0 < sp.session.magnitude ∧ sp.session.magnitude < 2 ^ 64

/-- A minus sign before the session counts down from `2 ^ 64`. -/
def channel (sp : ChannelSpelling) : ReplyChannel where
  slotId := sp.slot.magnitude
  sessionId := if sp.session.negative then 2 ^ 64 - sp.session.magnitude else sp.session.magnitude

/-- Both numerals are written without blanks, signs or leading zeros. -/
def Plain (sp : ChannelSpelling) : Prop := sp.slot.Plain ∧ sp.session.Plain

/-- A colon is part of no numeral. -/
theorem colon_not_mem (sp : Spelling) : (58 : UInt8) ∉ sp.text := by
  intro h
  simp only [Spelling.text, List.mem_append] at h
  obtain h | h | h := h
  · exact absurd (sp.all_spaces _ h) (by decide)
  · revert h
    generalize sp.sign = sign
    revert sign
    decide
  · exact absurd (sp.all_digits _ h) (by decide)

theorem text_ne_nil (sp : Spelling) : sp.text ≠ [] := by
  simp [Spelling.text, sp.digits_ne_nil]

/-- The number a slot's spelling stands for. -/
def slotValue (sp : Spelling) : Int := if sp.negative then -sp.magnitude else sp.magnitude

/-- The number a session's spelling stands for: a minus sign counts down from `2 ^ 64`. -/
def sessionValue (sp : Spelling) : Nat :=
  if sp.negative then (2 ^ 64 - sp.magnitude) % 2 ^ 64 else sp.magnitude

theorem stoi_text (sp : Spelling) : stoi sp.text =
    if -2 ^ 31 ≤ slotValue sp ∧ slotValue sp < 2 ^ 31 then some (slotValue sp, sp.text.length)
    else none := by
  unfold stoi
  rw [readNumeral_text]
  rfl

theorem stoull_text (sp : Spelling) : stoull sp.text =
    if sp.magnitude < 2 ^ 64 then some (sessionValue sp, sp.text.length) else none := by
  simp only [stoull, readNumeral_text, bind, Option.bind_some, sessionValue]

/-- A slot that is read to its end is a spelling. -/
theorem exists_slot {s : Bytes} {v : Int} (h : stoi s = some (v, s.length)) :
    ∃ sp : Spelling, sp.text = s ∧ slotValue sp = v ∧ v < 2 ^ 31 := by
  obtain ⟨x, hx, hval⟩ := Option.bind_eq_some_iff.mp h
  have hlen : x.length = s.length := by
    dsimp only at hval
    generalize (if x.negative = true then -(x.magnitude : Int) else x.magnitude) = w at hval
    split at hval
    · exact (Prod.mk.inj (Option.some.inj hval)).2
    · cases hval
  obtain ⟨sp, rfl, -, -⟩ := exists_spelling hx hlen
  rw [stoi_text] at h
  split at h
  · next hrange =>
    obtain ⟨rfl, -⟩ := Prod.mk.inj (Option.some.inj h)
    exact ⟨sp, rfl, rfl, hrange.2⟩
  · cases h

theorem exists_session {s : Bytes} {n : Nat} (h : stoull s = some (n, s.length)) :
    ∃ sp : Spelling, sp.text = s ∧ sessionValue sp = n ∧ sp.magnitude < 2 ^ 64 := by
  obtain ⟨x, hx, hval⟩ := Option.bind_eq_some_iff.mp h
  have hlen : x.length = s.length := by
    split at hval
    · exact (Prod.mk.inj (Option.some.inj hval)).2
    · cases hval
  obtain ⟨sp, rfl, -, -⟩ := exists_spelling hx hlen
  rw [stoull_text] at h
  split at h
  · next hrange =>
    obtain ⟨rfl, -⟩ := Prod.mk.inj (Option.some.inj h)
    exact ⟨sp, rfl, rfl, hrange⟩
  · cases h

/-- What a spelling in range stands for, as the parser computes it. -/
theorem values_of_inRange {sp : ChannelSpelling} (h : sp.InRange) :
    slotValue sp.slot = sp.channel.slotId ∧ sessionValue sp.session = sp.channel.sessionId ∧
      0 < sp.channel.sessionId ∧ sp.channel.sessionId < 2 ^ 64 := by
  obtain ⟨hminus, -, hpos, hsession⟩ := h
  have hslot : slotValue sp.slot = sp.slot.magnitude := by
    unfold slotValue
    split
    · next hneg => rw [hminus hneg]; rfl
    · rfl
  refine ⟨hslot, ?_⟩
  unfold sessionValue channel
  dsimp only
  cases sp.session.negative with
  | true =>
    simp only [if_true]
    rw [Nat.mod_eq_of_lt (by omega)]
    exact ⟨rfl, by omega, by omega⟩
  | false => exact ⟨rfl, hpos, hsession⟩

theorem admitted_channel {sp : ChannelSpelling} (h : sp.InRange) : sp.channel.Admitted := by
  obtain ⟨-, -, hpos, hlt⟩ := values_of_inRange h
  have hslot : (sp.slot.magnitude : Int) < 2 ^ 31 := by
    have := h.2.1
    omega
  exact ⟨⟨Int.natCast_nonneg _, hslot⟩, hpos, hlt⟩

theorem parse_text (sp : ChannelSpelling) (h : sp.InRange) :
    ReplyChannel.parse sp.text = some sp.channel := by
  obtain ⟨hslot, hsession, -, -⟩ := values_of_inRange h
  obtain ⟨⟨hlo, hhi⟩, hpos, -⟩ := admitted_channel h
  rw [text, ReplyChannel.parse_append (colon_not_mem _),
    if_neg (by simp [text_ne_nil, colon_not_mem]), stoi_text, stoull_text, hslot, hsession,
    if_pos ⟨by omega, hhi⟩, if_pos h.2.2.2]
  simp only [Option.bind_some, ne_eq, not_true_eq_false, false_or]
  rw [if_neg (by omega)]

/-- Every text that is accepted is a pair of spellings in range. -/
theorem exists_of_parse {s : Bytes} {c : ReplyChannel} (h : ReplyChannel.parse s = some c) :
    ∃ sp : ChannelSpelling, sp.text = s ∧ sp.InRange ∧ sp.channel = c := by
  have hmem : (58 : UInt8) ∈ s := by
    by_contra hnone
    simp [ReplyChannel.parse, ReplyChannel.findColon_none hnone] at h
  obtain ⟨l, r, rfl, hl⟩ := List.eq_append_cons_of_mem hmem
  rw [ReplyChannel.parse_append hl] at h
  split at h
  · cases h
  obtain ⟨⟨v, i⟩, hslot, h⟩ := Option.bind_eq_some_iff.mp h
  obtain ⟨⟨n, j⟩, hsession, h⟩ := Option.bind_eq_some_iff.mp h
  split at h
  · cases h
  next hchecks =>
  simp only [not_or, ne_eq, not_not] at hchecks
  obtain ⟨rfl, rfl, hsign, hzero⟩ := hchecks
  obtain ⟨sp, htext, rfl, hlt⟩ := exists_slot hslot
  obtain ⟨sp', htext', rfl, hlt'⟩ := exists_session hsession
  have hrange : InRange ⟨sp, sp'⟩ := by
    refine ⟨fun hneg => ?_, ?_, ?_, hlt'⟩
    · rw [slotValue, hneg, if_pos rfl] at hsign
      show sp.magnitude = 0
      omega
    · show sp.magnitude < 2 ^ 31
      unfold slotValue at hlt hsign
      split at hlt
      · rw [if_pos (by assumption)] at hsign
        omega
      · omega
    · apply Nat.pos_of_ne_zero
      intro h0
      change sp'.magnitude = 0 at h0
      rw [sessionValue, h0] at hzero
      revert hzero
      cases sp'.negative <;> decide
  obtain ⟨hslotId, hsessionId, -, -⟩ := values_of_inRange hrange
  refine ⟨⟨sp, sp'⟩, by rw [text, htext, htext'], hrange, ?_⟩
  rw [← Option.some.inj h]
  exact congr (congrArg ReplyChannel.mk hslotId.symm) hsessionId.symm

/-- The colon tells where the first numeral ends. -/
theorem append_colon_inj {l l' r r' : Bytes} (hl : (58 : UInt8) ∉ l) (hl' : (58 : UInt8) ∉ l')
    (h : l ++ 58 :: r = l' ++ 58 :: r') : l = l' ∧ r = r' := by
  have hfind := ReplyChannel.findColon_append hl r
  rw [h, ReplyChannel.findColon_append hl'] at hfind
  obtain ⟨hleft, hright⟩ := List.append_inj h (Option.some.inj hfind).symm
  exact ⟨hleft, (List.cons.inj hright).2⟩

/-- A spelling is the text of the channel it names exactly when it is plain. -/
theorem toString_channel_iff (sp : ChannelSpelling) :
    sp.channel.toString = sp.text ↔ sp.Plain := by
  have htext : sp.channel.toString = decimal sp.slot.magnitude ++ 58 :: decimal sp.channel.sessionId := by
    show decimalInt sp.slot.magnitude ++ [58] ++ decimal sp.channel.sessionId = _
    rw [List.append_assoc]
    rfl
  have hcolon : (58 : UInt8) ∉ decimal sp.slot.magnitude := by
    intro hmem
    exact absurd (decimal_digits _ _ hmem) (by decide)
  rw [htext, text]
  constructor
  · intro heq
    obtain ⟨hslot, hsession⟩ := append_colon_inj hcolon (colon_not_mem _) heq
    have hread := readNumeral_text sp.session
    rw [← hsession, readNumeral_decimal] at hread
    have hmag : sp.channel.sessionId = sp.session.magnitude := by
      have hinj := congrArg Numeral.magnitude (Option.some.inj hread)
      exact hinj
    rw [hmag] at hsession
    exact ⟨(Spelling.text_eq_decimal_iff _).mp hslot.symm,
      (Spelling.text_eq_decimal_iff _).mp hsession.symm⟩
  · rintro ⟨hslot, hsession⟩
    have hmag : sp.channel.sessionId = sp.session.magnitude := by
      simp [channel, Spelling.negative, hsession.2.1]
    rw [hmag, (Spelling.text_eq_decimal_iff _).mpr hslot, (Spelling.text_eq_decimal_iff _).mpr hsession]

end ChannelSpelling

/-- `parse` accepts the text for exactly the channel whose text it is. -/
def ParsedCanonically (s : Bytes) : Prop :=
  ∀ c : ReplyChannel, ReplyChannel.parse s = some c ↔ c.Admitted ∧ c.toString = s

/-- A text is parsed canonically exactly when it does not spell a channel with a blank, a
sign or a leading zero in one of its numerals. -/
theorem parsed_canonically_iff (s : Bytes) :
    ParsedCanonically s ↔ ∀ sp : ChannelSpelling, sp.text = s → sp.InRange → sp.Plain := by
  constructor
  · rintro hcanonical sp rfl hrange
    obtain ⟨-, htext⟩ := (hcanonical sp.channel).mp (sp.parse_text hrange)
    exact (ChannelSpelling.toString_channel_iff sp).mp htext
  · intro hplain c
    constructor
    · intro hparse
      obtain ⟨sp, htext, hrange, rfl⟩ := ChannelSpelling.exists_of_parse hparse
      refine ⟨ChannelSpelling.admitted_channel hrange, ?_⟩
      rw [← htext]
      exact (ChannelSpelling.toString_channel_iff sp).mpr (hplain sp htext hrange)
    · rintro ⟨hadmitted, rfl⟩
      exact ReplyChannel.parse_toString_admitted hadmitted

/-- The session `-1` is taken for the largest one, which is written differently. -/
theorem negative_session_accepted :
    ReplyChannel.parse (ascii "3:-1") = some ⟨3, 18446744073709551615⟩ ∧
    ReplyChannel.toString ⟨3, 18446744073709551615⟩ ≠ ascii "3:-1" ∧
    ReplyChannel.parse (ascii " +03:42") = some ⟨3, 42⟩ ∧
    ¬ ParsedCanonically (ascii " +03:42") := by
  refine ⟨by decide +kernel, by decide +kernel, by decide +kernel, ?_⟩
  intro h
  have htext := ((h ⟨3, 42⟩).mp (by decide +kernel)).2
  revert htext
  decide +kernel

end JudgeServer.Network
