import JudgeServer.Common.SubmissionTypes
import JudgeServer.Lib.Decimal

/-!
# Reply channels

`network/ReplyChannel.cpp`: the textual `slot:session` key by which a worker finds the
connection a submission came from.
-/

namespace JudgeServer.Network

open JudgeServer.Lib.Decimal

structure ReplyChannel where
  slotId : Int
  sessionId : Nat
  deriving DecidableEq, Repr

/-- `std::stoi`: the value and the number of bytes read, `none` for an exception. -/
def stoi (s : Bytes) : Option (Int × Nat) := do
  let x ← readNumeral s
  let v : Int := if x.negative then -x.magnitude else x.magnitude
  if -2 ^ 31 ≤ v ∧ v < 2 ^ 31 then some (v, x.length) else none

/-- `std::stoull`: a minus sign negates modulo `2 ^ 64`. -/
def stoull (s : Bytes) : Option (Nat × Nat) := do
  let x ← readNumeral s
  if x.magnitude < 2 ^ 64 then
    some (if x.negative then (2 ^ 64 - x.magnitude) % 2 ^ 64 else x.magnitude, x.length)
  else none

/-- `std::string::find(':')`. -/
def findColon (s : Bytes) : Option Nat := s.findIdx? (· == 58)

namespace ReplyChannel

def toString (c : ReplyChannel) : Bytes :=
  decimalInt c.slotId ++ ascii ":" ++ decimal c.sessionId

def parse (value : Bytes) : Option ReplyChannel := do
  let separator ← findColon value
  if separator = 0 ∨ value.length ≤ separator + 1 ∨
      (findColon (value.drop (separator + 1))).isSome then none
  else
    let (slotId, slotPos) ← stoi (value.take separator)
    let (sessionId, sessionPos) ← stoull (value.drop (separator + 1))
    if slotPos ≠ separator ∨ sessionPos ≠ value.length - separator - 1 ∨ slotId < 0 ∨
        sessionId = 0 then none
    else some ⟨slotId, sessionId⟩

theorem findColon_append {s : Bytes} (h : (58 : UInt8) ∉ s) (t : Bytes) :
    findColon (s ++ 58 :: t) = some s.length := by
  unfold findColon
  rw [List.findIdx?_append, List.findIdx?_eq_none_iff.mpr, List.findIdx?_cons]
  · simp
  · intro b hb
    simp only [beq_eq_false_iff_ne]
    rintro rfl
    exact h hb

theorem findColon_none {s : Bytes} (h : (58 : UInt8) ∉ s) : findColon s = none := by
  unfold findColon
  rw [List.findIdx?_eq_none_iff]
  intro b hb
  simp only [beq_eq_false_iff_ne]
  rintro rfl
  exact h hb

theorem stoi_decimalInt {a : Int} (hlo : -2 ^ 31 ≤ a) (hhi : a < 2 ^ 31) :
    stoi (decimalInt a) = some (a, (decimalInt a).length) := by
  have hv : (if (decide (a < 0)) = true then -(a.natAbs : Int) else a.natAbs) = a := by
    by_cases h : a < 0
    · simp only [decide_eq_true h, if_true]
      omega
    · simp only [decide_eq_false h]
      simp only [Bool.false_eq_true, if_false]
      omega
  simp only [stoi, readNumeral_decimalInt, bind, Option.bind, hv]
  rw [if_pos ⟨hlo, hhi⟩]

theorem stoull_decimal {n : Nat} (h : n < 2 ^ 64) :
    stoull (decimal n) = some (n, (decimal n).length) := by
  simp only [stoull, readNumeral_decimal, bind, Option.bind, if_pos h]
  rfl

theorem findColon_isSome {s : Bytes} : (findColon s).isSome = true ↔ (58 : UInt8) ∈ s := by
  by_cases h : (58 : UInt8) ∈ s
  · simp only [h, iff_true, findColon, List.findIdx?_isSome, List.any_eq_true]
    exact ⟨58, h, rfl⟩
  · simp [findColon_none h, h]

/-- The text is taken apart at its first colon, which has to be the only one. -/
theorem parse_append {l : Bytes} (h : (58 : UInt8) ∉ l) (r : Bytes) :
    parse (l ++ 58 :: r) =
      if l = [] ∨ r = [] ∨ (58 : UInt8) ∈ r then none
      else (stoi l).bind fun slot => (stoull r).bind fun session =>
        if slot.2 ≠ l.length ∨ session.2 ≠ r.length ∨ slot.1 < 0 ∨ session.1 = 0 then none
        else some ⟨slot.1, session.1⟩ := by
  have hdrop : (l ++ 58 :: r).drop (l.length + 1) = r := by
    rw [← List.drop_drop, List.drop_left]
    rfl
  have hlen : (l ++ 58 :: r).length = l.length + 1 + r.length := by
    rw [List.length_append, List.length_cons]
    omega
  have hrest : l.length + 1 + r.length - l.length - 1 = r.length := by omega
  have hguard : (l.length = 0 ∨ l.length + 1 + r.length ≤ l.length + 1 ∨
      (findColon r).isSome = true) ↔ (l = [] ∨ r = [] ∨ (58 : UInt8) ∈ r) := by
    rw [findColon_isSome, List.length_eq_zero_iff, ← List.length_eq_zero_iff (l := r)]
    apply or_congr_right
    apply or_congr_left
    omega
  unfold parse
  rw [findColon_append h]
  simp only [bind, Option.bind_some, hdrop, List.take_left, hlen, hrest, hguard]

/-- The text of a channel is read back as that channel, as far as `parse` admits it. -/
theorem parse_toString {a : Int} {n : Nat} (hlo : -2 ^ 31 ≤ a) (hhi : a < 2 ^ 31)
    (hn : n < 2 ^ 64) :
    parse (toString ⟨a, n⟩) = if a < 0 ∨ n = 0 then none else some ⟨a, n⟩ := by
  have hcolon : (58 : UInt8) ∉ decimalInt a := not_mem_decimalInt (by decide) (by decide) a
  have hcolon' : (58 : UInt8) ∉ decimal n := by
    intro h
    exact absurd (decimal_digits n _ h) (by decide)
  have htext : toString ⟨a, n⟩ = decimalInt a ++ 58 :: decimal n := by
    show decimalInt a ++ [58] ++ decimal n = _
    rw [List.append_assoc]
    rfl
  rw [htext, parse_append hcolon, stoi_decimalInt hlo hhi, stoull_decimal hn,
    if_neg (by simp [decimalInt_ne_nil, decimal_ne_nil, hcolon'])]
  simp

/-- Whatever slot number the text names, the session in it is the one written. -/
theorem session_of_parse {a : Int} {n : Nat} {c : ReplyChannel} (hlo : -2 ^ 31 ≤ a)
    (hhi : a < 2 ^ 31) (hn : n < 2 ^ 64) (h : parse (toString ⟨a, n⟩) = some c) :
    c.sessionId = n := by
  rw [parse_toString hlo hhi hn] at h
  split at h
  · cases h
  · obtain rfl := Option.some.inj h
    rfl

end ReplyChannel
end JudgeServer.Network
