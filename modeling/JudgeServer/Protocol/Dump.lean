import JudgeServer.Protocol.Json

/-!
# When `dump` returns

The serialiser walks every string with a table-driven decoder and throws at the first
byte the table rejects, or at the end inside a sequence. `owed` reads the decoder's
states as the ranges still to come, which makes it an instance of the library's rule:
a value is serialised exactly when every key and every string in it is valid UTF-8.
-/

namespace JudgeServer.Protocol

open JudgeServer.Lib.Utf8

/-- The ranges a decoder state still waits for; `none` for the rejecting state. -/
def owed : Nat → Option (List ByteRange)
  | 0 => some []
  | 2 => some [continuation]
  | 3 => some [continuation, continuation]
  | 4 => some [(0xA0, 0xBF), continuation]
  | 5 => some [(0x80, 0x9F), continuation]
  | 6 => some [(0x90, 0xBF), continuation, continuation]
  | 7 => some [continuation, continuation, continuation]
  | 8 => some [(0x80, 0x8F), continuation, continuation]
  | _ => none

/-- What one transition of the table must do to the ranges owed. -/
def owedAfter (b : UInt8) : Option (List ByteRange) → Option (List ByteRange)
  | none => none
  | some [] => tails b
  | some (r :: rs) => if r.Has b then some rs else none

/-- The first half of the table: the class of a byte value. -/
def byteClass (n : Nat) : Nat :=
  if n < 0x80 then 0
  else if n < 0x90 then 1
  else if n < 0xA0 then 9
  else if n < 0xC0 then 7
  else if n < 0xC2 then 8
  else if n < 0xE0 then 2
  else if n = 0xE0 then 10
  else if n = 0xED then 4
  else if n < 0xF0 then 3
  else if n = 0xF0 then 11
  else if n < 0xF4 then 6
  else if n = 0xF4 then 5
  else 8

/-- The second half: one row for each state. -/
def transition : Nat → Nat → Nat
  | 0, 0 => 0
  | 0, 2 => 2
  | 0, 3 => 3
  | 0, 4 => 5
  | 0, 5 => 8
  | 0, 6 => 7
  | 0, 10 => 4
  | 0, 11 => 6
  | 2, t => if t = 1 ∨ t = 7 ∨ t = 9 then 0 else 1
  | 3, t => if t = 1 ∨ t = 7 ∨ t = 9 then 2 else 1
  | 4, t => if t = 7 then 2 else 1
  | 5, t => if t = 1 ∨ t = 9 then 2 else 1
  | 6, t => if t = 7 ∨ t = 9 then 3 else 1
  | 7, t => if t = 1 ∨ t = 7 ∨ t = 9 then 3 else 1
  | 8, t => if t = 1 then 3 else 1
  | _, _ => 1

theorem utf8d_classes : ∀ n < 256, utf8d.getD n utf8Reject = byteClass n ∧ byteClass n < 12 := by
  decide +kernel

theorem utf8d_transitions : ∀ state < 9, ∀ t < 12,
    utf8d.getD (256 + state * 16 + t) utf8Reject = transition state t := by decide +kernel

theorem nextState_eq {state : Nat} (h : state < 9) (b : UInt8) :
    nextState state b = transition state (byteClass b.toNat) := by
  obtain ⟨hclass, hlt⟩ := utf8d_classes b.toNat b.toNat_lt
  unfold nextState byteType
  rw [hclass]
  exact utf8d_transitions state h _ hlt

theorem owed_transition : ∀ state < 9, ∀ n < 256,
    owed (transition state (byteClass n)) = owedAfter (UInt8.ofNat n) (owed state) := by
  decide +kernel

/-- The table is the automaton of the ranges owed. -/
theorem owed_nextState (state : Nat) (b : UInt8) :
    owed (nextState state b) = owedAfter b (owed state) := by
  by_cases h : state < 9
  · have ht := owed_transition state h b.toNat b.toNat_lt
    rwa [UInt8.ofNat_toNat, ← nextState_eq h b] at ht
  · have hlong : utf8d.length ≤ 256 + state * 16 + byteType b := by
      have hl : utf8d.length = 400 := by decide +kernel
      omega
    have hnone : owed state = none := by
      unfold owed
      split <;> first | omega | rfl
    have hnext : nextState state b = utf8Reject := by
      unfold nextState
      rw [List.getD_eq_getElem?_getD, List.getElem?_eq_none hlong]
      rfl
    rw [hnext, hnone]
    rfl

theorem accepts_state (s : Bytes) (state : Nat) :
    owed (s.foldl nextState state) = some [] ↔ Continues (owed state) s := by
  refine accepts_iff nextState owed ?_ ?_ ?_ s state
  · intro q b hq
    rw [owed_nextState, hq]
    rfl
  · intro q b hq
    rw [owed_nextState, hq]
    rfl
  · intro q b r rs hq
    rw [owed_nextState, hq]
    rfl

theorem owed_eq_nil (state : Nat) : owed state = some [] ↔ state = utf8Accept := by
  constructor
  · intro h
    unfold owed at h
    split at h <;> first | rfl | simp at h
  · rintro rfl
    rfl

/-- A rejected string stays rejected. -/
theorem foldl_reject (s : Bytes) : s.foldl nextState utf8Reject ≠ utf8Accept := by
  intro h
  have ha := (accepts_state s utf8Reject).mp ((owed_eq_nil _).mpr h)
  exact ha

/-- The computation finishes without throwing. -/
def Returns {ε α : Type} (x : Except ε α) : Prop := ∃ a, x = .ok a

theorem returns_ok {ε α : Type} (a : α) : Returns (.ok a : Except ε α) := ⟨a, rfl⟩

theorem returns_bind {ε α β : Type} {x : Except ε α} {f : α → Except ε β} :
    Returns (x >>= f) ↔ ∃ a, x = .ok a ∧ Returns (f a) := by
  cases x with
  | error e =>
    constructor
    · rintro ⟨b, hb⟩
      cases hb
    · rintro ⟨a, ha, _⟩
      cases ha
  | ok a =>
    constructor
    · intro h
      exact ⟨a, rfl, h⟩
    · rintro ⟨a', ha, h⟩
      obtain rfl := Except.ok.inj ha
      exact h

/-- A step that never throws afterwards. -/
theorem returns_bind_ok {ε α β : Type} {x : Except ε α} {f : α → β} :
    Returns (x >>= fun a => .ok (f a)) ↔ Returns x := by
  rw [returns_bind]
  constructor
  · rintro ⟨a, ha, _⟩
    exact ⟨a, ha⟩
  · rintro ⟨a, ha⟩
    exact ⟨a, ha, returns_ok _⟩

theorem feed_of_state (e : Escaper) (b : UInt8) (h : nextState e.state b ≠ utf8Reject) :
    ∃ e', e.feed b = .ok e' ∧ e'.state = nextState e.state b := by
  unfold Escaper.feed
  by_cases ha : nextState e.state b = utf8Accept
  · exact ⟨_, if_pos ha, rfl⟩
  · refine ⟨⟨e.index + 1, nextState e.state b, nextCodepoint e.state e.codepoint b,
      e.written ++ [b]⟩, ?_, rfl⟩
    dsimp only
    rw [if_neg ha, if_neg h]

theorem feed_of_reject (e : Escaper) (b : UInt8) (h : nextState e.state b = utf8Reject) :
    e.feed b = .error (.invalidByte e.index b) := by
  unfold Escaper.feed
  dsimp only
  rw [h]
  rfl

/-- The loop ends normally exactly when no byte is rejected, in the decoder's state. -/
theorem feed_state {s : Bytes} {e e' : Escaper} (h : s.foldlM Escaper.feed e = .ok e') :
    e'.state = s.foldl nextState e.state := by
  induction s generalizing e with
  | nil =>
    obtain rfl := Except.ok.inj h
    rfl
  | cons b s ih =>
    rw [List.foldlM_cons] at h
    by_cases hr : nextState e.state b = utf8Reject
    · rw [feed_of_reject e b hr] at h
      cases h
    · obtain ⟨e₁, hf, hs⟩ := feed_of_state e b hr
      rw [hf] at h
      rw [List.foldl_cons, ← hs]
      exact ih h

theorem feed_returns {s : Bytes} {e : Escaper} (h : s.foldl nextState e.state = utf8Accept) :
    Returns (s.foldlM Escaper.feed e) := by
  induction s generalizing e with
  | nil => exact returns_ok e
  | cons b s ih =>
    rw [List.foldl_cons] at h
    have hreject : nextState e.state b ≠ utf8Reject := by
      intro hr
      rw [hr] at h
      exact foldl_reject s h
    obtain ⟨e₁, hf, hs⟩ := feed_of_state e b hreject
    rw [← hs] at h
    rw [List.foldlM_cons, returns_bind]
    exact ⟨e₁, hf, ih h⟩

/-- Escaping a string throws exactly on invalid UTF-8. -/
theorem dumpEscaped_returns (s : Bytes) : Returns (dumpEscaped s) ↔ ValidUtf8 s := by
  rw [← continues_valid]
  have hacc := accepts_state s utf8Accept
  rw [owed_eq_nil] at hacc
  change _ ↔ Continues (owed utf8Accept) s
  rw [← hacc]
  unfold dumpEscaped
  rw [returns_bind]
  constructor
  · rintro ⟨e, he, hret⟩
    have hs := feed_state he
    change e.state = s.foldl nextState utf8Accept at hs
    rw [← hs]
    by_contra hne
    rw [if_neg hne] at hret
    obtain ⟨a, ha⟩ := hret
    cases ha
  · intro h
    obtain ⟨e, he⟩ := feed_returns (e := {}) h
    refine ⟨e, he, ?_⟩
    have hs := feed_state he
    change e.state = s.foldl nextState utf8Accept at hs
    rw [if_pos (hs.trans h)]
    exact returns_ok _

theorem dumpString_returns (s : Bytes) : Returns (dumpString s) ↔ ValidUtf8 s := by
  unfold dumpString
  rw [returns_bind_ok, dumpEscaped_returns]

mutual

/-- Every key and every string inside the value is valid UTF-8. -/
def Text : Json Empty → Prop
  | .string value => ValidUtf8 value
  | .array elements => TextElements elements
  | .object fields => TextFields fields
  | _ => True

def TextElements : List (Json Empty) → Prop
  | [] => True
  | x :: rest => Text x ∧ TextElements rest

def TextFields : List (Bytes × Json Empty) → Prop
  | [] => True
  | f :: rest => ValidUtf8 f.1 ∧ Text f.2 ∧ TextFields rest

end

theorem textFields_nil : TextFields [] ↔ True := Iff.rfl

/-- A field with a constant key. -/
theorem textFields_key {key : Bytes} {value : Json Empty} {rest : List (Bytes × Json Empty)}
    (h : (key.all fun b => b.toNat < 0x80) = true) :
    TextFields ((key, value) :: rest) ↔ Text value ∧ TextFields rest := by
  rw [TextFields, and_iff_right (validUtf8_ascii h)]

mutual

theorem dump_returns : (j : Json Empty) → (Returns (dump j) ↔ Text j)
  | .null => by simp [dump, Text, returns_ok]
  | .boolean _ => by simp [dump, Text, returns_ok]
  | .numberInteger _ => by simp [dump, Text, returns_ok]
  | .numberUnsigned _ => by simp [dump, Text, returns_ok]
  | .string value => by rw [dump, Text, dumpString_returns]
  | .array elements => by rw [dump, Text, returns_bind_ok, dumpElements_returns]
  | .object fields => by rw [dump, Text, returns_bind_ok, dumpFields_returns]

theorem dumpElements_returns :
    (l : List (Json Empty)) → (Returns (dumpElements l) ↔ TextElements l)
  | [] => by simp [dumpElements, TextElements, returns_ok]
  | [x] => by rw [dumpElements, TextElements, TextElements, dump_returns, and_true]
  | x :: y :: rest => by
      rw [dumpElements, TextElements, returns_bind, ← dump_returns x,
        ← dumpElements_returns (y :: rest)]
      constructor
      · rintro ⟨a, ha, h⟩
        exact ⟨⟨a, ha⟩, returns_bind_ok.mp h⟩
      · rintro ⟨⟨a, ha⟩, h⟩
        exact ⟨a, ha, returns_bind_ok.mpr h⟩

theorem dumpFields_returns :
    (l : List (Bytes × Json Empty)) → (Returns (dumpFields l) ↔ TextFields l)
  | [] => by simp [dumpFields, TextFields, returns_ok]
  | [f] => by
      rw [dumpFields, TextFields, TextFields, and_true, returns_bind, ← dumpString_returns f.1,
        ← dump_returns f.2]
      constructor
      · rintro ⟨a, ha, h⟩
        exact ⟨⟨a, ha⟩, returns_bind_ok.mp h⟩
      · rintro ⟨⟨a, ha⟩, h⟩
        exact ⟨a, ha, returns_bind_ok.mpr h⟩
  | f :: g :: rest => by
      rw [dumpFields, TextFields, returns_bind, ← dumpString_returns f.1, ← dump_returns f.2,
        ← dumpFields_returns (g :: rest)]
      constructor
      · rintro ⟨a, ha, h⟩
        obtain ⟨b, hb, h⟩ := returns_bind.mp h
        exact ⟨⟨a, ha⟩, ⟨b, hb⟩, returns_bind_ok.mp h⟩
      · rintro ⟨⟨a, ha⟩, ⟨b, hb⟩, h⟩
        exact ⟨a, ha, returns_bind.mpr ⟨b, hb, returns_bind_ok.mpr h⟩⟩

end

end JudgeServer.Protocol
