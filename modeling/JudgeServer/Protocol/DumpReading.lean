import JudgeServer.Protocol.Dump
import JudgeServer.Lib.Cuts

/-!
# What a dumped text says

`dump` loses nothing but the type of an integer: two values with the same text are the
same once unsigned numbers are read as signed ones. The escapes are a prefix code whose
words never start with a quote, a numeral ends at the first byte that is not one of its
own, and the first byte of a value tells which kind of value it is.
-/

namespace JudgeServer.Protocol

open JudgeServer.Lib.Utf8
open JudgeServer.Lib.Decimal
open JudgeServer.Lib.Cuts

/-- What one byte of a string is written as. -/
def escapeByte (b : UInt8) : Bytes := escape b.toNat b

/-- The code points a decoder inside a sequence may hold, the upper end excluded. The
last row is for a sequence just completed. -/
def codepointRange : Nat → Nat × Nat
  | 2 => (2, 2 ^ 16)
  | 3 => (1, 2 ^ 10)
  | 4 => (0, 1)
  | 5 => (1, 2 ^ 4)
  | 6 => (0, 1)
  | 7 => (1, 2 ^ 3)
  | 8 => (1, 2 ^ 3)
  | _ => (0x80, 2 ^ 22)

/-- The first byte of a sequence is the code point itself or leads into a range. -/
theorem lead_range : ∀ n < 256,
    (transition 0 (byteClass n) = utf8Accept → (0xFF >>> byteClass n) &&& n = n) ∧
    (transition 0 (byteClass n) ≠ utf8Accept → transition 0 (byteClass n) ≠ utf8Reject →
      (codepointRange (transition 0 (byteClass n))).1 ≤ (0xFF >>> byteClass n) &&& n ∧
        (0xFF >>> byteClass n) &&& n < (codepointRange (transition 0 (byteClass n))).2 ∧
        0x80 ≤ n) := by
  decide +kernel

/-- One more byte of a sequence takes the range of a state into the next one. -/
def Carries (state n : Nat) : Prop :=
  let next := codepointRange (transition state (byteClass n))
  next.1 ≤ (codepointRange state).1 * 64 + n % 64 ∧ (codepointRange state).2 * 64 ≤ next.2 ∧
    0x80 ≤ n

instance (state n : Nat) : Decidable (Carries state n) := inferInstanceAs (Decidable (_ ∧ _ ∧ _))

theorem continued_range : ∀ state < 9, ∀ n < 256, transition state (byteClass n) < 9 ∧
    (state ≠ utf8Accept → transition state (byteClass n) ≠ utf8Reject → Carries state n) := by
  decide +kernel

theorem nextCodepoint_continued {state codep : Nat} (b : UInt8) (h : state ≠ utf8Accept)
    (hc : codep < 2 ^ 16) : nextCodepoint state codep b = codep * 64 + b.toNat % 64 := by
  unfold nextCodepoint
  rw [if_pos h]
  have hmask : b.toNat &&& 0x3f = b.toNat % 64 := Nat.and_two_pow_sub_one_eq_mod b.toNat 6
  have hlow : b.toNat % 64 < 2 ^ 6 := Nat.mod_lt _ (by decide)
  have hor : (b.toNat % 64) ||| (codep <<< 6) = codep * 64 + b.toNat % 64 := by
    rw [Nat.or_comm, ← Nat.shiftLeft_add_eq_or_of_lt hlow, Nat.shiftLeft_eq]
  rw [hmask, hor, Nat.mod_eq_of_lt (by omega)]

theorem escape_of_ge {codepoint : Nat} (h : 0x80 ≤ codepoint) (b : UInt8) :
    escape codepoint b = [b] := by
  unfold escape
  repeat rw [if_neg (by omega)]

/-- The decoder between two bytes: not rejecting, and inside a sequence in range. -/
structure Escaper.InRange (e : Escaper) : Prop where
  state_lt : e.state < 9
  inside : e.state ≠ utf8Accept →
    (codepointRange e.state).1 ≤ e.codepoint ∧ e.codepoint < (codepointRange e.state).2

/-- The code point a byte leads to decides no other escape than the byte itself. -/
theorem nextCodepoint_range (e : Escaper) (h : e.InRange) (b : UInt8)
    (hreject : nextState e.state b ≠ utf8Reject) :
    (nextState e.state b ≠ utf8Accept →
      (codepointRange (nextState e.state b)).1 ≤ nextCodepoint e.state e.codepoint b ∧
        nextCodepoint e.state e.codepoint b < (codepointRange (nextState e.state b)).2 ∧
        0x80 ≤ b.toNat) ∧
    (nextState e.state b = utf8Accept →
      escape (nextCodepoint e.state e.codepoint b) b = escapeByte b) := by
  have hlt := b.toNat_lt
  rw [nextState_eq h.state_lt] at hreject ⊢
  by_cases hs : e.state = utf8Accept
  · have hlead : nextCodepoint e.state e.codepoint b =
        (0xFF >>> byteClass b.toNat) &&& b.toNat := by
      unfold nextCodepoint byteType
      rw [if_neg (not_not_intro hs), (utf8d_classes b.toNat hlt).1]
    rw [hs] at hreject
    rw [hlead, hs]
    constructor
    · intro hne
      exact (lead_range b.toNat hlt).2 hne hreject
    · intro hacc
      rw [(lead_range b.toNat hlt).1 hacc]
      rfl
  · obtain ⟨hlow, hhigh⟩ := h.inside hs
    obtain ⟨hlow', hhigh', hbyte⟩ :=
      (continued_range e.state h.state_lt b.toNat hlt).2 hs hreject
    have h16 : e.codepoint < 2 ^ 16 := by
      have hmax : ∀ q < 9, q ≠ utf8Accept → q ≠ utf8Reject → (codepointRange q).2 ≤ 2 ^ 16 := by
        decide
      have hq : e.state ≠ utf8Reject := by
        intro hq
        rw [hq] at hreject
        exact hreject rfl
      exact Nat.lt_of_lt_of_le hhigh (hmax e.state h.state_lt hs hq)
    rw [nextCodepoint_continued b hs h16]
    constructor
    · intro _
      refine ⟨?_, ?_, hbyte⟩ <;> omega
    · intro hacc
      rw [hacc] at hlow'
      have hge : 0x80 ≤ e.codepoint * 64 + b.toNat % 64 := by
        have h80 : (codepointRange utf8Accept).1 = 0x80 := rfl
        omega
      unfold escapeByte
      rw [escape_of_ge hge, escape_of_ge hbyte]

theorem feed_written {e e' : Escaper} {b : UInt8} (h : e.InRange) (hf : e.feed b = .ok e') :
    e'.written = e.written ++ escapeByte b ∧ e'.InRange := by
  by_cases hreject : nextState e.state b = utf8Reject
  · rw [feed_of_reject e b hreject] at hf
    cases hf
  · obtain ⟨hinside, haccept⟩ := nextCodepoint_range e h b hreject
    have hlt : nextState e.state b < 9 := by
      rw [nextState_eq h.state_lt]
      exact (continued_range e.state h.state_lt b.toNat b.toNat_lt).1
    unfold Escaper.feed at hf
    dsimp only at hf
    by_cases hacc : nextState e.state b = utf8Accept
    · rw [if_pos hacc, haccept hacc] at hf
      obtain rfl := Except.ok.inj hf
      exact ⟨rfl, hlt, fun hne => absurd hacc hne⟩
    · rw [if_neg hacc, if_neg hreject] at hf
      obtain rfl := Except.ok.inj hf
      obtain ⟨hlow, hhigh, hbyte⟩ := hinside hacc
      refine ⟨?_, hlt, fun _ => ⟨hlow, hhigh⟩⟩
      show e.written ++ [b] = e.written ++ escapeByte b
      unfold escapeByte
      rw [escape_of_ge hbyte]

theorem feeds_written {s : Bytes} {e e' : Escaper} (h : e.InRange)
    (hf : s.foldlM Escaper.feed e = .ok e') : e'.written = e.written ++ s.flatMap escapeByte := by
  induction s generalizing e with
  | nil =>
    obtain rfl := Except.ok.inj hf
    rw [List.flatMap_nil, List.append_nil]
  | cons b s ih =>
    rw [List.foldlM_cons] at hf
    cases hb : e.feed b with
    | error err =>
      rw [hb] at hf
      cases hf
    | ok e₁ =>
      rw [hb] at hf
      obtain ⟨hw, hr⟩ := feed_written h hb
      rw [ih hr hf, hw, List.flatMap_cons, List.append_assoc]

/-- The escaped text is written byte by byte. -/
theorem dumpEscaped_eq {s a : Bytes} (h : dumpEscaped s = .ok a) : a = s.flatMap escapeByte := by
  unfold dumpEscaped at h
  cases he : s.foldlM Escaper.feed {} with
  | error err =>
    rw [he] at h
    cases h
  | ok e =>
    rw [he] at h
    change (if e.state = utf8Accept then Except.ok e.written else _) = _ at h
    split at h
    · obtain rfl := Except.ok.inj h
      exact feeds_written ⟨by decide, fun hne => absurd rfl hne⟩ he
    · cases h

/-- The length of an escape, from its first two bytes. -/
def escapeLength : Bytes → Nat
  | 92 :: 117 :: _ => 6
  | 92 :: _ => 2
  | _ => 1

/-- The three forms of an escape; none starts with a quote. -/
def escapeForm : Bytes → Bool
  | [b] => b ≠ 92 && b ≠ 34
  | [b, c] => b = 92 && c ≠ 117
  | [b, c, _, _, _, _] => b = 92 && c = 117
  | _ => false

/-- The byte an escape stands for. -/
def unescapeByte : Bytes → UInt8
  | [b] => b
  | [_, c] =>
      if c = 98 then 8 else if c = 116 then 9 else if c = 110 then 10 else if c = 102 then 12
      else if c = 114 then 13 else c
  | [_, _, _, _, x, y] => (x - 48) * 16 + (if y < 58 then y - 48 else y - 87)
  | _ => 0

theorem escape_table : ∀ n < 256, escapeForm (escapeByte (UInt8.ofNat n)) = true ∧
    unescapeByte (escapeByte (UInt8.ofNat n)) = UInt8.ofNat n := by
  decide +kernel

theorem escapeByte_form (b : UInt8) : escapeForm (escapeByte b) = true := by
  have h := (escape_table b.toNat b.toNat_lt).1
  rwa [UInt8.ofNat_toNat] at h

theorem unescape_escape (b : UInt8) : unescapeByte (escapeByte b) = b := by
  have h := (escape_table b.toNat b.toNat_lt).2
  rwa [UInt8.ofNat_toNat] at h

theorem escapeByte_injective : Function.Injective escapeByte := by
  intro a b h
  rw [← unescape_escape a, h, unescape_escape b]

theorem escapeLength_append {w : Bytes} (h : escapeForm w = true) (x : Bytes) :
    escapeLength (w ++ x) = w.length := by
  unfold escapeForm at h
  split at h
  · next b =>
    simp only [Bool.and_eq_true, decide_eq_true_eq] at h
    simp [escapeLength, h.1]
  · next b c =>
    simp only [Bool.and_eq_true, decide_eq_true_eq] at h
    obtain ⟨rfl, hc⟩ := h
    simp [escapeLength, hc]
  · next b c _ _ _ _ =>
    simp only [Bool.and_eq_true, decide_eq_true_eq] at h
    obtain ⟨rfl, rfl⟩ := h
    simp [escapeLength]
  · cases h

theorem escapeForm_ne_quote {w : Bytes} (h : escapeForm w = true) (x y : Bytes) :
    w ++ x ≠ 34 :: y := by
  intro hw
  unfold escapeForm at h
  split at h <;> simp_all

theorem escapeByte_code : PrefixCode escapeByte :=
  prefixCode_of_length escapeLength (fun b x => escapeLength_append (escapeByte_form b) x)
    escapeByte_injective

theorem dumpString_eq {s a : Bytes} (h : dumpString s = .ok a) :
    a = 34 :: (s.flatMap escapeByte ++ [34]) := by
  unfold dumpString at h
  cases he : dumpEscaped s with
  | error err =>
    rw [he] at h
    cases h
  | ok body =>
    rw [he] at h
    obtain rfl := Except.ok.inj h
    rw [dumpEscaped_eq he]
    rfl

/-- A written string ends at its closing quote. -/
theorem dumpString_split {s t a b x y : Bytes} (ha : dumpString s = .ok a)
    (hb : dumpString t = .ok b) (h : a ++ x = b ++ y) : s = t ∧ x = y := by
  rw [dumpString_eq ha, dumpString_eq hb, List.cons_append, List.cons_append] at h
  have hbody := (List.cons.inj h).2
  rw [List.append_assoc, List.append_assoc] at hbody
  exact escapeByte_code.flatMap_split
    (fun c u v => escapeForm_ne_quote (escapeByte_form c) u v) hbody

mutual

/-- The value with its unsigned numbers read as signed ones: the text is the same. -/
def plain : Json Empty → Json Empty
  | .numberUnsigned value => .numberInteger value
  | .array elements => .array (plainElements elements)
  | .object fields => .object (plainFields fields)
  | j => j

def plainElements : List (Json Empty) → List (Json Empty)
  | [] => []
  | x :: rest => plain x :: plainElements rest

def plainFields : List (Bytes × Json Empty) → List (Bytes × Json Empty)
  | [] => []
  | f :: rest => (f.1, plain f.2) :: plainFields rest

end

/-- The kinds of values that differ in their first byte. -/
inductive Kind where
  | null | boolean | number | string | array | object | other
  deriving DecidableEq

def Kind.ofByte (b : UInt8) : Kind :=
  if b = 110 then .null
  else if b = 116 ∨ b = 102 then .boolean
  else if isNumeral b then .number
  else if b = 34 then .string
  else if b = 91 then .array
  else if b = 123 then .object
  else .other

def kind : Json Empty → Kind
  | .null => .null
  | .boolean _ => .boolean
  | .numberInteger _ => .number
  | .numberUnsigned _ => .number
  | .string _ => .string
  | .array _ => .array
  | .object _ => .object

theorem kind_ne_other (j : Json Empty) : kind j ≠ .other := by
  cases j with
  | numberFloat value => exact value.elim
  | _ => simp [kind]

theorem Kind.ofByte_numeral {b : UInt8} (h : isNumeral b = true) : Kind.ofByte b = .number := by
  have hne : ∀ c : UInt8, isNumeral c = false → b ≠ c := by
    intro c hc hbc
    rw [hbc, hc] at h
    cases h
  unfold Kind.ofByte
  rw [if_neg (hne 110 rfl), if_neg (by simp [hne 116 rfl, hne 102 rfl]), if_pos h]

/-- The first byte of a decimal numeral. -/
theorem decimalInt_kind (value : Int) :
    ∃ b t, decimalInt value = b :: t ∧ Kind.ofByte b = .number := by
  obtain ⟨b, t, hb⟩ := List.exists_cons_of_ne_nil (decimalInt_ne_nil value)
  have hn := decimalInt_numeral value b (by rw [hb]; exact List.mem_cons_self)
  exact ⟨b, t, hb, Kind.ofByte_numeral hn⟩

theorem decimal_eq_decimalInt (n : Nat) : decimal n = decimalInt n := by
  unfold decimalInt
  rw [if_neg (by omega), Int.natAbs_natCast]

theorem bind_ok {ε α β : Type} {x : Except ε α} {f : α → Except ε β} {b : β}
    (h : x >>= f = .ok b) : ∃ a, x = .ok a ∧ f a = .ok b := by
  cases x with
  | error e => cases h
  | ok a => exact ⟨a, rfl, h⟩

theorem dump_array {elements : List (Json Empty)} {a : Bytes} (h : dump (.array elements) = .ok a) :
    ∃ body, dumpElements elements = .ok body ∧ a = 91 :: (body ++ [93]) := by
  rw [dump] at h
  obtain ⟨body, hbody, ha⟩ := bind_ok h
  exact ⟨body, hbody, (Except.ok.inj ha).symm⟩

theorem dump_object {fields : List (Bytes × Json Empty)} {a : Bytes}
    (h : dump (.object fields) = .ok a) :
    ∃ body, dumpFields fields = .ok body ∧ a = 123 :: (body ++ [125]) := by
  rw [dump] at h
  obtain ⟨body, hbody, ha⟩ := bind_ok h
  exact ⟨body, hbody, (Except.ok.inj ha).symm⟩

theorem dumpElements_cons {e : Json Empty} {rest : List (Json Empty)} {a : Bytes}
    (h : dumpElements (e :: rest) = .ok a) :
    ∃ first, dump e = .ok first ∧
      (rest = [] ∧ a = first ∨
        ∃ others, dumpElements rest = .ok others ∧ a = first ++ 44 :: others) := by
  cases rest with
  | nil => exact ⟨a, by rwa [dumpElements] at h, Or.inl ⟨rfl, rfl⟩⟩
  | cons e' rest =>
    rw [dumpElements] at h
    obtain ⟨first, hfirst, h⟩ := bind_ok h
    obtain ⟨others, hothers, h⟩ := bind_ok h
    refine ⟨first, hfirst, Or.inr ⟨others, hothers, ?_⟩⟩
    rw [← Except.ok.inj h, List.append_assoc]
    rfl

theorem dumpFields_cons {f : Bytes × Json Empty} {rest : List (Bytes × Json Empty)} {a : Bytes}
    (h : dumpFields (f :: rest) = .ok a) :
    ∃ key value, dumpString f.1 = .ok key ∧ dump f.2 = .ok value ∧
      (rest = [] ∧ a = key ++ 58 :: value ∨
        ∃ others, dumpFields rest = .ok others ∧ a = key ++ 58 :: (value ++ 44 :: others)) := by
  cases rest with
  | nil =>
    rw [dumpFields] at h
    obtain ⟨key, hkey, h⟩ := bind_ok h
    obtain ⟨value, hvalue, h⟩ := bind_ok h
    refine ⟨key, value, hkey, hvalue, Or.inl ⟨rfl, ?_⟩⟩
    rw [← Except.ok.inj h, List.append_assoc]
    rfl
  | cons g rest =>
    rw [dumpFields] at h
    obtain ⟨key, hkey, h⟩ := bind_ok h
    obtain ⟨value, hvalue, h⟩ := bind_ok h
    obtain ⟨others, hothers, h⟩ := bind_ok h
    refine ⟨key, value, hkey, hvalue, Or.inr ⟨others, hothers, ?_⟩⟩
    rw [← Except.ok.inj h]
    simp only [List.append_assoc]
    rfl

/-- The first byte of a value tells its kind. -/
theorem dump_kind {j : Json Empty} {a : Bytes} (h : dump j = .ok a) :
    ∃ b t, a = b :: t ∧ Kind.ofByte b = kind j := by
  cases j with
  | null =>
    rw [dump] at h
    exact ⟨110, ascii "ull", (Except.ok.inj h).symm, rfl⟩
  | boolean value =>
    rw [dump] at h
    cases value with
    | true => exact ⟨116, ascii "rue", (Except.ok.inj h).symm, rfl⟩
    | false => exact ⟨102, ascii "alse", (Except.ok.inj h).symm, rfl⟩
  | numberInteger value =>
    rw [dump] at h
    rw [← Except.ok.inj h]
    exact decimalInt_kind value
  | numberUnsigned value =>
    rw [dump, decimal_eq_decimalInt] at h
    rw [← Except.ok.inj h]
    exact decimalInt_kind value
  | numberFloat value => exact value.elim
  | string value =>
    rw [dump] at h
    exact ⟨34, _, dumpString_eq h, rfl⟩
  | array elements =>
    obtain ⟨body, _, ha⟩ := dump_array h
    exact ⟨91, _, ha, rfl⟩
  | object fields =>
    obtain ⟨body, _, ha⟩ := dump_object h
    exact ⟨123, _, ha, rfl⟩

/-- What follows does not go on a numeral. -/
def Ends (x : Bytes) : Prop := ∀ c ∈ x.head?, isNumeral c = false

theorem ends_cons {b : UInt8} (h : isNumeral b = false) (x : Bytes) : Ends (b :: x) := by
  intro c hc
  rwa [← Option.some.inj hc]

/-- An element does not start with a closing bracket. -/
theorem dump_ne_other {j : Json Empty} {a x y : Bytes} {b : UInt8} (h : dump j = .ok a)
    (hb : Kind.ofByte b = .other) : a ++ x ≠ b :: y := by
  obtain ⟨c, t, rfl, hc⟩ := dump_kind h
  intro heq
  rw [(List.cons.inj heq).1, hb] at hc
  exact kind_ne_other j hc.symm

theorem dump_number {j : Json Empty} (h : kind j = .number) :
    ∃ value, dump j = .ok (decimalInt value) ∧ plain j = .numberInteger value := by
  cases j with
  | numberInteger value => exact ⟨value, by rw [dump], by simp [plain]⟩
  | numberUnsigned value => exact ⟨value, by rw [dump, decimal_eq_decimalInt], by rw [plain]⟩
  | numberFloat value => exact value.elim
  | _ => cases h

/-- The value is read off the beginning of a text in one way only. -/
def Splits (j : Json Empty) : Prop :=
  ∀ {j' : Json Empty} {a b x y : Bytes}, dump j = .ok a → dump j' = .ok b → Ends x → Ends y →
    a ++ x = b ++ y → plain j = plain j' ∧ x = y

/-- So are elements, up to the closing bracket. -/
def ElementsSplit (l : List (Json Empty)) : Prop :=
  ∀ {l' : List (Json Empty)} {a b x y : Bytes}, dumpElements l = .ok a → dumpElements l' = .ok b →
    a ++ 93 :: x = b ++ 93 :: y → plainElements l = plainElements l' ∧ x = y

/-- So are fields, up to the closing brace. -/
def FieldsSplit (l : List (Bytes × Json Empty)) : Prop :=
  ∀ {l' : List (Bytes × Json Empty)} {a b x y : Bytes}, dumpFields l = .ok a →
    dumpFields l' = .ok b → a ++ 125 :: x = b ++ 125 :: y → plainFields l = plainFields l' ∧ x = y

theorem kind_of_split {j j' : Json Empty} {a b x y : Bytes} (ha : dump j = .ok a)
    (hb : dump j' = .ok b) (h : a ++ x = b ++ y) : kind j = kind j' := by
  obtain ⟨c, t, rfl, hc⟩ := dump_kind ha
  obtain ⟨c', t', rfl, hc'⟩ := dump_kind hb
  rw [← hc, ← hc', (List.cons.inj h).1]

theorem splits_number {j : Json Empty} (hj : kind j = .number) : Splits j := by
  intro j' a b x y ha hb hx hy h
  have hj' : kind j' = .number := by rw [← kind_of_split ha hb h, hj]
  obtain ⟨n, hn, hp⟩ := dump_number hj
  obtain ⟨m, hm, hq⟩ := dump_number hj'
  rw [hn] at ha
  rw [hm] at hb
  obtain rfl := Except.ok.inj ha
  obtain rfl := Except.ok.inj hb
  obtain ⟨hnm, hxy⟩ := decimalInt_split hx hy h
  rw [hp, hq, hnm]
  exact ⟨rfl, hxy⟩

theorem splits_null : Splits .null := by
  intro j' a b x y ha hb _ _ h
  have hj' := kind_of_split ha hb h
  cases j' with
  | null =>
    rw [ha] at hb
    obtain rfl := Except.ok.inj hb
    exact ⟨rfl, List.append_cancel_left h⟩
  | numberFloat value => exact value.elim
  | _ => cases hj'

theorem splits_boolean (value : Bool) : Splits (.boolean value) := by
  intro j' a b x y ha hb _ _ h
  have hj' := kind_of_split ha hb h
  cases j' with
  | boolean value' =>
    rw [dump] at ha hb
    obtain rfl := Except.ok.inj ha
    obtain rfl := Except.ok.inj hb
    have hvalue : value = value' := by
      cases value <;> cases value'
      · rfl
      · exact absurd (List.cons.inj h).1 (by decide)
      · exact absurd (List.cons.inj h).1 (by decide)
      · rfl
    subst hvalue
    exact ⟨rfl, List.append_cancel_left h⟩
  | numberFloat value => exact value.elim
  | _ => cases hj'

theorem splits_string (value : Bytes) : Splits (.string value) := by
  intro j' a b x y ha hb _ _ h
  have hj' := kind_of_split ha hb h
  cases j' with
  | string value' =>
    rw [dump] at ha hb
    obtain ⟨rfl, hxy⟩ := dumpString_split ha hb h
    exact ⟨rfl, hxy⟩
  | numberFloat value => exact value.elim
  | _ => cases hj'

theorem splits_array {elements : List (Json Empty)} (hsplit : ElementsSplit elements) :
    Splits (.array elements) := by
  intro j' a b x y ha hb _ _ h
  have hj' := kind_of_split ha hb h
  cases j' with
  | array elements' =>
    obtain ⟨body, hbody, rfl⟩ := dump_array ha
    obtain ⟨body', hbody', rfl⟩ := dump_array hb
    rw [List.cons_append, List.cons_append, List.append_assoc, List.append_assoc] at h
    obtain ⟨helements, hxy⟩ := hsplit hbody hbody' (List.cons.inj h).2
    rw [plain, plain, helements]
    exact ⟨rfl, hxy⟩
  | numberFloat value => exact value.elim
  | _ => cases hj'

theorem splits_object {fields : List (Bytes × Json Empty)} (hsplit : FieldsSplit fields) :
    Splits (.object fields) := by
  intro j' a b x y ha hb _ _ h
  have hj' := kind_of_split ha hb h
  cases j' with
  | object fields' =>
    obtain ⟨body, hbody, rfl⟩ := dump_object ha
    obtain ⟨body', hbody', rfl⟩ := dump_object hb
    rw [List.cons_append, List.cons_append, List.append_assoc, List.append_assoc] at h
    obtain ⟨hfields, hxy⟩ := hsplit hbody hbody' (List.cons.inj h).2
    rw [plain, plain, hfields]
    exact ⟨rfl, hxy⟩
  | numberFloat value => exact value.elim
  | _ => cases hj'

section Lists

variable {ε α β : Type} {write : List α → Except ε Bytes} {closing : UInt8}

/-- What the first part of a list is followed by: the closing byte, or a comma and the
others. -/
def Tail (write : List α → Except ε Bytes) (closing : UInt8) (rest : List α) (x u : Bytes) :
    Prop :=
  rest = [] ∧ u = closing :: x ∨
    ∃ others, write rest = .ok others ∧ u = 44 :: (others ++ closing :: x)

theorem Tail.ends {rest : List α} {x u : Bytes} (h : Tail write closing rest x u)
    (hclosing : isNumeral closing = false) : Ends u := by
  obtain ⟨_, rfl⟩ | ⟨_, _, rfl⟩ := h
  · exact ends_cons hclosing _
  · exact ends_cons rfl _

/-- The comma tells whether there are others. -/
theorem Tail.split {view : List α → β} {rest rest' : List α} {x y u : Bytes}
    (h : Tail write closing rest x u) (h' : Tail write closing rest' y u) (hcomma : closing ≠ 44)
    (hrest : ∀ {a b : Bytes}, write rest = .ok a → write rest' = .ok b →
      a ++ closing :: x = b ++ closing :: y → view rest = view rest' ∧ x = y) :
    view rest = view rest' ∧ x = y := by
  obtain ⟨rfl, rfl⟩ | ⟨others, hothers, rfl⟩ := h
  · obtain ⟨rfl, hu⟩ | ⟨others', _, hu⟩ := h'
    · exact ⟨rfl, (List.cons.inj hu).2⟩
    · exact absurd (List.cons.inj hu).1 hcomma
  · obtain ⟨_, hu⟩ | ⟨others', hothers', hu⟩ := h'
    · exact absurd (List.cons.inj hu).1.symm hcomma
    · exact hrest hothers hothers' (List.cons.inj hu).2

end Lists

theorem dumpElements_tail {e : Json Empty} {rest : List (Json Empty)} {a : Bytes}
    (h : dumpElements (e :: rest) = .ok a) (x : Bytes) :
    ∃ first u, dump e = .ok first ∧ a ++ 93 :: x = first ++ u ∧ Tail dumpElements 93 rest x u := by
  obtain ⟨first, hfirst, ⟨hnil, rfl⟩ | ⟨others, hothers, rfl⟩⟩ := dumpElements_cons h
  · exact ⟨a, 93 :: x, hfirst, rfl, Or.inl ⟨hnil, rfl⟩⟩
  · refine ⟨first, _, hfirst, ?_, Or.inr ⟨others, hothers, rfl⟩⟩
    rw [List.append_assoc, List.cons_append]

theorem elementsSplit_nil : ElementsSplit [] := by
  intro l' a b x y ha hb h
  rw [dumpElements] at ha
  obtain rfl := Except.ok.inj ha
  cases l' with
  | nil =>
    rw [dumpElements] at hb
    obtain rfl := Except.ok.inj hb
    exact ⟨rfl, (List.cons.inj h).2⟩
  | cons e' rest' =>
    obtain ⟨first, u, hfirst, hu, _⟩ := dumpElements_tail hb y
    rw [hu] at h
    exact absurd h.symm (dump_ne_other hfirst rfl)

theorem elementsSplit_cons {e : Json Empty} {rest : List (Json Empty)} (he : Splits e)
    (hrest : ElementsSplit rest) : ElementsSplit (e :: rest) := by
  intro l' a b x y ha hb h
  obtain ⟨first, u, hfirst, hu, htail⟩ := dumpElements_tail ha x
  rw [hu] at h
  cases l' with
  | nil =>
    rw [dumpElements] at hb
    obtain rfl := Except.ok.inj hb
    exact absurd h (dump_ne_other hfirst rfl)
  | cons e' rest' =>
    obtain ⟨first', u', hfirst', hu', htail'⟩ := dumpElements_tail hb y
    rw [hu'] at h
    obtain ⟨hplain, rfl⟩ := he hfirst hfirst' (htail.ends rfl) (htail'.ends rfl) h
    obtain ⟨hlist, hxy⟩ := htail.split htail' (by decide) hrest
    rw [plainElements, plainElements, hplain, hlist]
    exact ⟨rfl, hxy⟩

theorem dumpFields_tail {f : Bytes × Json Empty} {rest : List (Bytes × Json Empty)} {a : Bytes}
    (h : dumpFields (f :: rest) = .ok a) (x : Bytes) :
    ∃ key value u, dumpString f.1 = .ok key ∧ dump f.2 = .ok value ∧
      a ++ 125 :: x = key ++ 58 :: (value ++ u) ∧ Tail dumpFields 125 rest x u := by
  obtain ⟨key, value, hkey, hvalue, ⟨hnil, rfl⟩ | ⟨others, hothers, rfl⟩⟩ := dumpFields_cons h
  · refine ⟨key, value, 125 :: x, hkey, hvalue, ?_, Or.inl ⟨hnil, rfl⟩⟩
    rw [List.append_assoc, List.cons_append]
  · refine ⟨key, value, _, hkey, hvalue, ?_, Or.inr ⟨others, hothers, rfl⟩⟩
    simp only [List.append_assoc, List.cons_append]

theorem dumpString_ne_brace {s a : Bytes} (h : dumpString s = .ok a) (x y : Bytes) :
    a ++ x ≠ 125 :: y := by
  rw [dumpString_eq h]
  intro heq
  exact absurd (List.cons.inj heq).1 (by decide)

theorem fieldsSplit_nil : FieldsSplit [] := by
  intro l' a b x y ha hb h
  rw [dumpFields] at ha
  obtain rfl := Except.ok.inj ha
  cases l' with
  | nil =>
    rw [dumpFields] at hb
    obtain rfl := Except.ok.inj hb
    exact ⟨rfl, (List.cons.inj h).2⟩
  | cons f' rest' =>
    obtain ⟨key, value, u, hkey, _, hu, _⟩ := dumpFields_tail hb y
    rw [hu] at h
    exact absurd h.symm (dumpString_ne_brace hkey _ _)

theorem fieldsSplit_cons {f : Bytes × Json Empty} {rest : List (Bytes × Json Empty)}
    (hf : Splits f.2) (hrest : FieldsSplit rest) : FieldsSplit (f :: rest) := by
  intro l' a b x y ha hb h
  obtain ⟨key, value, u, hkey, hvalue, hu, htail⟩ := dumpFields_tail ha x
  rw [hu] at h
  cases l' with
  | nil =>
    rw [dumpFields] at hb
    obtain rfl := Except.ok.inj hb
    exact absurd h (dumpString_ne_brace hkey _ _)
  | cons f' rest' =>
    obtain ⟨key', value', u', hkey', hvalue', hu', htail'⟩ := dumpFields_tail hb y
    rw [hu'] at h
    obtain ⟨hname, hcolon⟩ := dumpString_split hkey hkey' h
    obtain ⟨hplain, rfl⟩ :=
      hf hvalue hvalue' (htail.ends rfl) (htail'.ends rfl) (List.cons.inj hcolon).2
    obtain ⟨hlist, hxy⟩ := htail.split htail' (by decide) hrest
    rw [plainFields, plainFields, hname, hplain, hlist]
    exact ⟨rfl, hxy⟩

mutual

theorem dump_splits : (j : Json Empty) → Splits j
  | .null => splits_null
  | .boolean value => splits_boolean value
  | .numberInteger _ => splits_number rfl
  | .numberUnsigned _ => splits_number rfl
  | .string value => splits_string value
  | .array elements => splits_array (dumpElements_split elements)
  | .object fields => splits_object (dumpFields_split fields)

theorem dumpElements_split : (l : List (Json Empty)) → ElementsSplit l
  | [] => elementsSplit_nil
  | e :: rest => elementsSplit_cons (dump_splits e) (dumpElements_split rest)

theorem dumpFields_split : (l : List (Bytes × Json Empty)) → FieldsSplit l
  | [] => fieldsSplit_nil
  | f :: rest => fieldsSplit_cons (dump_splits f.2) (dumpFields_split rest)

end

/-- Values with the same text are the same up to the type of their integers. -/
theorem dump_injective {j j' : Json Empty} {a : Bytes} (h : dump j = .ok a)
    (h' : dump j' = .ok a) : plain j = plain j' := by
  have hends : Ends [] := fun c hc => by cases hc
  exact (dump_splits j h h' hends hends rfl).1

end JudgeServer.Protocol
