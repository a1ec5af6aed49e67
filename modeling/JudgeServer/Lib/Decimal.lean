import Mathlib.Data.Nat.Digits.Defs
import Mathlib.Data.Nat.Digits.Lemmas
import Mathlib.Data.List.TakeWhile

/-!
# Decimal numerals

The text `std::to_string` produces for an integer, and the reading of a numeral the
way `strtol` does it: leading white space, an optional sign, then as many digits as
there are.
-/

namespace JudgeServer.Lib.Decimal

def digitByte (d : Nat) : UInt8 := (48 + d).toUInt8

/-- The digits of a natural number, most significant first. -/
def decimal (n : Nat) : List UInt8 :=
  if n = 0 then [digitByte 0] else (Nat.digits 10 n).reverse.map digitByte

def decimalInt (n : Int) : List UInt8 :=
  if n < 0 then 45 :: decimal n.natAbs else decimal n.natAbs

def isDigit (b : UInt8) : Bool := 48 ≤ b.toNat && b.toNat ≤ 57

/-- The white space of the C locale. -/
def isSpace (b : UInt8) : Bool := b.toNat = 32 || (9 ≤ b.toNat && b.toNat ≤ 13)

/-- The value of a list of digits. -/
def digitsValue (s : List UInt8) : Nat := s.foldl (fun n b => 10 * n + (b.toNat - 48)) 0

/-- A numeral as `strtol` reads it. -/
structure Numeral where
  negative : Bool
  magnitude : Nat
  /-- The number of bytes read, white space and sign included. -/
  length : Nat

def readSign : List UInt8 → Bool × Nat × List UInt8
  | b :: s => if b = 45 then (true, 1, s) else if b = 43 then (false, 1, s) else (false, 0, b :: s)
  | [] => (false, 0, [])

/-- `none` if there is no digit to read. -/
def readNumeral (s : List UInt8) : Option Numeral :=
  let spaces := s.takeWhile isSpace
  let sign := readSign (s.drop spaces.length)
  let digits := sign.2.2.takeWhile isDigit
  if digits = [] then none
  else some ⟨sign.1, digitsValue digits, spaces.length + sign.2.1 + digits.length⟩

theorem digitByte_toNat {d : Nat} (h : d < 10) : (digitByte d).toNat = 48 + d := by
  unfold digitByte
  rw [Nat.toUInt8_eq, UInt8.toNat_ofNat_of_lt' (by simp only [UInt8.size]; omega)]

theorem isDigit_digitByte {d : Nat} (h : d < 10) : isDigit (digitByte d) = true := by
  unfold isDigit
  rw [digitByte_toNat h]
  simp
  omega

theorem digitsValue_append (s t : List UInt8) :
    digitsValue (s ++ t) = t.foldl (fun n b => 10 * n + (b.toNat - 48)) (digitsValue s) :=
  List.foldl_append

/-- Reading the digits of a number gives the number back. -/
theorem digitsValue_digits (ds : List Nat) (h : ∀ d ∈ ds, d < 10) :
    digitsValue (ds.reverse.map digitByte) = Nat.ofDigits 10 ds := by
  induction ds with
  | nil => rfl
  | cons d ds ih =>
    have hd : d < 10 := h d List.mem_cons_self
    have hrest := ih fun x hx => h x (List.mem_cons_of_mem d hx)
    rw [List.reverse_cons, List.map_append, digitsValue_append, hrest, Nat.ofDigits_cons]
    simp only [List.map_cons, List.map_nil, List.foldl_cons, List.foldl_nil]
    rw [digitByte_toNat hd]
    omega

theorem digitsValue_decimal (n : Nat) : digitsValue (decimal n) = n := by
  unfold decimal
  split
  · next h => subst h; rfl
  · rw [digitsValue_digits _ fun d hd => Nat.digits_lt_base (by decide) hd, Nat.ofDigits_digits]

theorem decimal_digits (n : Nat) : ∀ b ∈ decimal n, isDigit b = true := by
  intro b hb
  unfold decimal at hb
  split at hb
  · obtain rfl := List.mem_singleton.mp hb
    exact isDigit_digitByte (by decide)
  · obtain ⟨d, hd, rfl⟩ := List.mem_map.mp hb
    exact isDigit_digitByte (Nat.digits_lt_base (by decide) (List.mem_reverse.mp hd))

theorem takeWhile_decimal (n : Nat) : (decimal n).takeWhile isDigit = decimal n :=
  List.takeWhile_eq_self_iff.mpr (decimal_digits n)

theorem decimal_ne_nil (n : Nat) : decimal n ≠ [] := by
  unfold decimal
  split
  · simp
  · next h =>
    intro hnil
    have hd := List.reverse_eq_nil_iff.mp (List.map_eq_nil_iff.mp hnil)
    exact h (Nat.digits_eq_nil_iff_eq_zero.mp hd)

theorem not_space_of_digit {b : UInt8} (h : isDigit b = true) : isSpace b = false := by
  simp only [isDigit, Bool.and_eq_true, decide_eq_true_eq] at h
  simp only [isSpace, Bool.or_eq_false_iff, Bool.and_eq_false_iff, decide_eq_false_iff_not]
  omega

/-- The text of a number is read back whole. -/
theorem readNumeral_decimal (n : Nat) :
    readNumeral (decimal n) = some ⟨false, n, (decimal n).length⟩ := by
  obtain ⟨b, s, hs⟩ := List.exists_cons_of_ne_nil (decimal_ne_nil n)
  have hall := decimal_digits n
  have hb : isDigit b = true := hall b (by rw [hs]; simp)
  have hspace : (decimal n).takeWhile isSpace = [] := by
    rw [hs, List.takeWhile_cons, not_space_of_digit hb]
    rfl
  have hsign : readSign (decimal n) = (false, 0, decimal n) := by
    have h45 : b ≠ 45 := by
      rintro rfl
      exact absurd hb (by decide)
    have h43 : b ≠ 43 := by
      rintro rfl
      exact absurd hb (by decide)
    rw [hs]
    simp [readSign, h45, h43]
  have hdigits := takeWhile_decimal n
  unfold readNumeral
  simp only [hspace, List.length_nil, List.drop_zero, hsign, hdigits, digitsValue_decimal,
    Nat.zero_add]
  rw [if_neg (decimal_ne_nil n)]

/-- The same after a minus sign. -/
theorem readNumeral_neg (n : Nat) :
    readNumeral (45 :: decimal n) = some ⟨true, n, (45 :: decimal n).length⟩ := by
  have hspace : (45 :: decimal n).takeWhile isSpace = [] := by
    rw [List.takeWhile_cons]
    rfl
  have hsign : readSign (45 :: decimal n) = (true, 1, decimal n) := by
    simp [readSign]
  have hdigits := takeWhile_decimal n
  unfold readNumeral
  simp only [hspace, List.length_nil, List.drop_zero, hsign, hdigits, digitsValue_decimal]
  rw [if_neg (decimal_ne_nil n), List.length_cons, Nat.zero_add, Nat.add_comm]

theorem readNumeral_decimalInt (a : Int) :
    readNumeral (decimalInt a) = some ⟨decide (a < 0), a.natAbs, (decimalInt a).length⟩ := by
  unfold decimalInt
  split
  · next h =>
    rw [readNumeral_neg, decide_eq_true h]
  · next h =>
    rw [readNumeral_decimal, decide_eq_false h]

theorem decimalInt_injective {a b : Int} (h : decimalInt a = decimalInt b) : a = b := by
  have ha := readNumeral_decimalInt a
  rw [h, readNumeral_decimalInt b] at ha
  simp only [Option.some.injEq, Numeral.mk.injEq, decide_eq_decide, and_true] at ha
  omega

theorem decimalInt_ne_nil (a : Int) : decimalInt a ≠ [] := by
  unfold decimalInt
  split
  · exact List.cons_ne_nil _ _
  · exact decimal_ne_nil _

/-- A byte that is neither a digit nor a minus sign does not occur in a numeral. -/
theorem not_mem_decimalInt {b : UInt8} (hd : isDigit b = false) (hm : b ≠ 45) (a : Int) :
    b ∉ decimalInt a := by
  have hdec : b ∉ decimal a.natAbs := by
    intro h
    rw [decimal_digits _ b h] at hd
    cases hd
  unfold decimalInt
  split
  · exact List.not_mem_cons_of_ne_of_not_mem hm hdec
  · exact hdec

def isNumeral (b : UInt8) : Bool := isDigit b || b = 45

theorem decimalInt_numeral (a : Int) : ∀ b ∈ decimalInt a, isNumeral b = true := by
  have hdec : ∀ b ∈ decimal a.natAbs, isNumeral b = true := by
    intro b hb
    unfold isNumeral
    rw [decimal_digits _ b hb, Bool.true_or]
  unfold decimalInt
  split
  · intro b hb
    obtain rfl | hb := List.mem_cons.mp hb
    · rfl
    · exact hdec b hb
  · exact hdec

/-- A numeral as it may be written: white space, at most one sign, and digits. -/
structure Spelling where
  spaces : List UInt8
  /-- Whether the sign, if there is one, is a minus. -/
  sign : Option Bool
  digits : List UInt8
  all_spaces : ∀ b ∈ spaces, isSpace b = true
  all_digits : ∀ b ∈ digits, isDigit b = true
  digits_ne_nil : digits ≠ []

namespace Spelling

def signText : Option Bool → List UInt8
  | none => []
  | some negative => if negative then [45] else [43]

def text (sp : Spelling) : List UInt8 := sp.spaces ++ (signText sp.sign ++ sp.digits)

def negative (sp : Spelling) : Bool := sp.sign = some true

def magnitude (sp : Spelling) : Nat := digitsValue sp.digits

/-- No white space, no sign and no leading zero. -/
def Plain (sp : Spelling) : Prop :=
  sp.spaces = [] ∧ sp.sign = none ∧ (sp.digits.head? = some 48 → sp.digits = [48])

end Spelling

theorem takeWhile_append_stop {p : UInt8 → Bool} {s t : List UInt8} (hs : ∀ b ∈ s, p b = true)
    (ht : ∀ b ∈ t.head?, p b = false) : (s ++ t).takeWhile p = s := by
  rw [List.takeWhile_append_of_pos hs]
  cases t with
  | nil => simp
  | cons b t =>
    have hb := ht b (by simp)
    simp [hb]

/-- A numeral ends where its bytes end. -/
theorem decimalInt_split {a b : Int} {x y : List UInt8} (hx : ∀ c ∈ x.head?, isNumeral c = false)
    (hy : ∀ c ∈ y.head?, isNumeral c = false) (h : decimalInt a ++ x = decimalInt b ++ y) :
    a = b ∧ x = y := by
  have htake := congrArg (List.takeWhile isNumeral) h
  rw [takeWhile_append_stop (decimalInt_numeral a) hx,
    takeWhile_append_stop (decimalInt_numeral b) hy] at htake
  rw [htake] at h
  exact ⟨decimalInt_injective htake, List.append_cancel_left h⟩

theorem not_space_sign (b : UInt8) (h : b = 45 ∨ b = 43) : isSpace b = false := by
  obtain rfl | rfl := h <;> decide

/-- A spelling is read whole, as what it says. -/
theorem readNumeral_text (sp : Spelling) :
    readNumeral sp.text = some ⟨sp.negative, sp.magnitude, sp.text.length⟩ := by
  obtain ⟨spaces, sign, digits, hspaces, hdigits, hne⟩ := sp
  obtain ⟨d, ds, rfl⟩ := List.exists_cons_of_ne_nil hne
  have hd : isDigit d = true := hdigits d List.mem_cons_self
  have h45 : d ≠ 45 := by
    rintro rfl
    exact absurd hd (by decide)
  have h43 : d ≠ 43 := by
    rintro rfl
    exact absurd hd (by decide)
  have hstop : ∀ b ∈ (Spelling.signText sign ++ d :: ds).head?, isSpace b = false := by
    intro b hb
    obtain _ | negative := sign
    · obtain rfl := Option.some.inj hb
      exact not_space_of_digit hd
    · cases negative with
      | true => exact not_space_sign b (Or.inl (Option.some.inj hb).symm)
      | false => exact not_space_sign b (Or.inr (Option.some.inj hb).symm)
  have htake := takeWhile_append_stop hspaces hstop
  have hall : (d :: ds).takeWhile isDigit = d :: ds := List.takeWhile_eq_self_iff.mpr hdigits
  have hsign : readSign (Spelling.signText sign ++ d :: ds) =
      (decide (sign = some true), (Spelling.signText sign).length, d :: ds) := by
    obtain _ | negative := sign
    · simp [Spelling.signText, readSign, h45, h43]
    · cases negative <;> simp [Spelling.signText, readSign]
  unfold readNumeral Spelling.text Spelling.negative Spelling.magnitude
  simp only [htake, List.drop_left, hsign, hall, List.length_append, Nat.add_assoc]
  rw [if_neg (List.cons_ne_nil _ _)]

/-- What is read whole is a spelling of what is read. -/
theorem exists_spelling {s : List UInt8} {x : Numeral} (h : readNumeral s = some x)
    (hlen : x.length = s.length) :
    ∃ sp : Spelling, sp.text = s ∧ sp.negative = x.negative ∧ sp.magnitude = x.magnitude := by
  obtain ⟨rest, hrest⟩ : ∃ rest, s.drop (s.takeWhile isSpace).length = rest := ⟨_, rfl⟩
  have hsplit : s.takeWhile isSpace ++ rest = s := by
    rw [← hrest]
    exact List.prefix_iff_eq_append.mp (List.takeWhile_prefix _)
  unfold readNumeral at h
  simp only [hrest] at h
  obtain ⟨sign, hsign, hread⟩ : ∃ sign, Spelling.signText sign ++ (readSign rest).2.2 = rest ∧
      (readSign rest).1 = decide (sign = some true) ∧
      (readSign rest).2.1 = (Spelling.signText sign).length := by
    cases rest with
    | nil => exact ⟨none, by simp [readSign, Spelling.signText], rfl, rfl⟩
    | cons b t =>
      by_cases h45 : b = 45
      · exact ⟨some true, by simp [readSign, Spelling.signText, h45]⟩
      · by_cases h43 : b = 43
        · exact ⟨some false, by simp [readSign, Spelling.signText, h43]⟩
        · exact ⟨none, by simp [readSign, Spelling.signText, h45, h43]⟩
  split at h
  · cases h
  · next hne =>
    obtain rfl := Option.some.inj h
    obtain ⟨after, hafter⟩ : ∃ after,
        (readSign rest).2.2.takeWhile isDigit ++ after = (readSign rest).2.2 :=
      ⟨_, List.prefix_iff_eq_append.mp (List.takeWhile_prefix _)⟩
    have hnil : after = [] := by
      have h1 := congrArg List.length hsplit
      have h2 := congrArg List.length hsign
      have h3 := congrArg List.length hafter
      rw [← List.length_eq_zero_iff]
      simp only [List.length_append] at h1 h2 h3
      dsimp only at hlen
      omega
    rw [hnil, List.append_nil] at hafter
    refine ⟨⟨s.takeWhile isSpace, sign, (readSign rest).2.2.takeWhile isDigit,
      fun b hb => List.mem_takeWhile_imp hb, fun b hb => List.mem_takeWhile_imp hb, hne⟩,
      ?_, hread.1.symm, rfl⟩
    show s.takeWhile isSpace ++ (Spelling.signText sign ++ (readSign rest).2.2.takeWhile isDigit) = s
    rw [hafter, hsign, hsplit]

/-- The digit a byte stands for. -/
def digitOf (b : UInt8) : Nat := b.toNat - 48

theorem digitOf_lt {b : UInt8} (h : isDigit b = true) : digitOf b < 10 := by
  simp only [isDigit, Bool.and_eq_true, decide_eq_true_eq] at h
  unfold digitOf
  omega

theorem digitByte_digitOf {b : UInt8} (h : isDigit b = true) : digitByte (digitOf b) = b := by
  apply UInt8.toNat_inj.mp
  rw [digitByte_toNat (digitOf_lt h)]
  simp only [isDigit, Bool.and_eq_true, decide_eq_true_eq] at h
  unfold digitOf
  omega

/-- Digits without a leading zero are the text of their value. -/
theorem decimal_digitsValue {s : List UInt8} (hs : ∀ b ∈ s, isDigit b = true) (hne : s ≠ [])
    (hz : s.head? = some 48 → s = [48]) : decimal (digitsValue s) = s := by
  have hmap : (s.map digitOf).reverse.reverse.map digitByte = s := by
    rw [List.reverse_reverse, List.map_map]
    conv_rhs => rw [← List.map_id s]
    exact List.map_congr_left fun b hb => digitByte_digitOf (hs b hb)
  have hlt : ∀ d ∈ (s.map digitOf).reverse, d < 10 := by
    intro d hd
    obtain ⟨b, hb, rfl⟩ := List.mem_map.mp (List.mem_reverse.mp hd)
    exact digitOf_lt (hs b hb)
  have hvalue : digitsValue s = Nat.ofDigits 10 (s.map digitOf).reverse := by
    rw [← digitsValue_digits _ hlt, hmap]
  obtain ⟨b, t, rfl⟩ := List.exists_cons_of_ne_nil hne
  by_cases hb : b = 48
  · rw [hz (by rw [hb]; rfl)]
    rfl
  · have hb0 : digitOf b ≠ 0 := by
      intro h0
      have hbyte := digitByte_digitOf (hs b List.mem_cons_self)
      rw [h0] at hbyte
      exact hb hbyte.symm
    have hlast : ∀ h : ((b :: t).map digitOf).reverse ≠ [],
        ((b :: t).map digitOf).reverse.getLast h ≠ 0 := by
      intro h
      rw [List.getLast_reverse]
      exact hb0
    have hdigits : Nat.digits 10 (digitsValue (b :: t)) = ((b :: t).map digitOf).reverse := by
      rw [hvalue]
      exact Nat.digits_ofDigits 10 (by decide) _ hlt hlast
    have hpos : digitsValue (b :: t) ≠ 0 := by
      intro h0
      rw [h0, Nat.digits_zero] at hdigits
      simp at hdigits
    unfold decimal
    rw [if_neg hpos, hdigits, hmap]

/-- The text of a number has a leading zero only if it is the text of zero. -/
theorem decimal_leading {n : Nat} (h : (decimal n).head? = some 48) : decimal n = [48] := by
  unfold decimal at h ⊢
  split at h
  · next h0 => rw [if_pos h0]; rfl
  · next h0 =>
    exfalso
    have hne : Nat.digits 10 n ≠ [] := Nat.digits_ne_nil_iff_ne_zero.mpr h0
    have hlast := Nat.getLast_digit_ne_zero 10 h0
    rw [List.head?_map, List.head?_reverse, List.getLast?_eq_some_getLast hne] at h
    have hlt : (Nat.digits 10 n).getLast hne < 10 :=
      Nat.digits_lt_base (by decide) (List.getLast_mem hne)
    have hbyte := congrArg UInt8.toNat (Option.some.inj h)
    rw [digitByte_toNat hlt] at hbyte
    have h48 : (48 : UInt8).toNat = 48 := rfl
    omega

/-- Of all spellings of a number the plain one is its text. -/
theorem Spelling.text_eq_decimal_iff (sp : Spelling) :
    sp.text = decimal sp.magnitude ↔ sp.Plain := by
  constructor
  · intro h
    have hdigit : ∀ b ∈ sp.text, isDigit b = true := by
      rw [h]
      exact decimal_digits _
    have hspaces : sp.spaces = [] := by
      rw [List.eq_nil_iff_forall_not_mem]
      intro b hb
      have hs := sp.all_spaces b hb
      rw [not_space_of_digit (hdigit b (List.mem_append_left _ hb))] at hs
      cases hs
    have hsign : sp.sign = none := by
      cases hsign : sp.sign with
      | none => rfl
      | some negative =>
        exfalso
        cases negative with
        | true => exact absurd (hdigit 45 (by simp [text, signText, hsign])) (by decide)
        | false => exact absurd (hdigit 43 (by simp [text, signText, hsign])) (by decide)
    have htext : sp.text = sp.digits := by simp [text, signText, hspaces, hsign]
    refine ⟨hspaces, hsign, ?_⟩
    rw [← htext, h]
    exact decimal_leading
  · rintro ⟨hspaces, hsign, hzero⟩
    have htext : sp.text = sp.digits := by simp [text, signText, hspaces, hsign]
    rw [htext]
    exact (decimal_digitsValue sp.all_digits sp.digits_ne_nil hzero).symm

end JudgeServer.Lib.Decimal
