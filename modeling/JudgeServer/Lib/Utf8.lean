import Mathlib.Data.List.Forall2

/-!
# Well-formed UTF-8

A byte string is valid when it is the encoding of some sequence of Unicode scalar
values. `encodes_iff` reads one encoded scalar byte by byte: the leading byte decides
which ranges the following bytes must fall in. `accepts_iff` is the rule for decoders
that remember only the ranges still owed: such an automaton accepts exactly the valid
strings.
-/

namespace JudgeServer.Lib.Utf8

def ValidUtf8 (s : List UInt8) : Prop := ∃ cs : List Char, s = cs.flatMap String.utf8EncodeChar

/-- A range of byte values, both ends included. -/
abbrev ByteRange := Nat × Nat

def ByteRange.Has (r : ByteRange) (b : UInt8) : Prop := r.1 ≤ b.toNat ∧ b.toNat ≤ r.2

instance (r : ByteRange) (b : UInt8) : Decidable (r.Has b) := inferInstanceAs (Decidable (_ ∧ _))

/-- An unrestricted continuation byte. -/
def continuation : ByteRange := (0x80, 0xBF)

/-- The ranges of the bytes that must follow a leading byte; `none` if no scalar
starts with it. -/
def tails (b : UInt8) : Option (List ByteRange) :=
  let n := b.toNat
  if n < 0x80 then some []
  else if n < 0xC2 then none
  else if n < 0xE0 then some [continuation]
  else if n = 0xE0 then some [(0xA0, 0xBF), continuation]
  else if n = 0xED then some [(0x80, 0x9F), continuation]
  else if n < 0xF0 then some [continuation, continuation]
  else if n = 0xF0 then some [(0x90, 0xBF), continuation, continuation]
  else if n < 0xF4 then some [continuation, continuation, continuation]
  else if n = 0xF4 then some [(0x80, 0x8F), continuation, continuation]
  else none

theorem exists_char {n : Nat} (h : n.isValidChar) : ∃ c : Char, c.val.toNat = n :=
  ⟨Char.ofNatAux n h, rfl⟩

theorem byte_of_toNat {b : UInt8} {n : Nat} (h : b.toNat = n) : UInt8.ofNat n = b := by
  subst h
  exact UInt8.ofNat_toNat

/-- The encoding of one scalar follows the table. -/
theorem tails_of_encode {c : Char} {b : UInt8} {t : List UInt8}
    (h : String.utf8EncodeChar c = b :: t) :
    ∃ rs, tails b = some rs ∧ List.Forall₂ ByteRange.Has rs t := by
  have hv : c.val.toNat.isValidChar := c.valid
  unfold Nat.isValidChar at hv
  unfold String.utf8EncodeChar at h
  dsimp only at h
  generalize c.val.toNat = v at h hv
  split at h
  · obtain ⟨rfl, rfl⟩ := List.cons.inj h
    refine ⟨[], ?_, .nil⟩
    have hb : (UInt8.ofNat v).toNat = v := by simp; omega
    simp only [tails, hb]
    rw [if_pos (by omega)]
  · split at h
    · obtain ⟨rfl, rfl⟩ := List.cons.inj h
      have hb : (UInt8.ofNat (v / 64 % 0x20 + 0xc0)).toNat = v / 64 + 0xc0 := by simp; omega
      have hc : (UInt8.ofNat (v % 0x40 + 0x80)).toNat = v % 0x40 + 0x80 := by simp; omega
      refine ⟨[continuation], ?_, .cons ?_ .nil⟩
      · simp only [tails, hb]
        rw [if_neg (by omega), if_neg (by omega), if_pos (by omega)]
      · simp only [ByteRange.Has, continuation, hc]; omega
    · split at h
      · obtain ⟨rfl, rfl⟩ := List.cons.inj h
        have hb : (UInt8.ofNat (v / 4096 % 0x10 + 0xe0)).toNat = v / 4096 + 0xe0 := by simp; omega
        have hc : (UInt8.ofNat (v / 64 % 0x40 + 0x80)).toNat = v / 64 % 0x40 + 0x80 := by
          simp; omega
        have hd : (UInt8.ofNat (v % 0x40 + 0x80)).toNat = v % 0x40 + 0x80 := by simp; omega
        simp only [tails, hb]
        rw [if_neg (by omega), if_neg (by omega), if_neg (by omega)]
        have hlast : continuation.Has (UInt8.ofNat (v % 0x40 + 0x80)) := by
          simp only [ByteRange.Has, continuation, hd]; omega
        by_cases h0 : v / 4096 + 0xe0 = 0xE0
        · rw [if_pos h0]
          refine ⟨_, rfl, .cons ?_ (.cons hlast .nil)⟩
          simp only [ByteRange.Has, hc]; omega
        · rw [if_neg h0]
          by_cases hD : v / 4096 + 0xe0 = 0xED
          · rw [if_pos hD]
            refine ⟨_, rfl, .cons ?_ (.cons hlast .nil)⟩
            simp only [ByteRange.Has, hc]; omega
          · rw [if_neg hD, if_pos (by omega)]
            refine ⟨_, rfl, .cons ?_ (.cons hlast .nil)⟩
            simp only [ByteRange.Has, continuation, hc]; omega
      · obtain ⟨rfl, rfl⟩ := List.cons.inj h
        have hb : (UInt8.ofNat (v / 262144 % 0x08 + 0xf0)).toNat = v / 262144 + 0xf0 := by
          simp; omega
        have hc : (UInt8.ofNat (v / 4096 % 0x40 + 0x80)).toNat = v / 4096 % 0x40 + 0x80 := by
          simp; omega
        have hd : (UInt8.ofNat (v / 64 % 0x40 + 0x80)).toNat = v / 64 % 0x40 + 0x80 := by
          simp; omega
        have he : (UInt8.ofNat (v % 0x40 + 0x80)).toNat = v % 0x40 + 0x80 := by simp; omega
        have hthird : continuation.Has (UInt8.ofNat (v / 64 % 0x40 + 0x80)) := by
          simp only [ByteRange.Has, continuation, hd]; omega
        have hlast : continuation.Has (UInt8.ofNat (v % 0x40 + 0x80)) := by
          simp only [ByteRange.Has, continuation, he]; omega
        simp only [tails, hb]
        rw [if_neg (by omega), if_neg (by omega), if_neg (by omega), if_neg (by omega),
          if_neg (by omega), if_neg (by omega)]
        by_cases h0 : v / 262144 + 0xf0 = 0xF0
        · rw [if_pos h0]
          refine ⟨_, rfl, .cons ?_ (.cons hthird (.cons hlast .nil))⟩
          simp only [ByteRange.Has, hc]; omega
        · rw [if_neg h0]
          by_cases h4 : v / 262144 + 0xf0 = 0xF4
          · rw [if_neg (by omega), if_pos h4]
            refine ⟨_, rfl, .cons ?_ (.cons hthird (.cons hlast .nil))⟩
            simp only [ByteRange.Has, hc]; omega
          · rw [if_pos (by omega)]
            refine ⟨_, rfl, .cons ?_ (.cons hthird (.cons hlast .nil))⟩
            simp only [ByteRange.Has, continuation, hc]; omega

/-- A scalar below 0x80 is its own encoding. -/
theorem encode_ascii {c : Char} (h : c.val.toNat < 0x80) :
    String.utf8EncodeChar c = [UInt8.ofNat c.val.toNat] := by
  unfold String.utf8EncodeChar
  dsimp only
  rw [if_pos (by omega)]

/-- Every byte of a longer encoding is at least 0x80. -/
theorem encode_high {c : Char} (h : 0x80 ≤ c.val.toNat) :
    ∀ b ∈ String.utf8EncodeChar c, 0x80 ≤ b.toNat := by
  have hv : c.val.toNat.isValidChar := c.valid
  unfold Nat.isValidChar at hv
  unfold String.utf8EncodeChar
  dsimp only
  generalize c.val.toNat = v at h hv
  rw [if_neg (by omega)]
  split
  · simp
    omega
  · split
    · simp
      omega
    · simp
      omega

theorem encode_one {a : UInt8} (h : a.toNat < 0x80) : ∃ c, String.utf8EncodeChar c = [a] := by
  obtain ⟨c, hc⟩ := exists_char (n := a.toNat) (by unfold Nat.isValidChar; omega)
  refine ⟨c, ?_⟩
  unfold String.utf8EncodeChar
  dsimp only
  rw [hc, if_pos (by omega), byte_of_toNat rfl]

theorem encode_two {a b : UInt8} (ha : 0xC2 ≤ a.toNat) (ha' : a.toNat < 0xE0)
    (hb : continuation.Has b) : ∃ c, String.utf8EncodeChar c = [a, b] := by
  simp only [ByteRange.Has, continuation] at hb
  obtain ⟨c, hc⟩ := exists_char (n := (a.toNat - 0xC0) * 64 + (b.toNat - 0x80))
    (by unfold Nat.isValidChar; omega)
  refine ⟨c, ?_⟩
  unfold String.utf8EncodeChar
  dsimp only
  rw [hc, if_neg (by omega), if_pos (by omega),
    byte_of_toNat (b := a) (by omega), byte_of_toNat (b := b) (by omega)]

theorem encode_three {a b d : UInt8} (ha : 0xE0 ≤ a.toNat) (ha' : a.toNat < 0xF0)
    (hb : continuation.Has b) (hd : continuation.Has d)
    (hlow : a.toNat = 0xE0 → 0xA0 ≤ b.toNat) (hsur : a.toNat = 0xED → b.toNat ≤ 0x9F) :
    ∃ c, String.utf8EncodeChar c = [a, b, d] := by
  simp only [ByteRange.Has, continuation] at hb hd
  obtain ⟨c, hc⟩ := exists_char
    (n := (a.toNat - 0xE0) * 4096 + (b.toNat - 0x80) * 64 + (d.toNat - 0x80))
    (by unfold Nat.isValidChar; omega)
  refine ⟨c, ?_⟩
  unfold String.utf8EncodeChar
  dsimp only
  rw [hc, if_neg (by omega), if_neg (by omega), if_pos (by omega),
    byte_of_toNat (b := a) (by omega), byte_of_toNat (b := b) (by omega),
    byte_of_toNat (b := d) (by omega)]

theorem encode_four {a b d e : UInt8} (ha : 0xF0 ≤ a.toNat) (ha' : a.toNat ≤ 0xF4)
    (hb : continuation.Has b) (hd : continuation.Has d) (he : continuation.Has e)
    (hlow : a.toNat = 0xF0 → 0x90 ≤ b.toNat) (hhigh : a.toNat = 0xF4 → b.toNat ≤ 0x8F) :
    ∃ c, String.utf8EncodeChar c = [a, b, d, e] := by
  simp only [ByteRange.Has, continuation] at hb hd he
  obtain ⟨c, hc⟩ := exists_char
    (n := (a.toNat - 0xF0) * 262144 + (b.toNat - 0x80) * 4096 + (d.toNat - 0x80) * 64 +
      (e.toNat - 0x80)) (by unfold Nat.isValidChar; omega)
  refine ⟨c, ?_⟩
  unfold String.utf8EncodeChar
  dsimp only
  rw [hc, if_neg (by omega), if_neg (by omega), if_neg (by omega),
    byte_of_toNat (b := a) (by omega), byte_of_toNat (b := b) (by omega),
    byte_of_toNat (b := d) (by omega), byte_of_toNat (b := e) (by omega)]

/-- Text of single bytes. -/
theorem validUtf8_ascii {s : List UInt8} (h : (s.all fun b => b.toNat < 0x80) = true) :
    ValidUtf8 s := by
  induction s with
  | nil => exact ⟨[], rfl⟩
  | cons b s ih =>
    rw [List.all_cons, Bool.and_eq_true, decide_eq_true_eq] at h
    obtain ⟨cs, hcs⟩ := ih h.2
    obtain ⟨c, hc⟩ := encode_one h.1
    refine ⟨c :: cs, ?_⟩
    rw [List.flatMap_cons, hc, ← hcs]
    rfl

/-- Bytes that follow the table encode a scalar. -/
theorem encode_of_tails {b : UInt8} {t : List UInt8} {rs : List ByteRange}
    (h : tails b = some rs) (ht : List.Forall₂ ByteRange.Has rs t) :
    ∃ c, String.utf8EncodeChar c = b :: t := by
  unfold tails at h
  dsimp only at h
  have hwide : ∀ {r : ByteRange} {x : UInt8}, r.Has x → 0x80 ≤ r.1 → r.2 ≤ 0xBF →
      continuation.Has x := by
    intro r x hx h1 h2
    simp only [ByteRange.Has, continuation] at hx ⊢
    omega
  split at h
  · next h1 =>
    obtain rfl := Option.some.inj h
    cases ht
    exact encode_one h1
  split at h
  · cases h
  split at h
  · obtain rfl := Option.some.inj h
    cases ht with | cons hb ht =>
    cases ht
    exact encode_two (by omega) (by omega) hb
  split at h
  · obtain rfl := Option.some.inj h
    cases ht with | cons hb ht =>
    cases ht with | cons hd ht =>
    cases ht
    exact encode_three (by omega) (by omega) (hwide hb (by decide) (by decide)) hd
      (fun _ => hb.1) (by omega)
  split at h
  · obtain rfl := Option.some.inj h
    cases ht with | cons hb ht =>
    cases ht with | cons hd ht =>
    cases ht
    exact encode_three (by omega) (by omega) (hwide hb (by decide) (by decide)) hd
      (by omega) (fun _ => hb.2)
  split at h
  · obtain rfl := Option.some.inj h
    cases ht with | cons hb ht =>
    cases ht with | cons hd ht =>
    cases ht
    exact encode_three (by omega) (by omega) hb hd (by omega) (by omega)
  split at h
  · obtain rfl := Option.some.inj h
    cases ht with | cons hb ht =>
    cases ht with | cons hd ht =>
    cases ht with | cons he ht =>
    cases ht
    exact encode_four (by omega) (by omega) (hwide hb (by decide) (by decide)) hd he
      (fun _ => hb.1) (by omega)
  split at h
  · obtain rfl := Option.some.inj h
    cases ht with | cons hb ht =>
    cases ht with | cons hd ht =>
    cases ht with | cons he ht =>
    cases ht
    exact encode_four (by omega) (by omega) hb hd he (by omega) (by omega)
  split at h
  · obtain rfl := Option.some.inj h
    cases ht with | cons hb ht =>
    cases ht with | cons hd ht =>
    cases ht with | cons he ht =>
    cases ht
    exact encode_four (by omega) (by omega) (hwide hb (by decide) (by decide)) hd he
      (by omega) (fun _ => hb.2)
  · cases h

/-- What may follow once the ranges `owed` have to be met first. -/
def Continues : Option (List ByteRange) → List UInt8 → Prop
  | none, _ => False
  | some rs, s => ∃ t u, s = t ++ u ∧ List.Forall₂ ByteRange.Has rs t ∧ ValidUtf8 u

theorem validUtf8_nil : ValidUtf8 [] := ⟨[], rfl⟩

theorem continues_nil (rs : List ByteRange) : Continues (some rs) [] ↔ rs = [] := by
  constructor
  · rintro ⟨t, u, hs, ht, _⟩
    obtain ⟨rfl, rfl⟩ := List.append_eq_nil_iff.mp hs.symm
    cases ht
    rfl
  · rintro rfl
    exact ⟨[], [], rfl, .nil, validUtf8_nil⟩

/-- Between scalars the next byte is a leading byte. -/
theorem continues_start (b : UInt8) (s : List UInt8) :
    Continues (some []) (b :: s) ↔ Continues (tails b) s := by
  constructor
  · rintro ⟨t, u, hs, ht, cs, rfl⟩
    cases ht
    rw [List.nil_append] at hs
    cases cs with
    | nil => simp at hs
    | cons c cs =>
      rw [List.flatMap_cons] at hs
      cases he : String.utf8EncodeChar c with
      | nil =>
        have hl := String.length_utf8EncodeChar c
        rw [he] at hl
        have hp := Char.utf8Size_pos c
        simp at hl
        omega
      | cons b' t =>
        obtain ⟨rs, hr, hf⟩ := tails_of_encode he
        rw [he, List.cons_append] at hs
        obtain ⟨rfl, rfl⟩ := List.cons.inj hs
        rw [hr]
        exact ⟨t, _, rfl, hf, cs, rfl⟩
  · intro h
    cases hr : tails b with
    | none =>
      rw [hr] at h
      exact h.elim
    | some rs =>
      rw [hr] at h
      obtain ⟨t, u, rfl, hf, cs, rfl⟩ := h
      obtain ⟨c, hc⟩ := encode_of_tails hr hf
      refine ⟨[], _, rfl, .nil, c :: cs, ?_⟩
      rw [List.flatMap_cons, hc]
      rfl

theorem continues_owed (r : ByteRange) (rs : List ByteRange) (b : UInt8) (s : List UInt8) :
    Continues (some (r :: rs)) (b :: s) ↔ Continues (if r.Has b then some rs else none) s := by
  constructor
  · rintro ⟨t, u, hs, ht, hu⟩
    cases ht with | @cons _ x _ t hb ht =>
    rw [List.cons_append] at hs
    obtain ⟨rfl, rfl⟩ := List.cons.inj hs
    rw [if_pos hb]
    exact ⟨t, u, rfl, ht, hu⟩
  · intro h
    split at h
    · next hb =>
      obtain ⟨t, u, rfl, ht, hu⟩ := h
      exact ⟨b :: t, u, rfl, .cons hb ht, hu⟩
    · exact h.elim

/-- A decoder whose states only remember what is owed accepts the valid strings. -/
theorem accepts_iff {Q : Type} (next : Q → UInt8 → Q) (owed : Q → Option (List ByteRange))
    (hdead : ∀ q b, owed q = none → owed (next q b) = none)
    (hstart : ∀ q b, owed q = some [] → owed (next q b) = tails b)
    (hnext : ∀ q b r rs, owed q = some (r :: rs) →
      owed (next q b) = if r.Has b then some rs else none)
    (s : List UInt8) (q : Q) : owed (s.foldl next q) = some [] ↔ Continues (owed q) s := by
  induction s generalizing q with
  | nil =>
    rw [List.foldl_nil]
    cases hq : owed q with
    | none => simp [Continues]
    | some rs => rw [continues_nil, Option.some.injEq]
  | cons b s ih =>
    rw [List.foldl_cons, ih]
    cases hq : owed q with
    | none => rw [hdead q b hq]; exact Iff.rfl
    | some rs =>
      cases rs with
      | nil => rw [hstart q b hq, continues_start]
      | cons r rs => rw [hnext q b r rs hq, continues_owed]

theorem continues_valid (s : List UInt8) : Continues (some []) s ↔ ValidUtf8 s := by
  constructor
  · rintro ⟨t, u, rfl, ht, hu⟩
    cases ht
    exact hu
  · intro h
    exact ⟨[], s, rfl, .nil, h⟩

end JudgeServer.Lib.Utf8
