import JudgeServer.Lib.Utf8
import JudgeServer.Lib.Decimal

/-!
# Strings and numbers of RFC 8259

The lexical productions of JSON that are not constants. A string is a sequence of Unicode
scalar values, each written as itself or as an escape; a number is an integer part with an
optional fraction and an optional exponent.
-/

namespace JudgeServer.Lib.JsonText

open JudgeServer.Lib.Utf8
open JudgeServer.Lib.Decimal

/-- `HEXDIG`, in either case. -/
def HexDigit (b : UInt8) (n : Nat) : Prop :=
  (48 ≤ b.toNat ∧ b.toNat ≤ 57 ∧ n = b.toNat - 48) ∨
  (65 ≤ b.toNat ∧ b.toNat ≤ 70 ∧ n = b.toNat - 55) ∨
  (97 ≤ b.toNat ∧ b.toNat ≤ 102 ∧ n = b.toNat - 87)

/-- `4HEXDIG`. -/
def Hex4 (s : List UInt8) (n : Nat) : Prop :=
  ∃ a b c d w x y z, s = [a, b, c, d] ∧ HexDigit a w ∧ HexDigit b x ∧ HexDigit c y ∧
    HexDigit d z ∧ n = w * 4096 + x * 256 + y * 16 + z

/-- The escapes of two characters, with what they stand for. -/
def shortEscapes : List (UInt8 × UInt8) :=
  [(34, 34), (92, 92), (47, 47), (98, 8), (102, 12), (110, 10), (114, 13), (116, 9)]

theorem shortEscapes_ascii : ∀ p ∈ shortEscapes, p.2.toNat < 0x80 := by
  simp [shortEscapes]

/-- One scalar value of a string and a way to write it. -/
inductive StringChar : List UInt8 → Char → Prop
  | unescaped {c : Char} (control : 0x20 ≤ c.val.toNat) (quote : c.val.toNat ≠ 34)
      (backslash : c.val.toNat ≠ 92) : StringChar (String.utf8EncodeChar c) c
  | short {a b : UInt8} {c : Char} (h : (a, b) ∈ shortEscapes) (hc : c.val.toNat = b.toNat) :
      StringChar [92, a] c
  | unicode {s : List UInt8} {c : Char} (h : Hex4 s c.val.toNat) : StringChar (92 :: 117 :: s) c
  | pair {s t : List UInt8} {high low : Nat} {c : Char} (hs : Hex4 s high) (ht : Hex4 t low)
      (hhigh : 0xD800 ≤ high ∧ high ≤ 0xDBFF) (hlow : 0xDC00 ≤ low ∧ low ≤ 0xDFFF)
      (hc : c.val.toNat = 0x10000 + (high - 0xD800) * 0x400 + (low - 0xDC00)) :
      StringChar (92 :: 117 :: (s ++ 92 :: 117 :: t)) c

/-- What stands between the quotation marks. -/
inductive StringBody : List UInt8 → List Char → Prop
  | nil : StringBody [] []
  | cons {s t : List UInt8} {c : Char} {cs : List Char} (h : StringChar s c)
      (rest : StringBody t cs) : StringBody (s ++ t) (c :: cs)

/-- The scalar values of a string in UTF-8. -/
def encoded (cs : List Char) : List UInt8 := cs.flatMap String.utf8EncodeChar

theorem validUtf8_encoded (cs : List Char) : ValidUtf8 (encoded cs) := ⟨cs, rfl⟩

/-- `exp`: the letter, the sign if there is one, and the digits. -/
structure Exponent where
  letter : UInt8
  sign : Option UInt8
  digits : List UInt8
  letter_e : letter = 101 ∨ letter = 69
  sign_mem : ∀ b ∈ sign, b = 43 ∨ b = 45
  all_digits : ∀ b ∈ digits, isDigit b = true
  digits_ne_nil : digits ≠ []

def Exponent.text (x : Exponent) : List UInt8 := x.letter :: (x.sign.toList ++ x.digits)

/-- `number = [ minus ] int [ frac ] [ exp ]`. -/
structure NumberText where
  minus : Bool
  int : List UInt8
  frac : Option (List UInt8)
  exp : Option Exponent
  int_digits : ∀ b ∈ int, isDigit b = true
  int_ne_nil : int ≠ []
  /-- There is no leading zero. -/
  int_leading : int.head? = some 48 → int = [48]
  frac_digits : ∀ ds ∈ frac, (∀ b ∈ ds, isDigit b = true) ∧ ds ≠ []

namespace NumberText

def fracText (n : NumberText) : List UInt8 := (n.frac.map fun ds => 46 :: ds).getD []

def expText (n : NumberText) : List UInt8 := (n.exp.map Exponent.text).getD []

def text (n : NumberText) : List UInt8 :=
  (if n.minus then [45] else []) ++ (n.int ++ (n.fracText ++ n.expText))

/-- The number is not longer than it is read: `b` does not continue it. -/
def Stops (n : NumberText) (b : UInt8) : Prop :=
  match n.exp, n.frac with
  | some _, _ => isDigit b = false
  | none, some _ => isDigit b = false ∧ b ≠ 101 ∧ b ≠ 69
  | none, none => b ≠ 46 ∧ b ≠ 101 ∧ b ≠ 69 ∧ (n.int ≠ [48] → isDigit b = false)

end NumberText

end JudgeServer.Lib.JsonText
