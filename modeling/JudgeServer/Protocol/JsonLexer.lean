import JudgeServer.Common.SubmissionTypes
import JudgeServer.Lib.Utf8
import JudgeServer.Lib.Decimal

/-!
# Scanning JSON text

The class `lexer` of the vendored `json.hpp`, with comments off: `scan` and the functions
it is made of. What is left of the input takes the place of the input adapter, so a byte
that was looked at and put back with `unget` is simply not taken. `std::strtod` is a
parameter that answers `none` for a value that is not finite; the locale's decimal point
is a dot.
-/

namespace JudgeServer.Protocol.Lexer

open JudgeServer.Lib.Utf8
open JudgeServer.Lib.Decimal

/-- What `error_message` can say. -/
inductive ScanError where
  | invalidBom
  | invalidLiteral
  | missingClosingQuote
  | fourHexDigits
  | highSurrogateAlone
  | lowSurrogateAlone
  | forbiddenAfterBackslash
  | controlCharacter (byte : UInt8)
  | illFormedUtf8
  | digitAfterMinus
  | digitAfterPoint
  | digitAfterExponent
  | digitAfterExponentSign
  deriving DecidableEq, Repr

/-- `token_type`, each with the value the getters of the lexer then return. -/
inductive Token (φ : Type) where
  | literalTrue
  | literalFalse
  | literalNull
  | valueString (value : Bytes)
  | valueUnsigned (value : Nat)
  | valueInteger (value : Int)
  | valueFloat (value : Option φ)
  | beginArray
  | beginObject
  | endArray
  | endObject
  | nameSeparator
  | valueSeparator
  | parseError (error : ScanError)
  | endOfInput
  deriving DecidableEq, Repr

/-- The value of a hexadecimal digit. -/
def hexValue (b : UInt8) : Option Nat :=
  if 48 ≤ b.toNat ∧ b.toNat ≤ 57 then some (b.toNat - 0x30)
  else if 65 ≤ b.toNat ∧ b.toNat ≤ 70 then some (b.toNat - 0x37)
  else if 97 ≤ b.toNat ∧ b.toNat ≤ 102 then some (b.toNat - 0x57)
  else none

/-- The four digits after `\u`; `none` stands for `-1`. -/
def getCodepoint : Bytes → Option (Nat × Bytes)
  | a :: b :: c :: d :: rest => do
      let a ← hexValue a
      let b ← hexValue b
      let c ← hexValue c
      let d ← hexValue d
      return (a * 0x1000 + b * 0x100 + c * 0x10 + d, rest)
  | _ => none

/-- The bytes after the first one of a longer sequence, if they are in their ranges. -/
def nextByteInRange : List ByteRange → Bytes → Option (Bytes × Bytes)
  | [], rest => some ([], rest)
  | _ :: _, [] => none
  | r :: rs, b :: rest =>
      if r.Has b then (nextByteInRange rs rest).map fun x => (b :: x.1, x.2) else none

/-- The cases of the switch from `0xC2` on, with the ranges they pass to
`next_byte_in_range`. -/
def sequenceRanges (b : UInt8) : Option (List ByteRange) :=
  let n := b.toNat
  if 0xC2 ≤ n ∧ n ≤ 0xDF then some [(0x80, 0xBF)]
  else if n = 0xE0 then some [(0xA0, 0xBF), (0x80, 0xBF)]
  else if (0xE1 ≤ n ∧ n ≤ 0xEC) ∨ n = 0xEE ∨ n = 0xEF then some [(0x80, 0xBF), (0x80, 0xBF)]
  else if n = 0xED then some [(0x80, 0x9F), (0x80, 0xBF)]
  else if n = 0xF0 then some [(0x90, 0xBF), (0x80, 0xBF), (0x80, 0xBF)]
  else if 0xF1 ≤ n ∧ n ≤ 0xF3 then some [(0x80, 0xBF), (0x80, 0xBF), (0x80, 0xBF)]
  else if n = 0xF4 then some [(0x80, 0x8F), (0x80, 0xBF), (0x80, 0xBF)]
  else none

/-- The translation of a code point into bytes. -/
def codepointBytes (codepoint : Nat) : Bytes :=
  if codepoint < 0x80 then [codepoint.toUInt8]
  else if codepoint ≤ 0x7FF then
    [(0xC0 ||| codepoint >>> 6).toUInt8, (0x80 ||| codepoint &&& 0x3F).toUInt8]
  else if codepoint ≤ 0xFFFF then
    [(0xE0 ||| codepoint >>> 12).toUInt8, (0x80 ||| (codepoint >>> 6) &&& 0x3F).toUInt8,
      (0x80 ||| codepoint &&& 0x3F).toUInt8]
  else
    [(0xF0 ||| codepoint >>> 18).toUInt8, (0x80 ||| (codepoint >>> 12) &&& 0x3F).toUInt8,
      (0x80 ||| (codepoint >>> 6) &&& 0x3F).toUInt8, (0x80 ||| codepoint &&& 0x3F).toUInt8]

/-- After `\u`: the bytes to add and the rest. -/
def scanUnicode (input : Bytes) : Except ScanError (Bytes × Bytes) :=
  match getCodepoint input with
  | none => .error .fourHexDigits
  | some (codepoint1, rest) =>
      if 0xD800 ≤ codepoint1 ∧ codepoint1 ≤ 0xDBFF then
        match rest with
        | 92 :: 117 :: rest =>
            match getCodepoint rest with
            | none => .error .fourHexDigits
            | some (codepoint2, rest) =>
                if 0xDC00 ≤ codepoint2 ∧ codepoint2 ≤ 0xDFFF then
                  .ok (codepointBytes (codepoint1 <<< 10 + codepoint2 - 0x35FDC00), rest)
                else .error .highSurrogateAlone
        | _ => .error .highSurrogateAlone
      else if 0xDC00 ≤ codepoint1 ∧ codepoint1 ≤ 0xDFFF then .error .lowSurrogateAlone
      else .ok (codepointBytes codepoint1, rest)

/-- After a backslash. -/
def scanEscape : Bytes → Except ScanError (Bytes × Bytes)
  | 34 :: rest => .ok ([34], rest)
  | 92 :: rest => .ok ([92], rest)
  | 47 :: rest => .ok ([47], rest)
  | 98 :: rest => .ok ([8], rest)
  | 102 :: rest => .ok ([12], rest)
  | 110 :: rest => .ok ([10], rest)
  | 114 :: rest => .ok ([13], rest)
  | 116 :: rest => .ok ([9], rest)
  | 117 :: rest => scanUnicode rest
  | _ => .error .forbiddenAfterBackslash

/-- A byte that starts neither an escape nor the closing quote. -/
def scanPlain (b : UInt8) (rest : Bytes) : Except ScanError (Bytes × Bytes) :=
  if b.toNat ≤ 0x1F then .error (.controlCharacter b)
  else if b.toNat ≤ 0x7F then .ok ([b], rest)
  else
    match sequenceRanges b with
    | none => .error .illFormedUtf8
    | some ranges =>
        match nextByteInRange ranges rest with
        | none => .error .illFormedUtf8
        | some (bytes, rest) => .ok (b :: bytes, rest)

/-- The outcome of one turn of the loop of `scan_string`. -/
inductive StringStep where
  | closed (rest : Bytes)
  | added (bytes rest : Bytes)
  deriving DecidableEq, Repr

def scanCharacter : Bytes → Except ScanError StringStep
  | [] => .error .missingClosingQuote
  | 34 :: rest => .ok (.closed rest)
  | 92 :: rest => (scanEscape rest).map fun x => .added x.1 x.2
  | b :: rest => (scanPlain b rest).map fun x => .added x.1 x.2

/-- The loop, with a bound on its turns that it never reaches; what it returns is the
token buffer and the rest of the input. -/
def scanString : Nat → Bytes → Bytes → Except ScanError (Bytes × Bytes)
  | 0, _, _ => .error .missingClosingQuote
  | fuel + 1, buffer, input =>
      match scanCharacter input with
      | .error e => .error e
      | .ok (.closed rest) => .ok (buffer, rest)
      | .ok (.added bytes rest) => scanString fuel (buffer ++ bytes) rest

/-- The labels of `scan_number`. -/
inductive NumberState where
  | minus | zero | any1 | decimal1 | decimal2 | exponent | sign | any2
  deriving DecidableEq, Repr

inductive NumberMove where
  | goto (state : NumberState)
  | done
  | error (error : ScanError)
  deriving DecidableEq, Repr

/-- The switch after each label; `none` is the end of the input. -/
def NumberState.move (state : NumberState) (b : Option UInt8) : NumberMove :=
  let digit := b.any isDigit
  let point := b = some 46
  let e := b = some 101 ∨ b = some 69
  match state with
  | .minus =>
      if b = some 48 then .goto .zero
      else if digit then .goto .any1
      else .error .digitAfterMinus
  | .zero =>
      if point then .goto .decimal1
      else if e then .goto .exponent
      else .done
  | .any1 =>
      if digit then .goto .any1
      else if point then .goto .decimal1
      else if e then .goto .exponent
      else .done
  | .decimal1 => if digit then .goto .decimal2 else .error .digitAfterPoint
  | .decimal2 =>
      if digit then .goto .decimal2
      else if e then .goto .exponent
      else .done
  | .exponent =>
      if b = some 43 ∨ b = some 45 then .goto .sign
      else if digit then .goto .any2
      else .error .digitAfterExponent
  | .sign => if digit then .goto .any2 else .error .digitAfterExponentSign
  | .any2 => if digit then .goto .any2 else .done

/-- `number_type`. -/
inductive NumberType where
  | valueUnsigned | valueInteger | valueFloat
  deriving DecidableEq, Repr

/-- The assignment to `number_type` at a label. -/
def NumberState.type (state : NumberState) (type : NumberType) : NumberType :=
  match state with
  | .minus => .valueInteger
  | .decimal1 | .exponent => .valueFloat
  | _ => type

/-- From a label on: the type, the token buffer and the rest. -/
def scanNumberFrom : NumberState → NumberType → Bytes → Bytes →
    Except ScanError (NumberType × Bytes × Bytes)
  | state, type, buffer, [] =>
      match state.move none with
      | .error e => .error e
      | _ => .ok (type, buffer, [])
  | state, type, buffer, b :: rest =>
      match state.move (some b) with
      | .goto state' => scanNumberFrom state' (state'.type type) (buffer ++ [b]) rest
      | .done => .ok (type, buffer, b :: rest)
      | .error e => .error e

/-- `std::strtoull`, `none` for `ERANGE`. -/
def strtoull (buffer : Bytes) : Option Nat := do
  let x ← readNumeral buffer
  if x.magnitude < 2 ^ 64 then some x.magnitude else none

/-- `std::strtoll`, `none` for `ERANGE`. -/
def strtoll (buffer : Bytes) : Option Int := do
  let x ← readNumeral buffer
  let v : Int := if x.negative then -x.magnitude else x.magnitude
  if -2 ^ 63 ≤ v ∧ v < 2 ^ 63 then some v else none

section Scan

variable {φ : Type} (strtod : Bytes → Option φ)

/-- Integers that are out of range become floating-point numbers. -/
def numberToken (type : NumberType) (buffer : Bytes) : Token φ :=
  match type with
  | .valueUnsigned =>
      match strtoull buffer with
      | some x => .valueUnsigned x
      | none => .valueFloat (strtod buffer)
  | .valueInteger =>
      match strtoll buffer with
      | some x => .valueInteger x
      | none => .valueFloat (strtod buffer)
  | .valueFloat => .valueFloat (strtod buffer)

/-- The label `scan_number` starts at. -/
def numberStart (b : UInt8) : NumberState :=
  if b = 45 then .minus else if b = 48 then .zero else .any1

def scanNumber (b : UInt8) (rest : Bytes) : Token φ × Bytes :=
  let state := numberStart b
  match scanNumberFrom state (state.type .valueUnsigned) [b] rest with
  | .error e => (.parseError e, [])
  | .ok (type, buffer, rest) => (numberToken strtod type buffer, rest)

def scanLiteral (literal : Bytes) (token : Token φ) (input : Bytes) : Token φ × Bytes :=
  if literal.isPrefixOf input then (token, input.drop literal.length)
  else (.parseError .invalidLiteral, [])

def isWhitespace (b : UInt8) : Bool := b = 32 || b = 9 || b = 10 || b = 13

def skipWhitespace (input : Bytes) : Bytes := input.dropWhile isWhitespace

/-- The switch of `scan`, white space skipped. -/
def scanToken : Bytes → Token φ × Bytes
  | [] => (.endOfInput, [])
  | b :: rest =>
      if b = 91 then (.beginArray, rest)
      else if b = 93 then (.endArray, rest)
      else if b = 123 then (.beginObject, rest)
      else if b = 125 then (.endObject, rest)
      else if b = 58 then (.nameSeparator, rest)
      else if b = 44 then (.valueSeparator, rest)
      else if b = 116 then scanLiteral (ascii "true") .literalTrue (b :: rest)
      else if b = 102 then scanLiteral (ascii "false") .literalFalse (b :: rest)
      else if b = 110 then scanLiteral (ascii "null") .literalNull (b :: rest)
      else if b = 34 then
        match scanString (rest.length + 1) [] rest with
        | .error e => (.parseError e, [])
        | .ok (value, rest) => (.valueString value, rest)
      else if b = 45 ∨ isDigit b then scanNumber strtod b rest
      else if b = 0 then (.endOfInput, rest)
      else (.parseError .invalidLiteral, [])

def scan (input : Bytes) : Token φ × Bytes := scanToken strtod (skipWhitespace input)

/-- What is left after the byte order mark; `none` if it is broken off. -/
def skipBom : Bytes → Option Bytes
  | 0xEF :: rest =>
      match rest with
      | 0xBB :: 0xBF :: rest => some rest
      | _ => none
  | input => some input

/-- The tokens `get_token` hands to the parser one after the other, up to the end of the
input, which is left out, or to the first error. Every other token takes a byte at least,
so the bound is never reached. -/
def tokensFrom : Nat → Bytes → List (Token φ)
  | 0, _ => []
  | fuel + 1, input =>
      match scan strtod input with
      | (.endOfInput, _) => []
      | (.parseError e, _) => [.parseError e]
      | (token, rest) => token :: tokensFrom fuel rest

def tokens (input : Bytes) : List (Token φ) :=
  match skipBom input with
  | none => [.parseError .invalidBom]
  | some rest => tokensFrom strtod (rest.length + 1) rest

end Scan

end JudgeServer.Protocol.Lexer
