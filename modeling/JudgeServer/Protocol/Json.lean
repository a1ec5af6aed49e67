import JudgeServer.Common.SubmissionTypes
import JudgeServer.Lib.Utf8
import JudgeServer.Lib.Decimal

/-!
# JSON values and their serialisation

The part of the vendored `json.hpp` that the protocol uses: the value type, object
construction in key order, and `dump()` with its default arguments (no indentation,
`ensure_ascii` off, the strict error handler). The number types are those of
`basic_json`; the floating-point type is a parameter, as it is there. The encoders
build no floating-point number, so `dump` is written for an empty one.
-/

namespace JudgeServer.Protocol

open JudgeServer.Lib.Utf8
open JudgeServer.Lib.Decimal

/-- `basic_json` without binary values. Objects are kept in the order of `std::map`. -/
inductive Json (φ : Type) where
  | null
  | boolean (value : Bool)
  | numberInteger (value : Int)
  | numberUnsigned (value : Nat)
  | numberFloat (value : φ)
  | string (value : Bytes)
  | array (elements : List (Json φ))
  | object (fields : List (Bytes × Json φ))

namespace Json

variable {φ : Type}

/-- `std::map::emplace`: an existing key keeps its value. -/
def emplace (key : Bytes) (value : Json φ) : List (Bytes × Json φ) → List (Bytes × Json φ)
  | [] => [(key, value)]
  | f :: fields =>
      if key < f.1 then (key, value) :: f :: fields
      else if key = f.1 then f :: fields
      else f :: emplace key value fields

/-- An object from a list of key and value pairs. -/
def ofFields (fields : List (Bytes × Json φ)) : Json φ :=
  .object (fields.foldl (fun m f => emplace f.1 f.2 m) [])

/-- `j[key].push_back(value)` on an object whose field is an array. -/
def pushBack (j : Json φ) (key : Bytes) (value : Json φ) : Json φ :=
  match j with
  | .object fields => .object (fields.map fun f =>
      if f.1 = key then
        match f.2 with
        | .array xs => (f.1, .array (xs ++ [value]))
        | other => (f.1, other)
      else f)
  | other => other

end Json

/-- `type_error` 316, thrown by the strict handler. -/
inductive JsonError where
  | invalidByte (index : Nat) (byte : UInt8)
  | incomplete (last : UInt8)
  deriving DecidableEq, Repr

def utf8Accept : Nat := 0
def utf8Reject : Nat := 1

/-- The byte classes of the decoder, then one row of 16 transitions for each state. -/
def utf8d : List Nat :=
  [0, 0, 0, 0, 0, 0, 0, 0, 0, 0, 0, 0, 0, 0, 0, 0, 0, 0, 0, 0, 0, 0, 0, 0, 0, 0, 0, 0, 0, 0, 0, 0,
   0, 0, 0, 0, 0, 0, 0, 0, 0, 0, 0, 0, 0, 0, 0, 0, 0, 0, 0, 0, 0, 0, 0, 0, 0, 0, 0, 0, 0, 0, 0, 0,
   0, 0, 0, 0, 0, 0, 0, 0, 0, 0, 0, 0, 0, 0, 0, 0, 0, 0, 0, 0, 0, 0, 0, 0, 0, 0, 0, 0, 0, 0, 0, 0,
   0, 0, 0, 0, 0, 0, 0, 0, 0, 0, 0, 0, 0, 0, 0, 0, 0, 0, 0, 0, 0, 0, 0, 0, 0, 0, 0, 0, 0, 0, 0, 0,
   1, 1, 1, 1, 1, 1, 1, 1, 1, 1, 1, 1, 1, 1, 1, 1, 9, 9, 9, 9, 9, 9, 9, 9, 9, 9, 9, 9, 9, 9, 9, 9,
   7, 7, 7, 7, 7, 7, 7, 7, 7, 7, 7, 7, 7, 7, 7, 7, 7, 7, 7, 7, 7, 7, 7, 7, 7, 7, 7, 7, 7, 7, 7, 7,
   8, 8, 2, 2, 2, 2, 2, 2, 2, 2, 2, 2, 2, 2, 2, 2, 2, 2, 2, 2, 2, 2, 2, 2, 2, 2, 2, 2, 2, 2, 2, 2,
   0xA, 0x3, 0x3, 0x3, 0x3, 0x3, 0x3, 0x3, 0x3, 0x3, 0x3, 0x3, 0x3, 0x4, 0x3, 0x3,
   0xB, 0x6, 0x6, 0x6, 0x5, 0x8, 0x8, 0x8, 0x8, 0x8, 0x8, 0x8, 0x8, 0x8, 0x8, 0x8,
   0x0, 0x1, 0x2, 0x3, 0x5, 0x8, 0x7, 0x1, 0x1, 0x1, 0x4, 0x6, 0x1, 0x1, 0x1, 0x1,
   1, 1, 1, 1, 1, 1, 1, 1, 1, 1, 1, 1, 1, 1, 1, 1, 1, 0, 1, 1, 1, 1, 1, 0, 1, 0, 1, 1, 1, 1, 1, 1,
   1, 2, 1, 1, 1, 1, 1, 2, 1, 2, 1, 1, 1, 1, 1, 1, 1, 1, 1, 1, 1, 1, 1, 2, 1, 1, 1, 1, 1, 1, 1, 1,
   1, 2, 1, 1, 1, 1, 1, 1, 1, 2, 1, 1, 1, 1, 1, 1, 1, 1, 1, 1, 1, 1, 1, 3, 1, 3, 1, 1, 1, 1, 1, 1,
   1, 3, 1, 1, 1, 1, 1, 3, 1, 3, 1, 1, 1, 1, 1, 1, 1, 3, 1, 1, 1, 1, 1, 1, 1, 1, 1, 1, 1, 1, 1, 1]

def byteType (byte : UInt8) : Nat := utf8d.getD byte.toNat utf8Reject

/-- The state half of `decode`. -/
def nextState (state : Nat) (byte : UInt8) : Nat :=
  utf8d.getD (256 + state * 16 + byteType byte) utf8Reject

/-- The code point half of `decode`, on 32 bits. -/
def nextCodepoint (state codep : Nat) (byte : UInt8) : Nat :=
  if state ≠ utf8Accept then ((byte.toNat &&& 0x3f) ||| (codep <<< 6)) % 2 ^ 32
  else (0xFF >>> byteType byte) &&& byte.toNat

def hexDigit (n : Nat) : UInt8 := if n < 10 then (48 + n).toUInt8 else (87 + n).toUInt8

/-- `snprintf` with the format `\u%04x`. -/
def unicodeEscape (n : Nat) : Bytes :=
  ascii "\\u" ++ [hexDigit (n / 4096 % 16), hexDigit (n / 256 % 16), hexDigit (n / 16 % 16),
    hexDigit (n % 16)]

/-- What an accepted code point adds to the output; the earlier bytes of a longer
sequence are already there. -/
def escape (codepoint : Nat) (byte : UInt8) : Bytes :=
  if codepoint = 0x08 then ascii "\\b"
  else if codepoint = 0x09 then ascii "\\t"
  else if codepoint = 0x0A then ascii "\\n"
  else if codepoint = 0x0C then ascii "\\f"
  else if codepoint = 0x0D then ascii "\\r"
  else if codepoint = 0x22 then ascii "\\\""
  else if codepoint = 0x5C then ascii "\\\\"
  else if codepoint ≤ 0x1F then unicodeEscape codepoint
  else [byte]

/-- The variables of `dump_escaped`'s loop. -/
structure Escaper where
  index : Nat := 0
  state : Nat := utf8Accept
  codepoint : Nat := 0
  written : Bytes := []

def Escaper.feed (e : Escaper) (byte : UInt8) : Except JsonError Escaper :=
  let state := nextState e.state byte
  let codepoint := nextCodepoint e.state e.codepoint byte
  if state = utf8Accept then .ok ⟨e.index + 1, state, codepoint, e.written ++ escape codepoint byte⟩
  else if state = utf8Reject then .error (.invalidByte e.index byte)
  else .ok ⟨e.index + 1, state, codepoint, e.written ++ [byte]⟩

def dumpEscaped (s : Bytes) : Except JsonError Bytes := do
  let e ← s.foldlM Escaper.feed {}
  if e.state = utf8Accept then .ok e.written else .error (.incomplete (s.getLastD 0))

/-- A string with its quotes. -/
def dumpString (s : Bytes) : Except JsonError Bytes := do
  let body ← dumpEscaped s
  .ok (ascii "\"" ++ body ++ ascii "\"")

mutual

def dump : Json Empty → Except JsonError Bytes
  | .null => .ok (ascii "null")
  | .boolean value => .ok (if value then ascii "true" else ascii "false")
  | .numberInteger value => .ok (decimalInt value)
  | .numberUnsigned value => .ok (decimal value)
  | .string value => dumpString value
  | .array elements => do
      let body ← dumpElements elements
      .ok (ascii "[" ++ body ++ ascii "]")
  | .object fields => do
      let body ← dumpFields fields
      .ok (ascii "\x7b" ++ body ++ ascii "\x7d")

def dumpElements : List (Json Empty) → Except JsonError Bytes
  | [] => .ok []
  | [x] => dump x
  | x :: y :: rest => do
      let first ← dump x
      let others ← dumpElements (y :: rest)
      .ok (first ++ ascii "," ++ others)

def dumpFields : List (Bytes × Json Empty) → Except JsonError Bytes
  | [] => .ok []
  | [f] => do
      let key ← dumpString f.1
      let value ← dump f.2
      .ok (key ++ ascii ":" ++ value)
  | f :: g :: rest => do
      let key ← dumpString f.1
      let value ← dump f.2
      let others ← dumpFields (g :: rest)
      .ok (key ++ ascii ":" ++ value ++ ascii "," ++ others)

end

end JudgeServer.Protocol
