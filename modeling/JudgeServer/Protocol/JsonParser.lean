import JudgeServer.Protocol.Json
import JudgeServer.Protocol.JsonLexer

/-!
# Parsing JSON text

`parser::parse` of the vendored `json.hpp` with `json_sax_dom_parser`. The loop of
`sax_parse_internal` keeps the arrays and objects it is inside of on a stack; a value that
is complete is handed to the innermost of them. An entry of the stack holds what the DOM
parser has put into the container so far, and for an object the key the next value
belongs to.
-/

namespace JudgeServer.Protocol.Parser

open JudgeServer.Protocol.Lexer

variable {φ : Type}

/-- What the parser was reading when it met an unexpected token; each context has one
expected token. -/
inductive Context where
  | value | objectKey | objectSeparator | array | object | endOfInput
  deriving DecidableEq, Repr

/-- `parse_error` 101 with the last token read, and `out_of_range` 406. -/
inductive ParseError (φ : Type) where
  | syntaxError (context : Context) (lastToken : Token φ)
  | numberOverflow
  deriving DecidableEq, Repr

/-- An element of `ref_stack`. -/
inductive Frame (φ : Type) where
  | array (elements : List (Json φ))
  | object (fields : List (Bytes × Json φ)) (key : Bytes)

/-- `(*object)[key] = value`. -/
def assign (key : Bytes) (value : Json φ) : List (Bytes × Json φ) → List (Bytes × Json φ)
  | [] => [(key, value)]
  | f :: fields =>
      if key < f.1 then (key, value) :: f :: fields
      else if key = f.1 then (key, value) :: fields
      else f :: assign key value fields

/-- The token `get_token` returns; past the last one the end of the input is read again. -/
def lastToken (ts : List (Token φ)) : Token φ := ts.head?.getD .endOfInput

mutual

/-- The switch over the token that starts a value. -/
def parseValue (stack : List (Frame φ)) :
    List (Token φ) → Except (ParseError φ) (Json φ × List (Token φ))
  | .beginObject :: .endObject :: ts => evaluateState stack (.object []) ts
  | .beginObject :: .valueString key :: .nameSeparator :: ts =>
      parseValue (.object [] key :: stack) ts
  | .beginObject :: .valueString _ :: ts => .error (.syntaxError .objectSeparator (lastToken ts))
  | .beginObject :: ts => .error (.syntaxError .objectKey (lastToken ts))
  | .beginArray :: .endArray :: ts => evaluateState stack (.array []) ts
  | .beginArray :: ts => parseValue (.array [] :: stack) ts
  | .valueFloat (some value) :: ts => evaluateState stack (.numberFloat value) ts
  | .valueFloat none :: _ => .error .numberOverflow
  | .literalFalse :: ts => evaluateState stack (.boolean false) ts
  | .literalNull :: ts => evaluateState stack .null ts
  | .literalTrue :: ts => evaluateState stack (.boolean true) ts
  | .valueInteger value :: ts => evaluateState stack (.numberInteger value) ts
  | .valueString value :: ts => evaluateState stack (.string value) ts
  | .valueUnsigned value :: ts => evaluateState stack (.numberUnsigned value) ts
  | ts => .error (.syntaxError .value (lastToken ts))

/-- The rest of the loop, after a value has been parsed. -/
def evaluateState (stack : List (Frame φ)) (value : Json φ) (ts : List (Token φ)) :
    Except (ParseError φ) (Json φ × List (Token φ)) :=
  match stack, ts with
  | [], ts => .ok (value, ts)
  | .array elements :: stack, .valueSeparator :: ts =>
      parseValue (.array (elements ++ [value]) :: stack) ts
  | .array elements :: stack, .endArray :: ts =>
      evaluateState stack (.array (elements ++ [value])) ts
  | .array _ :: _, ts => .error (.syntaxError .array (lastToken ts))
  | .object fields key :: stack, .valueSeparator :: .valueString key' :: .nameSeparator :: ts =>
      parseValue (.object (assign key value fields) key' :: stack) ts
  | .object _ _ :: _, .valueSeparator :: .valueString _ :: ts =>
      .error (.syntaxError .objectSeparator (lastToken ts))
  | .object _ _ :: _, .valueSeparator :: ts => .error (.syntaxError .objectKey (lastToken ts))
  | .object fields key :: stack, .endObject :: ts =>
      evaluateState stack (.object (assign key value fields)) ts
  | .object _ _ :: _, ts => .error (.syntaxError .object (lastToken ts))

end

/-- `json::parse`, which is strict: nothing but the end of the input may follow the value. -/
def parse (strtod : Bytes → Option φ) (payload : Bytes) : Except (ParseError φ) (Json φ) :=
  match parseValue [] (tokens strtod payload) with
  | .error e => .error e
  | .ok (value, []) => .ok value
  | .ok (_, ts) => .error (.syntaxError .endOfInput (lastToken ts))

end JudgeServer.Protocol.Parser
