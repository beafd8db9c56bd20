import Cando.Core.Number
import Cando.Lib.JsonText

/-!
# The JSON parser

`json.parse` of `lib/json.c`. Each container that the parser makes is new and goes to its parent once, so what
a value reaches is a tree. A failed parse stops at its first error. The functions that call each other take
the depth of the calls as fuel; `JError.fuel` stands for running out of it.
-/

namespace Cando

open JsonText

/-- A `JParser`: the position, and what is left of the source behind it. -/
structure JParser where
  pos : Nat
  rest : Str
  deriving DecidableEq, Repr

/-- The text of an error, or no more fuel. -/
inductive JError where
  | text (msg : Str)
  | fuel
  deriving DecidableEq, Repr

namespace JParser

/-- `p->pos += n`. -/
def skip (p : JParser) (n : Nat) : JParser := ⟨p.pos + n, p.rest.drop n⟩

/-- Past the bytes that satisfy a predicate. -/
def skipWhile (p : JParser) (q : UInt8 → Bool) : JParser := p.skip (p.rest.takeWhile q).length

/-- The byte at hand satisfies a predicate. -/
def at? (p : JParser) (q : UInt8 → Bool) : Bool :=
  match p.rest with
  | [] => false
  | c :: _ => q c

end JParser

/-- `jp_error`. -/
def jpError {α : Type} (p : JParser) (msg : String) : Except JError α :=
  .error (.text (bytes s!"{msg} (at offset {p.pos})"))

def jpSkipWs (p : JParser) : JParser := p.skipWhile isWs

/-- `jp_match`. -/
def jpMatch (p : JParser) (lit : Str) : Option JParser :=
  if p.rest.take lit.length = lit then some (p.skip lit.length) else none

/-- UTF-8 of a code point, and the same scheme on a surrogate. -/
def utf8Bytes (cp : Nat) : Str :=
  if cp < 0x80 then [UInt8.ofNat cp]
  else if cp < 0x800 then [UInt8.ofNat (0xC0 ||| cp >>> 6), UInt8.ofNat (0x80 ||| cp &&& 0x3F)]
  else if cp < 0x10000 then
    [UInt8.ofNat (0xE0 ||| cp >>> 12), UInt8.ofNat (0x80 ||| cp >>> 6 &&& 0x3F),
      UInt8.ofNat (0x80 ||| cp &&& 0x3F)]
  else
    [UInt8.ofNat (0xF0 ||| cp >>> 18), UInt8.ofNat (0x80 ||| cp >>> 12 &&& 0x3F),
      UInt8.ofNat (0x80 ||| cp >>> 6 &&& 0x3F), UInt8.ofNat (0x80 ||| cp &&& 0x3F)]

/-- The low half that follows a high surrogate. -/
def jpLowSurrogate (p : JParser) (cp : Nat) : Except JError (Nat × JParser) :=
  if 6 ≤ p.rest.length ∧ p.rest.take 2 = [backslash, letterU] then
    let p := p.skip 2
    match hex4 (p.rest.take 4) with
    | none => jpError p "invalid hex digit in surrogate"
    | some low =>
      let p := p.skip 4
      if isLow low then .ok (0x10000 + (cp - 0xD800) <<< 10 + (low - 0xDC00), p)
      else jpError p "invalid surrogate pair"
  else jpError p "unpaired high surrogate"

/-- `jp_decode_unicode`: the bytes of a `\u` escape, from behind its `u`. -/
def jpDecodeUnicode (p : JParser) : Except JError (Str × JParser) :=
  if p.rest.length < 4 then jpError p "truncated \\u escape"
  else
    match hex4 (p.rest.take 4) with
    | none => jpError p "invalid hex digit in \\u escape"
    | some cp =>
      let p := p.skip 4
      if isHigh cp then
        match jpLowSurrogate p cp with
        | .ok (cp, p) => .ok (utf8Bytes cp, p)
        | .error e => .error e
      else .ok (utf8Bytes cp, p)

/-- An escape, from behind its backslash: the bytes that it appends. -/
def jpEscape (p : JParser) : Except JError (Str × JParser) :=
  match p.rest with
  | [] => jpError p "unexpected end of string escape"
  | esc :: _ =>
    match simpleEscape esc with
    | some b => .ok ([b], p.skip 1)
    | none => if esc = letterU then jpDecodeUnicode (p.skip 1) else jpError (p.skip 1) "invalid escape sequence"

/-- The loop of `jp_parse_string`. The end of the source ends it as well. -/
def jpStringLoop : (fuel : Nat) → JParser → Str → Except JError (Str × JParser)
  | 0, _, _ => .error .fuel
  | fuel + 1, p, buf =>
    match p.rest with
    | [] => .ok (buf, p)
    | c :: _ =>
      if c = quote then .ok (buf, p.skip 1)
      else if c = backslash then
        match jpEscape (p.skip 1) with
        | .ok (bs, p) => jpStringLoop fuel p (buf ++ bs)
        | .error e => .error e
      else if c < 0x20 then jpError p "unescaped control character in string"
      else jpStringLoop fuel (p.skip 1) (buf ++ [c])

/-- `jp_parse_string`. -/
def jpParseString (p : JParser) : Except JError (Str × JParser) :=
  if p.at? (· == quote) then jpStringLoop (p.rest.length + 1) (p.skip 1) []
  else jpError p "expected '\"'"

/-- One or more digits. -/
def jpDigits (p : JParser) (msg : String) : Except JError JParser :=
  if p.at? isDigit then .ok (p.skipWhile isDigit) else jpError p msg

def jpIntPart (p : JParser) : Except JError JParser :=
  if !p.at? isDigit then jpError p "invalid number: expected digit"
  else if p.at? (· == zero) then .ok (p.skip 1)
  else .ok (p.skipWhile isDigit)

def jpFracPart (p : JParser) : Except JError JParser :=
  if p.at? (· == point) then jpDigits (p.skip 1) "expected digit after decimal point" else .ok p

/-- The optional sign of an exponent. -/
def jpSign (p : JParser) : JParser := if p.at? (fun c => c == plus || c == minus) then p.skip 1 else p

def jpExpPart (p : JParser) : Except JError JParser :=
  if p.at? isExp then jpDigits (jpSign (p.skip 1)) "expected digit in exponent" else .ok p

/-- The optional minus of a number. -/
def jpMinus (p : JParser) : JParser := if p.at? (· == minus) then p.skip 1 else p

/-- The end of a numeral. -/
def jpNumberEnd (p : JParser) : Except JError JParser :=
  (jpIntPart (jpMinus p)).bind fun p => (jpFracPart p).bind jpExpPart

section Values

variable {ν : Type} [F64 ν]

/-- `jp_parse_number`. The numeral has to fit a buffer of 64 bytes. -/
def jpParseNumber (p : JParser) : Except JError (ν × JParser) :=
  match jpNumberEnd p with
  | .error e => .error e
  | .ok q =>
    let numLen := q.pos - p.pos
    if numLen ≥ 64 then jpError q "number literal too long"
    else .ok (F64.strtod (p.rest.take numLen), q)

/-- A literal of `jp_parse_value`. -/
def jpLiteral (p : JParser) (lit : Str) (v : Json ν) : Except JError (Json ν × JParser) :=
  match jpMatch p lit with
  | some p => .ok (v, p)
  | none => jpError p "invalid token"

mutual

/-- `jp_parse_value`. -/
def jpParseValue : (fuel : Nat) → JParser → Except JError (Json ν × JParser)
  | 0, _ => .error .fuel
  | fuel + 1, p =>
    let p := jpSkipWs p
    match p.rest with
    | [] => jpError p "unexpected end of input"
    | c :: _ =>
      if c = quote then (jpParseString p).map fun x => (.string x.1, x.2)
      else if c = openBracket then
        let p := jpSkipWs (p.skip 1)
        if p.at? (· == closeBracket) then .ok (.array [], p.skip 1)
        else (jpArrayLoop fuel p).map fun x => (.array x.1, x.2)
      else if c = openBrace then
        let p := jpSkipWs (p.skip 1)
        if p.at? (· == closeBrace) then .ok (.object [], p.skip 1)
        else (jpObjectLoop fuel p []).map fun x => (.object x.1, x.2)
      else if c = 116 then jpLiteral p trueText (.bool true)
      else if c = 102 then jpLiteral p falseText (.bool false)
      else if c = 110 then jpLiteral p nullText .null
      else if c = minus ∨ isDigit c then (jpParseNumber p).map fun x => (.number x.1, x.2)
      else jpError p "unexpected character"

/-- The loop of `jp_parse_array`: the elements from here on. -/
def jpArrayLoop : (fuel : Nat) → JParser → Except JError (List (Json ν) × JParser)
  | 0, _ => .error .fuel
  | fuel + 1, p =>
    match jpParseValue fuel (jpSkipWs p) with
    | .error e => .error e
    | .ok (elem, p) =>
      let p := jpSkipWs p
      match p.rest with
      | [] => jpError p "unterminated array"
      | c :: _ =>
        if c = closeBracket then .ok ([elem], p.skip 1)
        else if c = comma then (jpArrayLoop fuel (p.skip 1)).map fun x => (elem :: x.1, x.2)
        else jpError p "expected ',' or ']' in array"

/-- The loop of `jp_parse_object`: the fields are set one after the other. -/
def jpObjectLoop : (fuel : Nat) → JParser → List (Str × Json ν) →
    Except JError (List (Str × Json ν) × JParser)
  | 0, _, _ => .error .fuel
  | fuel + 1, p, fields =>
    let p := jpSkipWs p
    if !p.at? (· == quote) then jpError p "expected string key in object"
    else
      match jpParseString p with
      | .error e => .error e
      | .ok (key, p) =>
        let p := jpSkipWs p
        if !p.at? (· == colon) then jpError p "expected ':' after object key"
        else
          match jpParseValue fuel (jpSkipWs (p.skip 1)) with
          | .error e => .error e
          | .ok (val, p) =>
            let fields := OrderedMap.insert fields key val
            let p := jpSkipWs p
            match p.rest with
            | [] => jpError p "unterminated object"
            | c :: _ =>
              if c = closeBrace then .ok (fields, p.skip 1)
              else if c = comma then jpObjectLoop fuel (p.skip 1) fields
              else jpError p "expected ',' or '\x7d' in object"

end

/-- `json_parse` on a string: the value, or the error that it raises. Nothing looks at what follows the
value. -/
def jsonParse (t : Str) : Except JError (Json ν) :=
  match jpParseValue (2 * t.length + 2) ⟨0, t⟩ with
  | .ok (v, _) => .ok v
  | .error (.text msg) => .error (.text (bytes "json.parse: " ++ msg))
  | .error .fuel => .error .fuel

end Values

end Cando
