import Cando.Core.Number
import Cando.Lib.JsonText

/-!
# The JSON writer

`json.stringify` of `lib/json.c` on trees. The functions yield the bytes that the source pushes to the buffer of
its `JWriter`.
-/

namespace Cando

open JsonText

/-- How the C library prints doubles. -/
class PrintF64 (ν : Type) extends F64 ν where
  /-- `%.0f` -/
  printF0 : ν → Str
  /-- `%.17g` -/
  printG17 : ν → Str

/-- Integers are printed in decimal in either format. -/
instance : PrintF64 Int where
  printF0 i := (if i < 0 then [minus] else []) ++ (Nat.toDigits 10 i.natAbs).map fun c => UInt8.ofNat c.toNat
  printG17 i := (if i < 0 then [minus] else []) ++ (Nat.toDigits 10 i.natAbs).map fun c => UInt8.ofNat c.toNat

def newline : UInt8 := 10

def space : UInt8 := 32

/-- `jw_indent`. -/
def jwIndent (indent depth : Nat) : Str :=
  if indent = 0 then [] else newline :: List.replicate (depth * indent) space

/-- A digit of `%x`. -/
def hexDigit (n : Nat) : UInt8 := UInt8.ofNat (if n < 10 then 48 + n else 87 + n)

/-- What `jw_write_string` makes of a byte. -/
def jwByte (c : UInt8) : Str :=
  if c = quote then [backslash, quote]
  else if c = backslash then [backslash, backslash]
  else if c = 10 then [backslash, 110]
  else if c = 13 then [backslash, 114]
  else if c = 9 then [backslash, 116]
  else if c = 8 then [backslash, 98]
  else if c = 12 then [backslash, 102]
  else if c < 0x20 then [backslash, letterU, 48, 48, hexDigit (c.toNat / 16), hexDigit (c.toNat % 16)]
  else [c]

/-- `jw_write_string`. -/
def jwWriteString (s : Str) : Str := quote :: s.flatMap jwByte ++ [quote]

section Writer

variable {ν : Type} [PrintF64 ν]

/-- `n == floor(n) && fabs(n) < 1e15`. -/
def jwFixed (x : ν) : Bool :=
  match F64.trunc x with
  | some i => F64.eq x (F64.ofInt i) && decide (i.natAbs < 1000000000000000)
  | none => false

/-- `jw_write_number`. NaN and the infinities become null. -/
def jwWriteNumber (x : ν) : Str :=
  if F64.trunc x = none then nullText
  else if jwFixed x then (PrintF64.printF0 x).take 63
  else (PrintF64.printG17 x).take 63

mutual

/-- `jw_write_cdo_value`. -/
def jwWriteValue (indent : Nat) : Json ν → (depth : Nat) → Str
  | .null, _ => nullText
  | .bool b, _ => if b then trueText else falseText
  | .number x, _ => jwWriteNumber x
  | .string s, _ => jwWriteString s
  | .array items, depth =>
    -- `jw_write_array`
    openBracket :: jwElements indent items depth true ++
      ((if items = [] then [] else jwIndent indent depth) ++ [closeBracket])
  | .object fields, depth =>
    -- `jw_write_object`
    openBrace :: jwFields indent fields depth true ++
      ((if fields = [] then [] else jwIndent indent depth) ++ [closeBrace])

/-- The loop of `jw_write_array`. -/
def jwElements (indent : Nat) : List (Json ν) → (depth : Nat) → (first : Bool) → Str
  | [], _, _ => []
  | v :: vs, depth, first =>
    (if first then [] else [comma]) ++ jwIndent indent (depth + 1) ++ jwWriteValue indent v (depth + 1) ++
      jwElements indent vs depth false

/-- `jw_field_cb` on one field after the other. -/
def jwFields (indent : Nat) : List (Str × Json ν) → (depth : Nat) → (first : Bool) → Str
  | [], _, _ => []
  | (k, v) :: fields, depth, first =>
    (if first then [] else [comma]) ++ jwIndent indent (depth + 1) ++ jwWriteString k ++ [colon] ++
      (if indent = 0 then [] else [space]) ++ jwWriteValue indent v (depth + 1) ++
      jwFields indent fields depth false

end

/-- The indentation that the arguments ask for; `none` where the cast `(int)` of the number is undefined. -/
def jwIndentArg : (args : List (Json ν)) → Option Nat
  | .number x :: _ =>
    (F64.trunc x).bind fun i => if -2147483648 ≤ i ∧ i < 2147483648 then some (min i.toNat 16) else none
  | _ => some 0

/-- The whole text that `json_stringify` writes. -/
def jwText (indent : Nat) (v : Json ν) : Str :=
  let text := jwWriteValue indent v 0
  if indent > 0 ∧ text ≠ [] then text ++ [newline] else text

/-- `json_stringify` on its arguments; the result is `none` where C leaves it undefined. -/
def jsonStringify : (args : List (Json ν)) → Option Str
  | [] => some nullText
  | v :: args =>
    (jwIndentArg args).map fun indent =>
      let text := jwText indent v
      -- the length is passed on as a `u32`
      text.take (text.length % 4294967296)

end Writer

end Cando
