import Cando.Json.Accepts
import Mathlib.Data.Nat.Bitwise

/-!
# The JSON parser and RFC 8259

Every string of RFC 8259 is one of the parser's, and so is every number that fits the buffer and is followed by
nothing that would continue it. So the parser takes every JSON text with such numerals. It also takes texts
that are none: it looks at nothing behind the value, and its strings are laxer.
-/

namespace Cando

open JsonText

/-! ### UTF-8 -/

/-- The high bits of a leading byte. -/
lemma lead_byte {n i a : Nat} (lt : n < 2 ^ i) : 2 ^ i * a ||| n = n + 2 ^ i * a := by
  rw [← Nat.two_pow_add_eq_or_of_lt lt a, Nat.add_comm]

/-- A continuation byte. -/
lemma tail_byte (n : Nat) : 0x80 ||| n &&& 0x3F = n % 64 + 0x80 := by
  have mask : n &&& 0x3F = n % 64 := Nat.and_two_pow_sub_one_eq_mod n 6
  rw [mask]
  exact lead_byte (i := 6) (a := 2) (Nat.mod_lt _ (by decide))

/-- The encoder of the source is UTF-8 on scalar values. -/
lemma utf8Bytes_eq (c : Char) : utf8Bytes c.toNat = String.utf8EncodeChar c := by
  have top : c.toNat < 0x110000 := by
    obtain h | h := c.valid
    · exact Nat.lt_trans h (by decide)
    · exact h.2
  unfold utf8Bytes String.utf8EncodeChar
  change _ = if c.toNat ≤ 0x7f then [UInt8.ofNat c.toNat] else if c.toNat ≤ 0x7ff then
    [UInt8.ofNat (c.toNat / 64 % 0x20 + 0xc0), UInt8.ofNat (c.toNat % 0x40 + 0x80)] else
    if c.toNat ≤ 0xffff then
    [UInt8.ofNat (c.toNat / 4096 % 0x10 + 0xe0), UInt8.ofNat (c.toNat / 64 % 0x40 + 0x80),
      UInt8.ofNat (c.toNat % 0x40 + 0x80)] else
    [UInt8.ofNat (c.toNat / 262144 % 0x08 + 0xf0), UInt8.ofNat (c.toNat / 4096 % 0x40 + 0x80),
      UInt8.ofNat (c.toNat / 64 % 0x40 + 0x80), UInt8.ofNat (c.toNat % 0x40 + 0x80)]
  generalize c.toNat = n at top
  simp only [Nat.shiftRight_eq_div_pow, tail_byte]
  by_cases one : n < 0x80
  · rw [if_pos one, if_pos (Nat.le_of_lt_succ one)]
  rw [if_neg one, if_neg (mt Nat.lt_succ_of_le one)]
  by_cases two : n < 0x800
  · have lead : 0xC0 ||| n / 2 ^ 6 = n / 64 % 0x20 + 0xc0 := by
      rw [Nat.mod_eq_of_lt (by omega)]
      exact lead_byte (i := 6) (a := 3) (by omega)
    rw [if_pos two, if_pos (Nat.le_of_lt_succ two), lead]
  rw [if_neg two, if_neg (mt Nat.lt_succ_of_le two)]
  by_cases three : n < 0x10000
  · have lead : 0xE0 ||| n / 2 ^ 12 = n / 4096 % 0x10 + 0xe0 := by
      rw [Nat.mod_eq_of_lt (by omega)]
      exact lead_byte (i := 5) (a := 7) (by omega)
    rw [if_pos three, if_pos (Nat.le_of_lt_succ three), lead]
  · have lead : 0xF0 ||| n / 2 ^ 18 = n / 262144 % 0x08 + 0xf0 := by
      rw [Nat.mod_eq_of_lt (by omega)]
      exact lead_byte (i := 4) (a := 15) (by omega)
    rw [if_neg three, if_neg (mt Nat.lt_succ_of_le three), lead]

/-- UTF-8 of a code point that is no surrogate. -/
lemma encode_ofNat {n : Nat} (valid : n.isValidChar) : String.utf8EncodeChar (Char.ofNat n) = utf8Bytes n := by
  have same : (Char.ofNat n).toNat = n := by
    rw [Char.ofNat, dif_pos valid]
    rfl
  rw [← utf8Bytes_eq, same]

/-! ### Strings -/

lemma hexVal_lt {b : UInt8} {n : Nat} (h : hexVal b = some n) : n < 16 := by
  unfold hexVal at h
  simp only [UInt8.le_iff_toNat_le] at h
  split at h
  · rename_i digit
    obtain rfl := Option.some.inj h
    simp at digit
    omega
  split at h
  · rename_i lower
    obtain rfl := Option.some.inj h
    simp at lower
    omega
  split at h
  · rename_i upper
    obtain rfl := Option.some.inj h
    simp at upper
    omega
  · cases h

lemma hex4_lt {h : Bytes} {n : Nat} (e : hex4 h = some n) : n < 0x10000 := by
  unfold hex4 at e
  split at e
  · simp only [Option.bind_eq_some_iff, Option.map_eq_some_iff] at e
    obtain ⟨a, ha, b, hb, c, hc, d, hd, rfl⟩ := e
    have := hexVal_lt ha
    have := hexVal_lt hb
    have := hexVal_lt hc
    have := hexVal_lt hd
    omega
  · cases e

/-- What a backslash makes of a byte is ASCII. -/
lemma simpleEscape_lt {e b : UInt8} (h : simpleEscape e = some b) : b.toNat < 0x80 := by
  have all : ∀ n < 256, (simpleEscape (UInt8.ofNat n)).all (·.toNat < 0x80) := by decide +kernel
  have here := all e.toNat e.toNat_lt
  rw [UInt8.ofNat_toNat, h] at here
  exact of_decide_eq_true here

/-- Bytes that stand for themselves. -/
lemma LaxChars.append {bs s b r : Bytes} (plain : ∀ c ∈ bs, ¬ c < 0x20 ∧ c ≠ quote ∧ c ≠ backslash)
    (rest : LaxChars s b r) : LaxChars (bs ++ s) (bs ++ b) r := by
  induction bs with
  | nil => exact rest
  | cons c bs ih =>
    obtain ⟨visible, quoted, escaped⟩ := plain c List.mem_cons_self
    exact .plain visible quoted escaped (ih fun d mem => plain d (List.mem_cons_of_mem c mem))

lemma plain_byte {n : Nat} (byte : n < 0x100) (visible : 0x20 ≤ n) (quoted : n ≠ 34) (escaped : n ≠ 92) :
    ¬ UInt8.ofNat n < 0x20 ∧ UInt8.ofNat n ≠ quote ∧ UInt8.ofNat n ≠ backslash := by
  have val : (UInt8.ofNat n).toNat = n := by rw [UInt8.toNat_ofNat', Nat.mod_eq_of_lt byte]
  refine ⟨?_, fun e => quoted ?_, fun e => escaped ?_⟩
  · rw [UInt8.lt_iff_toNat_lt, val]
    exact Nat.not_lt.mpr visible
  · rw [← val, e]
    rfl
  · rw [← val, e]
    rfl

/-- UTF-8 of a character that stands for itself. -/
lemma plain_bytes {c : Char} (visible : 0x20 ≤ c.toNat) (quoted : c ≠ '"') (escaped : c ≠ '\\') :
    ∀ b ∈ String.utf8EncodeChar c, ¬ b < 0x20 ∧ b ≠ quote ∧ b ≠ backslash := by
  have ne (d : Char) (h : c ≠ d) : c.val.toNat ≠ d.val.toNat := fun e => h (Char.ext (UInt32.toNat_inj.mp e))
  have quoted := ne _ quoted
  have escaped := ne _ escaped
  change 0x20 ≤ c.val.toNat at visible
  have high (n k a : Nat) (pos : 0 < k) (le : 0x80 ≤ a) (byte : k + a ≤ 0x100) :
      ¬ UInt8.ofNat (n % k + a) < 0x20 ∧ UInt8.ofNat (n % k + a) ≠ quote ∧
        UInt8.ofNat (n % k + a) ≠ backslash := by
    have lt := Nat.mod_lt n pos
    exact plain_byte (by omega) (by omega) (by omega) (by omega)
  have tail (n : Nat) := high n 0x40 0x80 (by decide) (by decide) (by decide)
  fun_cases String.utf8EncodeChar c with
  | case1 v ascii =>
    refine List.forall_mem_singleton.mpr ?_
    exact plain_byte (Nat.lt_of_le_of_lt ascii (by decide)) visible quoted escaped
  | case2 =>
    simp only [List.forall_mem_cons]
    exact ⟨high _ _ _ (by decide) (by decide) (by decide), tail _, nofun⟩
  | case3 =>
    simp only [List.forall_mem_cons]
    exact ⟨high _ _ _ (by decide) (by decide) (by decide), tail _, tail _, nofun⟩
  | case4 =>
    simp only [List.forall_mem_cons]
    exact ⟨high _ _ _ (by decide) (by decide) (by decide), tail _, tail _, tail _, nofun⟩

/-- A surrogate pair stands for a code point. -/
lemma pairPoint_valid {n m : Nat} (high : isHigh n) (low : isLow m) : (pairPoint n m).isValidChar := by
  unfold isHigh at high
  unfold isLow at low
  refine .inr ⟨?_, ?_⟩
  · unfold pairPoint
    omega
  · unfold pairPoint
    omega

/-- The characters of a string are taken by the parser, and decoded to UTF-8. -/
lemma Chars.lax {s r : Bytes} {cs : List Char} (h : Chars s cs r) :
    LaxChars s (cs.flatMap String.utf8EncodeChar) r := by
  induction h with
  | close => exact .close
  | plain visible quoted escaped _ ih =>
    rw [List.flatMap_cons]
    exact ih.append (plain_bytes visible quoted escaped)
  | @escape e b s r cs simple _ ih =>
    have ascii := simpleEscape_lt simple
    have one : utf8Bytes b.toNat = [b] := by
      rw [utf8Bytes, if_pos ascii, UInt8.ofNat_toNat]
    rw [List.flatMap_cons, encode_ofNat (.inl (by omega)), one]
    exact .escape (.simple simple) ih
  | @unicode h s r n cs hex high low _ ih =>
    have valid : n.isValidChar := by
      have lt := hex4_lt hex
      unfold isHigh at high
      unfold isLow at low
      simp only [Nat.isValidChar]
      omega
    rw [List.flatMap_cons, encode_ofNat valid]
    exact .escape (.unicode hex high) ih
  | @pair h l s r n m cs hex high hex' low _ ih =>
    have valid : (pairPoint n m).isValidChar := pairPoint_valid high low
    have encoded := encode_ofNat valid
    rw [List.flatMap_cons, encoded]
    exact .escape (.pair hex high hex' low) ih

/-! ### The leaves -/

section Leaves

variable {ν : Type} [F64 ν]

lemma rfc_signed {P : Bytes → Prop} : (rfc (F64.strtod : Bytes → ν) P).Signed := by
  rintro s x r ⟨l, -, number, -⟩
  exact number.head

lemma rfc_shrinks {P : Bytes → Prop} : (rfc (F64.strtod : Bytes → ν) P).Shrinks where
  string := by
    rintro s b r ⟨cs, chars, rfl⟩
    exact (Chars.lax chars).length_le
  number := by
    rintro s x r ⟨l, -, number, -⟩
    exact number.length_lt

/-- JSON texts of any numerals: some are refused, the others fit the buffer. -/
lemma rfc_taken : Taken (rfc (F64.strtod : Bytes → ν) fun _ => True) (rfc F64.strtod (·.length < 64))
    Delimited True where
  string := by
    rintro s b r ⟨cs, chars, rfl⟩
    exact ⟨Chars.lax chars, cs, chars, rfl⟩
  number := by
    rintro s x r okay ⟨l, rfl, number, -, rfl⟩ p e
    have number' := number.to_greedy okay.stops
    obtain ⟨q, done, rest, short⟩ | ⟨-, msg, failed⟩ := jpParseNumber_of (ν := ν) (e.symm ▸ number') e
    · exact .inl ⟨q, done, rest, l, rfl, number, short, rfl⟩
    · exact .inr ⟨trivial, msg, failed⟩
  signed := rfc_signed
  shrinks := rfc_shrinks
  delimited _ h := h

/-- JSON texts whose numerals fit the buffer. -/
lemma short_taken : Taken (rfc (F64.strtod : Bytes → ν) (·.length < 64)) (rfc F64.strtod (·.length < 64))
    Delimited False where
  string := by
    rintro s b r ⟨cs, chars, rfl⟩
    exact ⟨Chars.lax chars, cs, chars, rfl⟩
  number := by
    rintro s x r okay ⟨l, rfl, number, short, rfl⟩ p e
    have number' := number.to_greedy okay.stops
    obtain ⟨q, done, rest, -⟩ | ⟨long, -⟩ := jpParseNumber_of (ν := ν) (e.symm ▸ number') e
    · exact .inl ⟨q, done, rest, l, rfl, number, short, rfl⟩
    · exact absurd short long
  signed := rfc_signed
  shrinks := rfc_shrinks
  delimited _ h := h

end Leaves

/-! ### The parser as a whole -/

section Whole

variable {ν : Type} [F64 ν] {t r : Str} {v : Json ν}

/-- The numbers of JSON texts are those that `strtod` makes of their numerals. -/
abbrev rfc8259 : Dialect ν := rfc F64.strtod fun _ => True

/-- JSON texts whose numerals fit the buffer. -/
abbrev shortNumerals : Dialect ν := rfc F64.strtod (·.length < 64)

lemma ws_delimited (h : Ws r []) : Delimited r := h.delimited fun _ _ e => nomatch e

/-- A JSON text is parsed up to white space, if all its numerals fit the buffer, or raises an error. -/
lemma denotes_run (h : Denotes rfc8259 t v) :
    (Denotes shortNumerals t v ∧ ∃ q, jpRun ν t = .ok (v, q) ∧ Ws q.rest [] ∧ Begins rfc8259 t v q.rest) ∨
      ∃ msg, jpRun ν t = .error (.text msg) := by
  obtain ⟨s, r, ws, text, ws'⟩ := h
  obtain ⟨q, done, rfl, text'⟩ | ⟨-, msg, failed⟩ :=
    Text.parses rfc_taken text (ws_delimited ws') ⟨0, t⟩ (2 * t.length + 2) ws (by simp)
  · exact .inl ⟨⟨s, q.rest, ws, text', ws'⟩, q, done, ws', s, ws, text⟩
  · exact .inr ⟨msg, failed⟩

lemma denotes_short (h : Denotes shortNumerals t v) : jsonParse t = .ok v := by
  obtain ⟨s, r, ws, text, ws'⟩ := h
  obtain ⟨q, done, -, -⟩ | ⟨refuses, -⟩ :=
    Text.parses short_taken text (ws_delimited ws') ⟨0, t⟩ (2 * t.length + 2) ws (by simp)
  · exact jsonParse_ok.mpr ⟨q, done⟩
  · exact refuses.elim

/-- `json.parse` succeeds on JSON texts, with the value that they denote, and raises an error on others. -/
def MeetsRfc (ν : Type) [F64 ν] (t : Str) : Prop :=
  (∀ v : Json ν, jsonParse t = .ok v ↔ Denotes rfc8259 t v) ∧
    ((∀ v : Json ν, ¬ Denotes rfc8259 t v) → ∃ msg, jsonParse t = (.error (.text msg) : Except JError (Json ν)))

/-- No numeral of a JSON text is too long for the buffer. -/
def FitsBuffer (ν : Type) [F64 ν] (t : Str) : Prop :=
  ∀ v : Json ν, Denotes rfc8259 t v → Denotes shortNumerals t v

/-- Nothing but white space follows the value that the text begins with. -/
def Alone (ν : Type) [F64 ν] (t : Str) : Prop := ∀ (v : Json ν) (r : Str), Begins lax t v r → Ws r []

/-- The strings of that value are those of RFC 8259: closed, in UTF-8, the surrogates in pairs. -/
def ProperStrings (ν : Type) [F64 ν] (t : Str) : Prop :=
  ∀ (v : Json ν) (r : Str), Begins lax t v r → Begins rfc8259 t v r

lemma MeetsRfc.fits (h : MeetsRfc ν t) : FitsBuffer ν t := by
  intro v denotes
  obtain ⟨q, done⟩ := jsonParse_ok.mp ((h.1 v).mpr denotes)
  obtain ⟨short, -⟩ | ⟨msg, failed⟩ := denotes_run denotes
  · exact short
  · cases done.symm.trans failed

/-- What the text begins with is all of it. -/
lemma MeetsRfc.begins (h : MeetsRfc ν t) (begins : Begins lax t v r) : Ws r [] ∧ Begins rfc8259 t v r := by
  have denotes := (h.1 v).mp (jsonParse_iff.mpr ⟨r, begins⟩)
  obtain ⟨q, done, rfl⟩ := begins_iff.mp begins
  obtain ⟨-, q', done', ws, text⟩ | ⟨msg, failed⟩ := denotes_run denotes
  · obtain ⟨-, rfl⟩ := Prod.mk.inj (Except.ok.inj (done.symm.trans done'))
    exact ⟨ws, text⟩
  · cases done.symm.trans failed

lemma meetsRfc_of (fits : FitsBuffer ν t) (alone : Alone ν t) (proper : ProperStrings ν t) : MeetsRfc ν t := by
  have accepts (v : Json ν) : jsonParse t = .ok v ↔ Denotes rfc8259 t v := by
    constructor
    · intro done
      obtain ⟨r, begins⟩ := jsonParse_iff.mp done
      obtain ⟨s, ws, text⟩ := proper v r begins
      exact ⟨s, r, ws, text, alone v r begins⟩
    · exact fun denotes => denotes_short (fits v denotes)
  exact ⟨accepts, fun none => jsonParse_error fun v done => none v ((accepts v).mp done)⟩

/-- The parser meets the standard on just the texts with numerals that fit, nothing behind the value, and proper
strings. -/
theorem meetsRfc_iff (t : Str) : MeetsRfc ν t ↔ FitsBuffer ν t ∧ Alone ν t ∧ ProperStrings ν t := by
  constructor
  · intro h
    exact ⟨h.fits, fun v r begins => (h.begins begins).1, fun v r begins => (h.begins begins).2⟩
  · rintro ⟨fits, alone, proper⟩
    exact meetsRfc_of fits alone proper

/-- `1 x` is taken for the number 1. -/
theorem trailing_accepted : ¬ MeetsRfc Int (bytes "1 x") := by
  intro h
  have begins : Begins lax (bytes "1 x") (.number (1 : Int)) (bytes " x") :=
    begins_iff.mpr ⟨⟨1, bytes " x"⟩, rfl, rfl⟩
  obtain ⟨ws, -⟩ := h.begins begins
  cases ws with
  | cons _ rest => cases rest with
    | cons black _ => cases black

end Whole

end Cando
