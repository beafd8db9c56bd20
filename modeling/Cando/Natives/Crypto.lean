import Cando.Lib.Base64
import Cando.Core.Value

/-!
# Base64 natives

`crypto.base64Encode` and `crypto.base64Decode` of `lib/crypto.c`. A native is given its arguments and yields the
value that it pushes; `none` is a write past the end of the buffer.
-/

namespace Cando

variable {ν : Type}

/-- `libutil_arg_str_at` for the first argument. -/
def argStr : (args : List (Value ν)) → Option Str
  | .string s :: _ => some s
  | _ => none

/-- `libutil_arg_num_at`. -/
def argNum (args : List (Value ν)) (i : Nat) (default : ν) : ν :=
  match args[i]? with
  | some (.number x) => x
  | _ => default

/-- `base64_table`. -/
def base64Table : Str := bytes "ABCDEFGHIJKLMNOPQRSTUVWXYZabcdefghijklmnopqrstuvwxyz0123456789+/"

/-- `base64_table[n & 0x3F]` -/
def base64Char (n : Nat) : UInt8 := base64Table.getD (n % 64) 0

/-- `base64_char_value`. -/
def base64CharValue (c : UInt8) : Option Nat :=
  if 65 ≤ c ∧ c ≤ 90 then some (c.toNat - 65)
  else if 97 ≤ c ∧ c ≤ 122 then some (c.toNat - 97 + 26)
  else if 48 ≤ c ∧ c ≤ 57 then some (c.toNat - 48 + 52)
  else if c = 43 then some 62
  else if c = 47 then some 63
  else none

/-- What a turn of the loop of `crypto_base64Encode` writes for its octets, with `i` behind them. -/
def base64Quad (len i a b c : Nat) : Str :=
  let triple := a * 65536 + b * 256 + c
  [base64Char (triple / 262144), base64Char (triple / 4096),
    if i > (len + 1) % 4294967296 then 61 else base64Char (triple / 64),
    if i > len then 61 else base64Char triple]

/-- The loop of `crypto_base64Encode`, from the position `i` on. Octets that are missing do not move `i`. -/
def base64EncodeLoop (len : Nat) : (i : Nat) → Str → Str
  | _, [] => []
  | i, [a] => base64Quad len (i + 1) a.toNat 0 0
  | i, [a, b] => base64Quad len (i + 2) a.toNat b.toNat 0
  | i, a :: b :: c :: s => base64Quad len (i + 3) a.toNat b.toNat c.toNat ++ base64EncodeLoop len (i + 3) s

/-- `crypto_base64Encode`. -/
def base64Encode (args : List (Value ν)) : Option (Value ν) :=
  match argStr args with
  | none => some (.string [])
  | some s =>
    let len := s.length
    let outLen := 4 * ((len + 2) % 4294967296 / 3) % 4294967296
    let out := base64EncodeLoop len 0 s
    if out.length ≤ outLen + 1 then some (.string (out.take outLen)) else none

/-- A character that may be padding. -/
def base64OrPad (c : UInt8) : Option Nat := if c = 61 then some 0 else base64CharValue c

/-- The loop of `crypto_base64Decode`: the octets, of which the first `out_len` are stored. -/
def base64DecodeLoop : Str → Option Str
  | a :: b :: c :: d :: s => do
    let a ← base64CharValue a
    let b ← base64CharValue b
    let c ← base64OrPad c
    let d ← base64OrPad d
    let triple := a * 262144 + b * 4096 + c * 64 + d
    let out ← base64DecodeLoop s
    return UInt8.ofNat (triple / 65536) :: UInt8.ofNat (triple / 256) :: UInt8.ofNat triple :: out
  | _ => some []

/-- `crypto_base64Decode`. -/
def base64Decode (args : List (Value ν)) : Value ν :=
  match argStr args with
  | none => .null
  | some s =>
    let len := s.length
    if len % 4 ≠ 0 then .null
    else
      let outLen := len / 4 * 3 - (if len > 0 ∧ s[len - 1]? = some 61 then 1 else 0) -
        (if len > 1 ∧ s[len - 2]? = some 61 then 1 else 0)
      match base64DecodeLoop s with
      | some out => .string (out.take outLen)
      | none => .null

/-! ### The encoder -/

lemma base64Char_eq {n : Nat} : base64Char n = Base64.digit (n % 64) := by
  have all : ∀ k < 64, base64Table.getD k 0 = Base64.digit k := by decide
  exact all _ (Nat.mod_lt n (by decide))

/-- As long as `i` is not past the end, no character of a turn is padding. -/
lemma base64Quad_eq {len i a b c : Nat} (h : i ≤ len) (small : len + 1 < 4294967296) :
    base64Quad len i a b c = Base64.quad a b c := by
  have third : ¬ i > (len + 1) % 4294967296 := by omega
  have fourth : ¬ i > len := by omega
  simp only [base64Quad, third, fourth, if_false, base64Char_eq, Base64.quad, Base64.sextets, Base64.group,
    List.map_cons, List.map_nil]
  simp only [Nat.mul_comm]

/-- The encoder takes missing octets as zero and never pads: `i` stops at `len`. -/
lemma base64EncodeLoop_eq {len i : Nat} {s : Str} (h : i + s.length = len) (small : len + 1 < 4294967296) :
    base64EncodeLoop len i s = Base64.zeroFilled s := by
  induction i, s using base64EncodeLoop.induct with
  | case1 i => rfl
  | case2 i a => exact base64Quad_eq (Nat.le_of_eq h) small
  | case3 i a b => exact base64Quad_eq (Nat.le_of_eq h) small
  | case4 i a b c s ih =>
    simp only [List.length_cons] at h
    rw [base64EncodeLoop, Base64.zeroFilled, base64Quad_eq (by omega) small, ih (by omega)]

@[simp] lemma base64Quad_length (len i a b c : Nat) : (base64Quad len i a b c).length = 4 := rfl

lemma base64EncodeLoop_length (len i : Nat) (s : Str) :
    (base64EncodeLoop len i s).length = 4 * ((s.length + 2) / 3) := by
  induction i, s using base64EncodeLoop.induct with
  | case1 i => rfl
  | case2 i a => simp [base64EncodeLoop]
  | case3 i a b => simp [base64EncodeLoop]
  | case4 i a b c s ih =>
    rw [base64EncodeLoop, List.length_append, ih, base64Quad_length]
    simp only [List.length_cons]
    omega

/-- A string whose encoding fits the length of a string is encoded, without padding. -/
lemma base64Encode_fits {s : Str} (h : s.length < 3221225470) :
    base64Encode [.string s] = some (.string (Base64.zeroFilled s) : Value ν) := by
  have room : 4 * ((s.length + 2) % 4294967296 / 3) % 4294967296 = (Base64.zeroFilled s).length := by
    rw [Base64.zeroFilled_length]
    omega
  simp only [base64Encode, argStr, base64EncodeLoop_eq (Nat.zero_add _) (show s.length + 1 < 4294967296 by omega),
    room, List.take_length]
  exact if_pos (Nat.le_succ _)

/-- For any longer one, the length of the buffer wraps around. -/
lemma base64Encode_overflow {s : Str} (h : 3221225470 ≤ s.length) :
    base64Encode ([.string s] : List (Value ν)) = none := by
  have wraps : ¬ (base64EncodeLoop s.length 0 s).length ≤
      4 * ((s.length + 2) % 4294967296 / 3) % 4294967296 + 1 := by
    rw [base64EncodeLoop_length]
    omega
  simp only [base64Encode, argStr]
  exact if_neg wraps

/-! ### The decoder on what was encoded -/

lemma base64CharValue_digit {n : Nat} (h : n < 64) : base64CharValue (Base64.digit n) = some n := by
  revert n
  decide

lemma base64OrPad_digit {n : Nat} (h : n < 64) : base64OrPad (Base64.digit n) = some n := by
  exact (if_neg (Base64.digit_ne_pad h)).trans (base64CharValue_digit h)

/-- The octets of a group come back. -/
lemma base64DecodeLoop_quad (a b c : UInt8) (s : Str) :
    base64DecodeLoop (Base64.quad a.toNat b.toNat c.toNat ++ s) =
      (base64DecodeLoop s).map fun out => [a, b, c] ++ out := by
  have bound : Base64.group a.toNat b.toNat c.toNat < 16777216 := by
    have la := a.toNat_lt
    have lb := b.toNat_lt
    have lc := c.toNat_lt
    unfold Base64.group
    omega
  have lt (m : Nat) : m % 64 < 64 := Nat.mod_lt _ (by decide)
  rw [← Base64.octets_group a b c, Base64.quad]
  generalize Base64.group a.toNat b.toNat c.toNat = g at bound
  have whole : g / 262144 % 64 * 262144 + g / 4096 % 64 * 4096 + g / 64 % 64 * 64 + g % 64 = g := by omega
  simp only [Base64.sextets, List.map_cons, List.map_nil, List.cons_append, List.nil_append, base64DecodeLoop,
    base64CharValue_digit (lt _), base64OrPad_digit (lt _), Option.bind_eq_bind, Option.bind_some, whole]
  cases base64DecodeLoop s with
  | none => rfl
  | some out => rfl

lemma base64DecodeLoop_zeroFilled {s : Str} (h : s.length % 3 = 0) :
    base64DecodeLoop (Base64.zeroFilled s) = some s := by
  induction s using Base64.zeroFilled.induct with
  | case1 => rfl
  | case2 a => exact absurd h (by simp)
  | case3 a b => exact absurd h (by simp)
  | case4 a b c s ih =>
    have e : s.length % 3 = 0 := by
      simp only [List.length_cons] at h
      omega
    rw [Base64.zeroFilled, base64DecodeLoop_quad, ih e]
    rfl

/-- A string of whole groups survives the round trip. -/
lemma base64Decode_zeroFilled {s : Str} (h : s.length % 3 = 0) :
    base64Decode [(.string (Base64.zeroFilled s) : Value ν)] = .string s := by
  have noPad (i : Nat) : (Base64.zeroFilled s)[i]? ≠ some 61 := fun e =>
    Base64.pad_notMem_zeroFilled s (List.mem_of_getElem? e)
  have len := Base64.zeroFilled_length s
  have four : ¬ (Base64.zeroFilled s).length % 4 ≠ 0 := by omega
  have outLen : (Base64.zeroFilled s).length / 4 * 3 = s.length := by omega
  simp only [base64Decode, argStr, noPad, and_false, if_false, Nat.sub_zero, if_neg four, outLen,
    base64DecodeLoop_zeroFilled h, List.take_length]

/-! ### When base64 is as the RFC has it -/

/-- `crypto.base64Encode` yields the text of the RFC, and `crypto.base64Decode` reads the string back from it. -/
def Base64Correct (ν : Type) (s : Str) : Prop :=
  ∃ t : Str, base64Encode ([.string s] : List (Value ν)) = some (.string t) ∧ t = Base64.encode s ∧
    base64Decode ([.string t] : List (Value ν)) = .string s

/-- A single octet is not padded, and comes back with two more octets. -/
theorem base64_unpadded : ¬ Base64Correct Int (bytes "f") ∧
    base64Encode ([.string (bytes "f")] : List (Value Int)) = some (.string (bytes "ZgAA")) ∧
    base64Decode ([.string (bytes "ZgAA")] : List (Value Int)) = .string [102, 0, 0] := by
  have enc : base64Encode ([.string (bytes "f")] : List (Value Int)) = some (.string (bytes "ZgAA")) := by
    decide
  refine ⟨?_, enc, by decide⟩
  rintro ⟨t, e, rfc, -⟩
  rw [enc] at e
  obtain rfl : bytes "ZgAA" = t := by simpa using e
  have ne : bytes "ZgAA" ≠ Base64.encode (bytes "f") := by decide
  exact ne rfc

/-- Base64 is right on strings of whole groups whose encoding is not too long for a string. -/
theorem base64_correct_iff (ν : Type) (s : Str) :
    Base64Correct ν s ↔ s.length % 3 = 0 ∧ s.length < 3221225470 := by
  constructor
  · rintro ⟨t, enc, rfc, dec⟩
    by_cases fits : s.length < 3221225470
    · rw [base64Encode_fits fits] at enc
      obtain rfl : Base64.zeroFilled s = t := by simpa using enc
      refine ⟨?_, fits⟩
      by_contra part
      exact Base64.pad_notMem_zeroFilled s (rfc ▸ Base64.pad_mem_encode part)
    · rw [base64Encode_overflow (Nat.le_of_not_lt fits)] at enc
      cases enc
  · rintro ⟨whole, fits⟩
    exact ⟨_, base64Encode_fits fits, (Base64.encode_of_mod whole).symm, base64Decode_zeroFilled whole⟩

/-! ### When the decoder accepts only base64 -/

/-- The characters that a position of a quartet does not take: what is not of the alphabet, except padding in the
third and the fourth. -/
def base64Misplaced (i : Nat) (c : UInt8) : Prop := base64CharValue c = none ∧ ¬ (c = 61 ∧ 2 ≤ i % 4)

/-- The texts that the decoder turns down: no whole quartets, or a character that its position does not take. -/
def Base64Refused (t : Str) : Prop := t.length % 4 ≠ 0 ∨ ∃ i c, t[i]? = some c ∧ base64Misplaced i c

set_option maxRecDepth 4000 in
lemma digit_of_base64CharValue {c : UInt8} {n : Nat} (h : base64CharValue c = some n) :
    n < 64 ∧ c = Base64.digit n := by
  have all : ∀ k < 256, (base64CharValue (.ofNat k)).all fun n => n < 64 ∧ UInt8.ofNat k = Base64.digit n := by
    decide
  have at_c := all c.toNat c.toNat_lt
  rw [UInt8.ofNat_toNat, h] at at_c
  simpa using at_c

lemma base64OrPad_eq_none {c : UInt8} : base64OrPad c = none ↔ base64CharValue c = none ∧ c ≠ 61 := by
  unfold base64OrPad
  split
  case isTrue e => simp [e]
  case isFalse ne => simp [ne]

/-- The loop fails exactly on a character that its position does not take. -/
lemma base64DecodeLoop_eq_none {t : Str} (len : t.length % 4 = 0) :
    base64DecodeLoop t = none ↔ ∃ i c, t[i]? = some c ∧ base64Misplaced i c := by
  induction t using base64DecodeLoop.induct with
  | case1 a b c d s ih =>
    have len' : s.length % 4 = 0 := by
      simp only [List.length_cons] at len
      omega
    have head : base64DecodeLoop (a :: b :: c :: d :: s) = none ↔
        base64CharValue a = none ∨ base64CharValue b = none ∨ base64OrPad c = none ∨ base64OrPad d = none ∨
          base64DecodeLoop s = none := by
      rw [base64DecodeLoop]
      cases base64CharValue a <;> cases base64CharValue b <;> cases base64OrPad c <;> cases base64OrPad d <;>
        cases base64DecodeLoop s <;> simp
    rw [head, ih len', base64OrPad_eq_none, base64OrPad_eq_none]
    constructor
    · rintro (h | h | h | h | ⟨i, x, get, h⟩)
      · exact ⟨0, a, rfl, h, by simp⟩
      · exact ⟨1, b, rfl, h, by simp⟩
      · exact ⟨2, c, rfl, h.1, by simp [h.2]⟩
      · exact ⟨3, d, rfl, h.1, by simp [h.2]⟩
      · refine ⟨i + 4, x, by simpa using get, h.1, ?_⟩
        rw [Nat.add_mod_right]
        exact h.2
    · rintro ⟨i, x, get, none, place⟩
      match i with
      | 0 =>
        obtain rfl : a = x := by simpa using get
        exact .inl none
      | 1 =>
        obtain rfl : b = x := by simpa using get
        exact .inr (.inl none)
      | 2 =>
        obtain rfl : c = x := by simpa using get
        exact .inr (.inr (.inl ⟨none, by simpa using place⟩))
      | 3 =>
        obtain rfl : d = x := by simpa using get
        exact .inr (.inr (.inr (.inl ⟨none, by simpa using place⟩)))
      | i + 4 =>
        refine .inr (.inr (.inr (.inr ⟨i, x, by simpa using get, none, ?_⟩)))
        rwa [Nat.add_mod_right] at place
  | case2 t short =>
    have nil : t = [] := by
      rcases t with _ | ⟨a, _ | ⟨b, _ | ⟨c, _ | ⟨d, s⟩⟩⟩⟩
      · rfl
      · simp at len
      · simp at len
      · simp at len
      · exact absurd rfl (short a b c d s)
    simp [nil, base64DecodeLoop]

/-- A text of the alphabet alone is the encoding of what the loop makes of it. -/
lemma base64DecodeLoop_alphabet {t : Str} (len : t.length % 4 = 0)
    (alphabet : ∀ c ∈ t, ∃ n < 64, c = Base64.digit n) :
    ∃ s, base64DecodeLoop t = some s ∧ Base64.zeroFilled s = t ∧ s.length = t.length / 4 * 3 := by
  induction t using base64DecodeLoop.induct with
  | case1 a b c d t ih =>
    simp only [List.mem_cons, forall_eq_or_imp] at alphabet
    obtain ⟨⟨i, hi, rfl⟩, ⟨j, hj, rfl⟩, ⟨k, hk, rfl⟩, ⟨l, hl, rfl⟩, rest⟩ := alphabet
    have len' : t.length % 4 = 0 := by
      simp only [List.length_cons] at len
      omega
    obtain ⟨s, loop, filled, sLen⟩ := ih len' rest
    have bound : i * 262144 + j * 4096 + k * 64 + l < 16777216 := by omega
    refine ⟨Base64.octets (i * 262144 + j * 4096 + k * 64 + l) ++ s, ?_, ?_, ?_⟩
    · simp only [base64DecodeLoop, base64CharValue_digit hi, base64CharValue_digit hj, base64OrPad_digit hk,
        base64OrPad_digit hl, loop, Option.bind_eq_bind, Option.bind_some]
      rfl
    · simp only [Base64.octets, List.cons_append, List.nil_append]
      rw [Base64.zeroFilled, Base64.quad, Base64.group_octets bound, Base64.sextets_join hi hj hk hl, filled]
      rfl
    · simp only [Base64.octets, List.cons_append, List.nil_append, List.length_cons, sLen]
      omega
  | case2 t short =>
    have nil : t = [] := by
      rcases t with _ | ⟨a, _ | ⟨b, _ | ⟨c, _ | ⟨d, s⟩⟩⟩⟩
      · rfl
      · simp at len
      · simp at len
      · simp at len
      · exact absurd rfl (short a b c d s)
    exact ⟨[], by simp [nil, base64DecodeLoop, Base64.zeroFilled]⟩

/-- `crypto.base64Decode` takes well-formed text only, and `crypto.base64Encode` brings the text back, up to the
bits that its padding leaves unused. -/
def Base64DecodeCorrect (ν : Type) (t : Str) : Prop :=
  base64Decode ([.string t] : List (Value ν)) ≠ .null →
    Base64.WellFormed t ∧
      ∃ u : Str, base64Encode [(base64Decode [.string t] : Value ν)] = some (.string u) ∧ Base64.Clears t u

lemma base64Decode_eq_null {t : Str} :
    base64Decode ([.string t] : List (Value ν)) = .null ↔ Base64Refused t := by
  unfold Base64Refused
  simp only [base64Decode, argStr]
  split
  case isTrue odd => simp [odd]
  case isFalse whole =>
    rw [← base64DecodeLoop_eq_none (by omega)]
    cases base64DecodeLoop t <;> simp [whole]

/-- Without padding, the text comes back. -/
lemma base64Decode_unpadded {t : Str} (taken : ¬ Base64Refused t) (nopad : Base64.pad ∉ t) :
    ∃ s : Str, base64Decode [(.string t : Value ν)] = .string s ∧ Base64.zeroFilled s = t ∧
      Base64.WellFormed t := by
  simp only [Base64Refused, not_or, not_exists, not_and, not_not, base64Misplaced] at taken
  obtain ⟨len, chars⟩ := taken
  have alphabet : ∀ c ∈ t, ∃ n < 64, c = Base64.digit n := by
    intro c mem
    obtain ⟨i, get⟩ := List.mem_iff_getElem?.mp mem
    match value : base64CharValue c with
    | some n => exact ⟨n, digit_of_base64CharValue value⟩
    | none =>
      refine (chars i c get value fun isPad _ => ?_).elim
      rw [isPad] at mem
      exact nopad mem
  obtain ⟨s, loop, filled, sLen⟩ := base64DecodeLoop_alphabet len alphabet
  have noPad (i : Nat) : t[i]? ≠ some 61 := fun e => nopad (List.mem_of_getElem? e)
  refine ⟨s, ?_, filled, len, t, 0, Nat.zero_le 2, by simp, alphabet⟩
  simp only [base64Decode, argStr, noPad, and_false, if_false, Nat.sub_zero, len, ne_eq, not_true_eq_false, loop,
    ← sLen, List.take_length]

/-- What the encoder yields has no padding. -/
lemma pad_notMem_base64Encode {v : Value ν} {u : Str} (h : base64Encode [v] = some (.string u)) :
    Base64.pad ∉ u := by
  cases v with
  | string s =>
    by_cases fits : s.length < 3221225470
    · rw [base64Encode_fits fits] at h
      obtain rfl : Base64.zeroFilled s = u := by simpa using h
      exact Base64.pad_notMem_zeroFilled s
    · rw [base64Encode_overflow (Nat.le_of_not_lt fits)] at h
      cases h
  | _ =>
    obtain rfl : [] = u := by simpa [base64Encode, argStr] using h
    exact List.not_mem_nil

/-- The decoder reads `=` in the middle of a text as zero bits, and the encoder yields another text. -/
theorem base64Decode_inner_pad : ¬ Base64DecodeCorrect Int (bytes "QQ==QUJD") ∧
    base64Decode ([.string (bytes "QQ==QUJD")] : List (Value Int)) = .string [65, 0, 0, 65, 66, 67] := by
  have dec : base64Decode ([.string (bytes "QQ==QUJD")] : List (Value Int)) = .string [65, 0, 0, 65, 66, 67] := by
    decide
  refine ⟨fun correct => ?_, dec⟩
  rw [Base64DecodeCorrect, dec] at correct
  obtain ⟨-, u, enc, clears⟩ := correct (by rintro ⟨⟩)
  have mem : Base64.pad ∈ bytes "QQ==QUJD" := by decide
  have again : base64Encode ([.string [65, 0, 0, 65, 66, 67]] : List (Value Int)) =
      some (.string (bytes "QQAAQUJD")) := by
    decide
  rw [again] at enc
  obtain rfl : bytes "QQAAQUJD" = u := by simpa using enc
  have gone : Base64.pad ∉ bytes "QQAAQUJD" := by decide
  exact gone (clears.pad_mem mem)

/-- The decoder is right exactly on what it turns down and on text without padding that is not too long for a
string. -/
theorem base64Decode_correct_iff (ν : Type) (t : Str) :
    Base64DecodeCorrect ν t ↔ Base64Refused t ∨ (Base64.pad ∉ t ∧ t.length < 4294967296) := by
  constructor
  · intro correct
    by_cases refused : Base64Refused t
    · exact .inl refused
    · refine .inr ?_
      have taken : base64Decode ([.string t] : List (Value ν)) ≠ .null := mt base64Decode_eq_null.mp refused
      obtain ⟨-, u, enc, clears⟩ := correct taken
      have nopad : Base64.pad ∉ t := mt clears.pad_mem (pad_notMem_base64Encode enc)
      refine ⟨nopad, ?_⟩
      by_contra long
      obtain ⟨s, dec, filled, -⟩ := base64Decode_unpadded (ν := ν) refused nopad
      have tLen := Base64.zeroFilled_length s
      rw [filled] at tLen
      rw [dec, base64Encode_overflow (by omega)] at enc
      cases enc
  · rintro (refused | ⟨nopad, short⟩) notNull
    · exact absurd (base64Decode_eq_null.mpr refused) notNull
    · have taken : ¬ Base64Refused t := mt base64Decode_eq_null.mpr notNull
      obtain ⟨s, dec, filled, wellFormed⟩ := base64Decode_unpadded (ν := ν) taken nopad
      have tLen := Base64.zeroFilled_length s
      rw [filled] at tLen
      have whole := wellFormed.1
      refine ⟨wellFormed, t, ?_, .inl ⟨nopad, rfl⟩⟩
      rw [dec, base64Encode_fits (by omega), filled]

end Cando
