import Cando.Json.Parse

/-!
# White space, numbers and strings of the JSON parser

What the parser takes for white space, for a number and for a string, as relations between the text at hand
and what is left behind. Numbers are those of RFC 8259, as long as they go, if they fit the buffer. Strings are
laxer: a byte from `0x20` on stands for itself, the escape of a low surrogate needs no high one, and the end of
the source closes a string.
-/

namespace Cando

open JsonText

/-! ### Moving on -/

/-- From one position to a later one of the same source. -/
def Moves (p q : JParser) : Prop := ∃ l, p.rest = l ++ q.rest ∧ q.pos = p.pos + l.length

lemma Moves.refl (p : JParser) : Moves p p := ⟨[], rfl, rfl⟩

lemma Moves.trans {p q o : JParser} (h : Moves p q) (h' : Moves q o) : Moves p o := by
  obtain ⟨l, rest, pos⟩ := h
  obtain ⟨l', rest', pos'⟩ := h'
  refine ⟨l ++ l', by rw [rest, rest', List.append_assoc], ?_⟩
  rw [pos', pos, List.length_append, Nat.add_assoc]

lemma moves_skip {p : JParser} {n : Nat} (h : n ≤ p.rest.length) : Moves p (p.skip n) := by
  refine ⟨p.rest.take n, (List.take_append_drop n p.rest).symm, ?_⟩
  rw [List.length_take, Nat.min_eq_left h]
  rfl

@[simp] lemma skip_rest (p : JParser) (n : Nat) : (p.skip n).rest = p.rest.drop n := rfl

@[simp] lemma skipWhile_rest (p : JParser) (q : UInt8 → Bool) : (p.skipWhile q).rest = p.rest.dropWhile q := by
  rw [JParser.skipWhile, skip_rest]
  nth_rewrite 2 [← List.takeWhile_append_dropWhile (p := q) (l := p.rest)]
  rw [List.drop_left]

lemma moves_skipWhile (p : JParser) (q : UInt8 → Bool) : Moves p (p.skipWhile q) :=
  moves_skip (List.takeWhile_sublist q).length_le

/-- The byte at hand. -/
lemma at_iff {p : JParser} {q : UInt8 → Bool} : p.at? q = true ↔ ∃ c s, p.rest = c :: s ∧ q c = true := by
  unfold JParser.at?
  split
  · rename_i e
    simp [e]
  · rename_i c s e
    simp [e]

lemma at_byte_iff {p : JParser} {b : UInt8} : p.at? (· == b) = true ↔ ∃ s, p.rest = b :: s := by
  rw [at_iff]
  constructor
  · rintro ⟨c, s, e, eq⟩
    exact ⟨s, by rw [e, eq_of_beq eq]⟩
  · rintro ⟨s, e⟩
    exact ⟨b, s, e, beq_self_eq_true b⟩

lemma at_false_iff {p : JParser} {q : UInt8 → Bool} : p.at? q = false ↔ Stops true q p.rest := by
  unfold JParser.at? Stops
  split
  · rename_i e
    simp [e]
  · rename_i c s e
    simp [e]

lemma jpError_fuel {α : Type} {p : JParser} {msg : String} : (jpError p msg : Except JError α) ≠ .error .fuel :=
  nofun

/-! ### White space -/

lemma jpSkipWs_rest (p : JParser) : (jpSkipWs p).rest = p.rest.dropWhile isWs := skipWhile_rest p isWs

lemma ws_jpSkipWs (p : JParser) : Ws p.rest (jpSkipWs p).rest := by
  rw [jpSkipWs_rest]
  exact ws_dropWhile _

/-- White space before a byte that is none. -/
lemma jpSkipWs_byte {p : JParser} {b : UInt8} {s : Bytes} (h : Ws p.rest (b :: s)) (black : isWs b = false) :
    (jpSkipWs p).rest = b :: s := by
  rw [jpSkipWs_rest]
  refine h.eq_dropWhile fun c t e => ?_
  obtain ⟨rfl, -⟩ := List.cons.inj e
  exact black

/-! ### Numbers -/

lemma jpDigits_ok {p q : JParser} {msg : String} (h : jpDigits p msg = .ok q) :
    Digits true p.rest q.rest ∧ Moves p q := by
  unfold jpDigits at h
  split at h
  · rename_i digit
    obtain rfl := Except.ok.inj h
    exact ⟨digits_iff.mpr ⟨at_iff.mp digit, (skipWhile_rest _ _).symm⟩, moves_skipWhile _ _⟩
  · cases h

lemma jpDigits_of {p : JParser} {msg : String} {r : Bytes} (h : Digits true p.rest r) :
    ∃ q, jpDigits p msg = .ok q ∧ q.rest = r := by
  obtain ⟨digit, rest⟩ := digits_iff.mp h
  exact ⟨_, if_pos (at_iff.mpr digit), by rw [skipWhile_rest, rest]⟩

lemma jpIntPart_ok {p q : JParser} (h : jpIntPart p = .ok q) : IntPart true p.rest q.rest ∧ Moves p q := by
  unfold jpIntPart at h
  split at h
  · cases h
  rename_i digit
  rw [Bool.not_eq_true', Bool.not_eq_false] at digit
  obtain ⟨d, s, e, isDigit⟩ := at_iff.mp digit
  split at h
  · rename_i lead
    obtain rfl := Except.ok.inj h
    obtain ⟨t, e⟩ := at_byte_iff.mp lead
    refine ⟨?_, moves_skip (by simp [e])⟩
    rw [skip_rest, e]
    exact .zero
  · rename_i lead
    obtain rfl := Except.ok.inj h
    refine ⟨?_, moves_skipWhile _ _⟩
    have run : Digits true (d :: s) (p.skipWhile JsonText.isDigit).rest := by
      rw [skipWhile_rest, ← e]
      exact digits_iff.mpr ⟨at_iff.mp digit, rfl⟩
    rw [e]
    refine .digits (fun eq => lead ?_) run
    exact at_byte_iff.mpr ⟨s, by rw [e, eq]⟩

lemma jpIntPart_of {p : JParser} {r : Bytes} (h : IntPart true p.rest r) :
    ∃ q, jpIntPart p = .ok q ∧ q.rest = r := by
  generalize e : p.rest = s at h
  cases h with
  | zero =>
    have digit : p.at? isDigit = true := at_iff.mpr ⟨_, _, e, rfl⟩
    have lead : p.at? (· == zero) = true := at_byte_iff.mpr ⟨_, e⟩
    exact ⟨p.skip 1, by simp [jpIntPart, digit, lead], by simp [e]⟩
  | @digits d s r lead run =>
    obtain ⟨digit, rest⟩ := digits_iff.mp run
    rw [← e] at digit rest
    have digit := at_iff.mpr digit
    have nonzero : p.at? (· == zero) = false := by
      refine at_false_iff.mpr fun _ b t e' => ?_
      obtain ⟨rfl, -⟩ := List.cons.inj (e.symm.trans e')
      simpa using lead
    exact ⟨p.skipWhile isDigit, by simp [jpIntPart, digit, nonzero], by rw [skipWhile_rest, rest]⟩

lemma jpFracPart_ok {p q : JParser} (h : jpFracPart p = .ok q) : FracPart true p.rest q.rest ∧ Moves p q := by
  unfold jpFracPart at h
  split at h
  · rename_i dot
    obtain ⟨s, e⟩ := at_byte_iff.mp dot
    obtain ⟨run, moves⟩ := jpDigits_ok h
    refine ⟨?_, (moves_skip (by simp [e])).trans moves⟩
    rw [skip_rest, e] at run
    rw [e]
    exact .some run
  · rename_i dot
    obtain rfl := Except.ok.inj h
    exact ⟨.none (at_false_iff.mp (by simpa using dot)), .refl _⟩

lemma jpFracPart_of {p : JParser} {r : Bytes} (h : FracPart true p.rest r) :
    ∃ q, jpFracPart p = .ok q ∧ q.rest = r := by
  generalize e : p.rest = s at h
  cases h with
  | none stop =>
    have dot : p.at? (· == point) = false := at_false_iff.mpr (by rwa [e])
    exact ⟨p, by simp [jpFracPart, dot], e⟩
  | some run =>
    have dot : p.at? (· == point) = true := at_byte_iff.mpr ⟨_, e⟩
    rw [jpFracPart, if_pos dot]
    exact jpDigits_of (by rwa [skip_rest, e])

lemma jpSign_spec (p : JParser) : Sign p.rest (jpSign p).rest ∧ Moves p (jpSign p) := by
  unfold jpSign
  split
  · rename_i sign
    obtain ⟨c, s, e, isSign⟩ := at_iff.mp sign
    refine ⟨?_, moves_skip (by simp [e])⟩
    rw [skip_rest, e]
    rw [Bool.or_eq_true, beq_iff_eq, beq_iff_eq] at isSign
    obtain rfl | rfl := isSign
    · exact .plus
    · exact .minus
  · exact ⟨.none, .refl p⟩

/-- Digits are no sign. -/
lemma jpSign_of {p : JParser} {s r : Bytes} (h : Sign p.rest s) (run : Digits true s r) :
    (jpSign p).rest = s := by
  generalize e : p.rest = t at h
  cases h with
  | none =>
    obtain ⟨⟨d, u, e', digit⟩, -⟩ := digits_iff.mp run
    have sign : p.at? (fun c => c == plus || c == minus) = false := by
      refine at_false_iff.mpr fun _ b v e'' => ?_
      obtain ⟨rfl, -⟩ := List.cons.inj ((e.trans e').symm.trans e'')
      rw [Bool.or_eq_false_iff, beq_eq_false_iff_ne, beq_eq_false_iff_ne]
      constructor <;> rintro rfl <;> cases digit
    rw [jpSign, sign]
    exact e
  | minus | plus =>
    have sign : p.at? (fun c => c == plus || c == minus) = true := at_iff.mpr ⟨_, _, e, rfl⟩
    rw [jpSign, sign, if_pos rfl, skip_rest, e]
    rfl

lemma jpExpPart_ok {p q : JParser} (h : jpExpPart p = .ok q) : ExpPart true p.rest q.rest ∧ Moves p q := by
  unfold jpExpPart at h
  split at h
  · rename_i letter
    obtain ⟨e, s, rest, letter⟩ := at_iff.mp letter
    obtain ⟨run, moves⟩ := jpDigits_ok h
    obtain ⟨sign, moves'⟩ := jpSign_spec (p.skip 1)
    refine ⟨?_, ((moves_skip (by simp [rest])).trans moves').trans moves⟩
    rw [skip_rest, rest] at sign
    rw [rest]
    exact .some letter sign run
  · rename_i letter
    obtain rfl := Except.ok.inj h
    exact ⟨.none (at_false_iff.mp (by simpa using letter)), .refl _⟩

lemma jpExpPart_of {p : JParser} {r : Bytes} (h : ExpPart true p.rest r) :
    ∃ q, jpExpPart p = .ok q ∧ q.rest = r := by
  generalize e : p.rest = s at h
  cases h with
  | none stop =>
    have letter : p.at? isExp = false := at_false_iff.mpr (by rwa [e])
    exact ⟨p, by simp [jpExpPart, letter], e⟩
  | @some l s s' r letter sign run =>
    have at_ : p.at? isExp = true := at_iff.mpr ⟨_, _, e, letter⟩
    have behind : (jpSign (p.skip 1)).rest = s' := jpSign_of (by rwa [skip_rest, e]) run
    rw [jpExpPart, if_pos at_]
    exact jpDigits_of (behind.symm ▸ run)

lemma except_bind_ok {α β ε : Type} {m : Except ε α} {f : α → Except ε β} {b : β} (h : m.bind f = .ok b) :
    ∃ a, m = .ok a ∧ f a = .ok b := by
  cases m with
  | error e => cases h
  | ok a => exact ⟨a, rfl, h⟩

lemma jpMinus_spec (p : JParser) :
    ((jpMinus p).rest = p.rest ∨ p.rest = minus :: (jpMinus p).rest) ∧ Moves p (jpMinus p) := by
  unfold jpMinus
  split
  · rename_i sign
    obtain ⟨s, e⟩ := at_byte_iff.mp sign
    exact ⟨.inr (by simp [e]), moves_skip (by simp [e])⟩
  · exact ⟨.inl rfl, .refl p⟩

lemma jpNumberEnd_ok {p q : JParser} (h : jpNumberEnd p = .ok q) : Number true p.rest q.rest ∧ Moves p q := by
  obtain ⟨p₁, int, h⟩ := except_bind_ok h
  obtain ⟨p₂, frac, exp⟩ := except_bind_ok h
  obtain ⟨sign, moves⟩ := jpMinus_spec p
  obtain ⟨int, moves₁⟩ := jpIntPart_ok int
  obtain ⟨frac, moves₂⟩ := jpFracPart_ok frac
  obtain ⟨exp, moves₃⟩ := jpExpPart_ok exp
  refine ⟨?_, ((moves.trans moves₁).trans moves₂).trans moves₃⟩
  obtain e | e := sign
  · rw [e] at int
    exact .nonneg int frac exp
  · rw [e]
    exact .neg int frac exp

/-- The parts of a number one after the other. -/
lemma jpParts_of {p : JParser} {s₁ s₂ r : Bytes} (int : IntPart true (jpMinus p).rest s₁)
    (frac : FracPart true s₁ s₂) (exp : ExpPart true s₂ r) : ∃ q, jpNumberEnd p = .ok q ∧ q.rest = r := by
  obtain ⟨p₁, e₁, rfl⟩ := jpIntPart_of int
  obtain ⟨p₂, e₂, rfl⟩ := jpFracPart_of frac
  obtain ⟨p₃, e₃, rfl⟩ := jpExpPart_of exp
  refine ⟨p₃, ?_, rfl⟩
  rw [jpNumberEnd, e₁]
  change (jpFracPart p₁).bind jpExpPart = .ok p₃
  rw [e₂]
  exact e₃

lemma jpNumberEnd_of {p : JParser} {r : Bytes} (h : Number true p.rest r) :
    ∃ q, jpNumberEnd p = .ok q ∧ q.rest = r := by
  generalize e : p.rest = s at h
  cases h with
  | nonneg int frac exp =>
    obtain ⟨d, t, e', digit⟩ := int.head
    have sign : p.at? (· == minus) = false := by
      refine at_false_iff.mpr fun _ b u e'' => ?_
      obtain ⟨rfl, -⟩ := List.cons.inj ((e.trans e').symm.trans e'')
      rw [beq_eq_false_iff_ne]
      rintro rfl
      cases digit
    refine jpParts_of ?_ frac exp
    rw [jpMinus, sign]
    exact e ▸ int
  | neg int frac exp =>
    have sign : p.at? (· == minus) = true := at_byte_iff.mpr ⟨_, e⟩
    refine jpParts_of ?_ frac exp
    rw [jpMinus, sign, if_pos rfl, skip_rest, e]
    exact int

lemma jpDigits_fuel {p : JParser} {msg : String} : jpDigits p msg ≠ .error .fuel := by
  unfold jpDigits
  split
  · nofun
  · exact jpError_fuel

lemma except_bind_fuel {α β : Type} {m : Except JError α} {f : α → Except JError β}
    (hm : m ≠ .error .fuel) (hf : ∀ a, f a ≠ .error .fuel) : m.bind f ≠ .error .fuel := by
  cases m with
  | error e =>
    intro h
    cases h
    exact hm rfl
  | ok a => exact hf a

lemma jpNumberEnd_fuel {p : JParser} : jpNumberEnd p ≠ .error .fuel := by
  refine except_bind_fuel ?_ fun p₁ => except_bind_fuel ?_ fun p₂ => ?_
  · unfold jpIntPart
    split
    · exact jpError_fuel
    split <;> nofun
  · unfold jpFracPart
    split
    · exact jpDigits_fuel
    · nofun
  · unfold jpExpPart
    split
    · exact jpDigits_fuel
    · nofun

section Number

variable {ν : Type} [F64 ν]

lemma jpParseNumber_fuel {p : JParser} : jpParseNumber p ≠ (.error .fuel : Except JError (ν × JParser)) := by
  unfold jpParseNumber
  split
  · rename_i e found
    intro h
    cases h
    exact jpNumberEnd_fuel found
  · dsimp only
    split
    · exact jpError_fuel
    · nofun

/-- A number that the parser takes. -/
def LaxNumber (s : Bytes) (x : ν) (r : Bytes) : Prop :=
  ∃ l, s = l ++ r ∧ Number true s r ∧ l.length < 64 ∧ x = F64.strtod l

lemma jpParseNumber_ok {p q : JParser} {x : ν} (h : jpParseNumber p = .ok (x, q)) :
    LaxNumber p.rest x q.rest := by
  unfold jpParseNumber at h
  split at h
  · cases h
  · rename_i o e
    obtain ⟨number, l, rest, pos⟩ := jpNumberEnd_ok e
    have len : o.pos - p.pos = l.length := by rw [pos, Nat.add_sub_cancel_left]
    rw [len] at h
    dsimp only at h
    split at h
    · cases h
    · rename_i short
      obtain ⟨rfl, rfl⟩ := Prod.mk.inj (Except.ok.inj h)
      exact ⟨l, rest, number, Nat.lt_of_not_le short, by rw [rest, List.take_left]⟩

/-- A numeral is taken unless it is too long for the buffer. -/
lemma jpParseNumber_of {p : JParser} {l r : Bytes} (h : Number true p.rest r) (e : p.rest = l ++ r) :
    (∃ q, jpParseNumber p = .ok ((F64.strtod l : ν), q) ∧ q.rest = r ∧ l.length < 64) ∨
      ¬ l.length < 64 ∧ ∃ msg, jpParseNumber p = (.error (.text msg) : Except JError (ν × JParser)) := by
  obtain ⟨q, done, rfl⟩ := jpNumberEnd_of h
  obtain ⟨-, l', rest, pos⟩ := jpNumberEnd_ok done
  obtain rfl : l' = l := List.append_cancel_right (rest.symm.trans e)
  have len : q.pos - p.pos = l'.length := by rw [pos, Nat.add_sub_cancel_left]
  rw [jpParseNumber, done]
  dsimp only
  rw [len]
  by_cases long : l'.length ≥ 64
  · rw [if_pos long]
    exact .inr ⟨Nat.not_lt.mpr long, _, rfl⟩
  · rw [if_neg long]
    exact .inl ⟨q, by rw [rest, List.take_left], rfl, Nat.lt_of_not_le long⟩

end Number

/-! ### Strings -/

/-- An escape that the parser takes, from behind its backslash, and its bytes. -/
inductive LaxEscape : Bytes → Bytes → Bytes → Prop where
  | simple {e b : UInt8} {r : Bytes} (stands : simpleEscape e = some b) : LaxEscape (e :: r) [b] r
  | unicode {h r : Bytes} {n : Nat} (hex : hex4 h = some n) (high : ¬ isHigh n) :
      LaxEscape (letterU :: (h ++ r)) (utf8Bytes n) r
  | pair {h l r : Bytes} {n m : Nat} (hex : hex4 h = some n) (high : isHigh n) (hex' : hex4 l = some m)
      (low : isLow m) :
      LaxEscape (letterU :: (h ++ backslash :: letterU :: (l ++ r))) (utf8Bytes (pairPoint n m)) r

/-- The rest of a string that the parser takes, and its bytes. -/
inductive LaxChars : Bytes → Bytes → Bytes → Prop where
  | close {r : Bytes} : LaxChars (quote :: r) [] r
  | cut : LaxChars [] [] []
  | plain {c : UInt8} {s b r : Bytes} (visible : ¬ c < 0x20) (quoted : c ≠ quote) (escaped : c ≠ backslash)
      (rest : LaxChars s b r) : LaxChars (c :: s) (c :: b) r
  | escape {s s' bs b r : Bytes} (escape : LaxEscape s bs s') (rest : LaxChars s' b r) :
      LaxChars (backslash :: s) (bs ++ b) r

lemma hex4_length {h : Bytes} {n : Nat} (e : hex4 h = some n) : h.length = 4 := by
  unfold hex4 at e
  split at e
  · rfl
  · cases e

/-- The first four bytes, when they are hexadecimal digits. -/
lemma hex4_take {s : Bytes} {n : Nat} (e : hex4 (s.take 4) = some n) :
    ∃ h r, s = h ++ r ∧ h.length = 4 ∧ hex4 h = some n ∧ s.drop 4 = r :=
  ⟨s.take 4, s.drop 4, (List.take_append_drop 4 s).symm, hex4_length e, e, rfl⟩

lemma hex4_append {h r : Bytes} {n : Nat} (e : hex4 h = some n) :
    hex4 ((h ++ r).take 4) = some n ∧ (h ++ r).drop 4 = r := by
  have len := hex4_length e
  rw [← len, List.take_left, List.drop_left]
  exact ⟨e, rfl⟩

/-- The bit operations of the source add up to the code point of the pair. -/
lemma pairPoint_eq (n m : Nat) : 0x10000 + (n - 0xD800) <<< 10 + (m - 0xDC00) = pairPoint n m := by
  rw [Nat.shiftLeft_eq]
  rfl

lemma jpLowSurrogate_ok {p q : JParser} {n cp : Nat} (h : jpLowSurrogate p n = .ok (cp, q)) :
    ∃ l m, p.rest = backslash :: letterU :: (l ++ q.rest) ∧ hex4 l = some m ∧ isLow m ∧ cp = pairPoint n m := by
  unfold jpLowSurrogate at h
  split at h
  · rename_i start
    dsimp only at h
    split at h
    · cases h
    · rename_i m hex
      split at h
      · rename_i low
        obtain ⟨rfl, rfl⟩ := Prod.mk.inj (Except.ok.inj h)
        obtain ⟨l, r, e, -, hex, drop⟩ := hex4_take hex
        refine ⟨l, m, ?_, hex, low, pairPoint_eq n m⟩
        rw [skip_rest, drop, ← e, skip_rest]
        have split := (List.take_append_drop 2 p.rest).symm
        rwa [start.2] at split
      · cases h
  · cases h

lemma jpLowSurrogate_of {p : JParser} {n m : Nat} {l r : Bytes}
    (e : p.rest = backslash :: letterU :: (l ++ r)) (hex : hex4 l = some m) (low : isLow m) :
    ∃ q, jpLowSurrogate p n = .ok (pairPoint n m, q) ∧ q.rest = r := by
  have len := hex4_length hex
  have start : 6 ≤ p.rest.length ∧ p.rest.take 2 = [backslash, letterU] := by
    rw [e]
    simp only [List.length_cons, List.length_append]
    exact ⟨by omega, rfl⟩
  have behind : (p.skip 2).rest = l ++ r := by rw [skip_rest, e]; rfl
  obtain ⟨take, drop⟩ := hex4_append (r := r) hex
  refine ⟨(p.skip 2).skip 4, ?_, by rw [skip_rest, behind, drop]⟩
  rw [jpLowSurrogate, if_pos start]
  dsimp only
  rw [behind, take]
  dsimp only
  rw [if_pos low, pairPoint_eq]

lemma jpDecodeUnicode_ok {p q : JParser} {bs : Str} (h : jpDecodeUnicode p = .ok (bs, q)) :
    LaxEscape (letterU :: p.rest) bs q.rest := by
  unfold jpDecodeUnicode at h
  split at h
  · cases h
  split at h
  · cases h
  rename_i n hex
  obtain ⟨l, r, e, -, hex, drop⟩ := hex4_take hex
  dsimp only at h
  split at h
  · rename_i high
    split at h
    · rename_i cp o found
      cases h
      obtain ⟨l', m, e', hex', low, point⟩ := jpLowSurrogate_ok found
      rw [skip_rest, drop] at e'
      rw [e, e', point]
      exact .pair hex high hex' low
    · cases h
  · rename_i high
    obtain ⟨rfl, rfl⟩ := Prod.mk.inj (Except.ok.inj h)
    rw [skip_rest, drop, e]
    exact .unicode hex high

lemma jpEscape_ok {p q : JParser} {bs : Str} (h : jpEscape p = .ok (bs, q)) :
    LaxEscape p.rest bs q.rest := by
  unfold jpEscape at h
  split at h
  · cases h
  rename_i c s e
  split at h
  · rename_i b stands
    obtain ⟨rfl, rfl⟩ := Prod.mk.inj (Except.ok.inj h)
    rw [skip_rest, e]
    exact .simple stands
  · split at h
    · rename_i letter
      have decoded := jpDecodeUnicode_ok h
      rw [skip_rest, e] at decoded
      rw [e, letter]
      exact decoded
    · cases h

lemma jpEscape_of {p : JParser} {bs r : Bytes} (h : LaxEscape p.rest bs r) :
    ∃ q, jpEscape p = .ok (bs, q) ∧ q.rest = r := by
  generalize e : p.rest = s at h
  cases h with
  | simple stands => exact ⟨p.skip 1, by simp [jpEscape, e, stands], by simp [e]⟩
  | @unicode h r n hex high =>
    have len := hex4_length hex
    have behind : (p.skip 1).rest = h ++ r := by rw [skip_rest, e]; rfl
    have long : ¬ (p.skip 1).rest.length < 4 := by
      rw [behind, List.length_append]
      omega
    obtain ⟨take, drop⟩ := hex4_append (r := r) hex
    refine ⟨(p.skip 1).skip 4, ?_, by rw [skip_rest, behind, drop]⟩
    rw [jpEscape, e]
    change jpDecodeUnicode (p.skip 1) = _
    rw [jpDecodeUnicode, if_neg long, behind, take]
    exact if_neg high
  | @pair h l r n m hex high hex' low =>
    have len := hex4_length hex
    have behind : (p.skip 1).rest = h ++ backslash :: letterU :: (l ++ r) := by rw [skip_rest, e]; rfl
    have long : ¬ (p.skip 1).rest.length < 4 := by
      rw [behind, List.length_append]
      omega
    obtain ⟨take, drop⟩ := hex4_append (r := backslash :: letterU :: (l ++ r)) hex
    have second : ((p.skip 1).skip 4).rest = backslash :: letterU :: (l ++ r) := by
      rw [skip_rest, behind, drop]
    obtain ⟨q, found, rest⟩ := jpLowSurrogate_of (n := n) second hex' low
    refine ⟨q, ?_, rest⟩
    rw [jpEscape, e]
    change jpDecodeUnicode (p.skip 1) = _
    rw [jpDecodeUnicode, if_neg long, behind, take]
    dsimp only
    rw [if_pos high, found]

lemma jpStringLoop_ok {fuel : Nat} {p q : JParser} {buf b : Str} (h : jpStringLoop fuel p buf = .ok (b, q)) :
    ∃ bs, b = buf ++ bs ∧ LaxChars p.rest bs q.rest := by
  induction fuel generalizing p buf with
  | zero => cases h
  | succ fuel ih =>
    rw [jpStringLoop] at h
    split at h
    · rename_i e
      obtain ⟨rfl, rfl⟩ := Prod.mk.inj (Except.ok.inj h)
      exact ⟨[], (List.append_nil _).symm, by rw [e]; exact .cut⟩
    rename_i c s e
    split at h
    · rename_i closing
      obtain ⟨rfl, rfl⟩ := Prod.mk.inj (Except.ok.inj h)
      refine ⟨[], (List.append_nil _).symm, ?_⟩
      rw [skip_rest, e, closing]
      exact .close
    rename_i quoted
    split at h
    · rename_i back
      split at h
      · rename_i bs o found
        obtain ⟨b', rfl, chars⟩ := ih h
        have escape := jpEscape_ok found
        rw [skip_rest, e] at escape
        refine ⟨bs ++ b', List.append_assoc _ _ _, ?_⟩
        rw [e, back]
        exact .escape escape chars
      · cases h
    rename_i escaped
    split at h
    · cases h
    · rename_i visible
      obtain ⟨b', rfl, chars⟩ := ih h
      rw [skip_rest, e] at chars
      refine ⟨c :: b', by simp, ?_⟩
      rw [e]
      exact .plain visible quoted escaped chars

/-- An escape takes up space. -/
lemma LaxEscape.length_lt {s b r : Bytes} (h : LaxEscape s b r) : r.length < s.length := by
  cases h <;> simp only [List.length_cons, List.length_append] <;> omega

lemma LaxChars.length_le {s b r : Bytes} (h : LaxChars s b r) : r.length ≤ s.length := by
  induction h with
  | close => exact Nat.le_succ _
  | cut => exact Nat.le_refl _
  | plain _ _ _ _ ih => exact Nat.le_succ_of_le ih
  | escape escape _ ih =>
    have := escape.length_lt
    simp only [List.length_cons]
    omega

lemma jpStringLoop_of {s b r : Bytes} (h : LaxChars s b r) {fuel : Nat} {p : JParser} (buf : Str)
    (e : p.rest = s) (enough : s.length < fuel) :
    ∃ q, jpStringLoop fuel p buf = .ok (buf ++ b, q) ∧ q.rest = r := by
  induction h generalizing fuel p buf with
  | close =>
    obtain ⟨fuel, rfl⟩ := Nat.exists_eq_succ_of_ne_zero (Nat.ne_zero_of_lt enough)
    exact ⟨p.skip 1, by simp [jpStringLoop, e], by simp [e]⟩
  | cut =>
    obtain ⟨fuel, rfl⟩ := Nat.exists_eq_succ_of_ne_zero (Nat.ne_zero_of_lt enough)
    exact ⟨p, by simp [jpStringLoop, e], e⟩
  | @plain c s b r visible quoted escaped _ ih =>
    obtain ⟨fuel, rfl⟩ := Nat.exists_eq_succ_of_ne_zero (Nat.ne_zero_of_lt enough)
    have behind : (p.skip 1).rest = s := by rw [skip_rest, e]; rfl
    obtain ⟨q, done, rest⟩ := ih (buf ++ [c]) behind (Nat.lt_of_succ_lt_succ enough)
    refine ⟨q, ?_, rest⟩
    rw [jpStringLoop, e]
    dsimp only
    rw [if_neg quoted, if_neg escaped, if_neg visible, done, List.append_assoc]
    rfl
  | @escape s s' bs b r escape _ ih =>
    obtain ⟨fuel, rfl⟩ := Nat.exists_eq_succ_of_ne_zero (Nat.ne_zero_of_lt enough)
    have behind : (p.skip 1).rest = s := by rw [skip_rest, e]; rfl
    obtain ⟨o, found, rfl⟩ := jpEscape_of (behind.symm ▸ escape)
    have shorter := escape.length_lt
    obtain ⟨q, done, rest⟩ := ih (buf ++ bs) rfl
      (Nat.lt_of_lt_of_le shorter (Nat.le_of_lt_succ (Nat.lt_of_succ_lt enough)))
    refine ⟨q, ?_, rest⟩
    rw [jpStringLoop, e]
    dsimp only
    rw [if_neg (by decide), if_pos rfl, found]
    dsimp only
    rw [done, List.append_assoc]

lemma jpLowSurrogate_fuel {p : JParser} {n : Nat} : jpLowSurrogate p n ≠ .error .fuel := by
  unfold jpLowSurrogate
  dsimp only
  split
  · split
    · exact jpError_fuel
    · split
      · nofun
      · exact jpError_fuel
  · exact jpError_fuel

lemma jpDecodeUnicode_fuel {p : JParser} : jpDecodeUnicode p ≠ .error .fuel := by
  unfold jpDecodeUnicode
  dsimp only
  split
  · exact jpError_fuel
  split
  · exact jpError_fuel
  split
  · split
    · nofun
    · rename_i e found
      intro h
      cases h
      exact jpLowSurrogate_fuel found
  · nofun

lemma jpEscape_fuel {p : JParser} : jpEscape p ≠ .error .fuel := by
  unfold jpEscape
  cases p.rest with
  | nil => exact jpError_fuel
  | cons esc s =>
    dsimp only
    cases simpleEscape esc with
    | none =>
      dsimp only
      split
      · exact jpDecodeUnicode_fuel
      · exact jpError_fuel
    | some b => rintro ⟨⟩

/-- The loop has enough fuel when there are fewer bytes left. -/
lemma jpStringLoop_fuel {fuel : Nat} {p : JParser} {buf : Str} (enough : p.rest.length < fuel) :
    jpStringLoop fuel p buf ≠ .error .fuel := by
  induction fuel generalizing p buf with
  | zero => cases enough
  | succ fuel ih =>
    rw [jpStringLoop]
    split
    · nofun
    rename_i c s e
    rw [e, List.length_cons] at enough
    split
    · nofun
    split
    · split
      · rename_i bs o found
        refine ih (Nat.lt_of_lt_of_le (jpEscape_ok found).length_lt ?_)
        rw [skip_rest, e]
        exact Nat.le_of_lt_succ (Nat.lt_of_succ_lt enough)
      · rename_i x found
        intro h
        cases h
        exact jpEscape_fuel found
    split
    · exact jpError_fuel
    · refine ih ?_
      rw [skip_rest, e]
      exact Nat.lt_of_succ_lt_succ enough

lemma jpParseString_ok {p q : JParser} {b : Str} (h : jpParseString p = .ok (b, q)) :
    ∃ s, p.rest = quote :: s ∧ LaxChars s b q.rest := by
  unfold jpParseString at h
  split at h
  · rename_i start
    obtain ⟨s, e⟩ := at_byte_iff.mp start
    obtain ⟨b', rfl, chars⟩ := jpStringLoop_ok h
    rw [skip_rest, e] at chars
    exact ⟨s, e, chars⟩
  · cases h

lemma jpParseString_of {p : JParser} {s b r : Bytes} (e : p.rest = quote :: s) (h : LaxChars s b r) :
    ∃ q, jpParseString p = .ok (b, q) ∧ q.rest = r := by
  have start : p.at? (· == quote) = true := at_byte_iff.mpr ⟨s, e⟩
  have behind : (p.skip 1).rest = s := by rw [skip_rest, e]; rfl
  have enough : s.length < p.rest.length + 1 := by
    rw [e, List.length_cons]
    omega
  rw [jpParseString, if_pos start]
  exact jpStringLoop_of h [] behind enough

lemma jpParseString_fuel {p : JParser} : jpParseString p ≠ .error .fuel := by
  unfold jpParseString
  split
  · refine jpStringLoop_fuel ?_
    rw [skip_rest, List.length_drop]
    omega
  · exact jpError_fuel

/-- The dialect of the parser. -/
def lax {ν : Type} [F64 ν] : Dialect ν := ⟨LaxChars, LaxNumber⟩

end Cando
