import Cando.Parser.Expression
import Cando.Parser.Tokens
import Mathlib.Tactic.IntervalCases

/-!
# Numerals

`lex_number` and `parse_number` on the numerals that the language reference shows: digits, with a fraction and an
exponent if there are any. The lexer knows no exponents, and the parser converts the first 63 bytes of a token.
-/

namespace Cando

open SourceText Program

variable {ν : Type}

/-- One digit or more. -/
structure Digits where
  text : Str
  ne_nil : text ≠ []
  decimal : ∀ c ∈ text, isDecimal c

/-- An exponent: `e` or `E`, and an optional sign. -/
structure Exponent where
  upper : Bool
  sign : Option Bool
  digits : Digits

/-- A numeral of the documented forms. -/
structure NumberLiteral where
  whole : Digits
  fraction : Option Digits := none
  exponent : Option Exponent := none

def Exponent.text (e : Exponent) : Str :=
  ch (if e.upper then 'E' else 'e') ::
    ((match e.sign with
      | none => []
      | some minus => [ch (if minus then '-' else '+')]) ++ e.digits.text)

/-- The digits and the fraction. -/
def NumberLiteral.mantissa (n : NumberLiteral) : Str :=
  n.whole.text ++ match n.fraction with
    | none => []
    | some f => ch '.' :: f.text

def NumberLiteral.text (n : NumberLiteral) : Str :=
  n.mantissa ++ match n.exponent with
    | none => []
    | some e => e.text

/-- No longer numeral begins where this one begins. -/
def NumberLiteral.Complete (n : NumberLiteral) (rest : Str) : Prop :=
  ∀ m : NumberLiteral, m.text <+: n.text ++ rest → m.text.length ≤ n.text.length

/-- The code for a number: what `parse_number` emits. -/
def emitNumber [F64 ν] (x : ν) : Parse ν Unit := do
  CandoParser.emitOpA .const (← CandoParser.addConst (.number x))

/-- The lexer returns the numeral as one token, and the parser emits the constant that `strtod` makes of it. -/
def NumeralRead (ν : Type) [F64 ν] (lex : CandoLexer) (n : NumberLiteral) : Prop :=
  lex.next.1.type = .tokNumber ∧ lex.next.1.start = lex.pos ∧ lex.next.1.length = n.text.length ∧
    lex.next.2.pos = lex.pos + n.text.length ∧
    ∀ p : CandoParser ν, p.lexer.source = lex.source → p.previous = lex.next.1 →
      CandoParser.parseNumber p = emitNumber (F64.strtod n.text) p

/-! ### What the lexer scans -/

/-- What `lex_number` takes: digits, and a point with digits behind it. -/
def numberSpan (s : Str) : Str :=
  s.takeWhile isDecimal ++ match s.dropWhile isDecimal with
    | [] => []
    | c :: t => if c = ch '.' ∧ isDecimal (t.headD 0) then c :: t.takeWhile isDecimal else []

namespace CandoLexer

variable {lex : CandoLexer} {before rest : Str} {c : UInt8}

lemma At.peekChar2 (a : At lex before (c :: rest)) : lex.peekChar2 = rest.headD 0 := by
  rw [CandoLexer.peekChar2, a.second, List.getElem?_cons_succ, ← List.head?_eq_getElem?]
  cases rest <;> rfl

/-- `lex_number`, where a digit or the end of one stands. -/
lemma number_at (a : At lex before rest) (start : CandoLexer) : ∃ (lex' : CandoLexer) (after : Str),
    lex.number start = lex'.token .tokNumber start ∧ lex'.At (before ++ numberSpan rest) after := by
  have digits := skipWhile_spec (p := isDecimal) a
  rw [number, numberSpan]
  cases behind : rest.dropWhile isDecimal with
  | nil =>
    rw [behind] at digits
    have nothing : (lex.skipWhile isDecimal).peekChar = 0 := by
      rw [peekChar, digits.cur]
      rfl
    refine ⟨_, [], if_neg fun h => ?_, ?_⟩
    · rw [nothing] at h
      exact absurd h.1 (by decide)
    · rw [List.append_nil]
      exact digits
  | cons d t =>
    rw [behind] at digits
    dsimp only
    rw [digits.peekChar, digits.peekChar2]
    by_cases fraction : d = ch '.' ∧ isDecimal (t.headD 0)
    · have decimals := skipWhile_spec (p := isDecimal) digits.advance
      rw [if_pos fraction, if_pos fraction]
      refine ⟨_, t.dropWhile isDecimal, rfl, ?_⟩
      rw [List.append_cons, ← List.append_assoc, ← List.append_assoc]
      exact decimals
    · rw [if_neg fraction, if_neg fraction, List.append_nil]
      exact ⟨_, d :: t, rfl, digits⟩

lemma isDecimal_cases (digit : isDecimal c) : c ∈ ([48, 49, 50, 51, 52, 53, 54, 55, 56, 57] : List UInt8) := by
  rw [isDecimal, Bool.and_eq_true, decide_eq_true_eq, decide_eq_true_eq, UInt8.le_iff_toNat_le,
    UInt8.le_iff_toNat_le] at digit
  obtain ⟨lo, hi⟩ := digit
  have e : c = UInt8.ofNat c.toNat := UInt8.ofNat_toNat.symm
  change 48 ≤ c.toNat at lo
  change c.toNat ≤ 57 at hi
  rw [e]
  interval_cases c.toNat <;> decide

/-- A token that begins with a digit is a number. -/
lemma next_digit (a : At lex before (c :: rest)) (digit : isDecimal c) : lex.next = lex.advance.number lex := by
  have cur : lex.cur = some c := a.cur
  have scanned : lex.advance.scanToken lex c = lex.advance.number lex ∧ isWhite c = false ∧ c ≠ slash := by
    have digits := isDecimal_cases digit
    simp only [List.mem_cons, List.not_mem_nil, or_false] at digits
    rcases digits with rfl | rfl | rfl | rfl | rfl | rfl | rfl | rfl | rfl | rfl
    all_goals exact ⟨rfl, rfl, by decide⟩
  obtain ⟨scan, black, ne⟩ := scanned
  have stay : lex.skipWhile isWhite = lex := by
    rw [skipWhile]
    split
    · rfl
    · rename_i d found
      cases cur.symm.trans found
      rw [black]
      rfl
  rw [next]
  split
  · rename_i found
    rw [stay, cur] at found
    cases found
  · rename_i d found
    rw [stay] at found ⊢
    cases cur.symm.trans found
    rw [if_neg fun h => ne h.1, if_neg fun h => ne h.1]
    exact scan

end CandoLexer

/-! ### What it scans of a numeral -/

/-- Digits end in front of the text. -/
def DigitsEnd (s : Str) : Prop := ∀ c ∈ s.head?, isDecimal c = false

lemma Digits.span (ds : Digits) {s : Str} (ends : DigitsEnd s) :
    (ds.text ++ s).takeWhile isDecimal = ds.text ∧ (ds.text ++ s).dropWhile isDecimal = s := by
  rw [List.takeWhile_append_of_pos ds.decimal, List.dropWhile_append_of_pos ds.decimal]
  cases s with
  | nil => exact ⟨List.append_nil _, rfl⟩
  | cons c s =>
    have stops : ¬ isDecimal c = true := by
      rw [ends c rfl]
      decide
    rw [List.takeWhile_cons_of_neg stops, List.dropWhile_cons_of_neg stops]
    exact ⟨List.append_nil _, rfl⟩

/-- One more digit. -/
def Digits.push (ds : Digits) (c : UInt8) (digit : isDecimal c) : Digits where
  text := ds.text ++ [c]
  ne_nil := List.append_ne_nil_of_right_ne_nil _ (List.cons_ne_nil _ _)
  decimal d mem := by
    obtain mem | mem := List.mem_append.mp mem
    · exact ds.decimal d mem
    · rw [List.mem_singleton.mp mem]
      exact digit

/-- A single digit. -/
def Digits.single (c : UInt8) (digit : isDecimal c) : Digits where
  text := [c]
  ne_nil := List.cons_ne_nil _ _
  decimal d mem := by
    rw [List.mem_singleton.mp mem]
    exact digit

lemma Digits.exists_cons (ds : Digits) : ∃ c s, ds.text = c :: s ∧ isDecimal c := by
  obtain ⟨c, s, e⟩ := List.exists_cons_of_ne_nil ds.ne_nil
  exact ⟨c, s, e, ds.decimal c (e ▸ List.mem_cons_self)⟩

lemma Exponent.text_ne_nil (e : Exponent) : e.text ≠ [] := List.cons_ne_nil _ _

lemma Exponent.ends (e : Exponent) (rest : Str) : DigitsEnd (e.text ++ rest) := by
  rintro c ⟨⟩
  cases e.upper <;> rfl

/-- What follows the digits and the fraction. -/
def NumberLiteral.tail (n : NumberLiteral) (rest : Str) : Str :=
  (match n.exponent with
    | none => []
    | some e => e.text) ++ rest

lemma NumberLiteral.text_append (n : NumberLiteral) (rest : Str) : n.text ++ rest = n.mantissa ++ n.tail rest := by
  rw [NumberLiteral.text, NumberLiteral.tail, List.append_assoc]

namespace NumberLiteral.Complete

variable {n : NumberLiteral} {rest : Str}

/-- What is longer than the numeral is not one. -/
lemma not_longer (complete : n.Complete rest) (m : NumberLiteral) {more : Str} (rest' : Str)
    (text : m.text = n.text ++ more) (ne : more ≠ []) : rest ≠ more ++ rest' := by
  rintro rfl
  have le := complete m ⟨rest', by rw [text, List.append_assoc]⟩
  have pos := List.length_pos_iff.mpr ne
  rw [text, List.length_append] at le
  omega

/-- A complete numeral is not followed by a digit. -/
lemma ends (complete : n.Complete rest) : DigitsEnd (n.tail rest) := by
  rw [NumberLiteral.tail]
  obtain ⟨whole, fraction, exponent⟩ := n
  cases exponent with
  | some e => exact e.ends rest
  | none =>
    intro c head
    by_contra digit
    rw [Bool.not_eq_false] at digit
    obtain ⟨r, rfl⟩ := List.head?_eq_some_iff.mp head
    cases fraction with
    | none =>
      refine complete.not_longer { whole := whole.push c digit } r ?_ (List.cons_ne_nil c []) rfl
      simp only [NumberLiteral.text, NumberLiteral.mantissa, Digits.push, List.append_nil]
    | some f =>
      refine complete.not_longer { whole, fraction := some (f.push c digit) } r ?_ (List.cons_ne_nil c []) rfl
      simp only [NumberLiteral.text, NumberLiteral.mantissa, Digits.push, List.append_nil, List.append_assoc,
        List.cons_append]

/-- A complete numeral without a fraction is not followed by one. -/
lemma no_fraction (complete : n.Complete rest) (none : n.fraction = none) {t : Str}
    (point : n.tail rest = ch '.' :: t) : ¬ isDecimal (t.headD 0) := by
  intro digit
  obtain ⟨whole, fraction, exponent⟩ := n
  cases none
  cases exponent with
  | some e =>
    have head := congrArg List.head? point
    simp only [NumberLiteral.tail, Exponent.text, List.cons_append, List.head?_cons, Option.some.injEq] at head
    cases upper : e.upper <;> rw [upper] at head <;> exact absurd head (by decide)
  | none =>
    obtain rfl : rest = ch '.' :: t := point
    cases t with
    | nil => exact absurd digit (by decide)
    | cons c t =>
      refine complete.not_longer { whole, fraction := some (.single c digit) } t ?_
        (List.cons_ne_nil (ch '.') [c]) rfl
      simp only [NumberLiteral.text, NumberLiteral.mantissa, Digits.single, List.append_nil]

/-- Of a complete numeral `lex_number` takes the digits and the fraction. -/
lemma span (complete : n.Complete rest) : numberSpan (n.text ++ rest) = n.mantissa := by
  have ends := complete.ends
  rw [n.text_append, NumberLiteral.mantissa]
  cases fraction : n.fraction with
  | none =>
    dsimp only
    rw [List.append_nil, numberSpan, (n.whole.span ends).1, (n.whole.span ends).2]
    cases behind : n.tail rest with
    | nil => exact List.append_nil _
    | cons c t =>
      dsimp only
      rw [if_neg fun h => complete.no_fraction fraction (h.1 ▸ behind) h.2, List.append_nil]
  | some f =>
    dsimp only
    have point : DigitsEnd (ch '.' :: (f.text ++ n.tail rest)) := by
      rintro c ⟨⟩
      rfl
    obtain ⟨c, s, e, digit⟩ := f.exists_cons
    have first : isDecimal ((f.text ++ n.tail rest).headD 0) := by
      rw [e]
      exact digit
    rw [List.append_assoc, List.cons_append, numberSpan, (n.whole.span point).1, (n.whole.span point).2]
    dsimp only
    rw [if_pos ⟨rfl, first⟩, (f.span ends).1]

end NumberLiteral.Complete

lemma numberSpan_cons {c : UInt8} (digit : isDecimal c) (s : Str) : numberSpan (c :: s) = c :: numberSpan s := by
  rw [numberSpan, List.takeWhile_cons_of_pos digit, List.dropWhile_cons_of_pos digit]
  rfl

/-! ### What becomes of it -/

section Read

variable {n : NumberLiteral} {lex : CandoLexer} {before rest : Str}

/-- The token of a complete numeral holds the digits and the fraction. -/
lemma next_numeral (a : lex.At before (n.text ++ rest)) (complete : n.Complete rest) :
    lex.next.1.type = .tokNumber ∧ lex.next.1.start = lex.pos ∧
      lex.next.1.length = n.mantissa.length % 4294967296 ∧ lex.next.2.pos = lex.pos + n.mantissa.length := by
  obtain ⟨c, s, e, digit⟩ := n.whole.exists_cons
  obtain ⟨t, whole⟩ : ∃ t, n.text ++ rest = c :: t := by
    rw [n.text_append, NumberLiteral.mantissa, e]
    exact ⟨_, rfl⟩
  have span := complete.span
  rw [whole, numberSpan_cons digit] at span
  rw [whole] at a
  obtain ⟨lex', after, scanned, behind⟩ := CandoLexer.number_at a.advance lex
  rw [List.append_assoc, List.singleton_append, span] at behind
  have taken : lex'.pos = lex.pos + n.mantissa.length := by
    rw [behind.pos, a.pos, List.length_append]
  rw [CandoLexer.next_digit a digit, scanned]
  refine ⟨rfl, rfl, ?_, taken⟩
  change (lex'.pos - lex.pos) % 4294967296 = _
  rw [taken, Nat.add_sub_cancel_left]

/-- `parse_number` converts what fits its buffer. -/
lemma parseNumber_eq [F64 ν] {p : CandoParser ν} {text : Str}
    (here : (p.lexer.source.drop p.previous.start).take p.previous.length = text) :
    CandoParser.parseNumber p = emitNumber (F64.strtod (text.take 63)) p := by
  subst here
  rfl

/-- A parser that has just read a token, with nothing in its chunk. -/
def freshParser (ν : Type) (lex : CandoLexer) : CandoParser ν where
  lexer := lex
  current := lex.next.1
  previous := lex.next.1
  chunk := {}

/-- The constant can be told from what is emitted. -/
lemma emitNumber_inj [F64 ν] {x y : ν}
    (same : emitNumber x (freshParser ν lex) = emitNumber y (freshParser ν lex)) : x = y := by
  have emits (z : ν) : ∃ p : CandoParser ν, emitNumber z (freshParser ν lex) = .ok () p ∧
      p.chunk.constants = [.number z] := ⟨_, rfl, rfl⟩
  obtain ⟨p, hp, cp⟩ := emits x
  obtain ⟨q, hq, cq⟩ := emits y
  rw [hp, hq] at same
  cases same
  rw [cp] at cq
  cases cq
  rfl

/-- A numeral is read as it should be if it has no exponent, its length is one of 32 bits, and the bytes that fit the
buffer have the value of all. -/
theorem numeral_read_iff [F64 ν] (a : lex.At before (n.text ++ rest)) (complete : n.Complete rest) :
    NumeralRead ν lex n ↔
      n.exponent = none ∧ n.text.length < 4294967296 ∧
        (F64.strtod (n.text.take 63) : ν) = F64.strtod n.text := by
  obtain ⟨type, start, length, stop⟩ := next_numeral a complete
  have from_source : lex.source.drop lex.pos = n.text ++ rest := by
    rw [a.source, a.pos, List.drop_left]
  constructor
  · rintro ⟨-, -, length', stop', emits⟩
    have plain : n.exponent = none := by
      cases exponent : n.exponent with
      | none => rfl
      | some e =>
        have pos := List.length_pos_iff.mpr e.text_ne_nil
        have longer : n.text.length = n.mantissa.length + e.text.length := by
          rw [NumberLiteral.text, exponent, List.length_append]
        rw [stop] at stop'
        omega
    have short : n.text.length < 4294967296 := by
      rw [← length', length]
      exact Nat.mod_lt _ (by decide)
    refine ⟨plain, short, ?_⟩
    have here : (lex.source.drop lex.next.1.start).take lex.next.1.length = n.text := by
      rw [start, length', from_source, List.take_left]
    exact emitNumber_inj ((parseNumber_eq here).symm.trans (emits (freshParser ν lex) rfl rfl))
  · rintro ⟨plain, short, value⟩
    have text : n.text = n.mantissa := by rw [NumberLiteral.text, plain, List.append_nil]
    rw [← text, Nat.mod_eq_of_lt short] at length
    rw [← text] at stop
    refine ⟨type, start, length, stop, fun p source previous => ?_⟩
    have here : (p.lexer.source.drop p.previous.start).take p.previous.length = n.text := by
      rw [source, previous, start, length, from_source, List.take_left]
    rw [parseNumber_eq here, value]

end Read

/-- `42` -/
def fortyTwo : NumberLiteral := { whole := (Digits.single 52 rfl).push 50 rfl }

/-- `1e-5` -/
def tiny : NumberLiteral :=
  { whole := .single 49 rfl, exponent := some ⟨false, some true, .single 53 rfl⟩ }

/-- At its end a source has no longer numeral than what is left of it. -/
lemma NumberLiteral.complete_nil (n : NumberLiteral) : n.Complete [] := by
  intro m front
  rw [List.append_nil] at front
  exact front.length_le

theorem numeral_read_iff_forty_two : NumeralRead Int { source := bytes "42" } fortyTwo := by
  have a : ({ source := bytes "42" } : CandoLexer).At [] (fortyTwo.text ++ []) := .init _
  exact (numeral_read_iff a fortyTwo.complete_nil).mpr ⟨rfl, by decide, by decide⟩

/-- `1e-5`, which the language reference shows, is read as `1`. -/
theorem exponent_not_read :
    tiny.text = bytes "1e-5" ∧ ({ source := bytes "1e-5" } : CandoLexer).next.1.length = 1 ∧
      ¬NumeralRead Int { source := bytes "1e-5" } tiny := by
  have a : ({ source := bytes "1e-5" } : CandoLexer).At [] (tiny.text ++ []) := .init _
  have token := next_numeral a tiny.complete_nil
  refine ⟨by decide, token.2.2.1, fun read => ?_⟩
  have length := read.2.2.1
  rw [token.2.2.1] at length
  exact absurd length (by decide)

end Cando
