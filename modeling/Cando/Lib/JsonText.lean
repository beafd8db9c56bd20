import Cando.Lib.OrderedMap
import Mathlib.Data.List.TakeWhile
import Mathlib.Tactic.Common

/-!
# JSON texts

The trees that JSON texts denote and the grammar of the texts, over bytes. `Text D s (.value v) r` says that the
bytes `s` begin with a text of the value `v` and that `r` is what follows; the elements of an array and the
members of an object have texts too. A dialect `D` says what strings and numbers look like; `rfc` is the
dialect of RFC 8259, with a condition on numerals. A repeated name of an object keeps its last value.
-/

namespace JsonText

abbrev Bytes := List UInt8

/-- A JSON value over numbers `ν`; the fields of an object are in their order. -/
inductive Json (ν : Type) where
  | null
  | bool (b : Bool)
  | number (x : ν)
  | string (s : Bytes)
  | array (items : List (Json ν))
  | object (fields : List (Bytes × Json ν))

/-! ### Bytes -/

abbrev quote : UInt8 := 34
abbrev backslash : UInt8 := 92
abbrev comma : UInt8 := 44
abbrev colon : UInt8 := 58
abbrev openBracket : UInt8 := 91
abbrev closeBracket : UInt8 := 93
abbrev openBrace : UInt8 := 123
abbrev closeBrace : UInt8 := 125
abbrev minus : UInt8 := 45
abbrev plus : UInt8 := 43
abbrev point : UInt8 := 46
abbrev zero : UInt8 := 48
/-- The `u` of an escape. -/
abbrev letterU : UInt8 := 117

def isWs (b : UInt8) : Bool := b == 32 || b == 9 || b == 13 || b == 10

def isDigit (b : UInt8) : Bool := 48 ≤ b && b ≤ 57

/-- `e` or `E`. -/
def isExp (b : UInt8) : Bool := b == 101 || b == 69

def nullText : Bytes := [110, 117, 108, 108]
def trueText : Bytes := [116, 114, 117, 101]
def falseText : Bytes := [102, 97, 108, 115, 101]

/-- White space up to `r`. -/
inductive Ws : Bytes → Bytes → Prop where
  | nil {r : Bytes} : Ws r r
  | cons {b : UInt8} {s r : Bytes} (white : isWs b) (rest : Ws s r) : Ws (b :: s) r

/-- What is left of a text behind its white space. -/
lemma Ws.eq_dropWhile {s r : Bytes} (h : Ws s r) (stop : ∀ b t, r = b :: t → isWs b = false) :
    s.dropWhile isWs = r := by
  induction h with
  | nil =>
    rename_i r
    cases r with
    | nil => rfl
    | cons b t => exact List.dropWhile_cons_of_neg (by simp [stop b t rfl])
  | cons white rest ih => rw [List.dropWhile_cons_of_pos white, ih stop]

lemma ws_dropWhile (s : Bytes) : Ws s (s.dropWhile isWs) := by
  induction s with
  | nil => exact .nil
  | cons b s ih =>
    by_cases white : isWs b
    · rw [List.dropWhile_cons_of_pos white]
      exact .cons white ih
    · rw [List.dropWhile_cons_of_neg white]
      exact .nil

lemma Ws.trans {s t r : Bytes} (h : Ws s t) (h' : Ws t r) : Ws s r := by
  induction h with
  | nil => exact h'
  | cons white _ ih => exact .cons white (ih h')

/-- White space ends where it ends. -/
lemma Ws.within {s t r : Bytes} (h : Ws s r) (h' : Ws s t) (stop : ∀ b u, r = b :: u → isWs b = false) :
    Ws t r := by
  induction h' with
  | nil => exact h
  | cons white _ ih =>
    cases h with
    | nil => exact absurd white (by simp [stop _ _ rfl])
    | cons _ rest => exact ih rest

/-! ### Numerals -/

/-- What may follow a run of bytes: with `greedy`, none that would extend it. -/
def Stops (greedy : Bool) (q : UInt8 → Bool) (r : Bytes) : Prop :=
  greedy = true → ∀ b s, r = b :: s → q b = false

/-- One or more digits. -/
def Digits (greedy : Bool) (s r : Bytes) : Prop :=
  ∃ ds, s = ds ++ r ∧ ds ≠ [] ∧ (∀ d ∈ ds, isDigit d) ∧ Stops greedy isDigit r

/-- `int`: zero, or digits that do not begin with it. -/
inductive IntPart (greedy : Bool) : Bytes → Bytes → Prop where
  | zero {r : Bytes} : IntPart greedy (zero :: r) r
  | digits {d : UInt8} {s r : Bytes} (lead : d ≠ zero) (run : Digits greedy (d :: s) r) :
      IntPart greedy (d :: s) r

/-- `[ frac ]` -/
inductive FracPart (greedy : Bool) : Bytes → Bytes → Prop where
  | none {r : Bytes} (stop : Stops greedy (· == point) r) : FracPart greedy r r
  | some {s r : Bytes} (run : Digits greedy s r) : FracPart greedy (point :: s) r

/-- `[ minus / plus ]` -/
inductive Sign : Bytes → Bytes → Prop where
  | none {r : Bytes} : Sign r r
  | minus {r : Bytes} : Sign (minus :: r) r
  | plus {r : Bytes} : Sign (plus :: r) r

/-- `[ exp ]` -/
inductive ExpPart (greedy : Bool) : Bytes → Bytes → Prop where
  | none {r : Bytes} (stop : Stops greedy isExp r) : ExpPart greedy r r
  | some {e : UInt8} {s s' r : Bytes} (letter : isExp e) (sign : Sign s s') (run : Digits greedy s' r) :
      ExpPart greedy (e :: s) r

/-- `number = [ minus ] int [ frac ] [ exp ]`; with `greedy`, it goes as far as it can. -/
inductive Number (greedy : Bool) : Bytes → Bytes → Prop where
  | nonneg {s s₁ s₂ r : Bytes} (int : IntPart greedy s s₁) (frac : FracPart greedy s₁ s₂)
      (exp : ExpPart greedy s₂ r) : Number greedy s r
  | neg {s s₁ s₂ r : Bytes} (int : IntPart greedy s s₁) (frac : FracPart greedy s₁ s₂)
      (exp : ExpPart greedy s₂ r) : Number greedy (minus :: s) r

/-- A run of digits that goes as far as it can. -/
lemma digits_iff {s r : Bytes} :
    Digits true s r ↔ (∃ d t, s = d :: t ∧ isDigit d = true) ∧ s.dropWhile isDigit = r := by
  constructor
  · rintro ⟨ds, rfl, ne, digits, stop⟩
    obtain ⟨d, ds', rfl⟩ := List.exists_cons_of_ne_nil ne
    refine ⟨⟨d, ds' ++ r, rfl, digits d List.mem_cons_self⟩, ?_⟩
    rw [List.dropWhile_append_of_pos digits]
    cases r with
    | nil => rfl
    | cons b t => exact List.dropWhile_cons_of_neg (by simp [stop rfl b t rfl])
  · rintro ⟨⟨d, t, rfl, digit⟩, rfl⟩
    refine ⟨(d :: t).takeWhile isDigit, List.takeWhile_append_dropWhile.symm, ?_, ?_, ?_⟩
    · rw [List.takeWhile_cons_of_pos digit]
      exact List.cons_ne_nil _ _
    · exact fun x mem => List.mem_takeWhile_imp mem
    · intro _ b u e
      have head := List.head?_dropWhile_not isDigit (d :: t)
      simpa [e] using head

/-- An integer part begins with a digit. -/
lemma IntPart.head {s r : Bytes} (h : IntPart true s r) : ∃ d t, s = d :: t ∧ isDigit d = true := by
  cases h with
  | zero => exact ⟨_, _, rfl, rfl⟩
  | digits lead run => exact (digits_iff.mp run).1

lemma Digits.length_lt {greedy : Bool} {s r : Bytes} (h : Digits greedy s r) : r.length < s.length := by
  obtain ⟨ds, rfl, ne, -, -⟩ := h
  rw [List.length_append]
  exact Nat.lt_add_of_pos_left (List.length_pos_of_ne_nil ne)

lemma IntPart.length_lt {greedy : Bool} {s r : Bytes} (h : IntPart greedy s r) : r.length < s.length := by
  cases h with
  | zero => exact Nat.lt_succ_self _
  | digits lead run => exact run.length_lt

lemma FracPart.length_le {greedy : Bool} {s r : Bytes} (h : FracPart greedy s r) : r.length ≤ s.length := by
  cases h with
  | none => exact Nat.le_refl _
  | some run => exact Nat.le_succ_of_le (Nat.le_of_lt run.length_lt)

lemma Sign.length_le {s r : Bytes} (h : Sign s r) : r.length ≤ s.length := by
  cases h with
  | none => exact Nat.le_refl _
  | minus | plus => exact Nat.le_succ _

lemma ExpPart.length_le {greedy : Bool} {s r : Bytes} (h : ExpPart greedy s r) : r.length ≤ s.length := by
  cases h with
  | none => exact Nat.le_refl _
  | some letter sign run =>
    have := sign.length_le
    have := run.length_lt
    rw [List.length_cons]
    omega

/-- A numeral takes up space. -/
lemma Number.length_lt {greedy : Bool} {s r : Bytes} (h : Number greedy s r) : r.length < s.length := by
  cases h with
  | nonneg int frac exp =>
    exact Nat.lt_of_le_of_lt (exp.length_le.trans frac.length_le) int.length_lt
  | neg int frac exp =>
    exact Nat.lt_succ_of_lt (Nat.lt_of_le_of_lt (exp.length_le.trans frac.length_le) int.length_lt)

/-- A number begins with a minus or a digit. -/
lemma Number.head {greedy : Bool} {s r : Bytes} (h : Number greedy s r) :
    ∃ b t, s = b :: t ∧ (b = minus ∨ isDigit b = true) := by
  cases h with
  | nonneg int frac exp =>
    cases int with
    | zero => exact ⟨_, _, rfl, .inr rfl⟩
    | @digits d s r lead run =>
      obtain ⟨ds, e, ne, digits, -⟩ := run
      obtain ⟨d', ds', rfl⟩ := List.exists_cons_of_ne_nil ne
      obtain ⟨rfl, -⟩ := List.cons.inj e
      exact ⟨_, _, rfl, .inr (digits _ List.mem_cons_self)⟩
  | neg int frac exp => exact ⟨_, _, rfl, .inl rfl⟩

/-- The bytes that continue a numeral. -/
def inNumeral (b : UInt8) : Bool := isDigit b || b == point || isExp b

lemma Stops.mono {q q' : UInt8 → Bool} {greedy : Bool} {r : Bytes} (h : Stops true q' r)
    (le : ∀ b, q' b = false → q b = false) : Stops greedy q r :=
  fun _ b s e => le b (h rfl b s e)

lemma Digits.to_greedy {s r : Bytes} (h : Digits false s r) (stop : Stops true isDigit r) : Digits true s r := by
  obtain ⟨ds, e, ne, digits, -⟩ := h
  exact ⟨ds, e, ne, digits, stop⟩

lemma IntPart.to_greedy {s r : Bytes} (h : IntPart false s r) (stop : Stops true isDigit r) :
    IntPart true s r := by
  cases h with
  | zero => exact .zero
  | digits lead run => exact .digits lead (run.to_greedy stop)

lemma FracPart.to_greedy {s r : Bytes} (h : FracPart false s r) (digit : Stops true isDigit r)
    (dot : Stops true (· == point) r) : FracPart true s r ∧ Stops true isDigit s := by
  cases h with
  | none => exact ⟨.none dot, digit⟩
  | some run =>
    refine ⟨.some (run.to_greedy digit), fun _ b t e => ?_⟩
    obtain ⟨rfl, -⟩ := List.cons.inj e
    rfl

/-- What begins an exponent begins nothing else. -/
lemma isExp_other {b : UInt8} (h : isExp b = true) : isDigit b = false ∧ (b == point) = false := by
  unfold isExp at h
  rw [Bool.or_eq_true, beq_iff_eq, beq_iff_eq] at h
  obtain rfl | rfl := h <;> exact ⟨rfl, rfl⟩

lemma ExpPart.to_greedy {s r : Bytes} (h : ExpPart false s r) (stop : Stops true inNumeral r) :
    ExpPart true s r ∧ Stops true isDigit s ∧ Stops true (· == point) s := by
  have parts (b : UInt8) (e : inNumeral b = false) :
      isDigit b = false ∧ (b == point) = false ∧ isExp b = false := by
    rw [inNumeral, Bool.or_eq_false_iff, Bool.or_eq_false_iff] at e
    exact ⟨e.1.1, e.1.2, e.2⟩
  cases h with
  | none =>
    exact ⟨.none (stop.mono fun b e => (parts b e).2.2), stop.mono fun b e => (parts b e).1,
      stop.mono fun b e => (parts b e).2.1⟩
  | some letter sign run =>
    refine ⟨.some letter sign (run.to_greedy (stop.mono fun b e => (parts b e).1)), fun _ b t e => ?_,
      fun _ b t e => ?_⟩
    · obtain ⟨rfl, -⟩ := List.cons.inj e
      exact (isExp_other letter).1
    · obtain ⟨rfl, -⟩ := List.cons.inj e
      exact (isExp_other letter).2

/-- A numeral that nothing could extend is as long as it can be. -/
lemma Number.to_greedy {s r : Bytes} (h : Number false s r) (stop : Stops true inNumeral r) :
    Number true s r := by
  cases h with
  | nonneg int frac exp =>
    obtain ⟨exp, digit, dot⟩ := exp.to_greedy stop
    obtain ⟨frac, digit⟩ := frac.to_greedy digit dot
    exact .nonneg (int.to_greedy digit) frac exp
  | neg int frac exp =>
    obtain ⟨exp, digit, dot⟩ := exp.to_greedy stop
    obtain ⟨frac, digit⟩ := frac.to_greedy digit dot
    exact .neg (int.to_greedy digit) frac exp

/-! What stands behind a numeral does not matter, as long as something does. -/

section Frame

variable {greedy : Bool} {s r x : Bytes}

lemma Stops.frame {q : UInt8 → Bool} (h : Stops greedy q r) (more : greedy = true → r ≠ []) :
    Stops greedy q (r ++ x) := by
  intro greed b t e
  obtain ⟨c, u, rfl⟩ := List.exists_cons_of_ne_nil (more greed)
  obtain ⟨rfl, -⟩ := List.cons.inj e
  exact h greed c u rfl

lemma Digits.frame (h : Digits greedy s r) (more : greedy = true → r ≠ []) :
    Digits greedy (s ++ x) (r ++ x) := by
  obtain ⟨ds, rfl, ne, digits, stop⟩ := h
  exact ⟨ds, List.append_assoc _ _ _, ne, digits, stop.frame more⟩

lemma IntPart.frame (h : IntPart greedy s r) (more : greedy = true → r ≠ []) :
    IntPart greedy (s ++ x) (r ++ x) := by
  cases h with
  | zero => exact .zero
  | digits lead run => exact .digits lead (run.frame more)

lemma FracPart.frame (h : FracPart greedy s r) (more : greedy = true → r ≠ []) :
    FracPart greedy (s ++ x) (r ++ x) := by
  cases h with
  | none stop => exact .none (stop.frame more)
  | some run => exact .some (run.frame more)

lemma Sign.frame (h : Sign s r) : Sign (s ++ x) (r ++ x) := by
  cases h with
  | none => exact .none
  | minus => exact .minus
  | plus => exact .plus

lemma ExpPart.frame (h : ExpPart greedy s r) (more : greedy = true → r ≠ []) :
    ExpPart greedy (s ++ x) (r ++ x) := by
  cases h with
  | none stop => exact .none (stop.frame more)
  | some letter sign run => exact .some letter sign.frame (run.frame more)

lemma ne_nil_of_le {s r : Bytes} (le : r.length ≤ s.length) (ne : r ≠ []) : s ≠ [] :=
  List.ne_nil_of_length_pos (Nat.lt_of_lt_of_le (List.length_pos_of_ne_nil ne) le)

lemma Number.frame (h : Number greedy s r) (more : greedy = true → r ≠ []) :
    Number greedy (s ++ x) (r ++ x) := by
  cases h with
  | nonneg int frac exp =>
    have more₂ := fun greed => ne_nil_of_le exp.length_le (more greed)
    have more₁ := fun greed => ne_nil_of_le frac.length_le (more₂ greed)
    exact .nonneg (int.frame more₁) (frac.frame more₂) (exp.frame more)
  | neg int frac exp =>
    have more₂ := fun greed => ne_nil_of_le exp.length_le (more greed)
    have more₁ := fun greed => ne_nil_of_le frac.length_le (more₂ greed)
    exact .neg (int.frame more₁) (frac.frame more₂) (exp.frame more)

end Frame

/-! ### Strings -/

/-- The value of a hexadecimal digit. -/
def hexVal (b : UInt8) : Option Nat :=
  if 48 ≤ b ∧ b ≤ 57 then some (b.toNat - 48)
  else if 97 ≤ b ∧ b ≤ 102 then some (b.toNat - 87)
  else if 65 ≤ b ∧ b ≤ 70 then some (b.toNat - 55)
  else none

/-- Four hexadecimal digits. -/
def hex4 : Bytes → Option Nat
  | [a, b, c, d] =>
    (hexVal a).bind fun a => (hexVal b).bind fun b => (hexVal c).bind fun c => (hexVal d).map fun d =>
      ((a * 16 + b) * 16 + c) * 16 + d
  | _ => none

/-- What stands for itself or a control character after a backslash. -/
def simpleEscape (b : UInt8) : Option UInt8 :=
  if b = quote ∨ b = backslash ∨ b = 47 then some b
  else if b = 110 then some 10
  else if b = 114 then some 13
  else if b = 116 then some 9
  else if b = 98 then some 8
  else if b = 102 then some 12
  else none

def isHigh (n : Nat) : Prop := 0xD800 ≤ n ∧ n ≤ 0xDBFF

def isLow (n : Nat) : Prop := 0xDC00 ≤ n ∧ n ≤ 0xDFFF

instance (n : Nat) : Decidable (isHigh n) := inferInstanceAs (Decidable (_ ∧ _))

instance (n : Nat) : Decidable (isLow n) := inferInstanceAs (Decidable (_ ∧ _))

/-- The code point of a surrogate pair. -/
def pairPoint (n m : Nat) : Nat := 0x10000 + (n - 0xD800) * 0x400 + (m - 0xDC00)

/-- The characters of a string, from behind the opening quotation mark to behind the closing one. -/
inductive Chars : Bytes → List Char → Bytes → Prop where
  | close {r : Bytes} : Chars (quote :: r) [] r
  | plain {c : Char} {s r : Bytes} {cs : List Char} (visible : 0x20 ≤ c.toNat) (quoted : c ≠ '"')
      (escaped : c ≠ '\\') (rest : Chars s cs r) : Chars (String.utf8EncodeChar c ++ s) (c :: cs) r
  | escape {e b : UInt8} {s r : Bytes} {cs : List Char} (simple : simpleEscape e = some b)
      (rest : Chars s cs r) : Chars (backslash :: e :: s) (Char.ofNat b.toNat :: cs) r
  | unicode {h s r : Bytes} {n : Nat} {cs : List Char} (hex : hex4 h = some n) (high : ¬ isHigh n)
      (low : ¬ isLow n) (rest : Chars s cs r) :
      Chars (backslash :: letterU :: (h ++ s)) (Char.ofNat n :: cs) r
  | pair {h l s r : Bytes} {n m : Nat} {cs : List Char} (hex : hex4 h = some n) (high : isHigh n)
      (hex' : hex4 l = some m) (low : isLow m) (rest : Chars s cs r) :
      Chars (backslash :: letterU :: (h ++ backslash :: letterU :: (l ++ s)))
        (Char.ofNat (pairPoint n m) :: cs) r

/-! ### Values -/

/-- How strings (from behind the opening quotation mark) and numbers are written. -/
structure Dialect (ν : Type) where
  string : Bytes → Bytes → Bytes → Prop
  number : Bytes → ν → Bytes → Prop

/-- RFC 8259, with numerals that have the property `P`; `value` is the number that a numeral stands for. -/
def rfc {ν : Type} (value : Bytes → ν) (P : Bytes → Prop) : Dialect ν where
  string s b r := ∃ cs, Chars s cs r ∧ b = cs.flatMap String.utf8EncodeChar
  number s x r := ∃ l, s = l ++ r ∧ Number false s r ∧ P l ∧ x = value l

section Values

variable {ν : Type}

/-- The fields of an object from its members. -/
def ofMembers (ms : List (Bytes × Json ν)) : List (Bytes × Json ν) :=
  ms.foldl (fun m e => OrderedMap.insert m e.1 e.2) []

/-- What a stretch of text stands for: a value, or the elements of an array or members of an object up to
behind its closing bracket. -/
inductive Item (ν : Type) where
  | value (v : Json ν)
  | elements (vs : List (Json ν))
  | members (ms : List (Bytes × Json ν))

inductive Text (D : Dialect ν) : Bytes → Item ν → Bytes → Prop where
  | nullLit {r : Bytes} : Text D (nullText ++ r) (.value .null) r
  | trueLit {r : Bytes} : Text D (trueText ++ r) (.value (.bool true)) r
  | falseLit {r : Bytes} : Text D (falseText ++ r) (.value (.bool false)) r
  | number {s r : Bytes} {x : ν} (numeral : D.number s x r) : Text D s (.value (.number x)) r
  | string {s b r : Bytes} (chars : D.string s b r) : Text D (quote :: s) (.value (.string b)) r
  | emptyArray {s r : Bytes} (ws : Ws s (closeBracket :: r)) :
      Text D (openBracket :: s) (.value (.array [])) r
  | array {s r : Bytes} {items : List (Json ν)} (elements : Text D s (.elements items) r) :
      Text D (openBracket :: s) (.value (.array items)) r
  | emptyObject {s r : Bytes} (ws : Ws s (closeBrace :: r)) :
      Text D (openBrace :: s) (.value (.object [])) r
  | object {s r : Bytes} {ms : List (Bytes × Json ν)} (members : Text D s (.members ms) r) :
      Text D (openBrace :: s) (.value (.object (ofMembers ms))) r
  | lastElement {s s₁ s₂ r : Bytes} {v : Json ν} (ws : Ws s s₁) (value : Text D s₁ (.value v) s₂)
      (ws' : Ws s₂ (closeBracket :: r)) : Text D s (.elements [v]) r
  | element {s s₁ s₂ s₃ r : Bytes} {v : Json ν} {vs : List (Json ν)} (ws : Ws s s₁)
      (value : Text D s₁ (.value v) s₂) (ws' : Ws s₂ (comma :: s₃)) (rest : Text D s₃ (.elements vs) r) :
      Text D s (.elements (v :: vs)) r
  | lastMember {s s₁ s₂ s₃ s₄ s₅ k r : Bytes} {v : Json ν} (ws : Ws s (quote :: s₁))
      (name : D.string s₁ k s₂) (ws₁ : Ws s₂ (colon :: s₃)) (ws₂ : Ws s₃ s₄)
      (value : Text D s₄ (.value v) s₅) (ws₃ : Ws s₅ (closeBrace :: r)) : Text D s (.members [(k, v)]) r
  | member {s s₁ s₂ s₃ s₄ s₅ s₆ k r : Bytes} {v : Json ν} {ms : List (Bytes × Json ν)}
      (ws : Ws s (quote :: s₁)) (name : D.string s₁ k s₂) (ws₁ : Ws s₂ (colon :: s₃)) (ws₂ : Ws s₃ s₄)
      (value : Text D s₄ (.value v) s₅) (ws₃ : Ws s₅ (comma :: s₆)) (rest : Text D s₆ (.members ms) r) :
      Text D s (.members ((k, v) :: ms)) r

/-- `JSON-text = ws value ws`: the text denotes the value. -/
def Denotes (D : Dialect ν) (t : Bytes) (v : Json ν) : Prop :=
  ∃ s r, Ws t s ∧ Text D s (.value v) r ∧ Ws r []

/-- White space, a value, and anything behind it. -/
def Begins (D : Dialect ν) (t : Bytes) (v : Json ν) (r : Bytes) : Prop := ∃ s, Ws t s ∧ Text D s (.value v) r

variable {D : Dialect ν}

/-- White space in front of elements belongs to them. -/
lemma Text.elements_ws {s s' r : Bytes} {vs : List (Json ν)} (ws : Ws s s') (h : Text D s' (.elements vs) r) :
    Text D s (.elements vs) r := by
  cases h with
  | lastElement ws₁ value ws₂ => exact .lastElement (ws.trans ws₁) value ws₂
  | element ws₁ value ws₂ rest => exact .element (ws.trans ws₁) value ws₂ rest

/-- White space in front of members belongs to them. -/
lemma Text.members_ws {s s' r : Bytes} {ms : List (Bytes × Json ν)} (ws : Ws s s')
    (h : Text D s' (.members ms) r) : Text D s (.members ms) r := by
  cases h with
  | lastMember ws₀ name ws₁ ws₂ value ws₃ => exact .lastMember (ws.trans ws₀) name ws₁ ws₂ value ws₃
  | member ws₀ name ws₁ ws₂ value ws₃ rest => exact .member (ws.trans ws₀) name ws₁ ws₂ value ws₃ rest

/-- A number begins with a minus or a digit. -/
def Dialect.Signed (D : Dialect ν) : Prop :=
  ∀ s x r, D.number s x r → ∃ b t, s = b :: t ∧ (b = minus ∨ isDigit b = true)

/-- The bytes that may begin a value. -/
def startsValue (b : UInt8) : Bool :=
  b == quote || b == openBracket || b == openBrace || b == 116 || b == 102 || b == 110 || b == minus ||
    isDigit b

lemma Text.head (hD : D.Signed) {s r : Bytes} {v : Json ν} (h : Text D s (.value v) r) :
    ∃ b t, s = b :: t ∧ startsValue b = true := by
  cases h with
  | number numeral =>
    obtain ⟨b, t, rfl, start⟩ := hD _ _ _ numeral
    refine ⟨b, t, rfl, ?_⟩
    obtain rfl | digit := start
    · rfl
    · simp [startsValue, digit]
  | nullLit | trueLit | falseLit => exact ⟨_, _, rfl, rfl⟩
  | string | emptyArray | array | emptyObject | object => exact ⟨_, _, rfl, rfl⟩

lemma startsValue_black {b : UInt8} (h : startsValue b = true) : isWs b = false ∧ b ≠ closeBracket := by
  have all : ∀ n : Fin 256, startsValue (UInt8.ofFin n) = true →
      isWs (UInt8.ofFin n) = false ∧ UInt8.ofFin n ≠ closeBracket := by
    decide +kernel
  exact all b.toFin h

/-- What may follow a value inside a container. -/
def Delimited (r : Bytes) : Prop :=
  ∀ b t, r = b :: t → isWs b = true ∨ b = comma ∨ b = closeBracket ∨ b = closeBrace

lemma Ws.delimited {s r : Bytes} (h : Ws s r) (hr : Delimited r) : Delimited s := by
  cases h with
  | nil => exact hr
  | cons white _ =>
    intro b t e
    obtain ⟨rfl, -⟩ := List.cons.inj e
    exact .inl white

/-- Nothing of what may follow a value extends a numeral. -/
lemma Delimited.stops {r : Bytes} (h : Delimited r) : Stops true inNumeral r := by
  have white : ∀ n : Fin 256, isWs (UInt8.ofFin n) = true → inNumeral (UInt8.ofFin n) = false := by
    decide +kernel
  intro _ b t e
  obtain ws | rfl | rfl | rfl := h b t e
  · exact white b.toFin ws
  · rfl
  · rfl
  · rfl

/-! ### What stands behind a text -/

lemma Ws.frame {s r x : Bytes} (h : Ws s r) : Ws (s ++ x) (r ++ x) := by
  induction h with
  | nil => exact .nil
  | cons white _ ih => exact .cons white ih

/-- More behind a string or a number changes nothing, if something is there. -/
structure Dialect.Frames (D : Dialect ν) : Prop where
  string : ∀ s b r x, r ≠ [] → D.string s b r → D.string (s ++ x) b (r ++ x)
  number : ∀ s v r x, r ≠ [] → D.number s v r → D.number (s ++ x) v (r ++ x)

/-- An item that shows where it ends. -/
def Item.Closed : Item ν → Prop
  | .value (.number _) => False
  | .value (.string _) => False
  | _ => True

lemma Ws.ne_nil {s r : Bytes} {b : UInt8} (h : Ws s (b :: r)) : s ≠ [] := by
  cases h <;> exact List.cons_ne_nil _ _

/-- More behind a text changes nothing. -/
lemma Text.frame (hD : D.Frames) {s r x : Bytes} {i : Item ν} (h : Text D s i r) (more : i.Closed ∨ r ≠ []) :
    Text D (s ++ x) i (r ++ x) := by
  induction h with
  | nullLit => exact .nullLit
  | trueLit => exact .trueLit
  | falseLit => exact .falseLit
  | number numeral => exact .number (hD.number _ _ _ _ (more.resolve_left id) numeral)
  | string chars => exact .string (hD.string _ _ _ _ (more.resolve_left id) chars)
  | emptyArray ws => exact .emptyArray ws.frame
  | array _ ih => exact .array (ih (.inl trivial))
  | emptyObject ws => exact .emptyObject ws.frame
  | object _ ih => exact .object (ih (.inl trivial))
  | lastElement ws _ ws' ih => exact .lastElement ws.frame (ih (.inr ws'.ne_nil)) ws'.frame
  | element ws _ ws' _ ih ih' => exact .element ws.frame (ih (.inr ws'.ne_nil)) ws'.frame (ih' (.inl trivial))
  | lastMember ws name ws₁ ws₂ _ ws₃ ih =>
    exact .lastMember ws.frame (hD.string _ _ _ _ ws₁.ne_nil name) ws₁.frame ws₂.frame
      (ih (.inr ws₃.ne_nil)) ws₃.frame
  | member ws name ws₁ ws₂ _ ws₃ _ ih ih' =>
    exact .member ws.frame (hD.string _ _ _ _ ws₁.ne_nil name) ws₁.frame ws₂.frame
      (ih (.inr ws₃.ne_nil)) ws₃.frame (ih' (.inl trivial))

/-! ### Trees -/

/-- A tree whose objects have no field twice and whose numbers have the property `P`. -/
inductive Json.Tree (P : ν → Prop) : Json ν → Prop where
  | null : Tree P .null
  | bool {b : Bool} : Tree P (.bool b)
  | number {x : ν} (holds : P x) : Tree P (.number x)
  | string {s : Bytes} : Tree P (.string s)
  | array {items : List (Json ν)} (elements : ∀ v ∈ items, Tree P v) : Tree P (.array items)
  | object {fields : List (Bytes × Json ν)} (distinct : OrderedMap.Distinct fields)
      (values : ∀ e ∈ fields, Tree P e.2) : Tree P (.object fields)

/-- Members with distinct names are the fields. -/
lemma ofMembers_distinct {ms : List (Bytes × Json ν)} (h : OrderedMap.Distinct ms) : ofMembers ms = ms :=
  OrderedMap.foldl_insert (m := []) h

/-! ### Lengths -/

lemma Ws.length_le {s r : Bytes} (h : Ws s r) : r.length ≤ s.length := by
  induction h with
  | nil => exact Nat.le_refl _
  | cons white rest ih => exact Nat.le_succ_of_le ih

/-- Strings and numbers take up space. -/
structure Dialect.Shrinks (D : Dialect ν) : Prop where
  string : ∀ s b r, D.string s b r → r.length ≤ s.length
  number : ∀ s x r, D.number s x r → r.length < s.length

/-- Every item takes up space. -/
lemma Text.length_lt (hD : D.Shrinks) {s r : Bytes} {i : Item ν} (h : Text D s i r) : r.length < s.length := by
  induction h with
  | nullLit | trueLit | falseLit =>
    rw [List.length_append]
    exact Nat.lt_add_of_pos_left (by decide)
  | number numeral => exact hD.number _ _ _ numeral
  | string chars => exact Nat.lt_succ_of_le (hD.string _ _ _ chars)
  | emptyArray ws | emptyObject ws =>
    have := ws.length_le
    simp only [List.length_cons] at this ⊢
    omega
  | array _ ih | object _ ih => exact Nat.lt_succ_of_lt ih
  | lastElement ws _ ws' ih =>
    have := ws.length_le
    have := ws'.length_le
    simp only [List.length_cons] at *
    omega
  | element ws _ ws' _ ih ih' =>
    have := ws.length_le
    have := ws'.length_le
    simp only [List.length_cons] at *
    omega
  | lastMember ws name ws₁ ws₂ _ ws₃ ih =>
    have := hD.string _ _ _ name
    have := ws.length_le
    have := ws₁.length_le
    have := ws₂.length_le
    have := ws₃.length_le
    simp only [List.length_cons] at *
    omega
  | member ws name ws₁ ws₂ _ ws₃ _ ih ih' =>
    have := hD.string _ _ _ name
    have := ws.length_le
    have := ws₁.length_le
    have := ws₂.length_le
    have := ws₃.length_le
    simp only [List.length_cons] at *
    omega

end Values

end JsonText
