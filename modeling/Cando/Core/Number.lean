import Mathlib.Tactic.Common

/-!
# Numbers and bytes

CanDo's numbers are C doubles. The development never looks inside one: `F64` collects the operations
the interpreter and the compiler apply to them, together with the few facts about small integers on
which the interpreter relies (it keeps loop counters, code offsets and native indices in numbers).
Strings are byte lists, as in `CandoString`.
-/

namespace Cando

/-- The bytes of a `CandoString`, without the closing NUL. -/
abbrev Str := List UInt8

/-- The bytes of a text constant of the source. -/
def bytes (s : String) : Str := s.toByteArray.data.toList

/-- The double arithmetic that the opcodes apply. -/
class F64 (ν : Type) where
  /-- The cast `(f64)i`. -/
  ofInt : Int → ν
  add : ν → ν → ν
  sub : ν → ν → ν
  mul : ν → ν → ν
  div : ν → ν → ν
  /-- C's `fmod`. -/
  fmod : ν → ν → ν
  /-- C's `pow`. -/
  pow : ν → ν → ν
  neg : ν → ν
  /-- C's `==`. -/
  eq : ν → ν → Bool
  /-- C's `<`. -/
  lt : ν → ν → Bool
  /-- C's `<=`. -/
  le : ν → ν → Bool
  /-- The integer part; `none` for NaN and the infinities. -/
  trunc : ν → Option Int
  /-- C's `strtod` on a whole numeral. -/
  strtod : Str → ν
  /-- Integers of at most 53 bits are represented exactly. -/
  trunc_ofInt : ∀ i : Int, i.natAbs ≤ 9007199254740992 → trunc (ofInt i) = some i
  lt_ofInt : ∀ i j : Int, i.natAbs ≤ 9007199254740992 → j.natAbs ≤ 9007199254740992 →
    lt (ofInt i) (ofInt j) = decide (i < j)
  add_ofInt : ∀ i j : Int, i.natAbs ≤ 9007199254740992 → j.natAbs ≤ 9007199254740992 →
    (i + j).natAbs ≤ 9007199254740992 → add (ofInt i) (ofInt j) = ofInt (i + j)

namespace F64

variable {ν : Type} [F64 ν]

/-- The cast `(i64)x`; `none` where C leaves it undefined. -/
def toI64 (x : ν) : Option Int :=
  (trunc x).bind fun i => if -9223372036854775808 ≤ i ∧ i < 9223372036854775808 then some i else none

/-- The cast `(u32)x`; `none` where C leaves it undefined. -/
def toU32 (x : ν) : Option Nat :=
  (trunc x).bind fun i => if 0 ≤ i ∧ i < 4294967296 then some i.toNat else none

/-- The cast `(u16)x`; `none` where C leaves it undefined. -/
def toU16 (x : ν) : Option Nat :=
  (trunc x).bind fun i => if 0 ≤ i ∧ i < 65536 then some i.toNat else none

@[simp] lemma toU32_ofInt {n : Nat} (h : n < 4294967296) : toU32 (ofInt (n : Int) : ν) = some n := by
  have e : trunc (ofInt (n : Int) : ν) = some (n : Int) := trunc_ofInt _ (by omega)
  have bd : 0 ≤ (n : Int) ∧ (n : Int) < 4294967296 := by omega
  rw [toU32, e, Option.bind_some, if_pos bd, Int.toNat_natCast]

@[simp] lemma toI64_ofInt {n : Nat} (h : n < 4294967296) :
    toI64 (ofInt (n : Int) : ν) = some (n : Int) := by
  have e : trunc (ofInt (n : Int) : ν) = some (n : Int) := trunc_ofInt _ (by omega)
  have bd : -9223372036854775808 ≤ (n : Int) ∧ (n : Int) < 9223372036854775808 := by omega
  rw [toI64, e, Option.bind_some, if_pos bd]

@[simp] lemma toU16_ofInt {n : Nat} (h : n < 65536) : toU16 (ofInt (n : Int) : ν) = some n := by
  have e : trunc (ofInt (n : Int) : ν) = some (n : Int) := trunc_ofInt _ (by omega)
  have bd : 0 ≤ (n : Int) ∧ (n : Int) < 65536 := by omega
  rw [toU16, e, Option.bind_some, if_pos bd, Int.toNat_natCast]

end F64

/-- Doubles of which `<=` on integers of at most 53 bits is known as well; loops count by it. -/
class OrderedF64 (ν : Type) extends F64 ν where
  le_ofInt : ∀ i j : Int, i.natAbs ≤ 9007199254740992 → j.natAbs ≤ 9007199254740992 →
    le (ofInt i) (ofInt j) = decide (i ≤ j)

/-- Integer arithmetic, which agrees with doubles on the small integers of the examples below. -/
instance : F64 Int where
  ofInt i := i
  add a b := a + b
  sub a b := a - b
  mul a b := a * b
  div a b := a / b
  fmod a b := a.tmod b
  pow a b := Int.pow a b.toNat
  neg a := -a
  eq a b := decide (a = b)
  lt a b := decide (a < b)
  le a b := decide (a ≤ b)
  trunc a := some a
  strtod s := s.foldl (fun n d => 10 * n + ((d.toNat : Int) - 48)) 0
  trunc_ofInt _ _ := rfl
  lt_ofInt _ _ _ _ := rfl
  add_ofInt _ _ _ _ _ := rfl

instance : OrderedF64 Int where
  le_ofInt _ _ _ _ := rfl

end Cando
