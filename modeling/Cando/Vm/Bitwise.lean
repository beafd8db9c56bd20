import Cando.Vm.IndexAccess

/-!
# Bitwise operators

The bitwise and shift opcodes convert their operands to 64-bit integers without a look at the tags or the range, and
shift by whatever distance comes out. The theorem says on which operands this is defined: on all others they neither
compute a result nor raise the error that the arithmetic opcodes raise.
-/

namespace Cando

open Program Value

/-- The bitwise opcodes with two operands. -/
inductive Bitwise where
  | and | or | xor | lshift | rshift
  deriving DecidableEq, Repr

namespace Bitwise

def op : Bitwise → Opcode
  | .and => .bitAnd
  | .or => .bitOr
  | .xor => .bitXor
  | .lshift => .lshift
  | .rshift => .rshift

def shifts : Bitwise → Bool
  | .lshift | .rshift => true
  | _ => false

/-- The operation on 64 bits. -/
def result (o : Bitwise) (x y : BitVec 64) : BitVec 64 :=
  match o with
  | .and => x &&& y
  | .or => x ||| y
  | .xor => x ^^^ y
  | .lshift => x <<< y.toNat
  | .rshift => x.sshiftRight y.toNat

end Bitwise

variable {ν : Type} [F64 ν] {E : Env ν} {vm : VM ν} {a b : Value ν} {rest : List (Value ν)}

/-- A number whose integer part 64 bits hold. -/
def HasI64 (a : Value ν) : Prop := ∃ x i, a = .number x ∧ F64.toI64 x = some i

/-- Both operands are such numbers, and the distance of a shift is from 0 to 63. -/
def Bitwise.Defined (o : Bitwise) (a b : Value ν) : Prop :=
  ∃ x y i j, a = .number x ∧ b = .number y ∧ F64.toI64 x = some i ∧ F64.toI64 y = some j ∧
    (o.shifts = true → 0 ≤ j ∧ j < 64)

/-- Numbers are replaced by a number, and any other operand raises an error. -/
def Answers (operands rest : List (Value ν)) (m : Res ν Unit) : Prop :=
  ((∀ v ∈ operands, v.isNumber = true) → ∃ s r, m = .ok () s ∧ s.stack = .number r :: rest) ∧
  ((∃ v ∈ operands, v.isNumber = false) → ∃ s, m = .error s ∧ s.hasError = true)

lemma bitOperand_some {i : Int} : bitOperand a = some i ↔ ∃ x, a = .number x ∧ F64.toI64 x = some i := by
  cases a with
  | number x => simp [bitOperand]
  | _ => simp [bitOperand]

/-- A 64-bit integer is what its bits say. -/
lemma toInt_ofInt {x : ν} {j : Int} (converts : F64.toI64 x = some j) : (BitVec.ofInt 64 j).toInt = j := by
  obtain ⟨i, _, inside⟩ := Option.bind_eq_some_iff.mp converts
  split at inside
  · rename_i range
    cases inside
    rw [BitVec.toInt_ofInt]
    exact Int.bmod_eq_of_le (by omega) (by omega)
  · cases inside

lemma exec_bitwise (o : Bitwise) : exec E { op := o.op } =
    opBitwise fun x y => if o.shifts then shiftBy y (o.result x y) else some (o.result x y) := by
  cases o <;> rfl

omit [F64 ν] in
/-- An undefined conversion or shift is no answer. -/
lemma not_answers_crash {operands : List (Value ν)} {c : Crash} : ¬ Answers operands rest (.crash c) := by
  rintro ⟨computes, raises⟩
  by_cases numbers : ∀ v ∈ operands, v.isNumber = true
  · obtain ⟨s, r, no, -⟩ := computes numbers
    cases no
  · simp only [not_forall] at numbers
    obtain ⟨v, mem, other⟩ := numbers
    obtain ⟨s, no, -⟩ := raises ⟨v, mem, by simpa using other⟩
    cases no

omit [F64 ν] in
/-- A number that replaces numbers is an answer. -/
lemma answers_number {operands : List (Value ν)} {s : VM ν} {r : ν} (numbers : ∀ v ∈ operands, v.isNumber = true)
    (stack : s.stack = rest) (room : s.height < stackMax) : Answers operands rest (push (.number r) s) := by
  rw [push_room room]
  refine ⟨fun _ => ⟨_, r, rfl, ?_⟩, ?_⟩
  · rw [← stack]
    rfl
  · rintro ⟨v, mem, other⟩
    rw [numbers v mem] at other
    cases other

/-- What an opcode with two operands comes to. -/
lemma bitwise_answers_iff (o : Bitwise) (stack : vm.stack = b :: a :: rest) (room : vm.height ≤ stackMax) :
    Answers [a, b] rest (exec E { op := o.op } vm) ↔ o.Defined a b := by
  have left := popTo_stack stack
  have height : (vm.popTo (vm.height - 2)).height < stackMax := by
    rw [VM.height, stack, List.length_cons, List.length_cons] at room
    rw [VM.height, left]
    omega
  rw [exec_bitwise, opBitwise, pop_pop stack]
  generalize vm.popTo (vm.height - 2) = s at left height ⊢
  rw [bind_apply]
  cases right : bitOperand b with
  | none =>
    refine iff_of_false not_answers_crash ?_
    rintro ⟨x, y, i, j, -, number, -, converts, -⟩
    rw [bitOperand_some.mpr ⟨y, number, converts⟩] at right
    cases right
  | some j =>
    obtain ⟨y, rfl, converts_y⟩ := bitOperand_some.mp right
    rw [orCrash_some, pure_apply, Outcome.bind_ok, bind_apply]
    cases first : bitOperand a with
    | none =>
      refine iff_of_false not_answers_crash ?_
      rintro ⟨x, y', i, j', number, -, converts, -⟩
      rw [bitOperand_some.mpr ⟨x, number, converts⟩] at first
      cases first
    | some i =>
      obtain ⟨x, rfl, converts_x⟩ := bitOperand_some.mp first
      rw [orCrash_some, pure_apply, Outcome.bind_ok, bind_apply]
      have numbers : ∀ v ∈ [number x, number y], v.isNumber = true := by simp [Value.isNumber]
      by_cases within : o.shifts = true → 0 ≤ j ∧ j < 64
      · have defined : (if o.shifts = true then shiftBy (BitVec.ofInt 64 j) (o.result (.ofInt 64 i) (.ofInt 64 j))
            else some (o.result (.ofInt 64 i) (.ofInt 64 j))) = some (o.result (.ofInt 64 i) (.ofInt 64 j)) := by
          split
          · rename_i shift
            rw [shiftBy, toInt_ofInt converts_y, if_pos (within shift)]
          · rfl
        rw [defined, orCrash_some, pure_apply, Outcome.bind_ok]
        exact iff_of_true (answers_number numbers left height) ⟨x, y, i, j, rfl, rfl, converts_x, converts_y, within⟩
      · have shift : o.shifts = true := by
          by_contra other
          exact within fun shift => absurd shift other
        have beyond : ¬ (0 ≤ j ∧ j < 64) := fun inside => within fun _ => inside
        rw [if_pos shift, shiftBy, toInt_ofInt converts_y, if_neg beyond]
        refine iff_of_false not_answers_crash ?_
        rintro ⟨x', y', i', j', -, same, -, converts, inside⟩
        cases same
        rw [converts_y] at converts
        cases converts
        exact beyond (inside shift)

/-- What `OP_BIT_NOT` comes to. -/
lemma bitNot_answers_iff (stack : vm.stack = a :: rest) (room : vm.height ≤ stackMax) :
    Answers [a] rest (exec E { op := .bitNot } vm) ↔ HasI64 a := by
  obtain ⟨s, popped, left, height⟩ : ∃ s, pop vm = .ok a s ∧ s.stack = rest ∧ s.height < stackMax := by
    refine ⟨_, by rw [pop, stack], rfl, ?_⟩
    rw [VM.height, stack, List.length_cons] at room
    exact room
  have unfolded : exec E { op := .bitNot } vm = opBitNot vm := rfl
  rw [unfolded, opBitNot, bind_apply, popped, Outcome.bind_ok, bind_apply]
  cases converts : bitOperand a with
  | none =>
    refine iff_of_false not_answers_crash ?_
    rintro ⟨x, i, number, inside⟩
    rw [bitOperand_some.mpr ⟨x, number, inside⟩] at converts
    cases converts
  | some i =>
    obtain ⟨x, rfl, inside⟩ := bitOperand_some.mp converts
    rw [orCrash_some, pure_apply, Outcome.bind_ok]
    exact iff_of_true (answers_number (by simp [Value.isNumber]) left height) ⟨x, i, rfl, inside⟩

/-- The bitwise opcodes on any operands: numbers are replaced by the result and other operands raise an error exactly
when all operands are numbers whose integer parts 64 bits hold, and the distance of a shift is from 0 to 63. -/
theorem bitwise_answers (E : Env ν) (vm : VM ν) (rest : List (Value ν)) (room : vm.height ≤ stackMax) :
    (∀ (o : Bitwise) a b, vm.stack = b :: a :: rest →
      (Answers [a, b] rest (exec E { op := o.op } vm) ↔ o.Defined a b)) ∧
    ∀ a, vm.stack = a :: rest → (Answers [a] rest (exec E { op := .bitNot } vm) ↔ HasI64 a) :=
  ⟨fun o _ _ stack => bitwise_answers_iff o stack room, fun _ stack => bitNot_answers_iff stack room⟩

/-- `6 << 2` and `~6`. -/
theorem bitwise_answers_six : Answers [.number 6, .number 2] []
      (exec {} { op := .lshift } ({ stack := [.number 2, .number 6] } : VM Int)) ∧
    Answers [.number 6] [] (exec {} { op := .bitNot } ({ stack := [.number 6] } : VM Int)) := by
  refine ⟨((bitwise_answers {} _ [] (by decide)).1 .lshift (.number 6) (.number 2) rfl).mpr ?_,
    ((bitwise_answers {} _ [] (by decide)).2 (.number 6) rfl).mpr ⟨6, 6, rfl, rfl⟩⟩
  exact ⟨6, 2, 6, 2, rfl, rfl, rfl, rfl, fun _ => by decide⟩

/-- `1 << 64`. -/
theorem bitwise_shifts_far : ¬ ∀ (o : Bitwise) (vm : VM Int) a b rest, vm.height ≤ stackMax →
    vm.stack = b :: a :: rest → Answers [a, b] rest (exec {} { op := o.op } vm) := by
  intro answers
  have crashes : exec {} { op := .lshift } ({ stack := [.number 64, .number 1] } : VM Int) = .crash .undefined := rfl
  have answer := answers .lshift { stack := [.number 64, .number 1] } (.number 1) (.number 64) [] (by decide) rfl
  rw [Bitwise.op, crashes] at answer
  exact not_answers_crash answer

end Cando
