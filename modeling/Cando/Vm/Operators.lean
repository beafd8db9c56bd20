import Cando.Vm.Control

/-!
# Binary operators

The arithmetic and comparison opcodes on two operands have one shape: the metamethod of an operand that is an object
first, then the operation on values. Here is this shape, with what the attempt at a metamethod does when there is none.
-/

namespace Cando

open Program Value

/-- The binary operators that ask a metamethod. -/
inductive Operator where
  | add | sub | mul | div | mod | pow | eq | neq | lt | gt | leq | geq
  deriving DecidableEq, Repr

namespace Operator

def op : Operator → Opcode
  | .add => .add
  | .sub => .sub
  | .mul => .mul
  | .div => .div
  | .mod => .mod
  | .pow => .pow
  | .eq => .eq
  | .neq => .neq
  | .lt => .lt
  | .gt => .gt
  | .leq => .leq
  | .geq => .geq

/-- The name of the metamethod. -/
def metaKey : Operator → Str
  | .add => bytes "__add"
  | .sub => bytes "__sub"
  | .mul => bytes "__mul"
  | .div => bytes "__div"
  | .mod => bytes "__mod"
  | .pow => bytes "__pow"
  | .eq | .neq => bytes "__eq"
  | .lt | .gt => bytes "__lt"
  | .leq | .geq => bytes "__le"

variable {ν : Type}

/-- The arguments of the metamethod: `>` and `>=` hand them over the other way round. -/
def args (o : Operator) (a b : Value ν) : List (Value ν) :=
  match o with
  | .gt | .geq => [b, a]
  | _ => [a, b]

/-- What is left to do when the metamethod has run. -/
def settle (o : Operator) : M ν Unit :=
  match o with
  | .neq => do
    let r ← pop
    push (.bool !r.isTruthy)
  | _ => pure ()

/-- Arithmetic on numbers. -/
def arith (msg : Value ν → Value ν → Str) (f : ν → ν → Except Str ν) : Value ν → Value ν → M ν Unit
  | .number x, .number y =>
    match f x y with
    | .ok z => push (.number z)
    | .error e => fail e
  | a, b => fail (msg a b)

/-- An ordering of numbers. -/
def order (rel : ν → ν → Bool) : Value ν → Value ν → M ν Unit
  | .number x, .number y => push (.bool (rel x y))
  | _, _ => fail (bytes "comparison requires numbers")

variable [F64 ν]

/-- The operation on values. -/
def direct (o : Operator) (a b : Value ν) : M ν Unit :=
  match o with
  | .add =>
    match a, b with
    | .string s, .string t => push (.string (s ++ t))
    | _, _ => arith operandsMessage (fun x y => .ok (F64.add x y)) a b
  | .sub => arith operandsMessage (fun x y => .ok (F64.sub x y)) a b
  | .mul => arith operandsMessage (fun x y => .ok (F64.mul x y)) a b
  | .div =>
    arith (fun _ _ => bytes "operands must be numbers")
      (fun x y => if F64.eq y (F64.ofInt 0) then .error (bytes "division by zero") else .ok (F64.div x y)) a b
  | .mod => arith (fun _ _ => bytes "operands must be numbers") (fun x y => .ok (F64.fmod x y)) a b
  | .pow => arith (fun _ _ => bytes "operands must be numbers") (fun x y => .ok (F64.pow x y)) a b
  | .eq => push (.bool (a.equal b))
  | .neq => push (.bool !a.equal b)
  | .lt => order F64.lt a b
  | .gt => order (fun x y => F64.lt y x) a b
  | .leq => order F64.le a b
  | .geq => order (fun x y => F64.le y x) a b

end Operator

variable {ν : Type} [F64 ν]

/-- The object whose metamethod a binary operator asks: the left operand, or else the right one. -/
def consulted : Value ν → Value ν → Option Nat
  | .object h, _ => some h
  | _, .object h => some h
  | _, _ => none

section Shape

variable (E : Env ν)

/-- An operator behind its two pops. -/
def Operator.onOperands (o : Operator) (a b : Value ν) : M ν Unit := do
  if ← tryBinaryMeta E o.metaKey a b (o.args a b) then o.settle else o.direct a b

/-- The state behind the two pops of an operator. -/
def afterPops (vm : VM ν) (a b : Value ν) : VM ν := { vm with dead := a :: b :: vm.dead.drop 2 }

variable {E}

omit [F64 ν] in
lemma pops_pushed {α : Type} (vm : VM ν) (a b : Value ν) (k : Value ν → Value ν → M ν α) :
    (do
      let b ← pop
      let a ← pop
      k a b : M ν α) (vm.pushed [a, b]) = k a b (afterPops vm a b) := by
  simp [pop, VM.pushed, afterPops]

lemma opArith_pushed (key : String) (msg : Value ν → Value ν → Str) (f : ν → ν → Except Str ν) (vm : VM ν)
    (a b : Value ν) :
    opArith E key msg f (vm.pushed [a, b]) =
      (do if ← tryBinaryMeta E (bytes key) a b [a, b] then return () else Operator.arith msg f a b : M ν Unit)
        (afterPops vm a b) := by
  rw [opArith, pops_pushed]
  cases a <;> cases b <;> rfl

lemma opOrder_pushed (key : String) (swap : Bool) (rel : ν → ν → Bool) (vm : VM ν) (a b : Value ν) :
    opOrder E key swap rel (vm.pushed [a, b]) =
      (do if ← tryBinaryMeta E (bytes key) a b (if swap then [b, a] else [a, b]) then return ()
          else Operator.order rel a b : M ν Unit) (afterPops vm a b) := by
  rw [opOrder, pops_pushed]
  cases a <;> cases b <;> rfl

/-- `+` looks at the operands before it pops them. -/
lemma opAdd_pushed (vm : VM ν) (a b : Value ν) :
    opAdd E (vm.pushed [a, b]) = Operator.add.onOperands E a b (afterPops vm a b) := by
  have top : (vm.pushed [a, b]).stack[0]? = some b := by simp [VM.pushed]
  have next : (vm.pushed [a, b]).stack[1]? = some a := by simp [VM.pushed]
  have numeric := opArith_pushed (E := E) "__add" operandsMessage (fun x y => .ok (F64.add x y)) vm a b
  simp only [opAdd, bind_apply, peek, top, next, Outcome.bind_ok]
  cases a with
  | string s =>
    cases b with
    | string t => rfl
    | _ => exact numeric
  | _ => exact numeric

/-- Every operator has the shape. -/
lemma exec_operator (o : Operator) (vm : VM ν) (a b : Value ν) :
    exec E { op := o.op } (vm.pushed [a, b]) = o.onOperands E a b (afterPops vm a b) := by
  cases o with
  | add => exact opAdd_pushed vm a b
  | sub =>
    show opSub E _ = _
    exact opArith_pushed _ _ _ vm a b
  | mul =>
    show opMul E _ = _
    exact opArith_pushed _ _ _ vm a b
  | div =>
    show opDiv E _ = _
    exact opArith_pushed _ _ _ vm a b
  | mod =>
    show opMod E _ = _
    exact opArith_pushed _ _ _ vm a b
  | pow =>
    show opPow E _ = _
    exact opArith_pushed _ _ _ vm a b
  | eq =>
    show opEq E _ = _
    rw [opEq, pops_pushed]
    rfl
  | neq =>
    show opNeq E _ = _
    rw [opNeq, pops_pushed]
    rfl
  | lt =>
    show opLt E _ = _
    exact opOrder_pushed _ _ _ vm a b
  | gt =>
    show opGt E _ = _
    exact opOrder_pushed _ _ _ vm a b
  | leq =>
    show opLeq E _ = _
    exact opOrder_pushed _ _ _ vm a b
  | geq =>
    show opGeq E _ = _
    exact opOrder_pushed _ _ _ vm a b

/-! ### Without a metamethod -/

/-- The object that a binary operator asks has the metamethod. -/
def AsksMeta (vm : VM ν) (key : Str) (a b : Value ν) : Prop :=
  ∃ h p raw, consulted a b = some h ∧ vm.store.pointer h = some p ∧ vm.store.get p key = some raw

/-- The object that a binary operator asks, if there is one, is a live one without the metamethod, and no error is
pending. -/
def NoMeta (vm : VM ν) (key : Str) (a b : Value ν) : Prop :=
  ∀ h, consulted a b = some h →
    vm.hasError = false ∧ ∃ p, vm.store.pointer h = some p ∧ vm.store.get p key = none

/-- An attempt at the metamethod of the object that is asked. -/
lemma tryBinaryMeta_consulted {a b : Value ν} {h : Nat} (e : consulted a b = some h) (key : Str)
    (args : List (Value ν)) :
    tryBinaryMeta E key a b args =
      (do
        if ← reenter (callMeta E (callNative E) h key args) then return true
        else
          failed
          return false) := by
  cases a with
  | object g =>
    obtain rfl : g = h := Option.some.inj e
    cases b <;> rfl
  | _ =>
    cases b with
    | object g =>
      obtain rfl : g = h := Option.some.inj e
      rfl
    | _ => cases e

lemma tryBinaryMeta_none {a b : Value ν} (e : consulted a b = none) (key : Str) (args : List (Value ν)) :
    tryBinaryMeta E key a b args = pure false := by
  cases a with
  | object g => cases b <;> cases e
  | _ =>
    cases b with
    | object g => cases e
    | _ => rfl

/-- Without a metamethod the attempt at one ends where it began. -/
lemma NoMeta.ends {s : VM ν} {key : Str} {a b : Value ν} (h : NoMeta s key a b)
    (args : List (Value ν)) : tryBinaryMeta E key a b args s = .ok false s := by
  cases e : consulted a b with
  | none =>
    rw [tryBinaryMeta_none e]
    rfl
  | some g =>
    obtain ⟨quiet, p, ptr, missing⟩ := h g e
    rw [tryBinaryMeta_consulted e]
    simp [reenter, callMeta, objectGetM, pointer, ptr, missing, failed, Program.when, quiet]

/-- An attempt that comes to nothing ends with a value only when there was no metamethod. -/
lemma NoMeta.of_ok {s s' : VM ν} {key : Str} {a b : Value ν} {args : List (Value ν)} {done : Bool}
    (asks : ¬ AsksMeta s key a b) (run : tryBinaryMeta E key a b args s = .ok done s') : NoMeta s key a b := by
  intro h e
  rw [tryBinaryMeta_consulted e] at run
  cases ptr : s.store.pointer h with
  | none => simp [reenter, callMeta, objectGetM, pointer, ptr] at run
  | some p =>
    cases raw : s.store.get p key with
    | some raw => exact absurd ⟨h, p, _, e, ptr, ‹_›⟩ asks
    | none =>
      refine ⟨?_, p, rfl, raw⟩
      cases quiet : s.hasError with
      | false => rfl
      | true =>
        simp [reenter, callMeta, objectGetM, pointer, ptr, raw, failed, Program.when, quiet] at run
        cases run

end Shape

end Cando
