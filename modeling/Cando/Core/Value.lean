import Cando.Core.Number

/-!
# Values

`CandoValue` (`core/value.h`): the tagged union the interpreter keeps on its stack, with the type
names, the equality and the truthiness that `core/value.c` and `vm/vm.c` define on it. Reference
counts are not modelled: a string value is its bytes.
-/

namespace Cando

/-- A `CandoValue`; `object` carries a `HandleIndex`. -/
inductive Value (ν : Type) where
  | null
  | bool (b : Bool)
  | number (x : ν)
  | string (s : Str)
  | object (h : Nat)
  deriving DecidableEq, Repr

namespace Value

variable {ν : Type}

def isNull : Value ν → Bool
  | .null => true
  | _ => false

def isNumber : Value ν → Bool
  | .number _ => true
  | _ => false

def isObject : Value ν → Bool
  | .object _ => true
  | _ => false

/-- `cando_value_type_name`. -/
def typeName : Value ν → String
  | .null => "null"
  | .bool _ => "bool"
  | .number _ => "number"
  | .string _ => "string"
  | .object _ => "object"

/-- `vm_is_truthy`: everything but `NULL` and `FALSE`. -/
def isTruthy : Value ν → Bool
  | .null => false
  | .bool b => b
  | _ => true

variable [F64 ν]

/-- `cando_value_equal`: structural, and handle identity on objects. -/
def equal : Value ν → Value ν → Bool
  | .null, .null => true
  | .bool a, .bool b => a == b
  | .number a, .number b => F64.eq a b
  | .string a, .string b => a == b
  | .object a, .object b => a == b
  | _, _ => false

/-- The number `(f64)n`. -/
def ofNat (n : Nat) : Value ν := .number (F64.ofInt n)

/-- `IS_NATIVE_FN`: a negative number stands for a registered native. -/
def isNativeFn : Value ν → Bool
  | .number x => F64.lt x (F64.ofInt 0)
  | _ => false

/-- `NATIVE_INDEX`; `none` where the cast is undefined. -/
def nativeIndex : Value ν → Option Nat
  | .number x => F64.toU32 (F64.sub (F64.neg x) (F64.ofInt 1))
  | _ => none

@[simp] lemma isNativeFn_object (h : Nat) : isNativeFn (.object h : Value ν) = false := rfl

@[simp] lemma isNativeFn_ofNat {n : Nat} (h : n < 4294967296) :
    isNativeFn (ofNat n : Value ν) = false := by
  have e := F64.lt_ofInt (ν := ν) (n : Int) 0 (by omega) (by omega)
  simp only [isNativeFn, ofNat, e, decide_eq_false_iff_not]
  omega

end Value

end Cando
