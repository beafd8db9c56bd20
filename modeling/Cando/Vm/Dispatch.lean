import Cando.Vm.Call

/-!
# Opcodes on values

The `OP_CASE`s of `vm_run` (`vm/vm.c`) that work on the value stack and the heap, each under its opcode's
name: constants, locals, globals, operators, objects, classes and multiple values. By the time a handler
runs, `ip` is past the instruction, as in the source.
-/

namespace Cando

variable {ν : Type} [F64 ν]

open Program Value

section Handlers

variable (E : Env ν)

/-! ### Constants, stack and locals -/

def opConst (ci : Nat) : M ν Unit := do
  push (← constAt ci)

def opPopN (n : Nat) : M ν Unit := popN n

def opDup : M ν Unit := do
  push (← peek 0)

/-- Reading `frame->slots[slot]`, which may lie above `stack_top`. -/
def readLocal (slot : Nat) : M ν (Value ν) := do
  let f ← frame
  let vm ← get
  orCrash .undefined (vm.cell (f.slots + slot))

/-- Writing `frame->slots[slot]`, whose old value is released. -/
def setLocal (slot : Nat) (v : Value ν) : M ν Unit := do
  let _ ← readLocal slot
  let f ← frame
  modify (·.setCell (f.slots + slot) v)

def opLoadLocal (slot : Nat) : M ν Unit := do
  push (← readLocal slot)

def opStoreLocal (slot : Nat) : M ν Unit := do
  let v ← peek 0
  setLocal slot v

/-- `OP_DEF_LOCAL` and `OP_DEF_CONST_LOCAL`. The popped cell may be the slot itself. -/
def opDefLocal (slot : Nat) : M ν Unit := do
  let v ← pop
  setLocal slot v
  modify fun vm => { vm with spreadExtra := 0 }

/-! ### Globals -/

def opLoadGlobal (ci : Nat) : M ν Unit := do
  let name ← nameAt ci
  let vm ← get
  match vm.store.getGlobal name with
  | some v => push v
  | none => fail (bytes "undefined variable '" ++ cstr name ++ bytes "'")

def opStoreGlobal (ci : Nat) : M ν Unit := do
  let name ← nameAt ci
  let v ← peek 0
  let vm ← get
  match vm.store.setGlobal name v false with
  | some w => modify fun vm => { vm with store := w }
  | none => fail (bytes "cannot assign to constant '" ++ cstr name ++ bytes "'")

/-- `OP_DEF_GLOBAL` and `OP_DEF_CONST_GLOBAL`: a refused definition goes unnoticed. -/
def opDefGlobal (ci : Nat) (isConst : Bool) : M ν Unit := do
  let name ← nameAt ci
  let v ← pop
  modify fun vm => { vm with
    store := (vm.store.setGlobal name v isConst).getD vm.store, spreadExtra := 0 }

/-! ### Arithmetic -/

/-- `if (vm->has_error) goto handle_error`. -/
def failed : M ν Unit := do
  let vm ← get
  when vm.hasError raise

/-- `TRY_BINARY_META`: `true` when a metamethod replaced the operands by its result. -/
def tryBinaryMeta (key : Str) (a b : Value ν) (args : List (Value ν)) : M ν Bool := do
  match a, b with
  | .object h, _ | _, .object h =>
    if ← reenter (callMeta E (callNative E) h key args) then return true
    else
      failed
      return false
  | _, _ => return false

/-- `operands must be numbers (got %s and %s)`. -/
def operandsMessage (a b : Value ν) : Str :=
  bytes "operands must be numbers (got " ++ bytes a.typeName ++ bytes " and " ++ bytes b.typeName ++
    bytes ")"

/-- The shape of the arithmetic opcodes: a metamethod, or both operands numbers and `f` defined on
them. -/
def opArith (key : String) (msg : Value ν → Value ν → Str) (f : ν → ν → Except Str ν) :
    M ν Unit := do
  let b ← pop
  let a ← pop
  if ← tryBinaryMeta E (bytes key) a b [a, b] then return ()
  else match a, b with
  | .number x, .number y =>
    match f x y with
    | .ok z => push (.number z)
    | .error e => fail e
  | _, _ => fail (msg a b)

def opAdd : M ν Unit := do
  let b ← peek 0
  let a ← peek 1
  match a, b with
  | .string s, .string t =>
    popN 2
    push (.string (s ++ t))
  | _, _ => opArith E "__add" operandsMessage fun x y => .ok (F64.add x y)

def opSub : M ν Unit := opArith E "__sub" operandsMessage fun x y => .ok (F64.sub x y)

def opMul : M ν Unit := opArith E "__mul" operandsMessage fun x y => .ok (F64.mul x y)

def opDiv : M ν Unit :=
  opArith E "__div" (fun _ _ => bytes "operands must be numbers") fun x y =>
    if F64.eq y (F64.ofInt 0) then .error (bytes "division by zero") else .ok (F64.div x y)

def opMod : M ν Unit :=
  opArith E "__mod" (fun _ _ => bytes "operands must be numbers") fun x y => .ok (F64.fmod x y)

def opPow : M ν Unit :=
  opArith E "__pow" (fun _ _ => bytes "operands must be numbers") fun x y => .ok (F64.pow x y)

def opNeg : M ν Unit := do
  let a ← pop
  match a with
  | .object h =>
    if ← reenter (callMeta E (callNative E) h (bytes "__unm") [a]) then return ()
    else
      failed
      fail (bytes "unary '-' requires a number")
  | .number x => push (.number (F64.neg x))
  | _ => fail (bytes "unary '-' requires a number")

def opPos : M ν Unit := do
  let a ← pop
  if a.isNumber then push a else fail (bytes "unary '+' requires a number")

/-- `OP_INCR` and `OP_DECR`, in place. -/
def opIncr (msg : String) (f : ν → ν) : M ν Unit := do
  match ← peek 0 with
  | .number x => setBelow 0 (.number (f x))
  | _ => fail (bytes msg)

/-! ### Comparison -/

def opEq : M ν Unit := do
  let b ← pop
  let a ← pop
  if ← tryBinaryMeta E (bytes "__eq") a b [a, b] then return ()
  else push (.bool (a.equal b))

def opNeq : M ν Unit := do
  let b ← pop
  let a ← pop
  if ← tryBinaryMeta E (bytes "__eq") a b [a, b] then
    let r ← pop
    push (.bool !r.isTruthy)
  else push (.bool !a.equal b)

/-- The four ordering opcodes; `swap` hands the metamethod its arguments the other way round. -/
def opOrder (key : String) (swap : Bool) (rel : ν → ν → Bool) : M ν Unit := do
  let b ← pop
  let a ← pop
  if ← tryBinaryMeta E (bytes key) a b (if swap then [b, a] else [a, b]) then return ()
  else match a, b with
  | .number x, .number y => push (.bool (rel x y))
  | _, _ => fail (bytes "comparison requires numbers")

def opLt : M ν Unit := opOrder E "__lt" false F64.lt

def opGt : M ν Unit := opOrder E "__lt" true fun x y => F64.lt y x

def opLeq : M ν Unit := opOrder E "__le" false F64.le

def opGeq : M ν Unit := opOrder E "__le" true fun x y => F64.le y x

/-- `rel` on two numbers; other values are never ordered. -/
def numRel (rel : ν → ν → Bool) : Value ν → Value ν → Bool
  | .number x, .number y => rel x y
  | _, _ => false

/-- The shape of the `_STACK` and `_SPREAD` comparisons: the left operand under `n` right-hand values.
With a negative `n` the left operand is read above `stack_top`. -/
def opCompareList (n : Int) (rel : Value ν → List (Value ν) → Bool) : M ν Unit := do
  if n < 0 then crash .undefined
  else
    let rights ← take n.toNat
    let left ← take 1
    match left with
    | [l] => push (.bool (rel l rights))
    | _ => crash .undefined

/-- Every right-hand value is related to the left one; also `OP_EQ_STACK`. -/
def allRel (rel : Value ν → Value ν → Bool) (l : Value ν) (rs : List (Value ν)) : Bool := rs.all (rel l)

/-- No right-hand value equals the left one. -/
def noneEqual (l : Value ν) (rs : List (Value ν)) : Bool := rs.all fun r => !l.equal r

/-- Some right-hand value equals the left one; only `OP_EQ_SPREAD`. -/
def anyEqual (l : Value ν) (rs : List (Value ν)) : Bool := rs.any (l.equal ·)

/-- A comparison against the values of the last call. -/
def opCompareSpread (rel : Value ν → List (Value ν) → Bool) : M ν Unit := do
  let vm ← get
  opCompareList vm.lastRetCount rel

def opRangeCheck (flags : Nat) : M ν Unit := do
  let vmax ← pop
  let vval ← pop
  let vmin ← pop
  match vmin, vval, vmax with
  | .number mn, .number v, .number mx =>
    let left := if flags % 2 = 1 then F64.le mn v else F64.lt mn v
    let right := if flags / 2 % 2 = 1 then F64.le v mx else F64.lt v mx
    push (.bool (left && right))
  | _, _, _ => fail (bytes "range check requires numbers")

/-! ### Bitwise -/

/-- The cast `(i64)v.as.number`, without a look at the tag. -/
def bitOperand : Value ν → Option Int
  | .number x => F64.toI64 x
  | _ => none

/-- The bitwise opcodes on two operands. -/
def opBitwise (f : BitVec 64 → BitVec 64 → Option (BitVec 64)) : M ν Unit := do
  let b ← pop
  let a ← pop
  let y ← orCrash .undefined (bitOperand b)
  let x ← orCrash .undefined (bitOperand a)
  let z ← orCrash .undefined (f (.ofInt 64 x) (.ofInt 64 y))
  push (.number (F64.ofInt z.toInt))

/-- A shift distance that C defines. -/
def shiftBy (y : BitVec 64) (z : BitVec 64) : Option (BitVec 64) :=
  if 0 ≤ y.toInt ∧ y.toInt < 64 then some z else none

def opBitNot : M ν Unit := do
  let a ← pop
  let x ← orCrash .undefined (bitOperand a)
  push (.number (F64.ofInt (~~~(BitVec.ofInt 64 x)).toInt))

/-! ### Logic -/

def opNot : M ν Unit := do
  let a ← pop
  push (.bool !a.isTruthy)

/-! ### Objects and arrays -/

def opNewObject : M ν Unit := do
  push (← newObject {})

/-- An array of the given items behind a new handle. -/
def newArray (items : List (CdoValue ν)) : M ν (Value ν) := newObject { kind := .array, items }

def opNewArray (staticN : Nat) : M ν Unit := do
  let vm ← get
  let n := ((staticN : Int) + vm.arrayExtra).toNat
  modify fun vm => { vm with arrayExtra := 0 }
  let items ← take n
  let items ← items.mapM toCdo
  push (← newArray items)

/-- Pushing a field that was looked up, `NULL` when it was not found. -/
def pushField (found : Option (CdoValue ν)) : M ν Unit := do
  match found with
  | some raw => push (← toCando raw)
  | none => push .null

def opGetField (ci : Nat) : M ν Unit := do
  match ← pop with
  | .string _ =>
    let vm ← get
    match vm.store.stringProto with
    | .object p => pushField (← objectGetM p (← nameAt ci))
    | _ => push .null
  | .object h => pushField (← objectGetM h (← nameAt ci))
  | v => fail (bytes "field access on non-object (got " ++ bytes v.typeName ++ bytes ")")

/-- `cdo_object_rawset` on the object behind a handle; a thread has no slot table. -/
def rawsetField (h : Nat) (key : Str) (v : CdoValue ν) (isStatic : Bool) : M ν Unit := do
  let obj ← resolve h
  if obj.kind = .thread then crash .undefined else modifyObj h (·.rawset key v isStatic)

/-- A string-keyed assignment: `__newindex` when the object has no such field, else the field. The object
stays on the stack, and a metamethod's result on top of it. -/
def assignField (h : Nat) (key : Str) (v : Value ν) : M ν Unit := do
  let obj ← resolve h
  let args := [.object h, .string key, v]
  if (obj.rawget key).isSome then rawsetField h key (← toCdo v) false
  else if ← reenter (callMeta E (callNative E) h (bytes "__newindex") args) then return ()
  else
    failed
    rawsetField h key (← toCdo v) false

def opSetField (ci : Nat) : M ν Unit := do
  let v ← pop
  match ← peek 0 with
  | .object h => assignField E h (← nameAt ci) v
  | _ => fail (bytes "field assignment on non-object")

def opGetIndex : M ν Unit := do
  let idx ← pop
  match ← pop with
  | .object h =>
    let obj ← resolve h
    match idx with
    | .number x =>
      let i ← orCrash .undefined (F64.toU32 x)
      when (obj.kind ≠ .array) (crash .assertion)
      pushField obj.items[i]?
    | .string key => pushField (obj.rawget key)
    | _ => fail (bytes "index must be a number or string")
  | _ => fail (bytes "index access on non-object")

def opSetIndex : M ν Unit := do
  let v ← pop
  let idx ← pop
  match ← peek 0 with
  | .object h =>
    let obj ← resolve h
    match idx with
    | .number x =>
      let i ← orCrash .undefined (F64.toU32 x)
      when (obj.kind ≠ .array) (crash .assertion)
      let cdo ← toCdo v
      modifyObj h (·.arrayRawset i cdo)
    | .string key => assignField E h key v
    | _ => fail (bytes "index must be a number or string")
  | _ => fail (bytes "index assignment on non-object")

def opLen : M ν Unit := do
  let a ← pop
  match a with
  | .string s => push (ofNat s.length)
  | .object h =>
    if ← reenter (callMeta E (callNative E) h (bytes "__len") [a]) then return ()
    else
      failed
      let obj ← resolve h
      push (ofNat obj.length)
  | _ => fail (bytes "# operator requires a string or object")

/-- `OP_KEYS_OF` and `OP_VALS_OF`: an array of what `f` takes from each field. -/
def opFieldsOf (msg : String) (f : ObjSlot ν → CdoValue ν) : M ν Unit := do
  match ← pop with
  | .object h =>
    let obj ← resolve h
    push (← newArray (obj.slots.map f))
  | _ => fail (bytes msg)

def opKeysOf : M ν Unit := opFieldsOf "IN operator requires an object" fun s => .string s.key

def opValsOf : M ν Unit := opFieldsOf "OF operator requires an object" (·.value)

/-! ### Classes -/

def opNewClass (ci : Nat) : M ν Unit := do
  let name ← nameAt ci
  let cls := CdoObject.rawset {} (bytes "__type") (.string name) true
  push (← newObject cls)

def opBindMethod (ci : Nat) : M ν Unit := do
  let method ← pop
  match ← peek 0 with
  | .object h => rawsetField h (← nameAt ci) (← toCdo method) false
  | _ => fail (bytes "BIND_METHOD: expected class object")

def opInherit : M ν Unit := do
  let child ← pop
  let parent ← peek 0
  match child, parent with
  | .object h, .object _ =>
    rawsetField h metaIndex (← toCdo parent) false
    push child
  | _, _ => fail (bytes "INHERIT: expected class objects")

/-! ### Masks and multiple values -/

def opMaskSkip : M ν Unit := do
  let _ ← pop

/-- The values that a mask of `nBits` positions keeps. -/
def maskKeep (nBits bitmask : Nat) (vs : List (Value ν)) : List (Value ν) :=
  (vs.zipIdx.filter fun (_, i) => i < nBits && bitmask.testBit i).map Prod.fst

/-- With a count below zero, `base` lies above `stack_top`. -/
def opMaskApply (nBits bitmask : Nat) : M ν Unit := do
  let vm ← get
  when (vm.lastRetCount < 0) (crash .undefined)
  let vs ← take vm.lastRetCount.toNat
  let kept := maskKeep nBits bitmask vs
  pushAll kept
  modify fun vm => { vm with lastRetCount := kept.length }

def opSpreadRet : M ν Unit :=
  modify fun vm => { vm with spreadExtra := vm.spreadExtra + (vm.lastRetCount - 1) }

def opArraySpread : M ν Unit :=
  modify fun vm => { vm with arrayExtra := vm.arrayExtra + (vm.lastRetCount - 1) }

def opTruncateRet : M ν Unit := do
  let vm ← get
  popN (vm.lastRetCount - 1).toNat
  modify fun vm => { vm with lastRetCount := 1 }

/-- The elements of an array as values, each object with a handle of its own. -/
def arrayValues (items : List (CdoValue ν)) : M ν (List (Value ν)) := items.mapM toCando

/-- The values that a value stands for in a spread: the elements of an array, else itself. -/
def unpacked (v : Value ν) : M ν (List (Value ν)) := do
  match v with
  | .object h =>
    let obj ← resolve h
    if obj.kind = .array then arrayValues obj.items else return [v]
  | _ => return [v]

def opUnpack : M ν Unit := do
  let v ← pop
  let vs ← unpacked v
  pushAll vs
  modify fun vm => { vm with lastRetCount := vs.length }

end Handlers

end Cando
