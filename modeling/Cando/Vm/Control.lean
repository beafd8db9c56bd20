import Cando.Vm.Dispatch

/-!
# Opcodes on control

The `OP_CASE`s of `vm_run` (`vm/vm.c`) that move the instruction pointer or the frame, try and loop stacks,
each under its opcode's name; then `exec`, which picks the handler of an instruction, `step`, which fetches
and executes one, and `handleError`, the unwinding that follows `goto handle_error`.
-/

namespace Cando

variable {ν : Type} [F64 ν]

open Program Value

section Control

variable (E : Env ν)

/-! ### Jumps and loops -/

/-- The conditional jumps look at the top of the stack and leave it there. -/
def opJumpIf (cond : Bool) (a : Nat) : M ν Unit := do
  let v ← peek 0
  when (v.isTruthy = cond) (jumpBy (toI16 a))

def opJump (a : Nat) : M ν Unit := jumpBy (toI16 a)

def opLoop (back : Nat) : M ν Unit := jumpBy (-back)

/-- `ip + off` as a stored target. -/
def targetAt (off : Int) : M ν CodePtr := do
  let f ← frame
  let target := (f.ip.off : Int) + off
  if target < 0 then crash .undefined else return { f.ip with off := target.toNat }

/-- The state a loop keeps on the stack below its mark, dropped by `OP_BREAK`. -/
def dropLoopState (loopType : Nat) : M ν Unit := do
  if loopType = loopForOver then popN 4
  else when (loopType = loopFor) do
    -- the cell on top is the index, which the source takes for the count
    let count ← numBelow 0
    popN 2
    popN (← orCrash .undefined (F64.toI64 count)).toNat

/-- The loop frame that `OP_BREAK` and `OP_CONTINUE` leave by, `depth` loops out. -/
def loopAt (word : String) (depth : Nat) : M ν (Nat × LoopFrame) := do
  let vm ← get
  if vm.loopDepth = 0 ∨ depth ≥ vm.loopDepth then
    fail (bytes s!"{word} outside loop (depth {depth}, loop_depth {vm.loopDepth})")
  else
    let idx := vm.loopDepth - 1 - depth
    return (idx, ← orCrash .undefined vm.loopStack[idx]?)

def opBreak (depth : Nat) : M ν Unit := do
  let (idx, lf) ← loopAt "BREAK" depth
  popTo lf.stackSave
  dropLoopState lf.loopType
  modify fun vm => { vm with spreadExtra := 0 }
  setIp lf.breakIp
  modify fun vm => { vm with loopDepth := idx }

def opContinue (depth : Nat) : M ν Unit := do
  let (idx, lf) ← loopAt "CONTINUE" depth
  setIp lf.contIp
  modify fun vm => { vm with loopDepth := idx }

/-- Storing a loop frame at the current depth. -/
def pushLoop (lf : LoopFrame) (vm : VM ν) : VM ν :=
  { vm with
    loopStack := vm.loopStack.take vm.loopDepth ++ lf :: vm.loopStack.drop (vm.loopDepth + 1)
    loopDepth := vm.loopDepth + 1 }

def opLoopMark (breakFwd packed : Nat) : M ν Unit := do
  let vm ← get
  when (vm.loopDepth ≥ loopMax) (crash .assertion)
  let breakIp ← targetAt breakFwd
  let contIp ← targetAt (-(packed % 16384 : Nat))
  modify (pushLoop { breakIp, contIp, stackSave := vm.height, loopType := packed / 16384 % 4 })

def opLoopEnd : M ν Unit := modify fun vm => { vm with loopDepth := vm.loopDepth - 1 }

/-! ### Functions and calls -/

/-- A function object: the running closure and the code offset from the constant pool. -/
def opClosure (ci : Nat) : M ν Unit := do
  match ← constAt ci with
  | .number x =>
    let fnPc ← orCrash .undefined (F64.toU32 x)
    let f ← frame
    push (← newObject { kind := .function, bytecode := some f.closure, paramCount := fnPc })
  | _ => crash .undefined

/-- Entering a function body with the callee and its arguments on the stack. The entry of `OP_METHOD_CALL`
through a bare code offset is the one that does not fill the local slots (`pads` is `false`). -/
def enterFunction (closure pc argCount : Nat) (isFluent pads : Bool) : M ν Unit := do
  let vm ← get
  when (vm.frameCount ≥ framesMax) (fail (bytes "call stack overflow"))
  pushFrame { closure, ip := ⟨closure, pc⟩, slots := vm.height - argCount - 1, isFluent }
  when pads do
    let chunk ← chunkOf closure
    padLocals chunk.localCount (argCount + 1)

/-- Calling a registered native with the top `argCount` values; the result is the number of values it left
above them. -/
def callNativeTop (ni argCount : Nat) : M ν Nat := do
  let vm ← get
  let ret ← reenter (callNative E ni (vm.stack.take argCount).reverse)
  failed
  return ret.toNat

/-- Sliding the top `n` values down to the cell of index `base`. -/
def slideTo (base n : Nat) : M ν Unit := do
  let rets ← take n
  popTo base
  pushAll rets

def setLastRet (n : Int) : M ν Unit := modify fun vm => { vm with lastRetCount := n }

/-- `OP_CALL` on a native: its results take the place of the callee and the arguments; none count as
`NULL`. -/
def callNativeValue (callee : Value ν) (argCount : Nat) : M ν Unit := do
  let vm ← get
  let ni ← orCrash .undefined callee.nativeIndex
  when (ni ≥ E.natives.length) (fail (bytes s!"invalid native function index {ni}"))
  let calleeSlot := vm.height - argCount - 1
  let ret ← callNativeTop E ni argCount
  if ret = 0 then
    popTo calleeSlot
    push .null
    setLastRet 1
  else
    slideTo calleeSlot ret
    setLastRet ret

def opCall (staticArgc : Nat) : M ν Unit := do
  let vm ← get
  let argCount := ((staticArgc : Int) + vm.spreadExtra).toNat
  modify fun vm => { vm with spreadExtra := 0 }
  let callee ← below argCount
  if callee.isNativeFn then callNativeValue E callee argCount
  else match callee with
  | .number x =>
    let pc ← orCrash .undefined (F64.toU32 x)
    let f ← frame
    enterFunction f.closure pc argCount false true
  | .object h =>
    let fnObj ← resolve h
    match fnObj.kind, fnObj.bytecode with
    | .function, some closure => enterFunction closure fnObj.paramCount argCount false true
    | _, _ => fail (bytes "can only call functions (got object)")
  | v => fail (bytes "can only call functions (got " ++ bytes v.typeName ++ bytes ")")

/-- The method that a receiver finds under a name: the string prototype for strings, the array prototype
after an array's own fields; `NULL` when there is none. -/
def lookupMethod (receiver : Value ν) (nameCi : Nat) : M ν (CdoValue ν) := do
  let vm ← get
  match receiver with
  | .string _ =>
    match vm.store.stringProto with
    | .object p => return (← objectGetM p (← nameAt nameCi)).getD .null
    | _ => return .null
  | .object h =>
    let obj ← resolve h
    let name ← nameAt nameCi
    match ← objectGetM h name with
    | some m => return m
    | none =>
      match obj.kind, vm.store.arrayProto with
      | .array, .object p => return (← objectGetM p name).getD .null
      | _, _ => return .null
  | v => fail (bytes "method call on non-object (got " ++ bytes v.typeName ++ bytes ")")

/-- `OP_METHOD_CALL` and `OP_FLUENT_CALL` look at the value found before they move the stack. -/
def methodCallable (method : Value ν) : M ν Bool := do
  match method with
  | .number _ => return true
  | .object h =>
    let mo ← resolve h
    return mo.kind = .function ∨ mo.kind = .native
  | _ => return false

/-- The method goes under the receiver. -/
def insertMethod (method : Value ν) (argCount : Nat) : M ν Unit := do
  let args ← take (argCount + 1)
  push method
  pushAll args

/-- What a call leaves of a C function's results: the receiver for `::`, else the results. -/
def finishMethod (isFluent : Bool) (base : Nat) (receiver : Value ν) (rets : List (Value ν)) :
    M ν Unit := do
  popTo base
  if isFluent then
    push receiver
    setLastRet 1
  else
    pushAll (if rets.isEmpty then [.null] else rets)
    setLastRet rets.length

/-- A method that is a native, with itself, the receiver and the arguments on the stack. The index is not
checked against the number of natives. -/
def callMethodNative (isFluent : Bool) (method receiver : Value ν) (totalArgc : Nat) : M ν Unit := do
  let vm ← get
  let ni ← orCrash .undefined method.nativeIndex
  let ret ← callNativeTop E ni totalArgc
  let rets ← take ret
  finishMethod isFluent (vm.height - totalArgc - 1) receiver rets

/-- A method that is a native object. -/
def callMethodObjNative (isFluent : Bool) (fn : Nat) (receiver : Value ν) (totalArgc : Nat) :
    M ν Unit := do
  let vm ← get
  let cdoArgs ← (vm.stack.take totalArgc).reverse.mapM toCdo
  let result ← callObjNative E fn cdoArgs
  failed
  let rets ← (if isFluent then [] else [result]).mapM toCando
  finishMethod isFluent (vm.height - totalArgc - 1) receiver rets

/-- The call of a method under its receiver and arguments, by what the method is. -/
def callMethod (isFluent : Bool) (method receiver : Value ν) (totalArgc : Nat) : M ν Unit := do
  match method with
  | .number x =>
    if method.isNativeFn then callMethodNative E isFluent method receiver totalArgc
    else
      let pc ← orCrash .undefined (F64.toU32 x)
      let f ← frame
      enterFunction f.closure pc totalArgc isFluent false
  | .object h =>
    let mo ← resolve h
    match mo.kind, mo.nativeFn, mo.bytecode with
    | .native, some fn, _ => callMethodObjNative E isFluent fn receiver totalArgc
    | .function, _, some closure => enterFunction closure mo.paramCount totalArgc isFluent true
    | _, _, _ => crash .assertion
  | _ => crash .assertion

/-- `OP_METHOD_CALL` and `OP_FLUENT_CALL`: the operand alone counts the arguments. -/
def opMethodCall (isFluent : Bool) (nameCi argCount : Nat) : M ν Unit := do
  let receiver ← below argCount
  let method ← toCando (← lookupMethod receiver nameCi)
  let callable ← methodCallable method
  when (!callable)
    (fail (bytes (if isFluent then "fluent method is not callable" else " method is not callable")))
  let vm ← get
  when (vm.height ≥ stackMax) (fail (bytes "stack overflow in method call"))
  insertMethod method argCount
  callMethod E isFluent method receiver (argCount + 1)

/-- What `OP_RETURN` copies down to `slots`: the top `n` values. When some of them lie below `slots`, the
copy runs into what it has already written. -/
def returnValues (vm : VM ν) (slots n : Nat) : M ν (List (Value ν)) :=
  let retStart := vm.height - n
  if slots + n > stackMax then crash .undefined
  else if slots ≤ retStart then pure (vm.stack.take n).reverse
  else orCrash .undefined ((List.range n).mapM fun i => vm.cell (retStart + i % (slots - retStart)))

/-- The receiver that a function called by `::` leaves behind, in its slot 1. -/
def fluentReceiver (f : Frame) : M ν (Value ν) := do
  let vm ← get
  if f.isFluent then orCrash .undefined (vm.cell (f.slots + 1)) else return .null

/-- Back to the calling frame, on whose stack the results take the place of the callee's window. -/
def returnTo (f : Frame) (receiver : Value ν) (retCount : Nat) : M ν Unit := do
  let vm ← get
  if f.isFluent then
    modify (·.setTop f.slots)
    push receiver
    setLastRet 1
  else
    let rets ← returnValues vm f.slots retCount
    modify (·.setTop f.slots)
    pushAll rets

/-- `OP_RETURN` once the frame `f` has been popped: captured for the C caller of a nested run, the end of
the script, or back to the calling frame. -/
def leaveFrame (f : Frame) (receiver : Value ν) (retCount : Nat) : M ν Unit := do
  let vm ← get
  let results := if f.isFluent then [receiver] else (vm.stack.take retCount).reverse
  if vm.threadStopFrame = some vm.frameCount then
    modify fun vm => { vm.setTop f.slots with threadResults := results.take maxThrowArgs }
    exit .evalDone
  else if vm.evalStopFrame = some vm.frameCount then
    modify fun vm => { vm.setTop f.slots with lastRetCount := retCount, evalResults := results }
    exit .evalDone
  else if vm.frameCount = 0 then
    popTo 0
    exit .halt
  else returnTo f receiver retCount

def opReturn (retCount : Nat) : M ν Unit := do
  let f ← frame
  when (!f.isFluent) (setLastRet retCount)
  let receiver ← fluentReceiver f
  let vm ← get
  when (retCount > vm.height) (crash .undefined)
  modify fun vm => { vm with frames := vm.frames.tail }
  leaveFrame f receiver retCount

def opTailCall : M ν Unit := fail (bytes "tail call not yet implemented")

/-! ### Variable arguments, iteration and pipes -/

def opLoadVararg : M ν Unit := push .null

def opVarargLen : M ν Unit := push (ofNat 0)

/-- The numbers `from, from ± 1, …` of a range. -/
def rangeItems (first : Int) (count : Nat) (step : Int) : List (CdoValue ν) :=
  (List.range count).map fun (i : Nat) => .number (F64.ofInt (first + step * i))

/-- `OP_RANGE_ASC` and `OP_RANGE_DESC`. -/
def opRange (asc : Bool) : M ν Unit := do
  let b ← pop
  let a ← pop
  match a, b with
  | .number x, .number y =>
    let first ← orCrash .undefined (F64.toI64 x)
    let last ← orCrash .undefined (F64.toI64 y)
    push (← newArray (if asc then rangeItems first (last - first + 1).toNat 1
      else rangeItems first (first - last + 1).toNat (-1)))
  | _, _ => fail (bytes "range requires numbers")

/-- The items a loop goes over: indices or elements of an array, names or values of the fields of an
object, the value itself otherwise. -/
def loopItems (keysMode : Nat) (iterable : Value ν) : M ν (List (Value ν)) := do
  match iterable with
  | .object h =>
    let obj ← resolve h
    if obj.kind = .array then
      if keysMode ≠ 0 then return (List.range obj.items.length).map ofNat
      else arrayValues obj.items
    else if keysMode ≠ 0 then return obj.slots.map fun s => .string s.key
    else arrayValues (obj.slots.map (·.value))
  | v => return [v]

def opForInit (keysMode : Nat) : M ν Unit := do
  let iterable ← pop
  let vals ← loopItems keysMode iterable
  pushAll vals
  push (ofNat vals.length)
  push (ofNat 0)

/-- Copying the item of the current index, which is then stepped. -/
def nextItem (index count : ν) : M ν Unit := do
  let n ← orCrash .undefined (F64.toI64 count)
  let i ← orCrash .undefined (F64.toI64 index)
  setBelow 0 (.number (F64.add index (F64.ofInt 1)))
  push (← belowInt (1 + n - i))

def opForNext (a : Nat) : M ν Unit := do
  let index ← numBelow 0
  let count ← numBelow 1
  if F64.le count index then
    popN 2
    popN (← orCrash .undefined (F64.toI64 count)).toNat
    jumpBy (toI16 a)
  else nextItem index count

/-- Completing or cutting `total` values of an `OVER` expression to iterator, state and control. -/
def fillTriplet (total : Int) : M ν Unit :=
  if total < 1 then pushAll [.null, .null, .null]
  else if total = 1 then pushAll [.null, .null]
  else if total = 2 then push .null
  else popN (total - 3).toNat

def opForOverInit (nvar packed : Nat) : M ν Unit := do
  let vm ← get
  let count : Int := packed % 32768
  fillTriplet (if packed / 32768 % 2 = 1 then count - 1 + vm.lastRetCount else count)
  push (ofNat nvar)
  setLastRet 0

/-- The loop variables that one step of an iterator binds. -/
def overVars (nvar : Nat) (rets : List (Value ν)) : List (Value ν) :=
  (List.range (min nvar 16)).map fun i => rets[i + 1]?.getD .null

def opForOverNext (a : Nat) : M ν Unit := do
  let nvar ← orCrash .undefined (F64.toU16 (← numBelow 0))
  let control ← below 1
  let state ← below 2
  let iter ← below 3
  let ret ← reenter (callValue E (callNative E) iter [state, control])
  modify fun vm => { vm with spreadExtra := 0 }
  failed
  let vm ← get
  let rets := (vm.stack.take ret).reverse
  match rets with
  | first :: _ =>
    if first.isNull then
      popN (ret + 4)
      jumpBy (toI16 a)
    else
      setBelow (ret + 1) first
      popN ret
      pushAll (overVars nvar rets)
  | [] =>
    popN (ret + 4)
    jumpBy (toI16 a)

def pipeSourceMessage : Str := bytes "pipe/filter (~>/~!>) requires an array source"

def opPipeInit : M ν Unit := do
  match ← pop with
  | .object h =>
    let obj ← resolve h
    when (obj.kind ≠ .array) (fail pipeSourceMessage)
    push (← newArray [])
    let vals ← arrayValues obj.items
    pushAll vals
    push (ofNat vals.length)
    push (ofNat 0)
  | _ => fail pipeSourceMessage

/-- `OP_PIPE_NEXT` and `OP_FILTER_NEXT`. -/
def opPipeNext (a : Nat) : M ν Unit := do
  let index ← numBelow 0
  let count ← numBelow 1
  if F64.le count index then jumpBy (toI16 a) else nextItem index count

def opPipeEnd : M ν Unit := do
  let _ ← pop
  match ← pop with
  | .number count => popN (← orCrash .undefined (F64.toI64 count)).toNat
  | _ => crash .undefined

/-- Appending to the result array below the pipe's items. -/
def collect (v : Value ν) : M ν Unit := do
  let n ← orCrash .undefined (F64.toI64 (← numBelow 1))
  match ← belowInt (2 + n) with
  | .object h =>
    let obj ← resolve h
    let item ← toCdo v
    when (obj.kind ≠ .array) (crash .assertion)
    modifyObj h (·.arrayPush item)
  | _ => crash .undefined

def opPipeCollect : M ν Unit := do
  let result ← pop
  collect result

def opFilterCollect : M ν Unit := do
  let result ← pop
  when (!result.isNull) (collect result)

/-! ### Errors -/

def opTryBegin (a : Nat) : M ν Unit := do
  let catchIp ← targetAt (toI16 a)
  let vm ← get
  when (vm.tryDepth ≥ tryMax) (crash .assertion)
  modify fun vm => { vm with
    tryStack := ⟨some catchIp, none, vm.height, vm.frameCount, vm.loopDepth⟩ :: vm.tryStack }

def opTryEnd : M ν Unit := modify fun vm => { vm with tryStack := vm.tryStack.tail }

def opCatchBegin (n : Nat) : M ν Unit := do
  let vm ← get
  pushAll ((List.range n).reverse.map fun i => vm.errorVals[i]?.getD .null)
  modify fun vm => { vm with errorVals := [] }

def opFinallyBegin (a : Nat) : M ν Unit := do
  let finallyIp ← targetAt (toI16 a)
  modify fun vm => match vm.tryStack with
    | tf :: rest => { vm with tryStack := { tf with finallyIp := some finallyIp } :: rest }
    | [] => vm

/-- More values than `error_vals` holds are written past its end. -/
def opThrow (a : Nat) : M ν Unit := do
  let count := if a = 0 then 1 else a
  when (count > maxThrowArgs) (crash .undefined)
  let vm ← get
  when (vm.height < count) (crash .assertion)
  let vals ← take count
  modify fun vm => { vm with errorVals := vals, hasError := true }
  raise

def opReraise : M ν Unit := do
  let vm ← get
  if vm.hasError then raise else fail (bytes "RERAISE outside of catch block")

/-! ### Threads -/

def opAsync : M ν Unit := fail (bytes "ASYNC not implemented (use 'thread' instead)")

def opYield : M ν Unit := fail (bytes "YIELD not implemented (use 'thread' instead)")

def opAwait : M ν Unit := do
  match ← pop with
  | .object h =>
    let obj ← resolve h
    when (obj.kind ≠ .thread) (fail (bytes "await: value is not a thread"))
    let vm ← get
    modify fun vm => { vm with store := (E.await h vm.store).2 }
    match (E.await h vm.store).1 with
    | .error e =>
      modify fun vm => { vm with errorVals := [e], hasError := true }
      raise
    | .ok results =>
      pushAll (if results.isEmpty then [.null] else results)
      setLastRet (if results.isEmpty then 1 else results.length)
  | _ => fail (bytes "await: expected a thread handle")

def opThread : M ν Unit := do
  match ← pop with
  | .object h =>
    let obj ← resolve h
    when (obj.kind ≠ .function) (fail (bytes "thread: value is not a function"))
    let vm ← get
    if E.spawn vm.store then push (← newObject { kind := .thread })
    else fail (bytes "thread: failed to create OS thread")
  | _ => fail (bytes "thread: expected a function")

/-! ### The loop -/

/-- The handler of an instruction. No closure has upvalues, so the upvalue opcodes would read past them. -/
def exec (i : Instr) : M ν Unit :=
  match i.op with
  | .const => opConst i.a
  | .null => push .null
  | .true => push (.bool true)
  | .false => push (.bool false)
  | .pop => opPopN 1
  | .popN => opPopN i.a
  | .dup => opDup
  | .loadLocal => opLoadLocal i.a
  | .storeLocal => opStoreLocal i.a
  | .defLocal | .defConstLocal => opDefLocal i.a
  | .loadGlobal => opLoadGlobal i.a
  | .storeGlobal => opStoreGlobal i.a
  | .defGlobal => opDefGlobal i.a false
  | .defConstGlobal => opDefGlobal i.a true
  | .loadUpval | .storeUpval | .closeUpval => crash .undefined
  | .add => opAdd E
  | .sub => opSub E
  | .mul => opMul E
  | .div => opDiv E
  | .mod => opMod E
  | .pow => opPow E
  | .neg => opNeg E
  | .pos => opPos
  | .incr => opIncr "++ requires a number" fun x => F64.add x (F64.ofInt 1)
  | .decr => opIncr "-- requires a number" fun x => F64.sub x (F64.ofInt 1)
  | .eq => opEq E
  | .neq => opNeq E
  | .lt => opLt E
  | .gt => opGt E
  | .leq => opLeq E
  | .geq => opGeq E
  | .eqStack => opCompareList i.a (allRel equal)
  | .neqStack => opCompareList i.a noneEqual
  | .ltStack => opCompareList i.a (allRel (numRel F64.lt))
  | .gtStack => opCompareList i.a (allRel (numRel fun x y => F64.lt y x))
  | .leqStack => opCompareList i.a (allRel (numRel F64.le))
  | .geqStack => opCompareList i.a (allRel (numRel fun x y => F64.le y x))
  | .rangeCheck => opRangeCheck i.a
  | .bitAnd => opBitwise fun x y => some (x &&& y)
  | .bitOr => opBitwise fun x y => some (x ||| y)
  | .bitXor => opBitwise fun x y => some (x ^^^ y)
  | .bitNot => opBitNot
  | .lshift => opBitwise fun x y => shiftBy y (x <<< y.toNat)
  | .rshift => opBitwise fun x y => shiftBy y (x.sshiftRight y.toNat)
  | .not => opNot
  | .andJump | .jumpIfFalse => opJumpIf false i.a
  | .orJump | .jumpIfTrue => opJumpIf true i.a
  | .newObject => opNewObject
  | .newArray => opNewArray i.a
  | .getField => opGetField i.a
  | .setField => opSetField E i.a
  | .getIndex => opGetIndex
  | .setIndex => opSetIndex E
  | .len => opLen E
  | .keysOf => opKeysOf
  | .valsOf => opValsOf
  | .jump => opJump i.a
  | .loop => opLoop i.a
  | .break => opBreak i.a
  | .continue => opContinue i.a
  | .loopMark => opLoopMark i.a i.b
  | .loopEnd => opLoopEnd
  | .closure => opClosure i.a
  | .call => opCall E i.a
  | .methodCall => opMethodCall E false i.a i.b
  | .fluentCall => opMethodCall E true i.a i.b
  | .return => opReturn i.a
  | .tailCall => opTailCall
  | .loadVararg => opLoadVararg
  | .varargLen => opVarargLen
  | .unpack => opUnpack
  | .rangeAsc => opRange true
  | .rangeDesc => opRange false
  | .forInit => opForInit i.a
  | .forNext => opForNext i.a
  | .forOverInit => opForOverInit i.a i.b
  | .forOverNext => opForOverNext E i.a
  | .pipeInit => opPipeInit
  | .pipeNext | .filterNext => opPipeNext i.a
  | .pipeEnd => opPipeEnd
  | .pipeCollect => opPipeCollect
  | .filterCollect => opFilterCollect
  | .tryBegin => opTryBegin i.a
  | .tryEnd => opTryEnd
  | .catchBegin => opCatchBegin i.a
  | .finallyBegin => opFinallyBegin i.a
  | .throw => opThrow i.a
  | .reraise => opReraise
  | .async => opAsync
  | .await => opAwait E
  | .yield => opYield
  | .thread => opThread E
  | .newClass => opNewClass i.a
  | .bindMethod => opBindMethod i.a
  | .inherit => opInherit
  | .maskPass => pure ()
  | .maskSkip => opMaskSkip
  | .maskApply => opMaskApply i.a i.b
  | .spreadRet => opSpreadRet
  | .arraySpread => opArraySpread
  | .truncateRet => opTruncateRet
  | .eqSpread => opCompareSpread anyEqual
  | .neqSpread => opCompareSpread noneEqual
  | .ltSpread => opCompareSpread (allRel (numRel F64.lt))
  | .gtSpread => opCompareSpread (allRel (numRel fun x y => F64.lt y x))
  | .leqSpread => opCompareSpread (allRel (numRel F64.le))
  | .geqSpread => opCompareSpread (allRel (numRel fun x y => F64.le y x))
  | .nop => pure ()
  | .halt => exit .halt

/-- Reading the instruction at `ip`. -/
def fetch : M ν Instr := do
  let f ← frame
  let chunk ← chunkOf f.ip.chunk
  let i ← orCrash .undefined (decode chunk.code f.ip.off)
  setIp { f.ip with off := f.ip.off + i.op.size }
  return i

/-- One instruction. -/
def step : M ν Unit := do
  exec E (← fetch)

/-- `handle_error` over the try frames left: unwinding to the innermost one, then into its handler. Without
one, the run ends where it stood. -/
def unwind : List TryFrame → VM ν → Res ν Unit
  | [], vm => .exit .runtimeErr vm
  | tf :: rest, vm =>
    let vm := { vm.popTo tf.stackSave with
      frames := vm.frames.drop (vm.frameCount - tf.frameSave)
      loopDepth := tf.loopSave
      tryStack := rest }
    match tf.catchIp, tf.finallyIp with
    | some p, _ => setIp p { vm with hasError := false }
    | none, some p => setIp p vm
    | none, none => unwind rest vm

/-- `handle_error`. -/
def handleError : M ν Unit := fun vm => unwind vm.tryStack vm

end Control

end Cando
