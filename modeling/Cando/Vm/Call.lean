import Cando.Vm.State

/-!
# Calls

Native functions and the calls that the C code makes on their behalf: `vm_call`,
`vm_call_closure_with_args`, `cando_vm_call_value`, `cando_vm_call_meta` and `cando_vm_exec_eval`
(`vm/vm.c`). Each starts a nested `vm_run`.

A native is a program over the embedding API. It sees its arguments and the store and may call back into
the interpreter; it has no access to the machine's frames, try and loop stacks, or counters.
-/

namespace Cando

variable {ν : Type}

/-- A native function at work. Its changes to the store are those of the object layer: see
`Store.Extends`. -/
inductive Native (ν : Type) : Type where
  /-- push the values and return their number -/
  | done (rets : List (Value ν))
  /-- `cando_vm_error(msg)`, then return -1 -/
  | fail (msg : Str)
  /-- return -1, leaving the error flags as they are -/
  | stop
  | read (k : Store ν → Native ν)
  | update (f : (w : Store ν) → { w' : Store ν // w.Extends w' }) (k : Native ν)
  /-- `cando_vm_call_value`, then pop up to `popped` of the values it pushed; `k` gets `has_error` and the
  pushed values -/
  | callValue (f : Value ν) (args : List (Value ν)) (popped : Nat)
      (k : Bool → List (Value ν) → Native ν)
  /-- `cando_vm_call_meta`, then pop its result; `k` gets `has_error` and the result if there is one -/
  | callMeta (h : Nat) (key : Str) (args : List (Value ν))
      (k : Bool → Option (Value ν) → Native ν)
  /-- `cando_vm_exec_eval` of a compiled chunk; `k` gets whether it ended in an error, and the results -/
  | eval (chunk : Chunk ν) (k : Bool → List (Value ν) → Native ν)

/-- What surrounds one interpreter: the registered natives and how deep they may call one another on the C
stack, the C functions behind native objects, and the other threads, as far as `OP_THREAD` and `OP_AWAIT`
see them. -/
structure Env (ν : Type) where
  natives : List (List (Value ν) → Native ν) := []
  cDepth : Nat := 200
  objNative : Nat → List (CdoValue ν) → (w : Store ν) → CdoValue ν × { w' : Store ν // w.Extends w' } :=
    fun _ _ w => (.null, ⟨w, .refl w⟩)
  spawn : Store ν → Bool := fun _ => true
  await : Nat → (w : Store ν) →
      Except (Value ν) (List (Value ν)) × { w' : Store ν // w.Extends w' } :=
    fun _ w => (.ok [], ⟨w, .refl w⟩)

/-- Calling a registered native from C: its index and arguments, and the number it returns. -/
abbrev NativeCall (ν : Type) : Type := Nat → List (Value ν) → M ν Int

section Call

open Program

/-- The pushes that fill the local slots a call left free. -/
def padLocals (localCount present : Nat) : M ν Unit :=
  pushAll (List.replicate (localCount - present) .null)

/-- Pushing a call frame. -/
def pushFrame (f : Frame) : M ν Unit := modify fun vm => { vm with frames := f :: vm.frames }

/-- `vm_call`: enter a chunk at its first byte; `false` when it refused. -/
def vmCall (closure argCount : Nat) : M ν Bool := do
  let chunk ← chunkOf closure
  let vm ← get
  if !chunk.hasVararg ∧ argCount ≠ chunk.arity then
    modify (setError (bytes "function '" ++ chunk.name ++
      bytes s!"' expects {chunk.arity} argument(s) but got {argCount}"))
    return false
  else if vm.frameCount ≥ framesMax then
    modify (setError (bytes "call stack overflow"))
    return false
  else if vm.height < argCount + 1 then crash .undefined
  else
    pushFrame { closure, ip := ⟨closure, 0⟩, slots := vm.height - argCount - 1 }
    padLocals chunk.localCount (argCount + 1)
    return true

/-- The frame and the window that `vm_call_closure_with_args`, the number case of `cando_vm_call_meta` and
`cando_vm_exec_closure` set up: the sentinel in slot 0, the arguments above it, `NULL`s up to the local
count. `false` when there is no frame left. -/
def enterClosure (closure pc : Nat) (args : List (Value ν)) : M ν Bool := do
  push .null
  let vm ← get
  if vm.frameCount ≥ framesMax then
    let _ ← pop
    return false
  else
    let chunk ← chunkOf closure
    pushFrame { closure, ip := ⟨closure, pc⟩, slots := vm.height - 1 }
    pushAll args
    padLocals chunk.localCount (args.length + 1)
    return true

/-- The body of a re-entrant call: run until the frame returns, with its values captured in
`thread_results`. `false` when there is no frame left. -/
def runCaptured (closure pc : Nat) (args : List (Value ν)) : M ν Bool := do
  let vm ← get
  let savedStop := vm.threadStopFrame
  modify fun vm => { vm with threadStopFrame := some vm.frameCount, threadResults := [] }
  let entered ← enterClosure closure pc args
  when entered (do let _ ← enter)
  modify fun vm => { vm with threadStopFrame := savedStop }
  return entered

/-- What a native called from C reports: nothing when an error is pending. -/
def nativeResult [F64 ν] (E : Env ν) (call : NativeCall ν) (f : Value ν) (args : List (Value ν)) :
    M ν Nat := do
  let ni ← orCrash .undefined f.nativeIndex
  if ni ≥ E.natives.length then return 0
  else
    let ret ← call ni args
    let vm ← get
    return if vm.hasError then 0 else ret.toNat

/-- `vm_call_closure_with_args`. -/
def callClosureWithArgs (fnObj : CdoObject ν) (args : List (Value ν)) : M ν Bool :=
  match fnObj.bytecode with
  | some closure => runCaptured closure fnObj.paramCount args
  | none => pure false

/-- Calling a function object and pushing what was captured. Without a closure, these are the results of
an earlier call. -/
def callFunction (fnObj : CdoObject ν) (args : List (Value ν)) : M ν Nat := do
  let _ ← callClosureWithArgs fnObj args
  let vm ← get
  pushAll vm.threadResults
  return vm.threadResults.length

/-- `cando_vm_call_value`: the returned values are pushed; their number is the result. -/
def callValue [F64 ν] (E : Env ν) (call : NativeCall ν) (f : Value ν) (args : List (Value ν)) :
    M ν Nat := do
  if f.isNativeFn then nativeResult E call f args
  else match f with
  | .object h =>
    let fnObj ← resolve h
    if fnObj.kind = .function then callFunction fnObj args else return 0
  | _ => return 0

/-- Popping values until the stack is `n` high. -/
def popTo (n : Nat) : M ν Unit := modify (·.popTo n)

/-- The native case of `cando_vm_call_meta`: exactly one value is left. -/
def metaNative [F64 ν] (E : Env ν) (call : NativeCall ν) (callee : Value ν) (args : List (Value ν)) :
    M ν Bool := do
  let ni ← orCrash .undefined callee.nativeIndex
  if ni ≥ E.natives.length then
    modify (setError (bytes s!"meta-method: invalid native index {ni}"))
    return false
  else
    let before ← get
    let ret ← call ni args
    let vm ← get
    if vm.hasError then return false
    else
      when (ret ≤ 0 ∧ vm.height ≤ before.height) (push .null)
      popTo (before.height + 1)
      return true

/-- The number case of `cando_vm_call_meta`: a code offset in the chunk that is running. -/
def metaOffset [F64 ν] (x : ν) (args : List (Value ν)) : M ν Bool := do
  let pc ← orCrash .undefined (F64.toU32 x)
  let f ← frame
  let entered ← runCaptured f.closure pc args
  let vm ← get
  if !entered then
    modify (setError (bytes "call stack overflow in meta-method"))
    return false
  else if vm.hasError then return false
  else
    push (vm.threadResults.headD .null)
    return true

/-- `fn.native.fn` on arguments that have been converted. -/
def callObjNative (E : Env ν) (fn : Nat) (cdoArgs : List (CdoValue ν)) : M ν (CdoValue ν) := fun vm =>
  let (result, w) := E.objNative fn cdoArgs vm.store
  .ok result { vm with store := w }

/-- The case of a native object in `cando_vm_call_meta`. -/
def metaObjNative (E : Env ν) (fn : Nat) (args : List (Value ν)) : M ν Bool := do
  let cdoArgs ← args.mapM toCdo
  let result ← callObjNative E fn cdoArgs
  push (← toCando result)
  return true

/-- The case of a function object in `cando_vm_call_meta`: exactly one value is left. -/
def metaFunction (fnObj : CdoObject ν) (args : List (Value ν)) : M ν Bool := do
  let ret ← callFunction fnObj args
  let vm ← get
  if vm.hasError then return false
  else if ret > 1 then
    let top ← pop
    popN (ret - 1)
    push top
    return true
  else
    when (ret = 0) (push .null)
    return true

/-- `cando_vm_call_meta`: `true` when the metamethod ran, with one result pushed; otherwise `has_error`
tells a failed call from a missing metamethod. -/
def callMeta [F64 ν] (E : Env ν) (call : NativeCall ν) (h : Nat) (key : Str)
    (args : List (Value ν)) : M ν Bool := do
  match ← objectGetM h key with
  | none => return false
  | some raw =>
    let callee ← toCando raw
    if callee.isNativeFn then metaNative E call callee args
    else match callee with
    | .number x => metaOffset x args
    | .object g =>
      let fnObj ← resolve g
      match fnObj.kind, fnObj.nativeFn, fnObj.bytecode with
      | .native, some fn, _ => metaObjNative E fn args
      | .function, _, some _ => metaFunction fnObj args
      | _, _, _ =>
        modify (setError (bytes "meta-method is not callable"))
        return false
    | _ =>
      modify (setError (bytes "meta-method is not callable"))
      return false

/-- A handler that may start a nested run goes on in the frame it was in, unless an error is pending. -/
def reenter {α : Type} (m : M ν α) : M ν α := do
  let before ← get
  let a ← m
  let vm ← get
  if !vm.hasError ∧ vm.frames ≠ before.frames then crash .deadFrame else return a

/-- `cando_vm_exec_eval`: run a chunk compiled in eval mode in a frame of its own; the results are those
that `OP_RETURN` captured. -/
def execEval (chunk : Chunk ν) : M ν (VMResult × List (Value ν)) := do
  let vm ← get
  let savedStop := vm.evalStopFrame
  let savedResults := vm.evalResults
  modify fun vm => { vm with
    chunks := vm.chunks ++ [chunk], evalStopFrame := some vm.frameCount, evalResults := [] }
  push .null
  let entered ← vmCall vm.chunks.length 0
  if entered then
    let res ← enter
    let vm ← get
    modify fun vm => { vm with evalStopFrame := savedStop, evalResults := savedResults }
    return (res, vm.evalResults)
  else
    let _ ← pop
    modify fun vm => { vm with evalStopFrame := savedStop, evalResults := savedResults }
    return (.runtimeErr, [])

/-- A native at work: what it returns to its caller is the number of values it pushed, or -1. -/
def runNative [F64 ν] (E : Env ν) (call : NativeCall ν) : Native ν → M ν Int
  | .done rets => do
    pushAll rets
    return rets.length
  | .fail msg => do
    modify (setError msg)
    return -1
  | .stop => return -1
  | .read k => do
    let vm ← get
    runNative E call (k vm.store)
  | .update f k => do
    modify fun vm => { vm with store := f vm.store }
    runNative E call k
  | .callValue f args popped k => do
    let n ← callValue E call f args
    let vm ← get
    let rets := (vm.stack.take n).reverse
    popN (min popped n)
    runNative E call (k vm.hasError rets)
  | .callMeta h key args k => do
    let pushed ← callMeta E call h key args
    let vm ← get
    if pushed then
      let v ← pop
      runNative E call (k vm.hasError (some v))
    else runNative E call (k vm.hasError none)
  | .eval chunk k => do
    let (res, rets) ← execEval chunk
    runNative E call (k (res == .runtimeErr) rets)

/-- `native_fns[ni](args)`, with `depth` C calls left before the C stack is exhausted. -/
def nativeCall [F64 ν] (E : Env ν) : (depth : Nat) → NativeCall ν
  | 0, _, _ => crash .undefined
  | depth + 1, ni, args => do
    let prog ← orCrash .undefined E.natives[ni]?
    runNative E (nativeCall E depth) (prog args)

/-- A native called from the loop. -/
def callNative [F64 ν] (E : Env ν) : NativeCall ν := nativeCall E E.cDepth

end Call

end Cando
