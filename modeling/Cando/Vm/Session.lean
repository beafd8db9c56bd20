import Cando.Core.Number
import Cando.Vm.State
import Mathlib.Logic.Function.Basic
import Mathlib.Tactic.Common

/-!
# A session

A process between `cando_open` and `cando_close`, as far as closures and chunks go: the scripts that `cando_dostring`
runs, the code that `eval` and `include` run inside them, and the threads, each in a VM of its own. A function value is
the handle of an object with a pointer to a closure (`OP_CLOSURE`), and handles are copied without being counted. So the
session keeps every place in which a value may stand, and of everything else only what decides which code runs next.

An instruction appears by what it does to those places; one of the source is one here or several. A constant or the
result of an arithmetic operation refers to no object. A native keeps on the stack what it has in its own variables.
-/

namespace Cando

namespace Session

/-- A value: the handle of an object, or one that refers to no object. -/
inductive Val where
  | plain
  | object (h : Nat)
  deriving DecidableEq, Repr

/-- `CandoChunk`: `local_count`, and whether it has been freed. -/
structure Chunk where
  localCount : Nat
  live : Bool := true
  deriving DecidableEq, Repr

/-- `CandoClosure`: its chunk, and whether it has been freed. -/
structure Closure where
  chunk : Nat
  live : Bool := true
  deriving DecidableEq, Repr

/-- `CdoThreadState` -/
inductive ThreadState where
  | running
  | done
  | error
  deriving DecidableEq, Repr

/-- `CdoThread`. Its function is in `Vm.fnVal`. -/
structure CdoThread where
  state : ThreadState := .running
  results : List Val := []
  error : Val := .plain
  thenFn : Val := .plain
  catchFn : Val := .plain
  deriving DecidableEq, Repr

/-- What a handle stands for: a function, with its offset in the code and its closure; an object or an array; a
thread. -/
inductive Obj where
  | function (fnPc closure : Nat)
  | fields (get : Str → Val)
  | thread (t : CdoThread)

/-- `CandoCallFrame`; of `ip` the chunk. -/
structure Frame where
  closure : Nat
  ip : Nat
  slots : Nat
  isFluent : Bool := false
  deriving DecidableEq, Repr

/-- `CandoTryFrame`; of `catch_ip` the chunk. -/
structure TryFrame where
  catchIp : Nat
  stackSave : Nat
  frameSave : Nat
  deriving DecidableEq, Repr

/-- For what `vm_run` is called, and what the caller keeps meanwhile: `cando_vm_exec`; `native_eval`, with the globals
that a sandbox replaces; `native_include`; `cando_vm_call_value`; and `vm_thread_trampoline` for the function of the
thread and for a callback. -/
inductive Purpose where
  | exec (chunk closure : Nat)
  | eval (chunk closure : Nat) (savedStop : Option Nat) (savedResults : List Val) (savedGlobals : Option Nat)
  | module (path : Str) (chunk closure : Nat) (savedStop : Option Nat) (savedResults : List Val)
  | value (savedStop : Option Nat)
  | thread
  | callback
  deriving DecidableEq, Repr

/-- How far a call of `vm_run` has come. -/
inductive Phase where
  | running
  | returned
  | waited
  | closureFreed
  | chunkFreed
  deriving DecidableEq, Repr

/-- A call of `vm_run`, with its variables `frame` (the index) and `ip` (the chunk); `failed` is `VM_RUNTIME_ERR`. -/
structure Call where
  purpose : Purpose
  phase : Phase := .running
  failed : Bool := false
  frame : Nat := 0
  ip : Nat := 0
  deriving DecidableEq, Repr

/-- `CandoModuleEntry`, of a script. -/
structure ModuleEntry where
  path : Str
  values : List Val
  closure : Nat
  chunk : Nat
  deriving DecidableEq, Repr

/-- Where a VM is. The root VM is there from the start; the VM of a thread is set up, runs the function and then a
callback, and is destroyed, and the thread is taken off the registry. -/
inductive Stage where
  | root
  | born
  | begun
  | started
  | finished
  | called
  | destroyed
  | freed
  | gone
  deriving DecidableEq, Repr

/-- `CandoVM`, with what `ThreadArg` holds for the VM of a thread. The stacks begin with their top. The frames begin
with the outermost, and behind the first `frameCount` there are those that have been left. -/
structure Vm where
  stage : Stage
  parent : Nat := 0
  fnVal : Val := .plain
  thread : Val := .plain
  globals : Nat := 0
  stringProto : Val := .plain
  arrayProto : Val := .plain
  stack : List Val := []
  frames : List Frame := []
  frameCount : Nat := 0
  tryStack : List TryFrame := []
  hasError : Bool := false
  errorVals : List Val := []
  threadStopFrame : Option Nat := none
  threadResults : List Val := []
  evalStopFrame : Option Nat := none
  evalResults : List Val := []
  calls : List Call := []
  moduleCache : List ModuleEntry := []
  deriving DecidableEq, Repr

/-! ### Virtual machines -/

namespace Vm

variable (vm : Vm)

/-- It has not been destroyed. -/
def alive : Bool := vm.stage ∉ [.destroyed, .freed, .gone]

/-- `cando_vm_destroy`, up to the closures and chunks of the module cache. -/
def destroy : Vm where
  stage := .destroyed
  parent := vm.parent
  moduleCache := vm.moduleCache.map fun m => { m with values := [] }

/-- Its thread has not called a callback yet. -/
def awaits : Bool := vm.stage ∈ [.born, .begun, .started, .finished]

def push (v : Val) : Vm := { vm with stack := v :: vm.stack }

/-- The values, the last one on top. -/
def pushAll (vs : List Val) : Vm := { vm with stack := vs.reverse ++ vm.stack }

def pop : Option (Val × Vm) :=
  match vm.stack with
  | v :: s => some (v, { vm with stack := s })
  | [] => none

/-- The bottom part of a stack of the given height. -/
def dropTo (height : Nat) (stack : List Val) : List Val := stack.drop (stack.length - height)

/-- A change of the innermost call of `vm_run`. -/
def modifyCall (f : Call → Call) : Vm :=
  match vm.calls with
  | c :: cs => { vm with calls := f c :: cs }
  | [] => vm

/-- The innermost `vm_run` returns. -/
def leave (failed : Bool) : Vm := vm.modifyCall fun c => { c with phase := .returned, failed }

/-- `LOAD_FRAME` -/
def loadFrame : Option Vm :=
  (if vm.frameCount = 0 then none else vm.frames[vm.frameCount - 1]?).map fun f =>
    vm.modifyCall fun c => { c with frame := vm.frameCount - 1, ip := f.ip }

/-- `SYNC_IP` -/
def syncIp : Vm :=
  match vm.calls with
  | c :: _ => { vm with frames := vm.frames.modify c.frame fun f => { f with ip := c.ip } }
  | [] => vm

/-- `handle_error`. Where there is no handler, all that runs in this VM ends, and nothing reads the stack again: the
values on it are left out. -/
def raise : Option Vm :=
  match vm.tryStack with
  | [] => some (Vm.leave { vm with stack := vm.stack.map fun _ => .plain } true)
  | tf :: rest => do
    let vm ← loadFrame { vm with
      frameCount := min tf.frameSave vm.frameCount
      stack := dropTo tf.stackSave vm.stack
      tryStack := rest
      hasError := false }
    return vm.modifyCall fun c => { c with ip := tf.catchIp }

/-- Behind a native: `if (vm->has_error) goto handle_error`. -/
def checked : Option Vm := if vm.hasError then vm.raise else some vm

/-- A frame above `argCount` arguments and what is below them, with nulls for the other locals. -/
def enter (closure ip localCount argCount : Nat) (isFluent : Bool) : Vm :=
  { vm with
    frames := vm.frames.take vm.frameCount ++
      ⟨closure, ip, vm.stack.length - argCount - 1, isFluent⟩ :: vm.frames.drop (vm.frameCount + 1)
    frameCount := vm.frameCount + 1
    stack := List.replicate (localCount - (argCount + 1)) .plain ++ vm.stack }

/-- The beginning of `vm_run`. -/
def run (purpose : Purpose) : Option Vm := loadFrame { vm with calls := { purpose } :: vm.calls }

/-- The VM as `cando_vm_exec_closure` and `vm_call_closure_with_args` prepare it. -/
def capture (args : List Val) : Vm :=
  pushAll { vm with threadStopFrame := some vm.frameCount, threadResults := [] } (.plain :: args)

/-- What a return with `n` values hands back, the first value first: a fluent frame its receiver. -/
def returned (f : Frame) (n : Nat) : List Val :=
  if f.isFluent then (dropTo (f.slots + 2) vm.stack).take 1 else (vm.stack.take n).reverse

/-- `OP_RETURN`, in the frame `f`, unless the frame lies above the top of the stack. -/
def ret (f : Frame) (n : Nat) : Option Vm :=
  if vm.frameCount = 0 ∨ vm.stack.length < f.slots + max n (if f.isFluent then 2 else 0) then none
  else if vm.threadStopFrame = some (vm.frameCount - 1) then
    some (leave { vm with
      frameCount := vm.frameCount - 1
      stack := dropTo f.slots vm.stack
      threadResults := (vm.returned f n).take maxThrowArgs } false)
  else if vm.evalStopFrame = some (vm.frameCount - 1) then
    some (leave { vm with
      frameCount := vm.frameCount - 1
      stack := dropTo f.slots vm.stack
      evalResults := vm.returned f n } false)
  else if vm.frameCount = 1 then some (leave { vm with frameCount := 0, stack := [] } false)
  else loadFrame { vm with
    frameCount := vm.frameCount - 1
    stack := (vm.returned f n).reverse ++ dropTo f.slots vm.stack }

end Vm

end Session

/-- A session. An environment of globals that has been freed is `none`. -/
structure Session where
  chunks : List Session.Chunk
  closures : List Session.Closure
  heap : List Session.Obj
  envs : List (Option (Str → Session.Val))
  vms : List Session.Vm

namespace Session

variable (S : Session)

/-! ### The parts of a session -/

def setVm (i : Nat) (vm : Vm) : Session := { S with vms := S.vms.set i vm }

def alloc (o : Obj) : Session := { S with heap := S.heap ++ [o] }

def setObj (h : Nat) (o : Obj) : Session := { S with heap := S.heap.set h o }

/-- The environment, if it has not been freed. -/
def env (e : Nat) : Option (Str → Val) := (S.envs[e]?).join

def setEnv (e : Nat) (g : Option (Str → Val)) : Session := { S with envs := S.envs.set e g }

/-- A chunk that has been compiled, and the closure that runs it. -/
def load (localCount : Nat) : Session :=
  { S with
    chunks := S.chunks ++ [{ localCount }]
    closures := S.closures ++ [{ chunk := S.chunks.length }] }

/-- `cando_closure_free` and `cando_chunk_free`, of some closures and chunks. -/
def free (closures chunks : List Nat) : Session :=
  { S with
    closures := S.closures.mapIdx fun c k => { k with live := k.live && c ∉ closures }
    chunks := S.chunks.mapIdx fun c k => { k with live := k.live && c ∉ chunks } }

/-- A chunk that has not been freed. -/
def chunk (k : Nat) : Option Chunk := (S.chunks[k]?).filter (·.live)

/-- The chunk of a closure, with its number, where neither has been freed. -/
def code (c : Nat) : Option (Nat × Chunk) := do
  let closure ← (S.closures[c]?).filter (·.live)
  let chunk ← S.chunk closure.chunk
  return (closure.chunk, chunk)

/-- A closure that can be called: it has not been freed, and nor has its chunk. -/
def Live (c : Nat) : Prop := (S.code c).isSome

/-- An object or an array. -/
def fieldsOf : Val → Option (Nat × (Str → Val))
  | .object h =>
    match S.heap[h]? with
    | some (.fields get) => some (h, get)
    | _ => none
  | .plain => none

def threadOf : Val → Option (Nat × CdoThread)
  | .object h =>
    match S.heap[h]? with
    | some (.thread t) => some (h, t)
    | _ => none
  | .plain => none

/-- The closure of a function value. -/
def closureOf : Val → Option Nat
  | .object h =>
    match S.heap[h]? with
    | some (.function _ c) => some c
    | _ => none
  | .plain => none

/-- A frame for a function value, where there is room for one. What a call of a closure that has been freed does is not
defined. -/
def enterFn (vm : Vm) (callee : Val) (argCount : Nat) (isFluent : Bool) : Option Vm := do
  let c ← S.closureOf callee
  let (k, chunk) ← S.code c
  if vm.frameCount < framesMax then some (vm.enter c k chunk.localCount argCount isFluent) else none

/-- `cando_vm_call_value` and `vm_call_closure_with_args`, of a function. -/
def callValue (i : Nat) (vm : Vm) (purpose : Purpose) (fn : Val) (args : List Val) : Option Session := do
  let vm ← S.enterFn (vm.capture args) fn args.length false
  let vm ← vm.run purpose
  return S.setVm i vm

end Session

end Cando
