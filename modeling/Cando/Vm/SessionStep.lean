import Cando.Vm.Session
import Cando.Lib.Interleaving

/-!
# The steps of a session

Instructions, the calls of `cando_dostring`, and the steps of what encloses a `vm_run`, in any order. Where the program
runs into code that has been freed, or reads a stack or a frame that is not there, its behaviour is not defined, and no
step leads on.
-/

namespace Cando

namespace Session

/-- Instructions, and natives that instructions call. -/
inductive Instr where
  | push
  | pop
  | load (n : Nat)
  | store (n : Nat)
  | insert (n : Nat)
  | loadGlobal (x : Str)
  | storeGlobal (x : Str)
  | newObject
  | getField (x : Str)
  | setField (x : Str)
  | proto (array : Bool)
  | closure (fnPc : Nat)
  | call (argCount : Nat) (isFluent : Bool)
  | callOffset (argCount : Nat)
  | slide (argCount retCount : Nat)
  | ret (n : Nat)
  | halt
  | tryBegin
  | tryEnd
  | catchBegin (n : Nat)
  | throw (n : Nat)
  | reraise
  | error
  | thread
  | await
  | current
  | whenDone
  | whenFailed
  | callValue (argc : Nat)
  | eval (localCount : Nat) (sandbox : Bool)
  | includeFile (path : Str) (localCount : Nat)
  deriving DecidableEq, Repr

variable (S : Session)

/-- The VM and the frame in which it fetches the next instruction, from a chunk that has not been freed. -/
def fetch (i : Nat) : Option (Vm × Frame) := do
  let vm ← S.vms[i]?
  let c ← vm.calls.head?
  let f ← vm.frames[c.frame]?
  let _ ← S.chunk c.ip
  if c.phase = .running then some (vm.syncIp, f) else none

/-- What `cando_vm_exec_eval` and `cando_vm_exec_eval_module` begin with, for a new chunk. -/
def enterCode (i : Nat) (vm : Vm) (purpose : Purpose) (localCount : Nat) : Option Session := do
  let vm' := { vm with evalStopFrame := some vm.frameCount, evalResults := [] }
  if vm.frameCount < framesMax then
    let vm ← Vm.run ((vm'.push .plain).enter S.closures.length S.chunks.length localCount 0 false) purpose
    return (S.load localCount).setVm i vm
  else none

/-- An instruction of VM `i`, in the frame `f`. Where it fails it is `error` that is executed. -/
def exec (i : Nat) (vm : Vm) (f : Frame) : Instr → Option Session
  | .push => some (S.setVm i (vm.push .plain))
  | .pop => do
    let (_, vm) ← vm.pop
    return S.setVm i vm
  -- `OP_DUP`, `OP_LOAD_LOCAL`
  | .load n => do
    let v ← vm.stack[n]?
    return S.setVm i (vm.push v)
  -- `OP_STORE_LOCAL`, `OP_DEF_LOCAL`
  | .store n => do
    let (v, vm) ← vm.pop
    return S.setVm i { vm with stack := vm.stack.set n v }
  -- `OP_METHOD_CALL` puts the method below the receiver and the arguments
  | .insert n => do
    let (v, vm) ← vm.pop
    return S.setVm i { vm with stack := vm.stack.take n ++ v :: vm.stack.drop n }
  | .loadGlobal x => do
    let g ← S.env vm.globals
    return S.setVm i (vm.push (g x))
  -- `OP_STORE_GLOBAL`, `OP_DEF_GLOBAL`
  | .storeGlobal x => do
    let g ← S.env vm.globals
    let (v, vm) ← vm.pop
    return (S.setEnv vm.globals (some (Function.update g x v))).setVm i vm
  -- `OP_NEW_OBJECT`, `OP_NEW_ARRAY`
  | .newObject => some ((S.alloc (.fields fun _ => .plain)).setVm i (vm.push (.object S.heap.length)))
  -- `OP_GET_FIELD`, `OP_GET_INDEX`
  | .getField x => do
    let (v, vm) ← vm.pop
    let (_, get) ← S.fieldsOf v
    return S.setVm i (vm.push (get x))
  -- `OP_SET_FIELD`, `OP_SET_INDEX`
  | .setField x => do
    let (v, vm) ← vm.pop
    let o ← vm.stack.head?
    let (h, get) ← S.fieldsOf o
    return (S.setObj h (.fields (Function.update get x v))).setVm i vm
  | .proto array => some (S.setVm i (vm.push (if array then vm.arrayProto else vm.stringProto)))
  -- the offset comes from the constants of the chunk of the frame
  | .closure fnPc => do
    let _ ← S.code f.closure
    return (S.alloc (.function fnPc f.closure)).setVm i (vm.push (.object S.heap.length))
  | .call argCount isFluent => do
    let callee ← vm.stack[argCount]?
    let vm ← S.enterFn vm callee argCount isFluent
    let vm ← vm.loadFrame
    return S.setVm i vm
  -- a number stands for a function of the chunk of the frame
  | .callOffset argCount => do
    let (k, chunk) ← S.code f.closure
    if vm.frameCount < framesMax then
      let vm ← (vm.enter f.closure k chunk.localCount argCount false).loadFrame
      return S.setVm i vm
    else none
  -- what `OP_CALL` does behind a native
  | .slide argCount retCount =>
    let values := if retCount = 0 then [.plain] else vm.stack.take retCount
    some (S.setVm i { vm with stack := values ++ vm.stack.drop (retCount + argCount + 1) })
  | .ret n => do
    let vm ← vm.ret f n
    return S.setVm i vm
  | .halt => some (S.setVm i (vm.leave false))
  | .tryBegin => do
    let c ← vm.calls.head?
    return S.setVm i { vm with tryStack := ⟨c.ip, vm.stack.length, vm.frameCount⟩ :: vm.tryStack }
  | .tryEnd => some (S.setVm i { vm with tryStack := vm.tryStack.tail })
  | .catchBegin n =>
    let values := (List.range n).map fun k => vm.errorVals.getD k .plain
    some (S.setVm i { vm with stack := values ++ vm.stack, errorVals := [] })
  | .throw n => do
    let count := max n 1
    let vm ← Vm.raise { vm with
      hasError := true
      errorVals := (vm.stack.take count).reverse
      stack := vm.stack.drop count }
    return S.setVm i vm
  -- `OP_RERAISE`, and every instruction that finds `has_error` set
  | .reraise => if vm.hasError then vm.raise.map (S.setVm i) else none
  -- `vm_runtime_error`, and the `cando_vm_error` of a native
  | .error => do
    let vm ← Vm.raise { vm with hasError := true, errorVals := [.plain] }
    return S.setVm i vm
  | .thread => do
    let (fnVal, vm) ← vm.pop
    let _ ← S.closureOf fnVal
    let thread := Val.object S.heap.length
    let S := (S.alloc (.thread {})).setVm i (vm.push thread)
    return { S with vms := S.vms ++ [{ stage := .born, parent := i, fnVal, thread }] }
  -- `OP_AWAIT`, `thread.join`, `thread.error`
  | .await => do
    let (v, vm) ← vm.pop
    let (_, t) ← S.threadOf v
    match t.state with
    | .running => none
    | .done => return S.setVm i (vm.pushAll (if t.results = [] then [.plain] else t.results))
    | .error =>
      let vm ← Vm.raise { vm with hasError := true, errorVals := [t.error] }
      return S.setVm i vm
  -- `thread.current`
  | .current => some (S.setVm i (vm.push vm.thread))
  -- `thread.then`
  | .whenDone => do
    let (fn, vm) ← vm.pop
    let (v, vm) ← vm.pop
    let (h, t) ← S.threadOf v
    match t.state with
    | .running => return (S.setObj h (.thread { t with thenFn := fn })).setVm i (vm.push .plain)
    | .done => S.callValue i vm (.value vm.threadStopFrame) fn t.results
    | .error => return S.setVm i (vm.push .plain)
  -- `thread.catch`
  | .whenFailed => do
    let (fn, vm) ← vm.pop
    let (v, vm) ← vm.pop
    let (h, t) ← S.threadOf v
    match t.state with
    | .running => return (S.setObj h (.thread { t with catchFn := fn })).setVm i (vm.push .plain)
    | .done => return S.setVm i (vm.push .plain)
    | .error => S.callValue i vm (.value vm.threadStopFrame) fn [t.error]
  -- `cando_vm_call_value` in a native that has the function and the arguments at hand
  | .callValue argc => do
    let fn ← vm.stack[argc]?
    S.callValue i vm (.value vm.threadStopFrame) fn (vm.stack.take argc).reverse
  | .eval localCount sandbox =>
    let purpose := Purpose.eval S.chunks.length S.closures.length vm.evalStopFrame vm.evalResults
    if sandbox then
      -- the natives that `sandbox_enter` copies refer to no object
      Session.enterCode { S with envs := S.envs ++ [some fun _ => .plain] } i { vm with globals := S.envs.length }
        (purpose (some vm.globals)) localCount
    else S.enterCode i vm (purpose none) localCount
  | .includeFile path localCount =>
    match vm.moduleCache.find? fun e => e.path = path with
    | some cached => some (S.setVm i (vm.pushAll cached.values))
    | none =>
      S.enterCode i vm (.module path S.chunks.length S.closures.length vm.evalStopFrame vm.evalResults) localCount

/-! ### What encloses a run -/

/-- The actions of a session: an instruction of a VM; a call of `cando_dostring` or `cando_dofile`, or one whose source
cannot be parsed; the steps behind a `vm_run`; those of a thread; and `cando_close`. -/
inductive Act where
  | instr (i : Nat) (x : Instr)
  | dostring (localCount : Nat)
  | refused
  | wait
  | freeClosure (i : Nat)
  | freeChunk (i : Nat)
  | finish (i : Nat)
  | begin (i : Nat)
  | start (i : Nat)
  | fire (i : Nat)
  | destroy (i : Nat)
  | freeModules (i : Nat)
  | deregister (i : Nat)
  | close
  deriving DecidableEq, Repr

/-- The root VM, when no script is running. -/
def idle : Option Vm := do
  let vm ← S.vms[0]?
  if vm.stage = .root ∧ vm.calls = [] then some vm else none

/-- No thread is on the registry. -/
def alone : Bool := S.vms.tail.all fun vm => vm.stage = .gone

/-- A VM in the given stage. -/
def vmAt (i : Nat) (stage : Stage) : Option Vm := do
  let vm ← S.vms[i]?
  if vm.stage = stage then some vm else none

/-- The innermost call of `vm_run` in a VM. -/
def callOf (i : Nat) : Option (Vm × Call) := do
  let vm ← S.vms[i]?
  let c ← vm.calls.head?
  return (vm, c)

/-- The closure that is freed next behind a `vm_run`. -/
def Call.closureDue (c : Call) : Option Nat :=
  match c.purpose, c.phase with
  | .exec _ closure, .waited => some closure
  | .eval _ closure _ _ _, .returned => some closure
  | _, _ => none

/-- The chunk that is freed next behind a `vm_run`; `load_script` frees that of a module whose body has failed. -/
def Call.chunkDue (c : Call) : Option Nat :=
  match c.purpose, c.phase with
  | .exec chunk _, .closureFreed => some chunk
  | .eval chunk _ _ _ _, .closureFreed => some chunk
  | .module _ chunk _ _ _, .returned => if c.failed then some chunk else none
  | _, _ => none

/-- The end of what encloses a `vm_run`. -/
def finishCall (i : Nat) (vm : Vm) (c : Call) : Option Session := do
  let vm := { vm with calls := vm.calls.tail }
  match c.purpose, c.phase with
  | .exec _ _, .chunkFreed => return S.setVm i vm
  | .eval _ _ savedStop savedResults savedGlobals, .chunkFreed =>
    let values := if c.failed then [] else if vm.evalResults = [] then [.plain] else vm.evalResults
    let vm' := { vm with evalStopFrame := savedStop, evalResults := savedResults }
    match savedGlobals with
    | none =>
      let vm' ← (vm'.pushAll values).checked
      return S.setVm i vm'
    | some g =>
      let vm' ← (Vm.pushAll { vm' with globals := g } values).checked
      return (S.setEnv vm.globals none).setVm i vm'
  | .module path chunk closure savedStop savedResults, .returned =>
    if c.failed then none
    else
      let vm' ← (Vm.pushAll { vm with
        evalStopFrame := savedStop
        evalResults := savedResults
        moduleCache := vm.moduleCache ++ [⟨path, vm.evalResults, closure, chunk⟩] } vm.evalResults).checked
      return S.setVm i vm'
  | .module _ _ _ savedStop savedResults, .chunkFreed =>
    let vm ← Vm.checked { vm with evalStopFrame := savedStop, evalResults := savedResults }
    return S.setVm i vm
  | .value savedStop, .returned =>
    let vm ← (Vm.pushAll { vm with threadStopFrame := savedStop } vm.threadResults).checked
    return S.setVm i vm
  -- `cdo_thread_set_results`, `cdo_thread_set_error`
  | .thread, .returned =>
    let (h, t) ← S.threadOf vm.thread
    let t' :=
      if c.failed ∨ vm.hasError then { t with state := .error, error := vm.errorVals.headD .plain }
      else { t with state := .done, results := vm.threadResults.take 8 }
    if vm.stage = .started then
      return (S.setObj h (.thread t')).setVm i { vm with threadStopFrame := none, stage := .finished }
    else none
  | .callback, .returned => return S.setVm i { vm with threadStopFrame := none, stage := .called }
  | _, _ => none

/-- The callback of a thread that has ended, with its arguments. -/
def CdoThread.pending (t : CdoThread) : Val × List Val :=
  match t.state with
  | .running => (.plain, [])
  | .done => (t.thenFn, t.results)
  | .error => (t.catchFn, [t.error])

/-- What a step frees: closures and chunks. -/
def frees : Act → List Nat × List Nat
  | .freeClosure i => (((S.callOf i).bind fun x => x.2.closureDue).toList, [])
  | .freeChunk i => ([], ((S.callOf i).bind fun x => x.2.chunkDue).toList)
  | .freeModules i =>
    let modules := ((S.vmAt i .destroyed).map Vm.moduleCache).getD []
    (modules.map ModuleEntry.closure, modules.map ModuleEntry.chunk)
  | _ => ([], [])

def step (a : Act) : Option Session :=
  match a with
  | .instr i x => do
    let (vm, f) ← S.fetch i
    S.exec i vm f x
  -- `cando_vm_exec`
  | .dostring localCount => do
    let vm ← S.idle
    if vm.frameCount < framesMax then
      let vm ← Vm.run ((vm.push .plain).enter S.closures.length S.chunks.length localCount 0 false)
        (.exec S.chunks.length S.closures.length)
      return (S.load localCount).setVm 0 vm
    else return S.setVm 0 { vm.push .plain with hasError := true, errorVals := [.plain] }
  -- `compile_source`
  | .refused => do
    let vm ← S.idle
    return S.setVm 0 { vm with hasError := true }
  -- `cando_vm_wait_all_threads` in `cando_vm_exec`; what a script leaves on the stack the next one does not read
  | .wait => do
    let (vm, c) ← S.callOf 0
    match c.purpose, c.phase with
    | .exec _ _, .returned =>
      if S.alone then
        return S.setVm 0 (Vm.modifyCall { vm with stack := vm.stack.map fun _ => .plain }
          fun c => { c with phase := .waited })
      else none
    | _, _ => none
  | .freeClosure i => do
    let (vm, c) ← S.callOf i
    let _ ← c.closureDue
    return (S.free (S.frees a).1 (S.frees a).2).setVm i (vm.modifyCall fun c => { c with phase := .closureFreed })
  | .freeChunk i => do
    let (vm, c) ← S.callOf i
    let _ ← c.chunkDue
    return (S.free (S.frees a).1 (S.frees a).2).setVm i (vm.modifyCall fun c => { c with phase := .chunkFreed })
  | .finish i => do
    let (vm, c) ← S.callOf i
    S.finishCall i vm c
  -- `cando_vm_init_child`, while the VM of the parent is there
  | .begin i => do
    let vm ← S.vmAt i .born
    let parent ← S.vms[vm.parent]?
    if parent.alive then
      return S.setVm i { vm with
        stage := .begun
        globals := parent.globals
        stringProto := parent.stringProto
        arrayProto := parent.arrayProto }
    else none
  -- `cando_vm_exec_closure`
  | .start i => do
    let vm ← S.vmAt i .begun
    S.callValue i { vm with stage := .started } .thread vm.fnVal []
  -- the callback, in a VM that is reset for it
  | .fire i => do
    let vm ← S.vmAt i .finished
    let (_, t) ← S.threadOf vm.thread
    if vm.calls ≠ [] then none
    else if (S.closureOf t.pending.1).isSome then
      S.callValue i { vm with stack := [], frameCount := 0, hasError := false, errorVals := [] } .callback
        t.pending.1 t.pending.2
    else return S.setVm i { vm with stage := .called }
  | .destroy i => do
    let vm ← S.vmAt i .called
    return S.setVm i vm.destroy
  | .freeModules i => do
    let vm ← S.vmAt i .destroyed
    return (S.free (S.frees a).1 (S.frees a).2).setVm i { vm with stage := .freed }
  | .deregister i => do
    let vm ← S.vmAt i .freed
    let parent ← S.vms[vm.parent]?
    if parent.alive then return S.setVm i { vm with stage := .gone } else none
  -- `cando_close`, up to the module cache of the root VM
  | .close => do
    let vm ← S.idle
    if S.alone then return (S.setEnv 0 none).setVm 0 vm.destroy else none

/-- A session after `cando_open` and `cando_openlibs`, with the prototypes of strings and arrays. -/
def opened : Session where
  chunks := []
  closures := []
  heap := [.fields fun _ => .plain, .fields fun _ => .plain]
  envs := [some fun x => if x = bytes "string" then .object 0 else if x = bytes "array" then .object 1 else .plain]
  vms := [{ stage := .root, stringProto := .object 0, arrayProto := .object 1 }]

/-- The process: its virtual machines take their steps in any order. -/
def process : Interleaving Session Act := ⟨step⟩

end Session

end Cando
