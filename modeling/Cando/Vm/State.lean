import Cando.Vm.Chunk
import Cando.Object.Object
import Cando.Lib.Program

/-!
# The interpreter state

`CandoVM` (`vm/vm.h`): the value stack, the call frames, the try and loop stacks, the error state, the
spread counters and the two stop marks of re-entrant runs, next to the shared store. Stacks are lists
with the innermost entry first. Two arrays are read beyond their depth: the cells above `stack_top` keep
what they held (`dead`, the nearest first), and the loop stack keeps its entries when the depth drops,
since `handle_error` may raise it again. Closures carry no upvalues (the compiler never emits
any), so a closure is the number of its chunk.

The handlers of the dispatch loop are programs over this state.
-/

namespace Cando

/-- `CANDO_STACK_MAX`. -/
def stackMax : Nat := 2048
/-- `CANDO_FRAMES_MAX`. -/
def framesMax : Nat := 256
/-- `CANDO_TRY_MAX`. -/
def tryMax : Nat := 64
/-- `CANDO_LOOP_MAX`. -/
def loopMax : Nat := 64
/-- `CANDO_MAX_THROW_ARGS`. -/
def maxThrowArgs : Nat := 32

/-- An instruction pointer: a chunk's code and an offset into it. -/
structure CodePtr where
  chunk : Nat
  off : Nat
  deriving DecidableEq, Repr

/-- A `CandoCallFrame`; `slots` is the stack index of slot 0. -/
structure Frame where
  closure : Nat
  ip : CodePtr
  slots : Nat
  isFluent : Bool := false
  deriving DecidableEq, Repr

/-- A `CandoTryFrame`. -/
structure TryFrame where
  catchIp : Option CodePtr
  finallyIp : Option CodePtr := none
  stackSave : Nat
  frameSave : Nat
  loopSave : Nat
  deriving DecidableEq, Repr

/-- `CANDO_LOOP_WHILE`. -/
def loopWhile : Nat := 0
/-- `CANDO_LOOP_FOR`. -/
def loopFor : Nat := 1
/-- `CANDO_LOOP_FOR_OVER`. -/
def loopForOver : Nat := 2

/-- A `CandoLoopFrame`. -/
structure LoopFrame where
  breakIp : CodePtr
  contIp : CodePtr
  stackSave : Nat
  loopType : Nat
  deriving DecidableEq, Repr

/-- `CandoVMResult`. -/
inductive VMResult where
  | ok | runtimeErr | halt | evalDone
  deriving DecidableEq, Repr

/-- `CandoVM`. -/
structure VM (ν : Type) where
  stack : List (Value ν) := []
  dead : List (Value ν) := []
  frames : List Frame := []
  tryStack : List TryFrame := []
  loopStack : List LoopFrame := []
  loopDepth : Nat := 0
  store : Store ν := {}
  chunks : List (Chunk ν) := []
  hasError : Bool := false
  errorVals : List (Value ν) := []
  lastRetCount : Int := 0
  spreadExtra : Int := 0
  arrayExtra : Int := 0
  evalStopFrame : Option Nat := none
  evalResults : List (Value ν) := []
  threadStopFrame : Option Nat := none
  threadResults : List (Value ν) := []
  deriving DecidableEq, Repr

namespace VM

variable {ν : Type}

/-- `cando_vm_stack_depth`. -/
def height (vm : VM ν) : Nat := vm.stack.length

/-- `frame_count`. -/
def frameCount (vm : VM ν) : Nat := vm.frames.length

/-- `try_depth`. -/
def tryDepth (vm : VM ν) : Nat := vm.tryStack.length

/-- The value in the stack cell of index `i`, counted from the bottom. -/
def cell (vm : VM ν) (i : Nat) : Option (Value ν) :=
  if i < vm.height then vm.stack[vm.height - 1 - i]? else vm.dead[i - vm.height]?

/-- Overwrite the stack cell of index `i`. -/
def setCell (vm : VM ν) (i : Nat) (v : Value ν) : VM ν :=
  if i < vm.height then { vm with stack := vm.stack.set (vm.height - 1 - i) v }
  else { vm with dead := vm.dead.set (i - vm.height) v }

/-- Pop down to a height of `n`. -/
def popTo (vm : VM ν) (n : Nat) : VM ν :=
  { vm with
    stack := vm.stack.drop (vm.height - n)
    dead := (vm.stack.take (vm.height - n)).reverse ++ vm.dead }

/-- Set `stack_top` to the cell of index `n`; cells above it come back to life. -/
def setTop (vm : VM ν) (n : Nat) : VM ν :=
  let vm := vm.popTo n
  { vm with
    stack := (vm.dead.take (n - vm.height)).reverse ++ vm.stack
    dead := vm.dead.drop (n - vm.height) }

/-- Values pushed one by one, the last on top. -/
def pushed (vm : VM ν) (vs : List (Value ν)) : VM ν :=
  { vm with stack := vs.reverse ++ vm.stack, dead := vm.dead.drop vs.length }

lemma pushed_pushed (vm : VM ν) (vs ws : List (Value ν)) :
    (vm.pushed vs).pushed ws = vm.pushed (vs ++ ws) := by
  simp [pushed]

/-- Popping down to what lies under a window of the stack. -/
lemma popTo_window {vm : VM ν} (vs : List (Value ν)) {σ : List (Value ν)} (window : vm.stack = vs ++ σ) :
    (vm.popTo σ.length).stack = σ := by
  have above : (vs ++ σ).length - σ.length = vs.length := by simp
  rw [popTo, height, window, above, List.drop_left]

end VM

/-- How a handler leaves the language: a failed `CANDO_ASSERT`, behaviour that C leaves undefined, or going
on in a call frame that a nested run has popped. -/
inductive Crash where
  | assertion | undefined | deadFrame
  deriving DecidableEq, Repr

/-- The outcomes of a handler: `DISPATCH()`, `goto handle_error`, returning from `vm_run`, and the rest. -/
abbrev Res (ν α : Type) : Type := Outcome (VM ν) VMResult Crash α

/-- A handler of the dispatch loop. -/
abbrev M (ν : Type) : Type → Type := Program (VM ν) VMResult Crash

/-! ### Stack helpers -/

section Stack

variable {ν : Type}

open Program

/-- `cando_vm_push`: asserts that the stack is not full. -/
def push (v : Value ν) : M ν Unit := fun vm =>
  if vm.height < stackMax then
    .ok () { vm with stack := v :: vm.stack, dead := vm.dead.tail }
  else .crash .assertion

/-- `cando_vm_pop`: asserts that the stack is not empty. -/
def pop : M ν (Value ν) := fun vm =>
  match vm.stack with
  | v :: σ => .ok v { vm with stack := σ, dead := v :: vm.dead }
  | [] => .crash .assertion

/-- `cando_vm_peek`. -/
def peek (d : Nat) : M ν (Value ν) := fun vm =>
  match vm.stack[d]? with
  | some v => .ok v vm
  | none => .crash .assertion

/-- Reading `*(stack_top - 1 - d)` without the check of `cando_vm_peek`. -/
def below (d : Nat) : M ν (Value ν) := fun vm =>
  match vm.stack[d]? with
  | some v => .ok v vm
  | none => .crash .undefined

/-- Overwriting `*(stack_top - 1 - d)`. -/
def setBelow (d : Nat) (v : Value ν) : M ν Unit := fun vm =>
  if d < vm.height then .ok () { vm with stack := vm.stack.set d v } else .crash .undefined

/-- Popping and releasing `n` values. -/
def popN : Nat → M ν Unit
  | 0 => pure ()
  | n + 1 => do
    let _ ← pop
    popN n

/-- Pushing a list of values, the last on top. -/
def pushAll : List (Value ν) → M ν Unit
  | [] => pure ()
  | v :: vs => do
    push v
    pushAll vs

/-- Pushing succeeds, or fails the assertion on the stack's capacity. -/
lemma push_cases (v : Value ν) (vm : VM ν) :
    push v vm = .ok () (vm.pushed [v]) ∨ push v vm = .crash .assertion := by
  simp only [push, VM.pushed, List.reverse_singleton, List.singleton_append, List.length_singleton,
    List.drop_one]
  split
  · exact .inl rfl
  · exact .inr rfl

/-- A value for which there is room is pushed. -/
lemma push_room {v : Value ν} {vm : VM ν} (room : vm.height < stackMax) : push v vm = .ok () (vm.pushed [v]) := by
  obtain e | e := push_cases v vm
  · exact e
  · rw [push, if_pos room] at e
    cases e

lemma pushAll_cases (vs : List (Value ν)) (vm : VM ν) :
    pushAll vs vm = .ok () (vm.pushed vs) ∨ pushAll vs vm = .crash .assertion := by
  induction vs generalizing vm with
  | nil => exact .inl rfl
  | cons v vs ih =>
    rw [pushAll, bind_apply]
    obtain e | e := push_cases v vm <;> rw [e]
    · have h := ih (vm.pushed [v])
      rwa [VM.pushed_pushed, List.singleton_append] at h
    · exact .inr rfl

lemma pushAll_append (vs ws : List (Value ν)) :
    pushAll (vs ++ ws) = (do
      pushAll vs
      pushAll ws : M ν Unit) := by
  induction vs with
  | nil => rfl
  | cons v vs ih => rw [List.cons_append, pushAll, ih, pushAll, bind_assoc]

/-- Values for which there is room are pushed. -/
lemma pushAll_apply {vs : List (Value ν)} {vm : VM ν} (room : vm.height + vs.length ≤ stackMax) :
    pushAll vs vm = .ok () (vm.pushed vs) := by
  induction vs generalizing vm with
  | nil => rfl
  | cons v vs ih =>
    rw [List.length_cons] at room
    have height : (vm.pushed [v]).height = vm.height + 1 := by simp [VM.height, VM.pushed]
    rw [pushAll, bind_apply, push_room (by omega), Outcome.bind_ok, ih (by omega), VM.pushed_pushed,
      List.singleton_append]

/-- Without room for the values, the assertion on the stack's capacity fails. -/
lemma pushAll_full {vs : List (Value ν)} {vm : VM ν} (kept : vm.height ≤ stackMax)
    (full : stackMax < vm.height + vs.length) : pushAll vs vm = .crash .assertion := by
  induction vs generalizing vm with
  | nil => exact absurd full (Nat.not_lt.mpr kept)
  | cons v vs ih =>
    rw [List.length_cons] at full
    rw [pushAll, bind_apply]
    obtain first | first := push_cases v vm <;> rw [first]
    · have height : (vm.pushed [v]).height = vm.height + 1 := by simp [VM.height, VM.pushed]
      have room : vm.height < stackMax := by
        refine Nat.lt_of_not_le fun h => ?_
        rw [push, if_neg (Nat.not_lt.mpr h)] at first
        cases first
      exact ih (by omega) (by omega)
    · rfl

/-- Reading `*(stack_top - 1 - d)` at a computed distance. -/
def belowInt (d : Int) : M ν (Value ν) :=
  if d < 0 then crash .undefined else below d.toNat

/-- Reading `.as.number` of a cell; the bits of another tag mean nothing. -/
def numBelow (d : Nat) : M ν ν := do
  match ← below d with
  | .number x => pure x
  | _ => crash .undefined

/-- Moving `stack_top` down by `n` values that are taken over elsewhere; they come bottom first. -/
def take (n : Nat) : M ν (List (Value ν)) := fun vm =>
  if n ≤ vm.height then .ok (vm.stack.take n).reverse (vm.popTo (vm.height - n))
  else .crash .undefined

/-- Values that lie on top are taken. -/
lemma take_stack {s : VM ν} (vs : List (Value ν)) {σ : List (Value ν)} (e : s.stack = vs.reverse ++ σ) :
    take vs.length s = .ok vs { s with stack := σ, dead := vs ++ s.dead } := by
  have height : s.height = vs.length + σ.length := by simp [VM.height, e]
  have below : s.height - (s.height - vs.length) = vs.length := by omega
  have taken : s.stack.take vs.length = vs.reverse := by simp [e]
  have left : s.stack.drop vs.length = σ := by simp [e]
  rw [take, if_pos (by omega), taken, List.reverse_reverse, VM.popTo, below, taken, left, List.reverse_reverse]

/-- The frame that is running. -/
def frame : M ν Frame := fun vm =>
  match vm.frames with
  | f :: _ => .ok f vm
  | [] => .crash .undefined

/-- Moving the running frame's `ip`. -/
def setIp (p : CodePtr) : M ν Unit := fun vm =>
  match vm.frames with
  | f :: fs => .ok () { vm with frames := { f with ip := p } :: fs }
  | [] => .crash .undefined

/-- `ip += off`. -/
def jumpBy (off : Int) : M ν Unit := do
  let f ← frame
  let target := (f.ip.off : Int) + off
  if target < 0 then crash .undefined else setIp { f.ip with off := target.toNat }

/-- The chunk of a closure. -/
def chunkOf (closure : Nat) : M ν (Chunk ν) := do
  let vm ← get
  orCrash .undefined vm.chunks[closure]?

/-- `frame->closure->chunk->constants[ci]`. -/
def constAt (ci : Nat) : M ν (Value ν) := do
  let f ← frame
  let c ← chunkOf f.closure
  orCrash .undefined c.constants[ci]?

/-- A constant that is asserted or relied on to be a string. -/
def nameAt (ci : Nat) : M ν Str := do
  match ← constAt ci with
  | .string s => pure s
  | _ => crash .undefined

/-- `vm_error_commit` after formatting the message into the 512 bytes of `error_msg`. The source location
that `vm_runtime_error` appends is left out. -/
def setError (msg : Str) (vm : VM ν) : VM ν :=
  { vm with hasError := true, errorVals := [.string (cstr (msg.take 511))] }

/-- `vm_runtime_error` followed by `goto handle_error`. -/
def fail {α : Type} (msg : Str) : M ν α := do
  modify (setError msg)
  raise

/-- `cando_bridge_resolve`. -/
def resolve (h : Nat) : M ν (CdoObject ν) := do
  let vm ← get
  orCrash .assertion (vm.store.resolve h)

/-- The pointer behind a handle. -/
def pointer (h : Nat) : M ν Nat := do
  let vm ← get
  orCrash .assertion (vm.store.pointer h)

/-- `cando_bridge_to_cando`. -/
def toCando (v : CdoValue ν) : M ν (Value ν) := fun vm =>
  let (v, w) := vm.store.toCando v
  .ok v { vm with store := w }

/-- `cando_bridge_to_cdo`. -/
def toCdo (v : Value ν) : M ν (CdoValue ν) := do
  let vm ← get
  orCrash .assertion (vm.store.toCdo v)

/-- A new object behind a new handle. -/
def newObject (o : CdoObject ν) : M ν (Value ν) := fun vm =>
  let (v, w) := vm.store.newObject o
  .ok v { vm with store := w }

/-- Changing the object behind a handle. -/
def modifyObj (h : Nat) (f : CdoObject ν → CdoObject ν) : M ν Unit := do
  let p ← pointer h
  modify fun vm => { vm with store := vm.store.modifyObj p f }

/-- `cdo_object_get` on the object behind a handle. -/
def objectGetM (h : Nat) (key : Str) : M ν (Option (CdoValue ν)) := do
  let p ← pointer h
  let vm ← get
  pure (vm.store.get p key)

end Stack

end Cando
