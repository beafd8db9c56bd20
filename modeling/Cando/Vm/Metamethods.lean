import Cando.Vm.Operators
import Cando.Vm.Calls

/-!
# Metamethods of binary operators

An operator on two operands, of which one is an object with the operator's metamethod, is a call of the metamethod:
one call, with the operands as arguments, whose first value replaces them. A metamethod is a registered native, the
offset of a body in its chunk, or a function object. The operators ask one operand only, and of the values that a
function object returns they take the last.
-/

namespace Cando

open Program Value

/-- What a metamethod stands for. -/
inductive Callee where
  | native (ni : Nat)
  | script (b : Body)
  deriving DecidableEq, Repr

variable {ν : Type}

/-- The value is an object that owns or inherits the field. -/
def Owns (w : Store ν) (key : Str) (v : Value ν) (raw : CdoValue ν) : Prop :=
  ∃ h p, v = .object h ∧ w.pointer h = some p ∧ w.get p key = some raw

/-- The metamethod of a pair of operands: that of the left one if it has one, or else that of the right one. -/
def PairMeta (w : Store ν) (key : Str) (a b : Value ν) (raw : CdoValue ν) : Prop :=
  Owns w key a raw ∨ (∀ raw', ¬ Owns w key a raw') ∧ Owns w key b raw

/-- What the operator makes of the metamethod's first value. -/
def Operator.result (o : Operator) (v : Value ν) : Value ν :=
  match o with
  | .neq => .bool !v.isTruthy
  | _ => v

/-- With the metamethod's first value `v`, and the state `s` that it left, the operator is done: its result is in the
place of the operands. -/
def Replaced (o : Operator) (vm s : VM ν) (v : Value ν) (out : Res ν Unit) : Prop :=
  ∃ s', out = .ok () s' ∧ s'.stack = o.result v :: vm.stack ∧ s'.frames = vm.frames ∧ s'.store = s.store ∧
    s'.hasError = false

/-- There are a call frame and a window for a body that takes two arguments. -/
structure RoomFor (vm : VM ν) (body : Body) : Prop where
  frame : vm.frameCount < framesMax
  window : ∃ c, vm.chunks[body.closure]? = some c ∧ vm.height + max 3 c.localCount ≤ stackMax

/-- The operator reaches the metamethod and takes its first value: the left operand is asked if it is an object; a
function object returns one value at most; an offset is one in the chunk that is running; and there is room. -/
structure DelegatesWhen (o : Operator) (vm : VM ν) (a : Value ν) (n : Nat) (raw : CdoValue ν) (c : Callee) :
    Prop where
  asked : a.isObject = true → ∃ raw', Owns vm.store o.metaKey a raw'
  single : ∀ p, raw = .object p → n ≤ 1
  running : ∀ body, c = .script body → entered vm body raw = some body
  room : ∀ body, c = .script body → RoomFor vm body

variable [F64 ν]

/-- The representations of a metamethod. -/
inductive Represents (w : Store ν) : CdoValue ν → Callee → Prop where
  | native {x : ν} {ni : Nat} (negative : F64.lt x (F64.ofInt 0) = true)
      (index : nativeIndex (.number x : Value ν) = some ni) : Represents w (.number x) (.native ni)
  | script {raw : CdoValue ν} {b : Body} (body : Denotes w b raw) : Represents w raw (.script b)

section Claim

variable (o : Operator) (vm : VM ν) (a b : Value ν) (n : Nat)

/-- The operator is one call of the native, whatever the natives do, and then takes the first of the `n` values that
it has pushed. -/
def CallsNative (ni : Nat) : Prop :=
  ∃ k : Int → M ν Unit,
    (∀ E : Env ν, ni < E.natives.length →
      exec E { op := o.op } (vm.pushed [a, b]) = (callNative E ni (o.args a b) (afterPops vm a b)).bind k) ∧
    ∀ (ret : Int) (rets : List (Value ν)) (s : VM ν), ret.toNat = n → rets.length = n →
      s.stack = rets.reverse ++ vm.stack → s.frames = vm.frames → s.hasError = false →
      Replaced o vm s (rets.headD .null) (k ret s)

/-- The operator enters the body, once, and then takes the first of the `n` values that it has returned. -/
def CallsScript (body : Body) : Prop :=
  ∃ (s₁ : VM ν) (k : VMResult → VM ν → Res ν Unit),
    (∀ E : Env ν, exec E { op := o.op } (vm.pushed [a, b]) = .enter s₁ k) ∧
    Captured (o.args a b) vm s₁ body ∧ s₁.threadStopFrame = some vm.frameCount ∧
    ∀ (r : VMResult) (rets : List (Value ν)) (s : VM ν), rets.length = n → s.stack = vm.stack →
      s.frames = vm.frames → s.hasError = false → s.threadResults = rets.take maxThrowArgs →
      Replaced o vm s (rets.headD .null) (k r s)

/-- The operator is one call of the metamethod, which returns `n` values. -/
def Delegates : Callee → Prop
  | .native ni => CallsNative o vm a b n ni
  | .script body => CallsScript o vm a b n body

end Claim

/-! ### Behind the metamethod -/

section Behind

variable {E : Env ν} {call : NativeCall ν} {o : Operator} {vm s : VM ν} {a b : Value ν} {h p : Nat} {key : Str}
  {args : List (Value ν)} {raw : CdoValue ν} {body : Body}

/-- What an operator does when the attempt at a metamethod is over. -/
def Operator.finish (o : Operator) (vm : VM ν) (a b : Value ν) (called : Bool) : M ν Unit := do
  let s ← get
  if !s.hasError ∧ s.frames ≠ vm.frames then crash .deadFrame
  else if called then o.settle
  else
    failed
    o.direct a b

lemma onOperands_consulted (asked : consulted a b = some h) :
    o.onOperands E a b (afterPops vm a b) =
      (callMeta E (callNative E) h o.metaKey (o.args a b) (afterPops vm a b)).bind (o.finish vm a b) := by
  rw [Operator.onOperands, tryBinaryMeta_consulted asked, bind_assoc]
  refine Eq.trans (Outcome.bind_assoc (callMeta E (callNative E) h o.metaKey (o.args a b) (afterPops vm a b)) _ _) ?_
  refine congrArg (Outcome.bind (callMeta E (callNative E) h o.metaKey (o.args a b) (afterPops vm a b)))
    (funext fun called => funext fun s => ?_)
  simp only [Operator.finish, bind_apply, get_apply, Outcome.bind_ok]
  have frames : (afterPops vm a b).frames = vm.frames := rfl
  rw [frames]
  split
  · rfl
  · cases called with
    | true => rfl
    | false => exact Outcome.bind_assoc _ _ _

/-- The metamethod has left its value on top of the operands' place. -/
lemma finish_called {v : Value ν} (stack : s.stack = v :: vm.stack) (frames : s.frames = vm.frames)
    (ok : s.hasError = false) (room : vm.height < stackMax) : Replaced o vm s v (o.finish vm a b true s) := by
  have e : o.finish vm a b true s = o.settle s := by
    simp [Operator.finish, ok, frames]
  rw [e]
  cases o with
  | neq =>
    have popped : pop s = .ok v { s with stack := vm.stack, dead := v :: s.dead } := by simp [pop, stack]
    refine ⟨{ s with stack := .bool (!v.isTruthy) :: vm.stack, dead := s.dead }, ?_, rfl, frames, rfl, ok⟩
    rw [Operator.settle, bind_apply, popped, Outcome.bind_ok]
    exact if_pos room
  | _ => exact ⟨s, rfl, stack, frames, rfl, ok⟩

/-- An operator that ends after a call has replaced the value. -/
lemma finish_stack {v : Value ν} {σ : List (Value ν)} {s' : VM ν} (stack : s.stack = v :: σ)
    (done : o.finish vm a b true s = .ok () s') : s'.stack = o.result v :: σ := by
  rw [Operator.finish, bind_apply, get_apply, Outcome.bind_ok] at done
  split at done
  · cases done
  · rw [if_pos rfl] at done
    cases o with
    | neq =>
      have popped : pop s = .ok v { s with stack := σ, dead := v :: s.dead } := by simp [pop, stack]
      rw [Operator.settle, bind_apply, popped, Outcome.bind_ok] at done
      obtain e | e := push_cases (.bool !v.isTruthy) { s with stack := σ, dead := v :: s.dead }
      · rw [e] at done
        cases done
        rfl
      · rw [e] at done
        cases done
    | _ =>
      cases done
      exact stack

/-! ### Natives -/

/-- What `cando_vm_call_meta` does when a native has returned. -/
def keepFirst (height : Nat) (ret : Int) : M ν Bool := do
  let vm ← get
  if vm.hasError then return false
  else
    when (ret ≤ 0 ∧ vm.height ≤ height) (push .null)
    popTo (height + 1)
    return true

lemma callMeta_native {x : ν} {ni : Nat} (ptr : vm.store.pointer h = some p)
    (found : vm.store.get p key = some (.number x)) (negative : F64.lt x (F64.ofInt 0) = true)
    (index : nativeIndex (.number x : Value ν) = some ni) (registered : ni < E.natives.length) :
    callMeta E call h key args vm = (call ni args vm).bind (keepFirst vm.height) := by
  have native : isNativeFn (.number x : Value ν) = true := negative
  rw [callMeta, bind_apply, objectGetM_apply ptr, Outcome.bind_ok, found]
  simp only [bind_apply, toCando, Store.toCando, Outcome.bind_ok, native, if_true, metaNative, index, orCrash_some,
    pure_apply]
  rw [if_neg (Nat.not_le.mpr registered), bind_apply, get_apply, Outcome.bind_ok, bind_apply]
  rfl

omit [F64 ν] in
/-- The first value that a native has pushed is kept. -/
lemma keepFirst_apply {ret : Int} {rets : List (Value ν)} (count : ret.toNat = rets.length)
    (stack : s.stack = rets.reverse ++ vm.stack) (ok : s.hasError = false) (room : vm.height < stackMax) :
    ∃ s', keepFirst vm.height ret s = .ok true s' ∧ s'.stack = rets.headD .null :: vm.stack ∧
      s'.frames = s.frames ∧ s'.store = s.store ∧ s'.hasError = false := by
  cases rets with
  | nil =>
    have empty : s.stack = vm.stack := stack
    have height : s.height = vm.height := congrArg List.length empty
    have none : ret ≤ 0 ∧ s.height ≤ vm.height := ⟨Int.toNat_eq_zero.mp count, Nat.le_of_eq height⟩
    refine ⟨(s.pushed [.null]).popTo (vm.height + 1), ?_, ?_, rfl, rfl, ok⟩
    · have pushed : push .null s = .ok () (s.pushed [.null]) := push_room (by rw [height]; exact room)
      simp only [keepFirst, bind_apply, get_apply, Outcome.bind_ok, ok, Bool.false_eq_true, if_false, when, none,
        and_self, if_true, pushed]
      rfl
    · have top : (s.pushed [.null]).height - (vm.height + 1) = 0 := by simp [VM.height, VM.pushed, empty]
      rw [VM.popTo, top, VM.pushed, empty]
      rfl
  | cons r rs =>
    have some : ¬ (ret ≤ 0 ∧ s.height ≤ vm.height) := by
      intro h
      rw [Int.toNat_eq_zero.mpr h.1] at count
      cases count
    refine ⟨s.popTo (vm.height + 1), ?_, ?_, rfl, rfl, ok⟩
    · simp only [keepFirst, bind_apply, get_apply, Outcome.bind_ok, ok, Bool.false_eq_true, if_false, when, some]
      rfl
    · have height : s.height - (vm.height + 1) = rs.length := by simp [VM.height, stack]
      simp [VM.popTo, height, stack]

/-! ### Bodies -/

/-- The state in which the results of the next frame are captured. -/
def VM.capturing (vm : VM ν) : VM ν := { vm with threadStopFrame := some vm.frameCount, threadResults := [] }

/-- The state in which a nested run on a body starts. -/
def windowState (vm : VM ν) (body : Body) (args : List (Value ν)) (c : Chunk ν) : VM ν :=
  { vm.pushed (.null :: args ++ List.replicate (c.localCount - (args.length + 1)) .null) with
    frames := ⟨body.closure, ⟨body.closure, body.pc⟩, vm.height, false⟩ :: vm.frames
    threadStopFrame := some vm.frameCount
    threadResults := [] }

/-- What a caller that captured the results of a nested run does with those of an offset. -/
def offsetResult (entered : Bool) : M ν Bool := do
  let vm ← get
  if !entered then
    modify (setError (bytes "call stack overflow in meta-method"))
    return false
  else if vm.hasError then return false
  else
    push (vm.threadResults.headD .null)
    return true

/-- What it does with the `ret` values of a function object, which have been pushed. -/
def keepLast (ret : Nat) : M ν Bool := do
  let vm ← get
  if vm.hasError then return false
  else if ret > 1 then
    let top ← pop
    popN (ret - 1)
    push top
    return true
  else
    when (ret = 0) (push .null)
    return true

def functionResult (_ : Bool) : M ν Bool := do
  let vm ← get
  pushAll vm.threadResults
  keepLast vm.threadResults.length

def scriptResult : CdoValue ν → Bool → M ν Bool
  | .object _ => functionResult
  | _ => offsetResult

omit [F64 ν] in
/-- `enterClosure` as one push of the window. -/
lemma enterClosure_window {closure pc : Nat} {c : Chunk ν} (room : vm.height < stackMax)
    (frame : vm.frameCount < framesMax) (chunk : vm.chunks[closure]? = some c) :
    enterClosure closure pc args vm =
      (do
        pushAll (args ++ List.replicate (c.localCount - (args.length + 1)) .null)
        return true : M ν Bool)
      { vm.pushed [.null] with frames := ⟨closure, ⟨closure, pc⟩, vm.height, false⟩ :: vm.frames } := by
  have left : ¬ (vm.pushed [.null]).frameCount ≥ framesMax := Nat.not_le.mpr frame
  have chunk' : (vm.pushed [.null]).chunks[closure]? = some c := chunk
  have slots : (vm.pushed [.null]).height - 1 = vm.height := by simp [VM.height, VM.pushed]
  rw [enterClosure, bind_apply, push_room room, Outcome.bind_ok, bind_apply, get_apply, Outcome.bind_ok, if_neg left,
    pushAll_append, bind_assoc]
  simp only [bind_apply, chunkOf, get_apply, Outcome.bind_ok, chunk', orCrash_some, pure_apply, pushFrame,
    modify_apply, slots, padLocals]
  rfl

omit [F64 ν] in
/-- Without a frame left, `enterClosure` gives up. -/
lemma enterClosure_frameless {closure pc : Nat} (room : vm.height < stackMax) (full : framesMax ≤ vm.frameCount) :
    ∃ s, enterClosure closure pc args vm = .ok false s := by
  have none : (vm.pushed [.null]).frameCount ≥ framesMax := full
  rw [enterClosure, bind_apply, push_room room, Outcome.bind_ok, bind_apply, get_apply, Outcome.bind_ok, if_pos none]
  exact ⟨_, rfl⟩

omit [F64 ν] in
lemma runCaptured_apply (closure pc : Nat) :
    runCaptured closure pc args vm =
      (enterClosure closure pc args vm.capturing).bind
        fun entered => do
          when entered (do let _ ← enter)
          modify fun s => { s with threadStopFrame := vm.threadStopFrame }
          return entered := rfl

omit [F64 ν] in
/-- With room for it, a nested run on the body starts. -/
lemma runCaptured_enters {c : Chunk ν} (frame : vm.frameCount < framesMax)
    (chunk : vm.chunks[body.closure]? = some c)
    (window : vm.height + max (args.length + 1) c.localCount ≤ stackMax) :
    runCaptured body.closure body.pc args vm =
      .enter (windowState vm body args c) fun _ s => .ok true { s with threadStopFrame := vm.threadStopFrame } := by
  have room : vm.capturing.height < stackMax := by
    show vm.height < stackMax
    omega
  rw [runCaptured_apply, enterClosure_window room frame chunk, bind_apply, pushAll_apply, Outcome.bind_ok,
    VM.pushed_frames]
  · rfl
  · simp only [VM.height, VM.pushed, VM.capturing, List.length_append, List.length_replicate, List.length_reverse,
      List.length_cons, List.length_nil] at window ⊢
    omega

omit [F64 ν] in
/-- Without room for it, none does. -/
lemma runCaptured_stuck (kept : vm.height + 2 ≤ stackMax) (two : args.length = 2) (full : ¬ RoomFor vm body) :
    (∃ s, runCaptured body.closure body.pc args vm = .ok false s) ∨
      ∃ e, runCaptured body.closure body.pc args vm = .crash e := by
  have room : vm.capturing.height < stackMax := by
    show vm.height < stackMax
    omega
  rw [runCaptured_apply]
  by_cases frame : vm.frameCount < framesMax
  · cases chunk : vm.chunks[body.closure]? with
    | none =>
      obtain ⟨e, stuck⟩ | ⟨no, -⟩ | ⟨c, chunk', -⟩ := enterClosure_cases body.closure body.pc args
        vm.capturing
      · exact .inr ⟨e, by rw [stuck, Outcome.bind_crash]⟩
      · exact absurd frame (Nat.not_lt.mpr no)
      · cases chunk.symm.trans chunk'
    | some c =>
      have narrow : stackMax < vm.height + max 3 c.localCount :=
        Nat.lt_of_not_le fun window => full ⟨frame, c, chunk, window⟩
      refine .inr ⟨.assertion, ?_⟩
      rw [enterClosure_window room frame chunk, bind_apply, pushAll_full]
      · rfl
      · exact room
      · simp only [VM.height, VM.pushed, VM.capturing, List.length_append, List.length_replicate, List.length_reverse,
          List.length_cons, List.length_nil, two] at narrow ⊢
        omega
  · obtain ⟨s, stuck⟩ : ∃ s, enterClosure body.closure body.pc args vm.capturing = .ok false s :=
      enterClosure_frameless room (Nat.not_lt.mp frame)
    exact .inl ⟨_, by rw [stuck]; rfl⟩

/-- `cando_vm_call_meta` on a field that stands for a function body. -/
lemma callMeta_script {body' : Body} (args : List (Value ν)) (ptr : vm.store.pointer h = some p)
    (found : vm.store.get p key = some raw) (denotes : Denotes vm.store body raw)
    (enters : entered vm body raw = some body') :
    ∃ w, ∀ (E : Env ν) (call : NativeCall ν), callMeta E call h key args vm =
      (runCaptured body'.closure body'.pc args { vm with store := w }).bind (scriptResult raw) := by
  cases denotes with
  | object ho kind closure pc =>
    rename_i q o
    obtain rfl : body = body' := Option.some.inj enters
    have resolved := resolve_of_pointer (pointer_handleAlloc vm.store q)
      (show (vm.store.handleAlloc q).2.objs[q]? = some o from ho)
    refine ⟨(vm.store.handleAlloc q).2, fun E call => ?_⟩
    rw [callMeta, bind_apply, objectGetM_apply ptr, Outcome.bind_ok, found]
    simp only [bind_apply, toCando, Store.toCando, Outcome.bind_ok]
    rw [if_neg (by simp), bind_apply, resolve_apply resolved, Outcome.bind_ok]
    simp only [kind, closure, pc, metaFunction, callFunction, callClosureWithArgs, bind_assoc]
    rfl
  | offset nonneg pc =>
    obtain ⟨f, running, rfl⟩ := Option.map_eq_some_iff.mp enters
    obtain ⟨fs, frames⟩ := List.head?_eq_some_iff.mp running
    refine ⟨vm.store, fun E call => ?_⟩
    rw [callMeta, bind_apply, objectGetM_apply ptr, Outcome.bind_ok, found]
    simp only [bind_apply, toCando, Store.toCando, Outcome.bind_ok]
    rw [if_neg (by simp [isNativeFn, nonneg])]
    simp only [metaOffset, pc, orCrash_some, bind_apply, pure_apply, Outcome.bind_ok]
    rw [frame_apply frames, Outcome.bind_ok]
    rfl

/-- An offset is in the chunk that is running, so without one nothing is entered. -/
lemma callMeta_frameless (ptr : vm.store.pointer h = some p) (found : vm.store.get p key = some raw)
    (denotes : Denotes vm.store body raw) (stuck : entered vm body raw = none) :
    callMeta E call h key args vm = .crash .undefined := by
  cases denotes with
  | object => cases stuck
  | offset nonneg pc =>
    have frames : vm.frames = [] := List.head?_eq_none_iff.mp (Option.map_eq_none_iff.mp stuck)
    rw [callMeta, bind_apply, objectGetM_apply ptr, Outcome.bind_ok, found]
    simp only [bind_apply, toCando, Store.toCando, Outcome.bind_ok]
    rw [if_neg (by simp [isNativeFn, nonneg])]
    simp [metaOffset, pc, frame, frames]

omit [F64 ν] in
lemma popN_apply {σ : List (Value ν)} (vs : List (Value ν)) (stack : s.stack = vs ++ σ) :
    ∃ dead, popN vs.length s = .ok () { s with stack := σ, dead } := by
  induction vs generalizing s with
  | nil =>
    obtain rfl : s.stack = σ := stack
    exact ⟨s.dead, rfl⟩
  | cons v vs ih =>
    have popped : pop s = .ok v { s with stack := vs ++ σ, dead := v :: s.dead } := by simp [pop, stack]
    obtain ⟨dead, e⟩ := ih (s := { s with stack := vs ++ σ, dead := v :: s.dead }) rfl
    refine ⟨dead, ?_⟩
    rw [List.length_cons, popN, bind_apply, popped, Outcome.bind_ok, e]

omit [F64 ν] in
/-- The first captured value is pushed, unless it is one of several of a function object. -/
lemma scriptResult_apply {rets : List (Value ν)} (single : ∀ q, raw = .object q → rets.length ≤ 1)
    (stack : s.stack = vm.stack) (ok : s.hasError = false) (captured : s.threadResults = rets.take maxThrowArgs)
    (room : vm.height < stackMax) :
    ∃ s', scriptResult raw true s = .ok true s' ∧ s'.stack = rets.headD .null :: vm.stack ∧
      s'.frames = s.frames ∧ s'.store = s.store ∧ s'.hasError = false := by
  have room : s.height < stackMax := by
    rw [VM.height, stack]
    exact room
  have first : s.threadResults.headD .null = rets.headD .null := by
    rw [captured]
    cases rets <;> rfl
  have pushed (v : Value ν) : (s.pushed [v]).stack = v :: vm.stack := by simp [VM.pushed, stack]
  cases raw with
  | object q =>
    have few := single q rfl
    have all : s.threadResults = rets := by
      rw [captured, List.take_of_length_le]
      exact Nat.le_trans few (by decide)
    rw [scriptResult, functionResult, bind_apply, get_apply, Outcome.bind_ok, all, bind_apply]
    cases rets with
    | nil =>
      refine ⟨s.pushed [.null], ?_, pushed _, rfl, rfl, ok⟩
      rw [pushAll, pure_apply, Outcome.bind_ok, List.length_nil, keepLast, bind_apply, get_apply, Outcome.bind_ok,
        if_neg (by simp [ok]), if_neg (Nat.not_lt_zero 1), when, if_pos rfl, bind_apply, push_room room]
      rfl
    | cons r rs =>
      obtain rfl : rs = [] := List.eq_nil_of_length_eq_zero (by simpa using few)
      refine ⟨s.pushed [r], ?_, pushed _, rfl, rfl, ok⟩
      have quiet : ¬ (s.pushed [r]).hasError = true := by simp [VM.pushed, ok]
      have pushed₁ : pushAll [r] s = .ok () (s.pushed [r]) := pushAll_apply room
      rw [pushed₁, Outcome.bind_ok, keepLast, bind_apply, get_apply, Outcome.bind_ok,
        List.length_singleton,
        if_neg quiet, if_neg (Nat.lt_irrefl 1), when, if_neg Nat.one_ne_zero]
      rfl
  | _ =>
    refine ⟨s.pushed [rets.headD .null], ?_, pushed _, rfl, rfl, ok⟩
    simp only [scriptResult, offsetResult, bind_apply, get_apply, Outcome.bind_ok, Bool.not_true,
      Bool.false_eq_true, if_false, ok, first, push_room room, pure_apply]

omit [F64 ν] in
/-- Of several values of a function object, the last is kept. -/
lemma functionResult_last {vs : List (Value ν)} {v : Value ν} (several : vs ≠ [])
    (stack : s.stack = vm.stack) (ok : s.hasError = false) (captured : s.threadResults = vs ++ [v]) :
    (∃ e, functionResult true s = .crash e) ∨
      ∃ s', functionResult true s = .ok true s' ∧ s'.stack = v :: vm.stack := by
  have pos := List.length_pos_iff.mpr several
  have many : (vs ++ [v]).length > 1 := by simp; omega
  rw [functionResult, bind_apply, get_apply, Outcome.bind_ok, bind_apply, captured]
  obtain pushed | full := pushAll_cases (vs ++ [v]) s
  · obtain ⟨s₁, e₁⟩ : ∃ s₁, s₁ = s.pushed (vs ++ [v]) := ⟨_, rfl⟩
    have quiet : ¬ s₁.hasError = true := by simp [e₁, VM.pushed, ok]
    have popped : pop s₁ = .ok v { s₁ with stack := vs.reverse ++ vm.stack, dead := v :: s₁.dead } := by
      simp [pop, e₁, VM.pushed, stack]
    obtain ⟨dead, dropped⟩ := popN_apply (s := { s₁ with stack := vs.reverse ++ vm.stack, dead := v :: s₁.dead })
      vs.reverse rfl
    have count : (vs ++ [v]).length - 1 = vs.reverse.length := by simp
    rw [pushed, ← e₁, Outcome.bind_ok, keepLast, bind_apply, get_apply, Outcome.bind_ok, if_neg quiet, if_pos many,
      bind_apply, popped, Outcome.bind_ok, bind_apply, count, dropped, Outcome.bind_ok, bind_apply]
    obtain e | e := push_cases v { s₁ with stack := vm.stack, dead } <;> rw [e]
    · exact .inr ⟨_, rfl, rfl⟩
    · exact .inl ⟨_, rfl⟩
  · exact .inl ⟨_, by rw [full]; rfl⟩

/-! ### What is no call -/

omit [F64 ν] in
lemma Calm.not_enter {α : Type} {m : M ν α} (h : Calm m) (s s₁ : VM ν) (k : VMResult → VM ν → Res ν α) :
    m s ≠ .enter s₁ k := by
  intro e
  have all := h s
  rw [e] at all
  exact all.1

omit [F64 ν] in
lemma calm_scriptResult (raw : CdoValue ν) (entered : Bool) : Calm (scriptResult raw entered) := by
  have offset : Calm (offsetResult entered : M ν Bool) := by
    refine Steady.get.bind fun vm => Steady.ite ?_ (Steady.ite (Steady.pure _) ?_)
    · have reports : Calm (modify (setError (bytes "call stack overflow in meta-method")) : M ν Unit) :=
        steady_modify (fun _ => rfl) fun _ => rfl
      exact reports.bind fun _ => Steady.pure _
    · exact (steady_push _).bind fun _ => Steady.pure _
  have last (ret : Nat) : Calm (keepLast ret : M ν Bool) := by
    refine Steady.get.bind fun vm => (Steady.pure _).ite (Steady.ite ?_ ?_)
    · exact steady_pop.bind fun _ => (steady_popN _).bind fun _ => (steady_push _).bind fun _ => Steady.pure _
    · exact (Steady.when (steady_push _)).bind fun _ => Steady.pure _
  cases raw with
  | object q => exact Steady.get.bind fun vm => (steady_pushAll _).bind fun _ => last _
  | _ => exact offset

lemma calm_direct (o : Operator) (a b : Value ν) : Calm (o.direct a b) := by
  have arith (msg : Value ν → Value ν → Str) (f : ν → ν → Except Str ν) : Calm (Operator.arith msg f a b) := by
    unfold Operator.arith
    split
    · split
      · exact steady_push _
      · exact steady_fail _
    · exact steady_fail _
  have order (rel : ν → ν → Bool) : Calm (Operator.order rel a b) := by
    unfold Operator.order
    split
    · exact steady_push _
    · exact steady_fail _
  cases o with
  | add =>
    simp only [Operator.direct]
    split
    · exact steady_push _
    · exact arith _ _
  | sub | mul | div | mod | pow =>
    rw [Operator.direct]
    exact arith _ _
  | eq | neq => exact steady_push _
  | lt | gt | leq | geq =>
    rw [Operator.direct]
    exact order _

lemma calm_finish (o : Operator) (vm : VM ν) (a b : Value ν) (called : Bool) : Calm (o.finish vm a b called) := by
  refine Steady.get.bind fun s => (Steady.crash _).ite (Steady.ite ?_ ?_)
  · cases o with
    | neq => exact steady_pop.bind fun _ => steady_push _
    | _ => exact Steady.pure ()
  · exact steady_failed.bind fun _ => calm_direct o a b

/-- No call of a native that leaves the language at once, and no nested run. -/
def Uncalled : Res ν Unit → Prop
  | .crash .undefined => False
  | .enter _ _ => False
  | _ => True

omit [F64 ν] in
lemma uncalled_push (v : Value ν) (s : VM ν) : Uncalled (push v s) := by
  obtain e | e := push_cases v s <;> rw [e] <;> trivial

/-- An operation on an object and another value is refused, or it compares them. -/
lemma direct_object (o : Operator) (b : Value ν) :
    (∃ msg, o.direct (.object h) b = fail msg) ∨ ∃ v, o.direct (.object h) b = push v := by
  cases o with
  | eq | neq => exact .inr ⟨_, rfl⟩
  | add | sub | mul => exact .inl ⟨operandsMessage (.object h) b, rfl⟩
  | div | mod | pow => exact .inl ⟨bytes "operands must be numbers", rfl⟩
  | lt | gt | leq | geq => exact .inl ⟨bytes "comparison requires numbers", rfl⟩

lemma uncalled_direct (o : Operator) (b : Value ν) (s : VM ν) : Uncalled (o.direct (.object h) b s) := by
  obtain ⟨msg, e⟩ | ⟨v, e⟩ := direct_object (h := h) o b <;> rw [e]
  · trivial
  · exact uncalled_push v s

/-- When the left operand is an object without the metamethod, the operator calls nothing. -/
lemma uncalled_lacking (lacks : ∀ raw, ¬ Owns vm.store o.metaKey (.object h) raw) :
    Uncalled (exec E { op := o.op } (vm.pushed [.object h, b])) := by
  rw [exec_operator, onOperands_consulted (h := h) rfl]
  cases ptr : vm.store.pointer h with
  | none =>
    have asked : callMeta E (callNative E) h o.metaKey (o.args (.object h) b) (afterPops vm (.object h) b) =
        .crash .assertion := by
      simp [callMeta, objectGetM, pointer, afterPops, ptr]
    rw [asked, Outcome.bind_crash]
    trivial
  | some p =>
    have missing : vm.store.get p o.metaKey = none := by
      cases e : vm.store.get p o.metaKey with
      | none => rfl
      | some raw => exact absurd ⟨h, p, rfl, ptr, e⟩ (lacks raw)
    have asked : callMeta E (callNative E) h o.metaKey (o.args (.object h) b) (afterPops vm (.object h) b) =
        .ok false (afterPops vm (.object h) b) := by
      have ptr : (afterPops vm (.object h) b).store.pointer h = some p := ptr
      have missing : (afterPops vm (.object h) b).store.get p o.metaKey = none := missing
      rw [callMeta, bind_apply, objectGetM_apply ptr, Outcome.bind_ok, missing]
      rfl
    have frames : (afterPops vm (.object h) b).frames = vm.frames := rfl
    rw [asked, Outcome.bind_ok, Operator.finish, bind_apply, get_apply, Outcome.bind_ok, if_neg (by simp [frames]),
      if_neg Bool.false_ne_true, bind_apply]
    cases quiet : (afterPops vm (.object h) b).hasError with
    | true =>
      have raised : (failed : M ν Unit) (afterPops vm (.object h) b) = .error (afterPops vm (.object h) b) := by
        simp [failed, when, quiet]
      rw [raised]
      trivial
    | false =>
      have passed : (failed : M ν Unit) (afterPops vm (.object h) b) = .ok () (afterPops vm (.object h) b) := by
        simp [failed, when, quiet]
      rw [passed]
      exact uncalled_direct o b _

omit [F64 ν] in
/-- An operator that calls the metamethod of its operands asks the one that has it. -/
lemma PairMeta.consulted (owned : PairMeta vm.store o.metaKey a b raw)
    (asked : a.isObject = true → ∃ raw', Owns vm.store o.metaKey a raw') :
    ∃ h p, consulted a b = some h ∧ vm.store.pointer h = some p ∧ vm.store.get p o.metaKey = some raw := by
  obtain ⟨h, p, rfl, ptr, found⟩ | ⟨lacks, g, p, rfl, ptr, found⟩ := owned
  · refine ⟨h, p, ?_, ptr, found⟩
    cases b <;> rfl
  · cases a with
    | object h =>
      obtain ⟨raw', owns⟩ := asked rfl
      exact absurd owns (lacks raw')
    | _ => exact ⟨g, p, rfl, ptr, found⟩

end Behind

/-! ### When operators call the metamethod of their operands -/

section When

variable {o : Operator} {vm : VM ν} {a b : Value ν} {n : Nat} {raw : CdoValue ν} {c : Callee}

/-- What an operator does that asks the operand `h`. -/
lemma exec_consulted {h : Nat} (E : Env ν) (asked : consulted a b = some h) :
    exec E { op := o.op } (vm.pushed [a, b]) =
      (callMeta E (callNative E) h o.metaKey (o.args a b) (afterPops vm a b)).bind (o.finish vm a b) := by
  rw [exec_operator, onOperands_consulted asked]

omit [F64 ν] in
lemma args_length (o : Operator) (a b : Value ν) : (o.args a b).length = 2 := by
  cases o <;> rfl

/-- An operator that asks a native is one call of it. -/
lemma callsNative_of {x : ν} {ni h p : Nat} (asked : consulted a b = some h) (ptr : vm.store.pointer h = some p)
    (found : vm.store.get p o.metaKey = some (.number x)) (negative : F64.lt x (F64.ofInt 0) = true)
    (index : nativeIndex (.number x : Value ν) = some ni) (room : vm.height < stackMax) :
    CallsNative o vm a b n ni := by
  refine ⟨fun ret s => (keepFirst vm.height ret s).bind (o.finish vm a b), fun E registered => ?_, ?_⟩
  · have ptr : (afterPops vm a b).store.pointer h = some p := ptr
    rw [exec_consulted E asked, callMeta_native ptr found negative index registered]
    exact Outcome.bind_assoc _ _ _
  · intro ret rets s count length stack frames ok
    obtain ⟨s', kept, stack', frames', store', ok'⟩ := keepFirst_apply (count.trans length.symm) stack ok room
    obtain ⟨s'', done, rest⟩ := finish_called (o := o) (a := a) (b := b) stack' (frames'.trans frames) ok' room
    refine ⟨s'', ?_, rest.1, rest.2.1, rest.2.2.1.trans store', rest.2.2.2⟩
    show (keepFirst vm.height ret s).bind (o.finish vm a b) = _
    rw [kept, Outcome.bind_ok, done]

/-- What an operator does that asks a body, with room for it. -/
lemma exec_body {body body' : Body} {h p : Nat} {ch : Chunk ν} (asked : consulted a b = some h)
    (ptr : vm.store.pointer h = some p) (found : vm.store.get p o.metaKey = some raw)
    (denotes : Denotes vm.store body raw) (enters : entered vm body raw = some body')
    (frame : vm.frameCount < framesMax) (chunk : vm.chunks[body'.closure]? = some ch)
    (window : vm.height + max 3 ch.localCount ≤ stackMax) :
    ∃ s₁ : VM ν, Captured (o.args a b) vm s₁ body' ∧ s₁.threadStopFrame = some vm.frameCount ∧
      ∀ E : Env ν, exec E { op := o.op } (vm.pushed [a, b]) = .enter s₁ fun _ s =>
        (scriptResult raw true { s with threadStopFrame := vm.threadStopFrame }).bind (o.finish vm a b) := by
  have ptr : (afterPops vm a b).store.pointer h = some p := ptr
  obtain ⟨w, called⟩ := callMeta_script (o.args a b) ptr found denotes enters
  refine ⟨windowState { afterPops vm a b with store := w } body' (o.args a b) ch, ⟨rfl, rfl, ch, chunk, ?_⟩, rfl,
    fun E => ?_⟩
  · simp [windowState, VM.pushed, afterPops]
  · rw [exec_consulted E asked, called, runCaptured_enters (c := ch)]
    · rfl
    · exact frame
    · exact chunk
    · rw [args_length]
      exact window

/-- Without room for the body, an operator that asks one enters nothing. -/
lemma exec_stuck {body body' : Body} {h p : Nat} (E : Env ν) (asked : consulted a b = some h)
    (ptr : vm.store.pointer h = some p) (found : vm.store.get p o.metaKey = some raw)
    (denotes : Denotes vm.store body raw) (enters : entered vm body raw = some body')
    (kept : vm.height + 2 ≤ stackMax) (full : ¬ RoomFor vm body') (s₁ : VM ν) (k : VMResult → VM ν → Res ν Unit) :
    exec E { op := o.op } (vm.pushed [a, b]) ≠ .enter s₁ k := by
  have ptr : (afterPops vm a b).store.pointer h = some p := ptr
  obtain ⟨w, called⟩ := callMeta_script (o.args a b) ptr found denotes enters
  have full : ¬ RoomFor { afterPops vm a b with store := w } body' := fun ⟨frame, window⟩ => full ⟨frame, window⟩
  rw [exec_consulted E asked, called]
  obtain ⟨s, e⟩ | ⟨e, he⟩ := runCaptured_stuck
    (show VM.height { afterPops vm a b with store := w } + 2 ≤ stackMax from kept) (args_length o a b) full
  · rw [e]
    exact Calm.not_enter ((calm_scriptResult raw false).bind fun called => calm_finish o vm a b called) s s₁ k
  · rw [he]
    exact nofun

/-- `TRUE` and then `NULL`s: the first and the last differ, whatever an operator makes of them. -/
def trueThenNulls (n : Nat) : List (Value ν) := .bool true :: List.replicate (n - 1) .null

omit [F64 ν] in
lemma trueThenNulls_taken (several : 2 ≤ n) :
    ∃ vs : List (Value ν), vs ≠ [] ∧ (trueThenNulls n).take maxThrowArgs = vs ++ [.null] := by
  obtain ⟨m, e⟩ : ∃ m, min 31 (n - 1) = m + 1 := ⟨min 31 (n - 1) - 1, by omega⟩
  refine ⟨.bool true :: List.replicate m .null, List.cons_ne_nil _ _, ?_⟩
  show (.bool true : Value ν) :: (List.replicate (n - 1) .null).take 31 = _
  rw [List.take_replicate, e, List.replicate_succ', List.cons_append]

/-- An operator that calls the metamethod of its operands satisfies the condition. -/
lemma Delegates.delegatesWhen (owned : PairMeta vm.store o.metaKey a b raw) (rep : Represents vm.store raw c)
    (room : vm.height + 2 ≤ stackMax) (calls : Delegates o vm a b n c) : DelegatesWhen o vm a n raw c := by
  have asked : a.isObject = true → ∃ raw', Owns vm.store o.metaKey a raw' := by
    intro object
    by_contra lacks
    cases a with
    | object h =>
      have uncalled (E : Env ν) := uncalled_lacking (E := E) (b := b) fun raw' owns => lacks ⟨raw', owns⟩
      cases rep with
      | native negative index =>
        rename_i x ni
        -- natives that leave the language when they are called
        obtain ⟨k, once, -⟩ := calls
        have left := uncalled { natives := List.replicate (ni + 1) fun _ => .stop, cDepth := 0 }
        rw [once _ (by simp)] at left
        exact left
      | script body =>
        obtain ⟨s₁, k, once, -⟩ := calls
        have left := uncalled {}
        rw [once {}] at left
        exact left
    | _ => cases object
  obtain ⟨h, p, asks, ptr, found⟩ := owned.consulted asked
  cases rep with
  | native negative index => exact ⟨asked, nofun, nofun, nofun⟩
  | script denotes =>
    rename_i body
    obtain ⟨s₁, k, once, captured, -, takes⟩ := calls
    cases enters : entered vm body raw with
    | none =>
      have stuck := once {}
      have ptr : (afterPops vm a b).store.pointer h = some p := ptr
      rw [exec_consulted {} asks, callMeta_frameless ptr found denotes enters] at stuck
      cases stuck
    | some body' =>
      have fits : RoomFor vm body' := by
        by_contra full
        exact exec_stuck {} asks ptr found denotes enters room full s₁ k (once {})
      obtain ⟨frame, ch, chunk, window⟩ := fits
      obtain ⟨s₂, captured', -, does⟩ := exec_body (o := o) asks ptr found denotes enters frame chunk window
      obtain ⟨rfl, rfl⟩ := Outcome.enter.inj ((once {}).symm.trans (does {}))
      have same : body = body' := by
        obtain ⟨heads, -⟩ := List.cons.inj (captured.frames.symm.trans captured'.frames)
        obtain ⟨closure, pc⟩ := body
        obtain ⟨closure', pc'⟩ := body'
        simp only [Frame.mk.injEq, CodePtr.mk.injEq, and_true] at heads
        rw [heads.1, heads.2.2]
      subst same
      refine ⟨asked, fun q object => ?_, fun _ e => ?_, fun _ e => ?_⟩
      · subst object
        by_contra several
        have several : 2 ≤ n := by omega
        obtain ⟨vs, nonempty, taken⟩ := trueThenNulls_taken (ν := ν) several
        have length : (trueThenNulls n : List (Value ν)).length = n := by
          simp only [trueThenNulls, List.length_cons, List.length_replicate]
          omega
        obtain ⟨s₀, e₀⟩ : ∃ s₀ : VM ν, s₀ =
          { vm with threadResults := (trueThenNulls n).take maxThrowArgs, hasError := false } := ⟨_, rfl⟩
        have stack₀ : s₀.stack = vm.stack := by rw [e₀]
        have ok₀ : s₀.hasError = false := by rw [e₀]
        have results₀ : s₀.threadResults = (trueThenNulls n).take maxThrowArgs := by rw [e₀]
        obtain ⟨s', done, stack, -⟩ := takes .ok (trueThenNulls n) s₀ length stack₀ (by rw [e₀]) ok₀ results₀
        have stop₀ : { s₀ with threadStopFrame := vm.threadStopFrame } = s₀ := by rw [e₀]
        have done : (functionResult true s₀).bind (o.finish vm a b) = .ok () s' := stop₀ ▸ done
        obtain ⟨e, he⟩ | ⟨s₃, kept, stack₃⟩ := functionResult_last nonempty stack₀ ok₀ (results₀.trans taken)
        · rw [he] at done
          cases done
        · rw [kept, Outcome.bind_ok] at done
          have first := (finish_stack stack₃ done).symm.trans stack
          cases o <;> simp [Operator.result, trueThenNulls, isTruthy] at first
      · cases e
        exact enters
      · cases e
        exact ⟨frame, ch, chunk, window⟩

/-- An operator that satisfies the condition calls the metamethod of its operands. -/
lemma DelegatesWhen.delegates (owned : PairMeta vm.store o.metaKey a b raw) (rep : Represents vm.store raw c)
    (room : vm.height + 2 ≤ stackMax) (cond : DelegatesWhen o vm a n raw c) : Delegates o vm a b n c := by
  obtain ⟨h, p, asks, ptr, found⟩ := owned.consulted cond.asked
  have free : vm.height < stackMax := by omega
  cases rep with
  | native negative index => exact callsNative_of asks ptr found negative index free
  | script denotes =>
    rename_i body
    obtain ⟨frame, ch, chunk, window⟩ := cond.room body rfl
    obtain ⟨s₁, captured, stop, does⟩ := exec_body (o := o) asks ptr found denotes (cond.running body rfl) frame chunk
      window
    refine ⟨s₁, _, does, captured, stop, fun r rets s length stack frames ok results => ?_⟩
    have single : ∀ q, raw = .object q → rets.length ≤ 1 := fun q e => length ▸ cond.single q e
    obtain ⟨s', kept, stack', frames', store', ok'⟩ := scriptResult_apply
      (s := { s with threadStopFrame := vm.threadStopFrame }) single stack ok results free
    obtain ⟨s'', done, rest⟩ := finish_called (o := o) (a := a) (b := b) stack' (frames'.trans frames) ok' free
    refine ⟨s'', ?_, rest.1, rest.2.1, rest.2.2.1.trans store', rest.2.2.2⟩
    rw [kept, Outcome.bind_ok, done]

/-- A heap with a plain object, an object with `__add`, and the function object of the body at 3 of a chunk. -/
def addStore (add : CdoValue Int) : Store Int where
  objs := [{}, { slots := [⟨bytes "__add", add, false⟩] }, { kind := .function, bytecode := some 0, paramCount := 3 }]
  handles := [0, 1, 2]

/-- The `__add` of the right operand is not called if the left one is another object; and of the values of a function
object, the operator does not take the first. -/
theorem add_meta_lost :
    (PairMeta (addStore (.number (-1))) (bytes "__add") (.object 0) (.object 1) (.number (-1)) ∧
      ¬ Delegates .add ({ store := addStore (.number (-1)) } : VM Int) (.object 0) (.object 1) 1 (.native 0)) ∧
    (PairMeta (addStore (.object 2)) (bytes "__add") (.object 1) (.number 1) (.object 2) ∧
      ¬ Delegates .add ({ store := addStore (.object 2) } : VM Int) (.object 1) (.number 1) 2 (.script ⟨0, 3⟩)) := by
  have missing : (addStore (.number (-1))).get 0 (bytes "__add") = none := by decide
  have lacks : ∀ raw, ¬ Owns (addStore (.number (-1))) (bytes "__add") (.object 0) raw := by
    rintro raw ⟨h, p, e, ptr, found⟩
    cases e
    cases ptr
    cases missing.symm.trans found
  have right : PairMeta (addStore (.number (-1))) (bytes "__add") (.object 0) (.object 1) (.number (-1)) :=
    .inr ⟨lacks, 1, 1, rfl, rfl, by decide⟩
  have left : PairMeta (addStore (.object 2)) (bytes "__add") (.object 1) (.number 1) (.object 2) :=
    .inl ⟨1, 1, rfl, rfl, by decide⟩
  refine ⟨⟨right, fun calls => ?_⟩, left, fun calls => ?_⟩
  · obtain ⟨raw, owns⟩ := (calls.delegatesWhen right (.native rfl rfl) (by decide)).asked rfl
    exact lacks raw owns
  · have denotes : Denotes (addStore (.object 2)) ⟨0, 3⟩ (.object 2) := .object rfl rfl rfl rfl
    exact absurd ((calls.delegatesWhen left (.script denotes) (by decide)).single 2 rfl) (by decide)

/-- A binary operator on a pair with its metamethod is one call of it, whose first value replaces the operands, just
when the operand that it asks has the metamethod, a function object returns at most one value, an offset is one in the
chunk that is running, and there is room for a body. -/
theorem delegates_iff (o : Operator) (vm : VM ν) (a b : Value ν) (raw : CdoValue ν) (c : Callee) (n : Nat)
    (owned : PairMeta vm.store o.metaKey a b raw) (rep : Represents vm.store raw c)
    (room : vm.height + 2 ≤ stackMax) : Delegates o vm a b n c ↔ DelegatesWhen o vm a n raw c :=
  ⟨fun calls => calls.delegatesWhen owned rep room, fun cond => cond.delegates owned rep room⟩

/-- `obj + 1` with a native `__add` that returns two values. -/
theorem delegates_iff_native :
    Delegates .add ({ store := addStore (.number (-1)) } : VM Int) (.object 1) (.number 1) 2 (.native 0) := by
  have owns : Owns (addStore (.number (-1))) (bytes "__add") (.object 1) (.number (-1)) :=
    ⟨1, 1, rfl, rfl, by decide⟩
  exact (delegates_iff .add { store := addStore (.number (-1)) } _ _ _ _ 2 (.inl owns) (.native rfl rfl)
    (by decide)).mpr ⟨fun _ => ⟨_, owns⟩, nofun, nofun, nofun⟩

end When

end Cando
