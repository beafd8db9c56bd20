import Cando.Lib.InnerRun
import Cando.Vm.Locals
import Cando.Vm.Loops

/-!
# The count of returned values

`last_ret_count` (`vm/vm.h`) is how many values the last call or list has left on the stack, and the opcodes behind it
take it from there. Here is what each opcode that sets it leaves, inner runs included.
-/

namespace Cando

open Program Machine

variable {ν : Type}

/-! ### Stacks -/

lemma VM.height_popTo (vm : VM ν) (n : Nat) : (vm.popTo n).height = min vm.height n := by
  simp only [VM.popTo, VM.height, List.length_drop]
  omega

lemma VM.height_pushed (vm : VM ν) (vs : List (Value ν)) : (vm.pushed vs).height = vm.height + vs.length := by
  simp only [VM.pushed, VM.height, List.length_append, List.length_reverse]
  omega

lemma pushAll_eq_ok {vs : List (Value ν)} {vm vm' : VM ν} (h : pushAll vs vm = .ok () vm') : vm' = vm.pushed vs := by
  obtain e | e := pushAll_cases vs vm
  · rw [e] at h
    cases h
    rfl
  · rw [e] at h
    cases h

lemma push_eq_pushed {v : Value ν} {vm vm' : VM ν} (h : push v vm = .ok () vm') : vm' = vm.pushed [v] := by
  obtain e | e := push_cases v vm
  · rw [e] at h
    cases h
    rfl
  · rw [e] at h
    cases h

lemma take_eq_ok {n : Nat} {vs : List (Value ν)} {vm vm' : VM ν} (h : take n vm = .ok vs vm') :
    n ≤ vm.height ∧ vs.length = n ∧ vm' = vm.popTo (vm.height - n) := by
  unfold take at h
  split at h
  · rename_i there
    cases h
    refine ⟨there, ?_, rfl⟩
    rw [List.length_reverse, List.length_take]
    exact Nat.min_eq_left there
  · cases h

lemma pop_height {v : Value ν} {vm vm' : VM ν} (h : pop vm = .ok v vm') : vm'.height = vm.height - 1 := by
  unfold pop at h
  split at h
  · rename_i stack
    cases h
    rw [VM.height, VM.height, stack, List.length_cons, Nat.add_sub_cancel]
  · cases h

lemma popN_height {n : Nat} {vm vm' : VM ν} (h : popN n vm = .ok () vm') : vm'.height = vm.height - n := by
  induction n generalizing vm with
  | zero =>
    cases h
    rfl
  | succ n ih =>
    obtain ⟨_, vm₁, popped, h⟩ := Outcome.bind_eq_ok h
    rw [ih h, pop_height popped, Nat.sub_sub, Nat.add_comm]

/-- The counter says how many values lie above the cell `base`. -/
def VM.Counts (vm : VM ν) (base : Nat) : Prop := base ≤ vm.height ∧ vm.lastRetCount = (vm.height - base : Nat)

/-- Values that are pushed and counted. -/
lemma VM.pushed_counts (vm : VM ν) (vs : List (Value ν)) :
    ({ vm.pushed vs with lastRetCount := vs.length } : VM ν).Counts vm.height := by
  have height : ({ vm.pushed vs with lastRetCount := vs.length } : VM ν).height = vm.height + vs.length :=
    VM.height_pushed vm vs
  refine ⟨by omega, ?_⟩
  rw [height, Nat.add_sub_cancel_left]

/-- Values in place of what lies above a cell, counted. -/
lemma VM.counts_pushed {vm : VM ν} {base : Nat} (there : base ≤ vm.height) (vs : List (Value ν)) :
    ({ (vm.popTo base).pushed vs with lastRetCount := vs.length } : VM ν).Counts base := by
  have counts := (vm.popTo base).pushed_counts vs
  rwa [VM.height_popTo, Nat.min_eq_right there] at counts

lemma VM.height_setTop {vm vm' : VM ν} (n : Nat) (stack : vm'.stack = vm.stack) (dead : vm'.dead = vm.dead) :
    (vm'.setTop n).height = (vm.setTop n).height := by
  simp only [VM.setTop, VM.popTo, VM.height, stack, dead]

lemma length_mapM {α β : Type} {f : α → Option β} {l : List α} {r : List β} (h : l.mapM f = some r) :
    r.length = l.length := by
  induction l generalizing r with
  | nil =>
    cases h
    rfl
  | cons a l ih =>
    rw [List.mapM_cons] at h
    obtain ⟨b, -, h⟩ := Option.bind_eq_some_iff.mp h
    obtain ⟨bs, mapped, h⟩ := Option.bind_eq_some_iff.mp h
    cases h
    rw [List.length_cons, List.length_cons, ih mapped]

variable [F64 ν]

/-! ### Calls of natives -/

/-- `OP_CALL` up to the callee. -/
def callReady (staticArgc : Nat) : M ν (Value ν × Nat) := do
  let vm ← get
  modify fun vm => { vm with spreadExtra := 0 }
  let callee ← below (CallSite.argCount staticArgc vm)
  return (callee, CallSite.argCount staticArgc vm)

/-- `OP_METHOD_CALL` and `OP_FLUENT_CALL` up to the call: the method and the receiver. -/
def methodReady (isFluent : Bool) (nameCi argCount : Nat) : M ν (Value ν × Value ν) := do
  let receiver ← below argCount
  let method ← toCando (← lookupMethod receiver nameCi)
  let callable ← methodCallable method
  when (!callable)
    (fail (bytes (if isFluent then "fluent method is not callable" else " method is not callable")))
  let vm ← get
  when (vm.height ≥ stackMax) (fail (bytes "stack overflow in method call"))
  insertMethod method argCount
  return (method, receiver)

variable {E : Env ν} {N : VM ν → VMResult → VM ν → Prop} {s s' : VM ν}

omit [F64 ν] in
/-- A calm program keeps the frames. -/
lemma frames_calm {α : Type} {m : M ν α} {a : α} (calm : Calm m) (h : m s = .ok a s') :
    s'.frames.length = s.frames.length := by
  have quiet := calm s
  rw [h] at quiet
  have shape : shapeOf s'.frames = shapeOf s.frames := congrArg Control.frames quiet.control
  cases hs : s.frames with
  | nil =>
    cases hs' : s'.frames with
    | nil => rfl
    | cons f' fs' => simp [hs, hs', shapeOf] at shape
  | cons f fs =>
    cases hs' : s'.frames with
    | nil => simp [hs, hs', shapeOf] at shape
    | cons f' fs' =>
      rw [hs, hs', shapeOf, shapeOf] at shape
      rw [List.length_cons, List.length_cons, (List.cons.inj shape).2]

omit [F64 ν] in
/-- A function that is entered has a frame of its own. -/
lemma enterFunction_frames {closure pc argc : Nat} {isFluent pads : Bool}
    (h : (enterFunction closure pc argc isFluent pads s).Becomes N (.ok () s')) :
    s'.frames.length = s.frames.length + 1 := by
  obtain ⟨vm, s₁, at_s, -, h⟩ := (Steady.get (R := Quiet) (F := fun _ => True)).becomes_bind h
  obtain ⟨_, s₂, checked, -, h⟩ := (Steady.when (steady_fail _)).becomes_bind h
  obtain ⟨_, s₃, opened, h⟩ := Outcome.becomes_bind.mp h
  obtain rfl : s₃ = _ := (Outcome.ok.inj opened).2
  have padded : Calm (when pads (do
      let chunk ← chunkOf closure
      padLocals chunk.localCount (argc + 1)) : M ν Unit) :=
    Steady.when ((steady_chunkOf _).bind fun _ => steady_pushAll _)
  have kept := frames_calm padded (padded.ok_of_becomes h)
  have same : s₂.frames.length = s₁.frames.length := frames_calm (Steady.when (steady_fail _)) checked
  cases at_s
  rw [kept, List.length_cons, same]

/-- A native that comes back leaves the frames as they were. -/
lemma callNativeTop_frames {ni argc ret : Nat} {t : VM ν}
    (h : (callNativeTop E ni argc s).Becomes N (.ok ret t)) : t.frames = s.frames := by
  rw [callNativeTop, bind_apply, get_apply, Outcome.bind_ok] at h
  obtain ⟨r, s₁, back, h⟩ := Outcome.becomes_bind.mp h
  obtain ⟨_, s₂, calm, -, h⟩ := steady_failed.becomes_bind h
  cases h
  rw [reenter, bind_apply, get_apply, Outcome.bind_ok] at back
  obtain ⟨r', s₃, -, back⟩ := Outcome.becomes_bind.mp back
  rw [bind_apply, get_apply, Outcome.bind_ok] at back
  rw [failed, bind_apply, get_apply, Outcome.bind_ok, when] at calm
  split at back
  · cases back
  · rename_i same
    cases back
    split at calm
    · cases calm
    · rename_i clean
      cases calm
      by_contra differ
      exact same ⟨by simpa using clean, differ⟩

omit [F64 ν] in
/-- What is slid down to a cell and counted is what lies above it. -/
lemma slideTo_counts {base n : Nat} (there : base + n ≤ s.height) (h : (do
      slideTo base n
      setLastRet n : M ν Unit) s = .ok () s') : s'.Counts base := by
  obtain ⟨_, s₁, slid, h⟩ := Outcome.bind_eq_ok h
  obtain ⟨rets, s₂, taken, slid⟩ := Outcome.bind_eq_ok slid
  obtain ⟨_, s₃, popped, slid⟩ := Outcome.bind_eq_ok slid
  obtain ⟨-, length, rfl⟩ := take_eq_ok taken
  cases popped
  obtain rfl := pushAll_eq_ok slid
  cases h
  subst length
  refine VM.counts_pushed ?_ rets
  rw [VM.height_popTo]
  omega

/-- The values of a native take the place of the callee and its operands. -/
lemma callNativeValue_counts {callee : Value ν} {argc : Nat}
    (h : (callNativeValue E callee argc s).Becomes N (.ok () s')) :
    ∃ ni ret t, callee.nativeIndex = some ni ∧ (callNativeTop E ni argc s).Becomes N (.ok ret t) ∧
      (s.height - argc - 1 + ret ≤ t.height → s'.Counts (s.height - argc - 1)) := by
  rw [callNativeValue, bind_apply, get_apply, Outcome.bind_ok] at h
  obtain ⟨ni, s₁, index, -, h⟩ := (Steady.orCrash (R := Quiet) (F := fun _ => True) _ _).becomes_bind h
  obtain ⟨_, s₂, known, -, h⟩ := (Steady.when (steady_fail _)).becomes_bind h
  have there : callee.nativeIndex = some ni ∧ s₁ = s := by
    cases e : callee.nativeIndex with
    | none =>
      rw [e] at index
      cases index
    | some n =>
      rw [e] at index
      cases index
      exact ⟨rfl, rfl⟩
  obtain ⟨found, rfl⟩ := there
  obtain rfl : s₂ = s₁ := by
    rw [when] at known
    split at known
    · cases known
    · cases known
      rfl
  obtain ⟨ret, t, back, h⟩ := Outcome.becomes_bind.mp h
  refine ⟨ni, ret, t, found, back, fun room => ?_⟩
  split at h
  · rename_i none
    have calm : Calm (do
        popTo (s₂.height - argc - 1)
        push .null
        setLastRet 1 : M ν Unit) :=
      (steady_popTo _).bind fun _ => (steady_push _).bind fun _ => steady_setLastRet _
    have ended := calm.ok_of_becomes h
    obtain ⟨_, t₁, popped, ended⟩ := Outcome.bind_eq_ok ended
    obtain ⟨_, t₂, pushed, ended⟩ := Outcome.bind_eq_ok ended
    cases popped
    obtain rfl := push_eq_pushed pushed
    cases ended
    exact VM.counts_pushed (by omega) [.null]
  · have calm : Calm (do
        slideTo (s₂.height - argc - 1) ret
        setLastRet ret : M ν Unit) := (steady_slideTo _ _).bind fun _ => steady_setLastRet _
    exact slideTo_counts room (calm.ok_of_becomes h)

/-- A call that stays in its frame has called a native. -/
lemma opCall_counts {n : Nat} (h : (opCall E n s).Becomes N (.ok () s')) (flat : s'.frames.length = s.frames.length) :
    ∃ callee s₂ ni ret t, callReady n s = .ok (callee, CallSite.argCount n s) s₂ ∧ callee.isNativeFn ∧
      callee.nativeIndex = some ni ∧ (callNativeTop E ni (CallSite.argCount n s) s₂).Becomes N (.ok ret t) ∧
      s₂.height = s.height ∧ (s.height - CallSite.argCount n s - 1 + ret ≤ t.height →
        s'.Counts (s.height - CallSite.argCount n s - 1)) := by
  rw [opCall, bind_apply, get_apply, Outcome.bind_ok, bind_apply, modify_apply, Outcome.bind_ok] at h
  obtain ⟨callee, s₂, found, -, h⟩ := (steady_below _).becomes_bind h
  obtain rfl : s₂ = { s with spreadExtra := 0 } := by
    unfold below at found
    split at found
    · cases found
      rfl
    · cases found
  have ready : callReady n s = .ok (callee, CallSite.argCount n s) { s with spreadExtra := 0 } := by
    rw [callReady, bind_apply, get_apply, Outcome.bind_ok, bind_apply, modify_apply, Outcome.bind_ok, bind_apply,
      CallSite.argCount, found]
    rfl
  have entered {closure pc argc : Nat} {vm : VM ν} (same : vm.frames.length = s.frames.length)
      (h : (enterFunction closure pc argc false true vm).Becomes N (.ok () s')) : False := by
    have opened := enterFunction_frames h
    omega
  split at h
  · rename_i isNative
    obtain ⟨ni, ret, t, index, back, counts⟩ := callNativeValue_counts h
    exact ⟨callee, _, ni, ret, t, ready, isNative, index, back, rfl, counts⟩
  · cases callee with
    | number x =>
      obtain ⟨pc, s₃, isPc, -, rest⟩ := (Steady.orCrash (R := Quiet) (F := fun _ => True) _ _).becomes_bind h
      obtain ⟨f, s₄, isFrame, -, body⟩ := steady_frame.becomes_bind rest
      have same₃ : s₃.frames.length = _ := frames_calm (Steady.orCrash _ _) isPc
      have same₄ : s₄.frames.length = s₃.frames.length := frames_calm steady_frame isFrame
      exact (entered (same₄.trans same₃) body).elim
    | object k =>
      obtain ⟨fnObj, s₃, resolved, -, rest⟩ := (steady_resolve k).becomes_bind h
      have same : s₃.frames.length = _ := frames_calm (steady_resolve k) resolved
      cases kind : fnObj.kind with
      | function =>
        cases code : fnObj.bytecode with
        | some closure =>
          rw [kind, code] at rest
          exact (entered same rest).elim
        | none =>
          rw [kind, code] at rest
          cases (steady_fail _).ok_of_becomes rest
      | _ =>
        rw [kind] at rest
        cases (steady_fail _).ok_of_becomes rest
    | _ => cases (steady_fail _).ok_of_becomes h

omit [F64 ν] in
/-- What a method leaves is counted, unless a `NULL` stands for it. -/
lemma finishMethod_counts {isFluent : Bool} {base : Nat} {receiver : Value ν} {rets : List (Value ν)}
    (there : base ≤ s.height) (some : !isFluent → rets ≠ [])
    (h : finishMethod isFluent base receiver rets s = .ok () s') : s'.Counts base := by
  obtain ⟨_, s₁, popped, h⟩ := Outcome.bind_eq_ok h
  cases popped
  split at h
  · obtain ⟨_, s₂, pushed, h⟩ := Outcome.bind_eq_ok h
    obtain rfl := push_eq_pushed pushed
    cases h
    exact VM.counts_pushed there [receiver]
  · rename_i plain
    have ne : rets.isEmpty = false := by simpa using some (by simpa using plain)
    rw [ne] at h
    obtain ⟨_, s₂, pushed, h⟩ := Outcome.bind_eq_ok h
    obtain rfl := pushAll_eq_ok pushed
    cases h
    exact VM.counts_pushed there rets

/-- A method that is a native leaves its values in place of the method, the receiver and the arguments. -/
lemma callMethodNative_counts {isFluent : Bool} {method receiver : Value ν} {total : Nat}
    (h : (callMethodNative E isFluent method receiver total s).Becomes N (.ok () s')) :
    ∃ ni ret t, method.nativeIndex = some ni ∧ (callNativeTop E ni total s).Becomes N (.ok ret t) ∧
      (s.height - total - 1 + ret ≤ t.height → (!isFluent → 0 < ret) → s'.Counts (s.height - total - 1)) := by
  rw [callMethodNative, bind_apply, get_apply, Outcome.bind_ok] at h
  obtain ⟨ni, s₁, index, -, h₁⟩ := (Steady.orCrash (R := Quiet) (F := fun _ => True) _ _).becomes_bind h
  have there : method.nativeIndex = some ni ∧ s₁ = s := by
    cases e : method.nativeIndex with
    | none =>
      rw [e] at index
      cases index
    | some n =>
      rw [e] at index
      cases index
      exact ⟨rfl, rfl⟩
  obtain ⟨found, rfl⟩ := there
  obtain ⟨ret, t, back, h₂⟩ := Outcome.becomes_bind.mp h₁
  refine ⟨ni, ret, t, found, back, fun room some => ?_⟩
  have calm : Calm (do
      let rets ← take ret
      finishMethod isFluent (s₁.height - total - 1) receiver rets : M ν Unit) :=
    (steady_take _).bind fun _ => steady_finishMethod _ _ _ _
  obtain ⟨rets, t₁, taken, ended⟩ := Outcome.bind_eq_ok (calm.ok_of_becomes h₂)
  obtain ⟨-, length, rfl⟩ := take_eq_ok taken
  refine finishMethod_counts ?_ (fun plain => ?_) ended
  · rw [VM.height_popTo]
    omega
  · have pos := some plain
    rw [← length] at pos
    exact List.ne_nil_of_length_pos pos

omit [F64 ν] in
/-- The values of a method that is a native object are made without touching the stack. -/
lemma callMethodObjNative_counts {isFluent : Bool} {fn : Nat} {receiver : Value ν} {total : Nat}
    (h : (callMethodObjNative E isFluent fn receiver total s).Becomes N (.ok () s')) :
    s'.Counts (s.height - total - 1) := by
  rw [callMethodObjNative, bind_apply, get_apply, Outcome.bind_ok] at h
  have converting : Steady SameStack (fun _ => True) ((s.stack.take total).reverse.mapM toCdo : M ν _) :=
    Steady.mapM (fun _ => Steady.get.bind fun _ => Steady.orCrash _ _) _
  obtain ⟨args, s₁, -, same₁, h₁⟩ := converting.becomes_bind h
  have calling : Steady SameStack (fun _ => True) (callObjNative E fn args) := fun _ => rfl
  obtain ⟨result, s₂, -, same₂, h₂⟩ := calling.becomes_bind h₁
  have checking : Steady SameStack (fun _ => True) (failed : M ν Unit) :=
    Steady.get.bind fun _ => Steady.when fun _ => ⟨rfl, trivial⟩
  obtain ⟨_, s₃, -, same₃, h₃⟩ := checking.becomes_bind h₂
  have wrapping : Steady SameStack (fun _ => True) ((if isFluent then [] else [result]).mapM toCando : M ν _) :=
    Steady.mapM sameStack_toCando _
  obtain ⟨rets, s₄, wrapped, same₄, h₄⟩ := wrapping.becomes_bind h₃
  have ended := (steady_finishMethod _ _ _ _).ok_of_becomes h₄
  have height : s₄.height = s.height := congrArg List.length (same₄.trans (same₃.trans (same₂.trans same₁)))
  refine finishMethod_counts (by omega) (fun plain => ?_) ended
  have plain : isFluent = false := by simpa using plain
  rw [plain] at wrapped
  obtain ⟨v, t₁, -, rest⟩ := Outcome.bind_eq_ok wrapped
  cases rest
  exact List.cons_ne_nil v []

/-- A method call that stays in its frame has called a native, of one kind or the other. -/
lemma callMethod_counts {isFluent : Bool} {method receiver : Value ν} {total : Nat}
    (h : (callMethod E isFluent method receiver total s).Becomes N (.ok () s'))
    (flat : s'.frames.length = s.frames.length) :
    s'.Counts (s.height - total - 1) ∨ ∃ ni ret t, method.isNativeFn ∧ method.nativeIndex = some ni ∧
      (callNativeTop E ni total s).Becomes N (.ok ret t) ∧ (s.height - total - 1 + ret ≤ t.height →
        (!isFluent → 0 < ret) → s'.Counts (s.height - total - 1)) := by
  cases method with
  | number x =>
    rw [callMethod] at h
    split at h
    · rename_i isNative
      obtain ⟨ni, ret, t, index, back, counts⟩ := callMethodNative_counts h
      exact .inr ⟨ni, ret, t, isNative, index, back, counts⟩
    · obtain ⟨pc, s₁, isPc, -, rest⟩ := (Steady.orCrash (R := Quiet) (F := fun _ => True) _ _).becomes_bind h
      obtain ⟨f, s₂, isFrame, -, body⟩ := steady_frame.becomes_bind rest
      have same₁ : s₁.frames.length = s.frames.length := frames_calm (Steady.orCrash _ _) isPc
      have same₂ : s₂.frames.length = s₁.frames.length := frames_calm steady_frame isFrame
      have opened := enterFunction_frames body
      omega
  | object k =>
    obtain ⟨mo, s₁, resolved, -, rest⟩ := (steady_resolve k).becomes_bind h
    have same : s₁.frames.length = s.frames.length := frames_calm (steady_resolve k) resolved
    have height : s₁.height = s.height := by
      have calm := sameStack_resolve k s
      rw [resolved] at calm
      exact congrArg List.length calm
    cases kind : mo.kind with
    | native =>
      cases code : mo.nativeFn with
      | some fn =>
        rw [kind, code] at rest
        have counts := callMethodObjNative_counts rest
        rw [height] at counts
        exact .inl counts
      | none =>
        rw [kind, code] at rest
        cases rest
    | function =>
      cases code : mo.bytecode with
      | some closure =>
        rw [kind, code] at rest
        have opened := enterFunction_frames rest
        omega
      | none =>
        rw [kind, code] at rest
        cases rest
    | _ =>
      rw [kind] at rest
      cases rest
  | _ => cases h

omit [F64 ν] in
lemma insertMethod_height {method : Value ν} {n : Nat} (h : insertMethod method n s = .ok () s') :
    n + 1 ≤ s.height ∧ s'.height = s.height + 1 := by
  obtain ⟨args, s₁, taken, h⟩ := Outcome.bind_eq_ok h
  obtain ⟨_, s₂, pushed, h⟩ := Outcome.bind_eq_ok h
  obtain ⟨there, length, rfl⟩ := take_eq_ok taken
  obtain rfl := push_eq_pushed pushed
  obtain rfl := pushAll_eq_ok h
  refine ⟨there, ?_⟩
  rw [VM.height_pushed, VM.height_pushed, VM.height_popTo, length, List.length_singleton]
  omega

omit [F64 ν] in
lemma steady_methodReady {isFluent : Bool} {ci n : Nat} : Calm (methodReady isFluent ci n : M ν _) :=
  (steady_below _).bind fun _ => (steady_lookupMethod _ _).bind fun _ => (steady_toCando _).bind fun _ =>
    (steady_methodCallable _).bind fun _ => (Steady.when (steady_fail _)).bind fun _ => Steady.get.bind fun _ =>
      (Steady.when (steady_fail _)).bind fun _ => (steady_insertMethod _ _).bind fun _ => Steady.pure _

omit [F64 ν] in
/-- A method that has been found lies under the receiver and the arguments. -/
lemma methodReady_height {isFluent : Bool} {ci n : Nat} {method receiver : Value ν}
    (h : methodReady isFluent ci n s = .ok (method, receiver) s') :
    n + 1 ≤ s.height ∧ s'.height = s.height + 1 ∧ s'.frames.length = s.frames.length := by
  have frames := frames_calm steady_methodReady h
  obtain ⟨r, s₁, found, h₁⟩ := Outcome.bind_eq_ok h
  obtain ⟨m, s₂, looked, h₂⟩ := Outcome.bind_eq_ok h₁
  obtain ⟨v, s₃, wrapped, h₃⟩ := Outcome.bind_eq_ok h₂
  obtain ⟨c, s₄, callable, h₄⟩ := Outcome.bind_eq_ok h₃
  obtain ⟨_, s₅, checked, h₅⟩ := Outcome.bind_eq_ok h₄
  obtain ⟨vm, s₆, read, h₆⟩ := Outcome.bind_eq_ok h₅
  obtain ⟨_, s₇, room, h₇⟩ := Outcome.bind_eq_ok h₆
  obtain ⟨_, s₈, inserted, h₈⟩ := Outcome.bind_eq_ok h₇
  have reads_when {c : Prop} [Decidable c] {msg : Str} : Meets Reads (when c (fail msg) : M ν Unit) :=
    Meets.when (reads_fail _)
  have reads_callable : Meets Reads (methodCallable v) := by
    cases v with
    | object k => exact (Meets.get.bind fun _ => Meets.orCrash _ _).bind fun _ => Meets.pure _
    | _ => exact Meets.pure _
  have reads_below : Meets Reads (below n : M ν (Value ν)) := by
    intro vm v vm' e
    unfold below at e
    split at e
    · cases e
      rfl
    · cases e
  have height : s₃.height = s₂.height := by
    have same := sameStack_toCando m s₂
    rw [wrapped] at same
    exact congrArg List.length same
  have e₁ := reads_below s r s₁ found
  have e₂ := reads_lookupMethod r ci s₁ m s₂ looked
  have e₄ := reads_callable s₃ c s₄ callable
  have e₅ := reads_when s₄ _ s₅ checked
  have e₇ := reads_when s₆ _ s₇ room
  cases read
  cases h₈
  obtain ⟨there, grown⟩ := insertMethod_height inserted
  rw [e₇, e₅, e₄, height, e₂, e₁] at there grown
  exact ⟨there, grown, frames⟩

lemma opMethodCall_eq (isFluent : Bool) (ci n : Nat) : opMethodCall E isFluent ci n = (do
    let r ← methodReady isFluent ci n
    callMethod E isFluent r.1 r.2 (n + 1)) := by
  simp only [opMethodCall, methodReady, bind_assoc, pure_bind]

omit [F64 ν] in
lemma returnValues_length {slots n : Nat} {rets : List (Value ν)} {vm : VM ν} (there : n ≤ vm.height)
    (h : returnValues vm slots n s = .ok rets s') : rets.length = n ∧ s' = s := by
  rw [returnValues] at h
  split at h
  · cases h
  · split at h
    · cases h
      refine ⟨?_, rfl⟩
      rw [List.length_reverse, List.length_take]
      exact Nat.min_eq_left there
    · cases e : (List.range n).mapM fun i => vm.cell (vm.height - n + i % (slots - (vm.height - n))) with
      | none =>
        rw [e] at h
        cases h
      | some vs =>
        rw [e] at h
        cases h
        exact ⟨(length_mapM e).trans List.length_range, rfl⟩

omit [F64 ν] in
/-- What a return leaves takes the place of the window of the function. -/
lemma returnTo_counts {f : Frame} {receiver : Value ν} {n : Nat} (there : n ≤ s.height)
    (counted : f.isFluent = false → s.lastRetCount = n) (h : returnTo f receiver n s = .ok () s') :
    s'.Counts (s.setTop f.slots).height := by
  rw [returnTo, bind_apply, get_apply, Outcome.bind_ok] at h
  split at h
  · obtain ⟨_, s₁, moved, h₁⟩ := Outcome.bind_eq_ok h
    obtain ⟨_, s₂, pushed, h₂⟩ := Outcome.bind_eq_ok h₁
    cases moved
    obtain rfl := push_eq_pushed pushed
    cases h₂
    exact VM.pushed_counts _ [receiver]
  · rename_i plain
    obtain ⟨rets, s₁, copied, h₁⟩ := Outcome.bind_eq_ok h
    obtain ⟨_, s₂, moved, h₂⟩ := Outcome.bind_eq_ok h₁
    obtain ⟨length, rfl⟩ := returnValues_length there copied
    cases moved
    obtain rfl := pushAll_eq_ok h₂
    have counts := (s₁.setTop f.slots).pushed_counts rets
    have kept : s₁.lastRetCount = rets.length := by rw [length, counted (by simpa using plain)]
    rwa [← kept] at counts

omit [F64 ν] in
/-- A function that returns to its caller leaves what it has counted. -/
lemma opReturn_counts {n : Nat} (h : (opReturn n s).Becomes N (.ok () s')) :
    ∃ f fs, s.frames = f :: fs ∧ s'.Counts (s.setTop f.slots).height := by
  obtain ⟨f, s₁, top, -, h₁⟩ := steady_frame.becomes_bind h
  obtain rfl := reads_frame s f s₁ top
  have running : ∃ fs, s₁.frames = f :: fs := by
    unfold frame at top
    split at top
    · rename_i fs frames
      cases top
      exact ⟨fs, frames⟩
    · cases top
  obtain ⟨fs, frames⟩ := running
  obtain ⟨_, s₂, set, -, h₂⟩ := (Steady.when (steady_setLastRet _)).becomes_bind h₁
  obtain ⟨receiver, s₃, received, -, h₃⟩ := (steady_fluentReceiver _).becomes_bind h₂
  rw [bind_apply, get_apply, Outcome.bind_ok] at h₃
  obtain ⟨_, s₄, checked, -, h₄⟩ := (Steady.when (R := Quiet) (F := fun _ => True) (Steady.crash _)).becomes_bind h₃
  rw [bind_apply, modify_apply, Outcome.bind_ok, leaveFrame, bind_apply, get_apply, Outcome.bind_ok] at h₄
  have set : s₂.stack = s₁.stack ∧ s₂.dead = s₁.dead ∧ (f.isFluent = false → s₂.lastRetCount = n) := by
    rw [when] at set
    split at set
    · cases set
      exact ⟨rfl, rfl, fun _ => rfl⟩
    · rename_i fluent
      cases set
      exact ⟨rfl, rfl, fun plain => absurd plain (by simpa using fluent)⟩
  have reads_receiver : Meets Reads (fluentReceiver f : M ν _) :=
    Meets.get.bind fun _ => (Meets.orCrash _ _).ite (Meets.pure _)
  obtain rfl := reads_receiver s₂ receiver s₃ received
  have checked : s₄ = s₃ ∧ n ≤ s₃.height := by
    rw [when] at checked
    split at checked
    · cases checked
    · cases checked
      exact ⟨rfl, by omega⟩
  obtain ⟨rfl, there⟩ := checked
  refine ⟨f, fs, frames, ?_⟩
  split at h₄
  · cases h₄
  · split at h₄
    · cases h₄
    · split at h₄
      · cases h₄
      · have ended := (steady_returnTo _ _ _).ok_of_becomes h₄
        have counts := returnTo_counts (s := { s₄ with frames := s₄.frames.tail }) there
          (fun plain => set.2.2 plain) ended
        have base : (VM.setTop { s₄ with frames := s₄.frames.tail } f.slots).height = (s₁.setTop f.slots).height :=
          VM.height_setTop f.slots set.1 set.2.1
        rwa [base] at counts

omit [F64 ν] in
/-- What a thread hands back is counted. -/
lemma opAwait_counts (h : opAwait E s = .ok () s') : s'.Counts (s.height - 1) := by
  obtain ⟨v, s₁, popped, h₁⟩ := Outcome.bind_eq_ok h
  have height := pop_height popped
  cases v with
  | object k =>
    obtain ⟨o, s₂, resolved, h₂⟩ := Outcome.bind_eq_ok h₁
    obtain rfl := (Meets.get.bind fun _ => Meets.orCrash _ _ : Meets Reads (resolve k : M ν _)) _ _ _ resolved
    obtain ⟨_, s₃, checked, h₃⟩ := Outcome.bind_eq_ok h₂
    obtain rfl := (Meets.when (reads_fail _) : Meets Reads (when _ (fail _) : M ν Unit)) _ _ _ checked
    rw [bind_apply, get_apply, Outcome.bind_ok, bind_apply, modify_apply, Outcome.bind_ok] at h₃
    cases results : (E.await k s₃.store).1 with
    | error e =>
      rw [results] at h₃
      cases h₃
    | ok vs =>
      rw [results] at h₃
      obtain ⟨_, s₄, pushed, h₄⟩ := Outcome.bind_eq_ok h₃
      obtain rfl := pushAll_eq_ok pushed
      cases h₄
      rw [← height]
      cases vs with
      | nil => exact VM.pushed_counts _ [.null]
      | cons v vs => exact VM.pushed_counts _ (v :: vs)
  | _ => cases h₁

omit [F64 ν] in
/-- What a value is unpacked to is counted. -/
lemma opUnpack_counts (h : opUnpack s = .ok () s') : s'.Counts (s.height - 1) := by
  obtain ⟨v, s₁, popped, h₁⟩ := Outcome.bind_eq_ok h
  have height := pop_height popped
  have sameStack_unpacked : Steady SameStack (fun _ => True) (unpacked v) := by
    cases v with
    | object k => exact (sameStack_resolve k).bind fun _ => (sameStack_arrayValues _).ite (Steady.pure _)
    | _ => exact Steady.pure _
  obtain ⟨vs, s₂, found, h₂⟩ := Outcome.bind_eq_ok h₁
  have same := sameStack_unpacked s₁
  rw [found] at same
  obtain ⟨_, s₃, pushed, h₃⟩ := Outcome.bind_eq_ok h₂
  obtain rfl := pushAll_eq_ok pushed
  cases h₃
  have below : s₂.height = s.height - 1 := (congrArg List.length same).trans height
  rw [← below]
  exact VM.pushed_counts _ vs

omit [F64 ν] in
lemma opMaskApply_counts {nBits bitmask k : Nat} (counted : s.lastRetCount = k)
    (h : opMaskApply nBits bitmask s = .ok () s') : s'.Counts (s.height - k) := by
  rw [opMaskApply, bind_apply, get_apply, Outcome.bind_ok, when, if_neg (by omega), bind_apply, pure_apply,
    Outcome.bind_ok] at h
  obtain ⟨vs, s₁, taken, h₁⟩ := Outcome.bind_eq_ok h
  obtain ⟨_, s₂, pushed, h₂⟩ := Outcome.bind_eq_ok h₁
  obtain ⟨-, -, rfl⟩ := take_eq_ok taken
  obtain rfl := pushAll_eq_ok pushed
  cases h₂
  have same : s.lastRetCount.toNat = k := by omega
  rw [same]
  exact VM.counts_pushed (Nat.sub_le _ _) _

omit [F64 ν] in
/-- The first of some values is kept. -/
lemma opTruncateRet_counts {k : Nat} (counted : s.lastRetCount = k) (there : k ≤ s.height) (pos : 0 < k)
    (h : opTruncateRet s = .ok () s') : s'.Counts (s.height - k) := by
  rw [opTruncateRet, bind_apply, get_apply, Outcome.bind_ok] at h
  obtain ⟨_, s₁, popped, h₁⟩ := Outcome.bind_eq_ok h
  have height := popN_height popped
  cases h₁
  have left : s₁.height - (s.height - k) = 1 := by omega
  refine ⟨?_, ?_⟩
  · change s.height - k ≤ s₁.height
    omega
  · change (1 : Int) = (s₁.height - (s.height - k) : Nat)
    rw [left]
    rfl

/-! ### What leaves the values where they are -/

/-- The counter and the height of the stack are the same. -/
def SameCount (vm vm' : VM ν) : Prop := vm'.lastRetCount = vm.lastRetCount ∧ vm'.height = vm.height

instance : IsPreorder (VM ν) SameCount where
  refl _ := ⟨rfl, rfl⟩
  trans _ _ _ h h' := ⟨h'.1.trans h.1, h'.2.trans h.2⟩

/-- A calm program that only reads. -/
abbrev Still {α : Type} (m : M ν α) : Prop := Steady SameCount (fun _ => True) m

section Still

omit [F64 ν]

lemma still_frame : Still (frame : M ν Frame) := by
  intro vm
  unfold frame
  split
  · exact ⟨rfl, rfl⟩
  · trivial

lemma still_peek (d : Nat) : Still (peek d : M ν (Value ν)) := by
  intro vm
  unfold peek
  split
  · exact ⟨rfl, rfl⟩
  · trivial

lemma still_setIp (p : CodePtr) : Still (setIp p : M ν Unit) := by
  intro vm
  unfold setIp
  split
  · exact ⟨rfl, rfl⟩
  · trivial

lemma still_jumpBy (off : Int) : Still (jumpBy off : M ν Unit) :=
  still_frame.bind fun _ => (Steady.crash _).ite (still_setIp _)

lemma still_fail {α : Type} (msg : Str) : Still (fail msg : M ν α) :=
  Steady.modify_raise (fun _ => ⟨rfl, rfl⟩) fun _ => trivial

lemma still_nameAt (ci : Nat) : Still (nameAt ci : M ν Str) := by
  refine (still_frame.bind fun f => (Steady.get.bind fun _ => Steady.orCrash _ _).bind fun c =>
    Steady.orCrash _ _).bind fun v => ?_
  cases v with
  | string s => exact Steady.pure s
  | _ => exact Steady.crash _

lemma still_opJumpIf (cond : Bool) (a : Nat) : Still (opJumpIf cond a : M ν Unit) :=
  (still_peek 0).bind fun _ => Steady.when (still_jumpBy _)

lemma still_opStoreLocal (slot : Nat) : Still (opStoreLocal slot : M ν Unit) := by
  have reading : Still (readLocal slot : M ν (Value ν)) :=
    still_frame.bind fun _ => Steady.get.bind fun _ => Steady.orCrash _ _
  refine (still_peek 0).bind fun v => reading.bind fun _ => still_frame.bind fun f => Steady.modify fun vm => ?_
  refine ⟨?_, VM.height_setCell vm _ v⟩
  unfold VM.setCell
  split <;> rfl

lemma still_opStoreGlobal (ci : Nat) : Still (opStoreGlobal ci : M ν Unit) := by
  refine (still_nameAt ci).bind fun name => (still_peek 0).bind fun v => Steady.get.bind fun vm => ?_
  cases vm.store.setGlobal name v false with
  | some w => exact Steady.modify fun _ => ⟨rfl, rfl⟩
  | none => exact still_fail _

end Still

end Cando
