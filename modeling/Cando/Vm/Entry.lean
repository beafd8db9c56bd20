import Cando.Vm.Growth

/-!
# Entering a script function

The ways by which the machine calls a value: `OP_CALL`, `OP_METHOD_CALL` and `OP_FLUENT_CALL`,
`cando_vm_call_meta` and `cando_vm_call_value`. A callable stands for a function body either as a function
object, which carries the closure of its chunk, or as a bare code offset, which carries none. `entry_spec`
says which frame and window each way sets up; what the callee then finds in its slots, and whose code it
runs, follow from it.
-/

namespace Cando

open Program Value

variable {ν : Type}

/-- A function body: the closure over the chunk in which it was compiled, and the offset of its code. -/
structure Body where
  closure : Nat
  pc : Nat
  deriving DecidableEq, Repr

/-- A place at which the machine calls a value. -/
inductive CallSite (ν : Type) where
  | call (staticArgc : Nat)
  | method (isFluent : Bool) (nameCi argc : Nat)
  | metamethod (h : Nat) (key : Str) (args : List (Value ν))
  | value (f : Value ν) (args : List (Value ν))

/-- A bare code offset. -/
def CdoValue.isOffset : CdoValue ν → Bool
  | .number _ => true
  | _ => false

namespace CallSite

/-- The number of arguments that `OP_CALL` takes off the stack. -/
def argCount (staticArgc : Nat) (vm : VM ν) : Nat := ((staticArgc : Int) + vm.spreadExtra).toNat

/-- The call itself. -/
def perform [F64 ν] (E : Env ν) : CallSite ν → M ν Unit
  | .call n => opCall E n
  | .method isFluent ci n => opMethodCall E isFluent ci n
  | .metamethod h key args => do let _ ← callMeta E (callNative E) h key args
  | .value f args => do let _ ← callValue E (callNative E) f args

/-- The value that is called. -/
def callee (vm : VM ν) : CallSite ν → Option (CdoValue ν)
  | .call n => (vm.stack[argCount n vm]?).bind vm.store.toCdo
  | .method _ ci n => (vm.stack[n]?).bind fun receiver =>
    match lookupMethod receiver ci vm with
    | .ok m _ => some m
    | _ => none
  | .metamethod h key _ => (vm.store.pointer h).bind fun p => vm.store.get p key
  | .value f _ => vm.store.toCdo f

/-- The arguments, the receiver first in the method forms. -/
def args (vm : VM ν) : CallSite ν → List (Value ν)
  | .call n => (vm.stack.take (argCount n vm)).reverse
  | .method _ _ n => (vm.stack.take (n + 1)).reverse
  | .metamethod _ _ args => args
  | .value _ args => args

/-- What the call leaves of the caller's stack. -/
def below (vm : VM ν) : CallSite ν → List (Value ν)
  | .call n => vm.stack.drop (argCount n vm + 1)
  | .method _ _ n => vm.stack.drop (n + 1)
  | .metamethod _ _ _ => vm.stack
  | .value _ _ => vm.stack

def isMethod : CallSite ν → Bool
  | .method _ _ _ => true
  | _ => false

def isValue : CallSite ν → Bool
  | .value _ _ => true
  | _ => false

def isFluent : CallSite ν → Bool
  | .method isFluent _ _ => isFluent
  | _ => false

/-- Whether the call fills the local slots: a method call of a bare code offset does not. -/
def pads (site : CallSite ν) (raw : CdoValue ν) : Bool := !(site.isMethod && raw.isOffset)

end CallSite

/-- The value stands for the function body: a function object that refers to it, or its bare offset. -/
inductive Denotes [F64 ν] (w : Store ν) (b : Body) : CdoValue ν → Prop where
  | object {p : Nat} {o : CdoObject ν} (h : w.objs[p]? = some o) (kind : o.kind = .function)
      (closure : o.bytecode = some b.closure) (pc : o.paramCount = b.pc) : Denotes w b (.object p)
  | offset {x : ν} (nonneg : F64.lt x (F64.ofInt 0) = false) (pc : F64.toU32 x = some b.pc) :
      Denotes w b (.number x)

/-- The state `vm'` in which a call has opened a frame on a body: the callee, the arguments and, if the call
fills the local slots, `NULL`s up to the chunk's local count. -/
structure Opened (site : CallSite ν) (vm vm' : VM ν) (b : Body) (pads : Bool) : Prop where
  frames : vm'.frames =
    ⟨b.closure, ⟨b.closure, b.pc⟩, (site.below vm).length, site.isFluent⟩ :: vm.frames
  chunks : vm'.chunks = vm.chunks
  stack : ∃ callee c, (pads → vm.chunks[b.closure]? = some c) ∧ vm'.stack =
    List.replicate (if pads then c.localCount - ((site.args vm).length + 1) else 0) .null ++
      ((site.args vm).reverse ++ callee :: site.below vm)

/-! ### The frames that calls open -/

lemma reached_pushAll {α : Type} {vs : List (Value ν)} {f : Unit → M ν α} {vm vm' : VM ν}
    (h : ((pushAll vs >>= f) vm).reached = some vm') : (f () (vm.pushed vs)).reached = some vm' := by
  rw [bind_apply] at h
  obtain e | e := pushAll_cases vs vm
  · rwa [e] at h
  · rw [e] at h
    cases h

lemma reached_pushAll' {vs : List (Value ν)} {vm vm' : VM ν}
    (h : (pushAll vs vm).reached = some vm') : vm' = vm.pushed vs := by
  obtain e | e := pushAll_cases vs vm
  · rw [e] at h
    exact (Option.some.inj h).symm
  · rw [e] at h
    cases h

/-- `enterFunction` opens a frame over the callee and the arguments. -/
lemma enterFunction_reached {closure pc argc : Nat} {isFluent pads : Bool} {vm vm' : VM ν}
    (h : (enterFunction closure pc argc isFluent pads vm).reached = some vm') :
    vm'.frames = ⟨closure, ⟨closure, pc⟩, vm.height - argc - 1, isFluent⟩ :: vm.frames ∧
      vm'.chunks = vm.chunks ∧
      ∃ c, (pads → vm.chunks[closure]? = some c) ∧
        vm'.stack = List.replicate (if pads then c.localCount - (argc + 1) else 0) .null ++ vm.stack := by
  simp only [enterFunction, bind_apply, get_apply, Outcome.bind_ok, when] at h
  split at h
  · cases h
  · simp only [bind_apply, pure_apply, Outcome.bind_ok, pushFrame, modify_apply] at h
    split at h
    · rename_i hp
      simp only [bind_apply, chunkOf, get_apply, Outcome.bind_ok] at h
      cases e : vm.chunks[closure]? with
      | none =>
        rw [e] at h
        cases h
      | some c =>
        rw [e] at h
        simp only [orCrash_some, pure_apply, Outcome.bind_ok, padLocals] at h
        obtain rfl := reached_pushAll' h
        exact ⟨rfl, rfl, c, fun _ => rfl, by simp [VM.pushed, hp]⟩
    · rename_i hp
      obtain rfl := Option.some.inj h
      exact ⟨rfl, rfl, {}, fun h => absurd h hp, by simp [hp]⟩

/-- Pushing and going on, unless the stack overflows. -/
lemma pushAll_bind_cases {α : Type} (vs : List (Value ν)) (f : Unit → M ν α) (vm : VM ν) :
    (pushAll vs >>= f) vm = f () (vm.pushed vs) ∨ ∃ e, (pushAll vs >>= f) vm = .crash e := by
  rw [bind_apply]
  obtain e | e := pushAll_cases vs vm
  · exact .inl (by rw [e, Outcome.bind_ok])
  · exact .inr ⟨_, by rw [e, Outcome.bind_crash]⟩

lemma VM.pushed_frames (vm : VM ν) (fs : List Frame) (vs ws : List (Value ν)) :
    ({ vm.pushed vs with frames := fs } : VM ν).pushed ws = { vm.pushed (vs ++ ws) with frames := fs } := by
  simp [VM.pushed]

/-- What `enterClosure` does: it pushes the frame over the sentinel, the arguments and the free slots; or it
finds no frame left and takes the sentinel back; or the stack overflows. -/
lemma enterClosure_cases (closure pc : Nat) (args : List (Value ν)) (vm : VM ν) :
    (∃ e, enterClosure closure pc args vm = .crash e) ∨
      (framesMax ≤ vm.frameCount ∧ ∃ dead,
        enterClosure closure pc args vm = .ok false { vm with dead := .null :: dead }) ∨
      ∃ c, vm.chunks[closure]? = some c ∧ enterClosure closure pc args vm = .ok true
        { vm.pushed (.null :: args ++ List.replicate (c.localCount - (args.length + 1)) .null) with
          frames := ⟨closure, ⟨closure, pc⟩, vm.height, false⟩ :: vm.frames } := by
  simp only [enterClosure, bind_apply]
  obtain e | e := push_cases Value.null vm
  · simp only [e, Outcome.bind_ok, get_apply, bind_apply]
    split
    · rename_i full
      exact .inr (.inl ⟨full, vm.dead.drop 1, by simp [pop, VM.pushed]⟩)
    simp only [chunkOf, bind_apply, get_apply, Outcome.bind_ok]
    cases hc : vm.chunks[closure]? with
    | none => exact .inl ⟨.undefined, by simp [VM.pushed, hc]⟩
    | some c =>
      have hc' : (vm.pushed [Value.null]).chunks[closure]? = some c := hc
      simp only [hc', orCrash_some, pure_apply, Outcome.bind_ok, pushFrame]
      rw [bind_apply, modify_apply, Outcome.bind_ok]
      obtain e | e := pushAll_bind_cases args (fun _ => do
        padLocals c.localCount (args.length + 1)
        return true) _
      · rw [e]
        obtain e | e := pushAll_bind_cases (List.replicate (c.localCount - (args.length + 1)) Value.null)
          (fun _ => pure true) _
        · refine .inr (.inr ⟨c, rfl, e.trans ?_⟩)
          rw [VM.pushed_frames, VM.pushed_frames]
          rfl
        · exact .inl e
      · exact .inl e
  · exact .inl ⟨_, by rw [e, Outcome.bind_crash]⟩

/-- The state `vm'` in which a nested run on a body starts: the frame lies above the whole stack of the
caller, on the sentinel and the arguments. -/
structure Captured (args : List (Value ν)) (vm vm' : VM ν) (b : Body) : Prop where
  frames : vm'.frames = ⟨b.closure, ⟨b.closure, b.pc⟩, vm.height, false⟩ :: vm.frames
  chunks : vm'.chunks = vm.chunks
  stack : ∃ c, vm.chunks[b.closure]? = some c ∧ vm'.stack =
    List.replicate (c.localCount - (args.length + 1)) .null ++ (args.reverse ++ .null :: vm.stack)

/-- With a frame left, `runCaptured` enters the loop there. -/
lemma runCaptured_reached {α : Type} {b : Body} {args : List (Value ν)} {f : Bool → M ν α}
    {vm vm' : VM ν} (room : vm.frameCount < framesMax)
    (h : ((runCaptured b.closure b.pc args >>= f) vm).reached = some vm') :
    Captured args vm vm' b := by
  simp only [runCaptured, bind_apply, get_apply, Outcome.bind_ok, modify_apply] at h
  obtain ⟨e, he⟩ | ⟨full, -⟩ | ⟨c, hc, he⟩ := enterClosure_cases b.closure b.pc args
    { vm with threadStopFrame := some vm.frameCount, threadResults := [] }
  · rw [he] at h
    cases h
  · exact absurd room (Nat.not_lt.mpr full)
  · rw [he] at h
    obtain rfl := Option.some.inj h
    exact ⟨rfl, rfl, c, hc, by simp [VM.pushed]⟩


/-- A function object that is called with captured results enters the loop on its body. -/
lemma callFunction_reached {α : Type} {o : CdoObject ν} {b : Body} {args : List (Value ν)}
    {f : Nat → M ν α} {vm vm' : VM ν} (room : vm.frameCount < framesMax)
    (closure : o.bytecode = some b.closure) (pc : o.paramCount = b.pc)
    (h : ((callFunction o args >>= f) vm).reached = some vm') : Captured args vm vm' b := by
  simp only [callFunction, callClosureWithArgs, closure, pc, bind_assoc] at h
  exact runCaptured_reached room h

lemma resolve_of_pointer {w : Store ν} {h p : Nat} {o : CdoObject ν} (hp : w.pointer h = some p)
    (ho : w.objs[p]? = some o) : w.resolve h = some o := by
  simp [Store.resolve, hp, ho]

lemma resolve_apply {h : Nat} {o : CdoObject ν} {vm : VM ν} (ho : vm.store.resolve h = some o) :
    resolve h vm = .ok o vm := by
  simp [resolve, ho]

/-- A value that stands for a function object is a handle of it. -/
lemma object_of_toCdo {w : Store ν} {v : Value ν} {p : Nat} {o : CdoObject ν}
    (hv : w.toCdo v = some (.object p)) (ho : w.objs[p]? = some o) :
    ∃ g, v = .object g ∧ w.resolve g = some o := by
  cases v with
  | object g =>
    obtain ⟨q, hq, e⟩ := Option.map_eq_some_iff.mp hv
    cases e
    exact ⟨g, rfl, resolve_of_pointer hq ho⟩
  | _ => simp [Store.toCdo] at hv

lemma number_of_toCdo {w : Store ν} {v : Value ν} {x : ν} (hv : w.toCdo v = some (.number x)) :
    v = .number x := by
  cases v with
  | number y =>
    cases hv
    rfl
  | _ => simp [Store.toCdo] at hv

/-- The pointer behind the handle that `toCando` allots. -/
lemma pointer_handleAlloc (w : Store ν) (p : Nat) :
    (w.handleAlloc p).2.pointer (w.handleAlloc p).1 = some p := by
  simp [Store.handleAlloc, Store.pointer]

variable [F64 ν]

/-- `cando_vm_call_value` on a function object. -/
lemma callValue_object {α : Type} {E : Env ν} {call : NativeCall ν} {v : Value ν} {p : Nat} {b : Body}
    {args : List (Value ν)} {f : Nat → M ν α} {vm vm' : VM ν} (room : vm.frameCount < framesMax)
    (hv : vm.store.toCdo v = some (.object p)) (hb : Denotes vm.store b (.object p))
    (hr : ((callValue E call v args >>= f) vm).reached = some vm') : Captured args vm vm' b := by
  obtain ⟨ho, kind, closure, pc⟩ := hb
  obtain ⟨g, rfl, hg⟩ := object_of_toCdo hv ho
  rw [callValue, if_neg (by simp), bind_apply, bind_apply, resolve_apply hg, Outcome.bind_ok,
    if_pos kind, ← bind_apply] at hr
  exact callFunction_reached room closure pc hr

omit [F64 ν] in
lemma objectGetM_apply {h p : Nat} {key : Str} {vm : VM ν} (hp : vm.store.pointer h = some p) :
    objectGetM h key vm = .ok (vm.store.get p key) vm := by
  simp only [objectGetM, pointer, bind_apply, get_apply, Outcome.bind_ok, hp, orCrash_some, pure_apply]

omit [F64 ν] in
lemma frame_reached {α : Type} {g : Frame → M ν α} {vm vm' : VM ν}
    (h : ((frame >>= g) vm).reached = some vm') :
    ∃ f fs, vm.frames = f :: fs ∧ (g f vm).reached = some vm' := by
  simp only [bind_apply, frame] at h
  split at h
  · rename_i f fs e
    exact ⟨f, fs, e, h⟩
  · cases h

/-- The body that a call of `raw` enters: an offset is taken in the chunk that is running. -/
def entered (vm : VM ν) (b : Body) : CdoValue ν → Option Body
  | .number _ => vm.frames.head?.map fun f => ⟨f.closure, b.pc⟩
  | _ => some b

/-- `cando_vm_call_meta` on a field that stands for a function body. -/
lemma callMeta_reached {α : Type} {E : Env ν} {call : NativeCall ν} {h p : Nat} {key : Str}
    {raw : CdoValue ν} {b : Body} {args : List (Value ν)} {f : Bool → M ν α} {vm vm' : VM ν}
    (room : vm.frameCount < framesMax) (hp : vm.store.pointer h = some p)
    (hraw : vm.store.get p key = some raw) (hb : Denotes vm.store b raw)
    (hr : ((callMeta E call h key args >>= f) vm).reached = some vm') :
    ∃ b', entered vm b raw = some b' ∧ Captured args vm vm' b' := by
  rw [callMeta, bind_apply, bind_apply, objectGetM_apply hp, Outcome.bind_ok, hraw] at hr
  cases hb with
  | object ho kind closure pc =>
    rename_i q o
    have hq := resolve_of_pointer (pointer_handleAlloc vm.store q)
      (show (vm.store.handleAlloc q).2.objs[q]? = some o from ho)
    simp only [bind_apply, toCando, Store.toCando, Outcome.bind_ok] at hr
    rw [if_neg (by simp), bind_apply, resolve_apply hq, Outcome.bind_ok] at hr
    simp only [kind, closure, metaFunction] at hr
    rw [← bind_apply, bind_assoc] at hr
    have e := callFunction_reached (by exact room) closure pc hr
    exact ⟨b, rfl, e.frames, e.chunks, e.stack⟩
  | offset nonneg pc =>
    simp only [bind_apply, toCando, Store.toCando, Outcome.bind_ok] at hr
    rw [if_neg (by simp [isNativeFn, nonneg])] at hr
    simp only [metaOffset, pc, orCrash_some, bind_apply, pure_apply, Outcome.bind_ok] at hr
    rw [← bind_apply, ← bind_apply, bind_assoc] at hr
    obtain ⟨g, fs, e, hr⟩ := frame_reached hr
    rw [bind_assoc] at hr
    have e : vm.frames = g :: fs := e
    have c := runCaptured_reached (b := ⟨g.closure, b.pc⟩) (by exact room) hr
    exact ⟨⟨g.closure, b.pc⟩, by simp [entered, e], c.frames, c.chunks, c.stack⟩

/-! ### Calls between script functions -/

omit [F64 ν] in
lemma below_reached {α : Type} {d : Nat} {g : Value ν → M ν α} {vm vm' : VM ν}
    (h : ((below d >>= g) vm).reached = some vm') :
    ∃ v, vm.stack[d]? = some v ∧ (g v vm).reached = some vm' := by
  simp only [bind_apply, below] at h
  cases e : vm.stack[d]? with
  | some v =>
    rw [e] at h
    exact ⟨v, rfl, h⟩
  | none =>
    rw [e] at h
    cases h

omit [F64 ν] in
/-- A stack over the callee of a call with `n` arguments. -/
lemma stack_split {n : Nat} {v : Value ν} {l : List (Value ν)} (h : l[n]? = some v) :
    l = l.take n ++ v :: l.drop (n + 1) := by
  obtain ⟨hn, rfl⟩ := List.getElem?_eq_some_iff.mp h
  rw [← List.drop_eq_getElem_cons hn, List.take_append_drop]

/-- `OP_CALL` on a value that stands for a function body. -/
lemma opCall_reached {E : Env ν} {n : Nat} {raw : CdoValue ν} {b : Body} {vm vm' : VM ν}
    (hraw : (CallSite.call n).callee vm = some raw) (hb : Denotes vm.store b raw)
    (hr : (opCall E n vm).reached = some vm') :
    ∃ b', entered vm b raw = some b' ∧ Opened (.call n) vm vm' b' true := by
  simp only [opCall, bind_apply, get_apply, Outcome.bind_ok, modify_apply] at hr
  rw [← bind_apply] at hr
  obtain ⟨v, hv, hr⟩ := below_reached hr
  have hv : vm.stack[CallSite.argCount n vm]? = some v := hv
  have hc : vm.store.toCdo v = some raw := by simpa [CallSite.callee, hv] using hraw
  have hlen := (List.getElem?_eq_some_iff.mp hv).1
  have opened {b' : Body} (hr : (enterFunction b'.closure b'.pc (CallSite.argCount n vm) false true
      { vm with spreadExtra := 0 }).reached = some vm') : Opened (.call n) vm vm' b' true := by
    obtain ⟨hf, hk, c, hc, hs⟩ := enterFunction_reached hr
    refine ⟨?_, hk, v, c, hc, ?_⟩
    · simp [hf, CallSite.below, CallSite.isFluent, VM.height, Nat.sub_sub]
    · rw [hs]
      simp [CallSite.args, CallSite.below, Nat.min_eq_left (Nat.le_of_lt hlen), ← stack_split hv]
  cases hb with
  | object ho kind closure pc =>
    obtain ⟨g, rfl, hg⟩ := object_of_toCdo hc ho
    rw [if_neg (by simp)] at hr
    simp only at hr
    rw [bind_apply, resolve_apply (by exact hg), Outcome.bind_ok] at hr
    simp only [kind, closure, pc] at hr
    exact ⟨b, rfl, opened hr⟩
  | offset nonneg pc =>
    obtain rfl := number_of_toCdo hc
    rw [if_neg (by simp [isNativeFn, nonneg])] at hr
    simp only [pc, orCrash_some, bind_apply, pure_apply, Outcome.bind_ok] at hr
    rw [← bind_apply] at hr
    obtain ⟨g, fs, e, hr⟩ := frame_reached hr
    have e : vm.frames = g :: fs := e
    exact ⟨⟨g.closure, b.pc⟩, by simp [entered, e], opened hr⟩

section Lookup

omit [F64 ν]

lemma reads_fail {α : Type} (msg : Str) : Meets Reads (fail msg : M ν α) := fun _ _ _ h => by cases h

lemma reads_frame : Meets Reads (frame : M ν Frame) := by
  intro vm f vm' h
  unfold frame at h
  split at h
  · cases h
    rfl
  · cases h

lemma reads_nameAt (ci : Nat) : Meets Reads (nameAt ci : M ν Str) := by
  refine (reads_frame.bind fun f => (Meets.get.bind fun _ => Meets.orCrash _ _).bind fun c =>
    Meets.orCrash _ _).bind fun v => ?_
  cases v with
  | string s => exact Meets.pure s
  | _ => exact Meets.crash _

lemma reads_objectGetM (h : Nat) (key : Str) : Meets Reads (objectGetM h key : M ν _) :=
  (Meets.get.bind fun _ => Meets.orCrash _ _).bind fun _ => Meets.get.bind fun _ => Meets.pure _

/-- Looking a method up changes nothing. -/
lemma reads_lookupMethod (receiver : Value ν) (nameCi : Nat) :
    Meets Reads (lookupMethod receiver nameCi) := by
  refine Meets.get.bind fun vm => ?_
  cases receiver with
  | string s =>
    dsimp only
    split
    · exact (reads_nameAt _).bind fun _ => (reads_objectGetM _ _).bind fun _ => Meets.pure _
    · exact Meets.pure _
  | object h =>
    refine (Meets.get.bind fun _ => Meets.orCrash _ _).bind fun obj => (reads_nameAt _).bind fun name =>
      (reads_objectGetM h name).bind fun found => ?_
    cases found with
    | some m => exact Meets.pure m
    | none =>
      dsimp only
      split
      · exact (reads_objectGetM _ _).bind fun _ => Meets.pure _
      · exact Meets.pure _
  | _ => exact reads_fail _

end Lookup

omit [F64 ν] in
/-- The method goes under the receiver and the arguments, unless the stack overflows. -/
lemma insertMethod_reached {α : Type} {method receiver : Value ν} {n : Nat} {f : Unit → M ν α}
    {vm vm' : VM ν} (hv : vm.stack[n]? = some receiver)
    (h : ((insertMethod method n >>= f) vm).reached = some vm') :
    ∃ vm₁, (f () vm₁).reached = some vm' ∧ vm₁.frames = vm.frames ∧ vm₁.chunks = vm.chunks ∧
      vm₁.store = vm.store ∧ vm₁.stack = vm.stack.take (n + 1) ++ method :: vm.stack.drop (n + 1) := by
  have hn : n + 1 ≤ vm.height := (List.getElem?_eq_some_iff.mp hv).1
  simp only [insertMethod, bind_assoc] at h
  rw [bind_apply, take, if_pos hn, Outcome.bind_ok, bind_apply] at h
  obtain e | e := push_cases method (vm.popTo (vm.height - (n + 1))) <;> rw [e] at h
  · refine ⟨_, reached_pushAll h, rfl, rfl, rfl, ?_⟩
    have hd : vm.height - (vm.height - (n + 1)) = n + 1 := by omega
    simp [VM.pushed, VM.popTo, hd]
  · cases h

omit [F64 ν] in
lemma methodCallable_function {h : Nat} {o : CdoObject ν} {vm : VM ν}
    (ho : vm.store.resolve h = some o) (kind : o.kind = .function) :
    methodCallable (.object h) vm = .ok true vm := by
  simp only [methodCallable, bind_apply, resolve_apply ho, Outcome.bind_ok, kind, true_or, decide_true,
    pure_apply]

/-- A callable method is put in its place and called. -/
lemma callableMethod_reached {E : Env ν} {isFluent : Bool} {msg : Str} {method receiver : Value ν}
    {n : Nat} {vm vm' : VM ν} (callable : methodCallable method vm = .ok true vm)
    (hv : vm.stack[n]? = some receiver)
    (h : ((methodCallable method >>= fun callable => do
      when (!callable) (fail msg)
      let vm ← get
      when (vm.height ≥ stackMax) (fail (bytes "stack overflow in method call"))
      insertMethod method n
      callMethod E isFluent method receiver (n + 1)) vm).reached = some vm') :
    ∃ vm₁, (callMethod E isFluent method receiver (n + 1) vm₁).reached = some vm' ∧
      vm₁.frames = vm.frames ∧ vm₁.chunks = vm.chunks ∧ vm₁.store = vm.store ∧
      vm₁.stack = vm.stack.take (n + 1) ++ method :: vm.stack.drop (n + 1) := by
  rw [bind_apply, callable, Outcome.bind_ok] at h
  simp only [Bool.not_true, Bool.false_eq_true, when, if_false, pure_bind] at h
  rw [bind_apply, get_apply, Outcome.bind_ok] at h
  split at h
  · cases h
  · exact insertMethod_reached hv h

/-- `OP_METHOD_CALL` and `OP_FLUENT_CALL` on a method that stands for a function body. -/
lemma opMethodCall_reached {E : Env ν} {isFluent : Bool} {ci n : Nat} {raw : CdoValue ν} {b : Body}
    {vm vm' : VM ν} (hraw : (CallSite.method isFluent ci n).callee vm = some raw)
    (hb : Denotes vm.store b raw) (hr : (opMethodCall E isFluent ci n vm).reached = some vm') :
    ∃ b', entered vm b raw = some b' ∧
      Opened (.method isFluent ci n) vm vm' b' (!raw.isOffset) := by
  rw [opMethodCall] at hr
  obtain ⟨receiver, hv, hr⟩ := below_reached hr
  simp only [CallSite.callee, hv, Option.bind_some] at hraw
  split at hraw
  case h_2 => cases hraw
  rename_i m vm₀ hm
  obtain rfl := Option.some.inj hraw
  rw [reads_lookupMethod receiver ci vm m vm₀ hm] at hm
  have opened {vm₁ : VM ν} {method : Value ν} {b' : Body} {pads : Bool} (frames : vm₁.frames = vm.frames)
      (chunks : vm₁.chunks = vm.chunks)
      (stack : vm₁.stack = vm.stack.take (n + 1) ++ method :: vm.stack.drop (n + 1))
      (hr : (enterFunction b'.closure b'.pc (n + 1) isFluent pads vm₁).reached = some vm') :
      Opened (.method isFluent ci n) vm vm' b' pads := by
    obtain ⟨hf, hk, c, hc, hs⟩ := enterFunction_reached hr
    have hn : n < vm.stack.length := (List.getElem?_eq_some_iff.mp hv).1
    refine ⟨?_, hk.trans chunks, method, c, by rwa [chunks] at hc, ?_⟩
    · have e : vm₁.height - (n + 1) - 1 = (vm.stack.drop (n + 1)).length := by
        simp only [VM.height, stack, List.length_append, List.length_take, List.length_cons,
          List.length_drop]
        omega
      rw [hf, frames, e]
      rfl
    · rw [hs, stack]
      simp [CallSite.args, CallSite.below, Nat.min_eq_left (Nat.succ_le_of_lt hn)]
  rw [bind_apply, hm, Outcome.bind_ok, bind_apply] at hr
  cases hb with
  | object ho kind closure pc =>
    rename_i p o
    have hg := resolve_of_pointer (pointer_handleAlloc vm.store p)
      (show (vm.store.handleAlloc p).2.objs[p]? = some o from ho)
    simp only [toCando, Store.toCando, Outcome.bind_ok] at hr
    obtain ⟨vm₂, hr, frames, chunks, store, stack⟩ := callableMethod_reached
      (methodCallable_function (by exact hg) kind) (by exact hv) hr
    simp only [callMethod] at hr
    rw [bind_apply, resolve_apply (by rw [store]; exact hg), Outcome.bind_ok] at hr
    simp only [kind, closure, pc] at hr
    exact ⟨b, rfl, opened frames chunks stack hr⟩
  | offset nonneg pc =>
    simp only [toCando, Store.toCando, Outcome.bind_ok] at hr
    obtain ⟨vm₂, hr, frames, chunks, -, stack⟩ := callableMethod_reached rfl (by exact hv) hr
    simp only [callMethod, isNativeFn, nonneg, Bool.false_eq_true, if_false, pc, orCrash_some,
      pure_bind] at hr
    obtain ⟨g, fs, e, hr⟩ := frame_reached hr
    have e : vm.frames = g :: fs := frames.symm.trans e
    exact ⟨⟨g.closure, b.pc⟩, by simp [entered, e], opened frames chunks stack hr⟩

omit [F64 ν] in
lemma Captured.opened (site : CallSite ν) {vm vm' : VM ν} {b : Body}
    (e : Captured (site.args vm) vm vm' b) (below : site.below vm = vm.stack)
    (fluent : site.isFluent = false) : Opened site vm vm' b true := by
  obtain ⟨frames, chunks, c, hc, hs⟩ := e
  refine ⟨?_, chunks, .null, c, fun _ => hc, ?_⟩
  · rw [frames, below, fluent]
    rfl
  · rw [hs, below, if_pos rfl]

/-- Every way of calling a value that stands for a function body, with a frame left, sets up the same frame
and window, but for the local slots and the closure of a bare offset. -/
theorem entry_spec {E : Env ν} {site : CallSite ν} {raw : CdoValue ν} {b : Body} {vm vm' : VM ν}
    (room : vm.frameCount < framesMax) (hraw : site.callee vm = some raw) (hb : Denotes vm.store b raw)
    (hv : ¬ (site.isValue ∧ raw.isOffset)) (hr : (site.perform E vm).reached = some vm') :
    ∃ b', entered vm b raw = some b' ∧ Opened site vm vm' b' (site.pads raw) := by
  cases site with
  | call n => exact opCall_reached hraw hb hr
  | method isFluent ci n => exact opMethodCall_reached hraw hb hr
  | metamethod h key args =>
    obtain ⟨p, hp, hget⟩ := Option.bind_eq_some_iff.mp hraw
    obtain ⟨b', hb', e⟩ := callMeta_reached room hp hget hb hr
    exact ⟨b', hb', e.opened (.metamethod h key args) rfl rfl⟩
  | value v args =>
    cases raw with
    | object p => exact ⟨b, rfl, (callValue_object room hraw hb hr).opened (.value v args) rfl rfl⟩
    | number x => exact absurd ⟨rfl, rfl⟩ hv
    | _ => cases hb

end Cando
