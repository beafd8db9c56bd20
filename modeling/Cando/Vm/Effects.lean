import Cando.Vm.Run

/-!
# What handlers leave alone

Most handlers move values and the instruction pointer only. `Quiet` is the relation in which they put the
states before and after: what controls the run (the frames up to the running one's `ip`, the try and loop
stacks, the stop marks, the captured results, the chunks) is as it was, and the store has only grown.
-/

namespace Cando

open Program Value

variable {ν : Type}

/-- The running frame without its `ip`, above the frames that wait for it. -/
def shapeOf : List Frame → List Frame
  | [] => []
  | f :: fs => { f with ip := ⟨0, 0⟩ } :: fs

/-- What controls a run. -/
structure Control (ν : Type) where
  frames : List Frame
  tryStack : List TryFrame
  loopStack : List LoopFrame
  loopDepth : Nat
  chunks : List (Chunk ν)
  evalStopFrame : Option Nat
  threadStopFrame : Option Nat
  evalResults : List (Value ν)
  threadResults : List (Value ν)

/-- The control part of a state. -/
def VM.control (vm : VM ν) : Control ν :=
  ⟨shapeOf vm.frames, vm.tryStack, vm.loopStack, vm.loopDepth, vm.chunks, vm.evalStopFrame,
    vm.threadStopFrame, vm.evalResults, vm.threadResults⟩

/-- A change that handlers on values make. -/
structure Quiet (vm vm' : VM ν) : Prop where
  control : vm'.control = vm.control
  store : vm.store.Extends vm'.store

instance : IsPreorder (VM ν) Quiet where
  refl vm := ⟨rfl, .refl vm.store⟩
  trans _ _ _ h h' := ⟨h'.control.trans h.control, h.store.trans h'.store⟩

/-- Programs that only make such changes, and fail only with an error pending. -/
abbrev Calm {α : Type} (m : M ν α) : Prop := Steady Quiet (·.hasError) m

/-! ### The store only grows -/

section Store

variable (w : Store ν)

lemma Store.extends_handleAlloc (p : Nat) : w.Extends (w.handleAlloc p).2 where
  handles := List.prefix_append _ _
  objs _ o h := ⟨o, h, rfl, rfl, rfl, rfl⟩

lemma Store.extends_toCando (v : CdoValue ν) : w.Extends (w.toCando v).2 := by
  cases v with
  | object p => exact w.extends_handleAlloc p
  | _ => exact .refl w

lemma Store.extends_newObject (o : CdoObject ν) : w.Extends (w.newObject o).2 where
  handles := List.prefix_append _ _
  objs p o' h := by
    have hp : p < w.objs.length := (List.getElem?_eq_some_iff.mp h).1
    exact ⟨o', by simpa [newObject, handleAlloc, List.getElem?_append_left hp] using h,
      rfl, rfl, rfl, rfl⟩

/-- Changing fields and items of an object. -/
lemma Store.extends_modifyObj (p : Nat) {f : CdoObject ν → CdoObject ν}
    (hf : ∀ o, (f o).kind = o.kind ∧ (f o).bytecode = o.bytecode ∧
      (f o).paramCount = o.paramCount ∧ (f o).nativeFn = o.nativeFn) :
    w.Extends (w.modifyObj p f) where
  handles := List.prefix_refl _
  objs q o h := by
    by_cases e : p = q
    · subst e
      exact ⟨f o, by simp [modifyObj, h], hf o⟩
    · exact ⟨o, by simp [modifyObj, h, e], rfl, rfl, rfl, rfl⟩

lemma Store.extends_setGlobal {key : Str} {v : Value ν} {isConst : Bool} {w'}
    (h : w.setGlobal key v isConst = some w') : w.Extends w' := by
  simp only [setGlobal] at h
  split at h
  · split at h
    · cases h
    · cases h
      exact ⟨List.prefix_refl _, fun _ o e => ⟨o, e, rfl, rfl, rfl, rfl⟩⟩
  · cases h
    exact ⟨List.prefix_refl _, fun _ o e => ⟨o, e, rfl, rfl, rfl, rfl⟩⟩

end Store

/-! ### Primitives -/

section Primitives

lemma steady_push (v : Value ν) : Calm (push v) := by
  intro vm
  simp only [push]
  split
  · exact ⟨rfl, .refl _⟩
  · trivial

lemma steady_pop : Calm (pop : M ν (Value ν)) := by
  intro vm
  simp only [pop]
  split
  · exact ⟨rfl, .refl _⟩
  · trivial

lemma steady_peek (d : Nat) : Calm (peek d : M ν (Value ν)) := by
  intro vm
  simp only [peek]
  split
  · exact refl_of Quiet vm
  · trivial

lemma steady_below (d : Nat) : Calm (below d : M ν (Value ν)) := by
  intro vm
  simp only [below]
  split
  · exact refl_of Quiet vm
  · trivial

lemma steady_setBelow (d : Nat) (v : Value ν) : Calm (setBelow d v) := by
  intro vm
  simp only [setBelow]
  split
  · exact ⟨rfl, .refl _⟩
  · trivial

lemma steady_take (n : Nat) : Calm (take n : M ν (List (Value ν))) := by
  intro vm
  simp only [take]
  split
  · exact ⟨rfl, .refl _⟩
  · trivial

lemma steady_frame : Calm (frame : M ν Frame) := by
  intro vm
  simp only [frame]
  split
  · exact refl_of Quiet vm
  · trivial

lemma steady_setIp (p : CodePtr) : Calm (setIp p : M ν Unit) := by
  intro vm
  simp only [setIp]
  split
  · rename_i f fs e
    exact ⟨by simp [VM.control, shapeOf, e], .refl _⟩
  · trivial

lemma steady_toCando (v : CdoValue ν) : Calm (toCando v) :=
  fun vm => ⟨rfl, vm.store.extends_toCando v⟩

lemma steady_newObject (o : CdoObject ν) : Calm (newObject o) :=
  fun vm => ⟨rfl, vm.store.extends_newObject o⟩

/-- Changing what is neither control nor store. -/
lemma steady_modify {f : VM ν → VM ν} (hc : ∀ vm, (f vm).control = vm.control)
    (hs : ∀ vm, (f vm).store = vm.store) : Calm (modify f : M ν Unit) :=
  fun vm => ⟨hc vm, by rw [hs]; exact .refl _⟩

lemma steady_fail {α : Type} (msg : Str) : Calm (fail msg : M ν α) :=
  Steady.modify_raise (fun vm => ⟨rfl, .refl vm.store⟩) fun _ => rfl

lemma steady_popTo (n : Nat) : Calm (popTo n : M ν Unit) :=
  steady_modify (fun _ => rfl) fun _ => rfl

lemma steady_popN (n : Nat) : Calm (popN n : M ν Unit) := by
  induction n with
  | zero => exact Steady.pure ()
  | succ n ih => exact steady_pop.bind fun _ => ih

lemma steady_pushAll (vs : List (Value ν)) : Calm (pushAll vs) := by
  induction vs with
  | nil => exact Steady.pure ()
  | cons v vs ih => exact (steady_push v).bind fun _ => ih

lemma steady_belowInt (d : Int) : Calm (belowInt d : M ν (Value ν)) :=
  (Steady.crash _).ite (steady_below _)

lemma steady_numBelow (d : Nat) : Calm (numBelow d : M ν ν) := by
  refine (steady_below d).bind fun v => ?_
  cases v with
  | number x => exact Steady.pure x
  | _ => exact Steady.crash _

lemma steady_jumpBy (off : Int) : Calm (jumpBy off : M ν Unit) :=
  steady_frame.bind fun _ => (Steady.crash _).ite (steady_setIp _)

lemma steady_chunkOf (closure : Nat) : Calm (chunkOf closure : M ν (Chunk ν)) :=
  Steady.get.bind fun _ => Steady.orCrash _ _

lemma steady_constAt (ci : Nat) : Calm (constAt ci : M ν (Value ν)) :=
  steady_frame.bind fun _ => (steady_chunkOf _).bind fun _ => Steady.orCrash _ _

lemma steady_nameAt (ci : Nat) : Calm (nameAt ci : M ν Str) := by
  refine (steady_constAt ci).bind fun v => ?_
  cases v with
  | string s => exact Steady.pure s
  | _ => exact Steady.crash _

lemma steady_resolve (h : Nat) : Calm (resolve h : M ν (CdoObject ν)) :=
  Steady.get.bind fun _ => Steady.orCrash _ _

lemma steady_pointer (h : Nat) : Calm (pointer h : M ν Nat) :=
  Steady.get.bind fun _ => Steady.orCrash _ _

lemma steady_toCdo (v : Value ν) : Calm (toCdo v) :=
  Steady.get.bind fun _ => Steady.orCrash _ _

lemma steady_objectGetM (h : Nat) (key : Str) : Calm (objectGetM h key : M ν _) :=
  (steady_pointer h).bind fun _ => Steady.get.bind fun _ => Steady.pure _

/-- Fields and items may change, not what a function refers to. -/
lemma steady_modifyObj (h : Nat) {f : CdoObject ν → CdoObject ν}
    (hf : ∀ o, (f o).kind = o.kind ∧ (f o).bytecode = o.bytecode ∧
      (f o).paramCount = o.paramCount ∧ (f o).nativeFn = o.nativeFn) :
    Calm (modifyObj h f) :=
  (steady_pointer h).bind fun p _ => ⟨rfl, Store.extends_modifyObj _ p hf⟩

lemma CdoObject.rawset_same (key : Str) (v : CdoValue ν) (isStatic : Bool) (o : CdoObject ν) :
    (o.rawset key v isStatic).kind = o.kind ∧ (o.rawset key v isStatic).bytecode = o.bytecode ∧
      (o.rawset key v isStatic).paramCount = o.paramCount ∧
      (o.rawset key v isStatic).nativeFn = o.nativeFn := by
  unfold CdoObject.rawset
  split
  · simp
  · split
    · split <;> simp
    · simp

lemma CdoObject.arrayPush_same (v : CdoValue ν) (o : CdoObject ν) :
    (o.arrayPush v).kind = o.kind ∧ (o.arrayPush v).bytecode = o.bytecode ∧
      (o.arrayPush v).paramCount = o.paramCount ∧ (o.arrayPush v).nativeFn = o.nativeFn := by
  unfold CdoObject.arrayPush
  split <;> simp

lemma CdoObject.arrayRawset_same (i : Nat) (v : CdoValue ν) (o : CdoObject ν) :
    (o.arrayRawset i v).kind = o.kind ∧ (o.arrayRawset i v).bytecode = o.bytecode ∧
      (o.arrayRawset i v).paramCount = o.paramCount ∧
      (o.arrayRawset i v).nativeFn = o.nativeFn := by
  unfold CdoObject.arrayRawset
  split
  · simp
  · split <;> simp

end Primitives

/-! ### Handlers on values -/

section Handlers

lemma steady_setLastRet (n : Int) : Calm (setLastRet n : M ν Unit) :=
  steady_modify (fun _ => rfl) fun _ => rfl

lemma steady_failed : Calm (failed : M ν Unit) := by
  intro vm
  simp only [failed, bind_apply, get_apply, Outcome.bind_ok, when]
  split
  · exact ⟨refl_of Quiet vm, by assumption⟩
  · exact refl_of Quiet vm

lemma steady_callObjNative (E : Env ν) (fn : Nat) (cdoArgs : List (CdoValue ν)) :
    Calm (callObjNative E fn cdoArgs) :=
  fun vm => ⟨rfl, (E.objNative fn cdoArgs vm.store).2.2⟩

lemma steady_opConst (ci : Nat) : Calm (opConst ci : M ν Unit) :=
  (steady_constAt ci).bind steady_push

lemma steady_opDup : Calm (opDup : M ν Unit) := (steady_peek 0).bind steady_push

lemma steady_readLocal (slot : Nat) : Calm (readLocal slot : M ν (Value ν)) :=
  steady_frame.bind fun _ => Steady.get.bind fun _ => Steady.orCrash _ _

lemma steady_setLocal (slot : Nat) (v : Value ν) : Calm (setLocal slot v) := by
  refine (steady_readLocal slot).bind fun _ => steady_frame.bind fun f => steady_modify ?_ ?_
  · intro vm
    unfold VM.setCell
    split <;> rfl
  · intro vm
    unfold VM.setCell
    split <;> rfl

lemma steady_opLoadLocal (slot : Nat) : Calm (opLoadLocal slot : M ν Unit) :=
  (steady_readLocal slot).bind steady_push

lemma steady_opStoreLocal (slot : Nat) : Calm (opStoreLocal slot : M ν Unit) :=
  (steady_peek 0).bind (steady_setLocal slot)

lemma steady_opDefLocal (slot : Nat) : Calm (opDefLocal slot : M ν Unit) :=
  steady_pop.bind fun v => (steady_setLocal slot v).bind fun _ =>
    steady_modify (fun _ => rfl) fun _ => rfl

lemma steady_opLoadGlobal (ci : Nat) : Calm (opLoadGlobal ci : M ν Unit) := by
  refine (steady_nameAt ci).bind fun name => Steady.get.bind fun vm => ?_
  split
  · exact steady_push _
  · exact steady_fail _

lemma steady_opStoreGlobal (ci : Nat) : Calm (opStoreGlobal ci : M ν Unit) := by
  refine (steady_nameAt ci).bind fun name => (steady_peek 0).bind fun v vm => ?_
  simp only [bind_apply, get_apply, Outcome.bind_ok]
  cases h : vm.store.setGlobal name v false with
  | some w => exact ⟨rfl, vm.store.extends_setGlobal h⟩
  | none => exact steady_fail _ vm

lemma steady_opDefGlobal (ci : Nat) (isConst : Bool) :
    Calm (opDefGlobal ci isConst : M ν Unit) := by
  refine (steady_nameAt ci).bind fun name => steady_pop.bind fun v vm => ?_
  rw [modify_apply]
  cases h : vm.store.setGlobal name v isConst with
  | some w => exact ⟨rfl, vm.store.extends_setGlobal h⟩
  | none => exact ⟨rfl, .refl _⟩

lemma steady_opPos : Calm (opPos : M ν Unit) :=
  steady_pop.bind fun a => (steady_push a).ite (steady_fail _)

lemma steady_opIncr (msg : String) (f : ν → ν) : Calm (opIncr msg f) := by
  refine (steady_peek 0).bind fun v => ?_
  cases v with
  | number x => exact steady_setBelow 0 _
  | _ => exact steady_fail _

lemma steady_opCompareList (n : Int) (rel : Value ν → List (Value ν) → Bool) :
    Calm (opCompareList n rel) := by
  refine (Steady.crash _).ite ((steady_take _).bind fun rights => (steady_take 1).bind fun left => ?_)
  split
  · exact steady_push _
  · exact Steady.crash _

lemma steady_opCompareSpread (rel : Value ν → List (Value ν) → Bool) :
    Calm (opCompareSpread rel) :=
  Steady.get.bind fun _ => steady_opCompareList _ rel

lemma steady_opNot : Calm (opNot : M ν Unit) := steady_pop.bind fun _ => steady_push _

lemma steady_opNewObject : Calm (opNewObject : M ν Unit) :=
  (steady_newObject _).bind steady_push

lemma steady_pushField (found : Option (CdoValue ν)) : Calm (pushField found) := by
  cases found with
  | some raw => exact (steady_toCando raw).bind steady_push
  | none => exact steady_push _

lemma steady_rawsetField (h : Nat) (key : Str) (v : CdoValue ν) (isStatic : Bool) :
    Calm (rawsetField h key v isStatic) :=
  (steady_resolve h).bind fun _ =>
    (Steady.crash _).ite (steady_modifyObj h (CdoObject.rawset_same key v isStatic))

lemma steady_opGetField (ci : Nat) : Calm (opGetField ci : M ν Unit) := by
  refine steady_pop.bind fun v => ?_
  cases v with
  | string s =>
    refine Steady.get.bind fun vm => ?_
    split
    · exact (steady_nameAt ci).bind fun _ => (steady_objectGetM _ _).bind steady_pushField
    · exact steady_push _
  | object h =>
    exact (steady_nameAt ci).bind fun _ => (steady_objectGetM h _).bind steady_pushField
  | _ => exact steady_fail _

lemma steady_opFieldsOf (msg : String) (f : ObjSlot ν → CdoValue ν) :
    Calm (opFieldsOf msg f) := by
  refine steady_pop.bind fun v => ?_
  cases v with
  | object h => exact (steady_resolve h).bind fun _ => (steady_newObject _).bind steady_push
  | _ => exact steady_fail _

lemma steady_opNewClass (ci : Nat) : Calm (opNewClass ci : M ν Unit) :=
  (steady_nameAt ci).bind fun _ => (steady_newObject _).bind steady_push

lemma steady_opBindMethod (ci : Nat) : Calm (opBindMethod ci : M ν Unit) := by
  refine steady_pop.bind fun method => (steady_peek 0).bind fun v => ?_
  cases v with
  | object h =>
    exact (steady_nameAt ci).bind fun _ => (steady_toCdo _).bind fun _ => steady_rawsetField h _ _ _
  | _ => exact steady_fail _

lemma steady_opInherit : Calm (opInherit : M ν Unit) := by
  refine steady_pop.bind fun child => (steady_peek 0).bind fun parent => ?_
  split
  · exact (steady_toCdo _).bind fun _ => (steady_rawsetField _ _ _ _).bind fun _ => steady_push _
  · exact steady_fail _

lemma steady_opMaskApply (nBits bitmask : Nat) : Calm (opMaskApply nBits bitmask : M ν Unit) :=
  Steady.get.bind fun _ => (Steady.when (Steady.crash _)).bind fun _ => (steady_take _).bind fun _ =>
    (steady_pushAll _).bind fun _ => steady_modify (fun _ => rfl) fun _ => rfl

lemma steady_opTruncateRet : Calm (opTruncateRet : M ν Unit) :=
  Steady.get.bind fun _ => (steady_popN _).bind fun _ => steady_modify (fun _ => rfl) fun _ => rfl

lemma steady_arrayValues (items : List (CdoValue ν)) : Calm (arrayValues items) :=
  Steady.mapM steady_toCando items

lemma steady_unpacked (v : Value ν) : Calm (unpacked v) := by
  cases v with
  | object h => exact (steady_resolve h).bind fun _ => (steady_arrayValues _).ite (Steady.pure _)
  | _ => exact Steady.pure _

lemma steady_opUnpack : Calm (opUnpack : M ν Unit) :=
  steady_pop.bind fun v => (steady_unpacked v).bind fun _ => (steady_pushAll _).bind fun _ =>
    steady_modify (fun _ => rfl) fun _ => rfl

lemma steady_opNewArray (staticN : Nat) : Calm (opNewArray staticN : M ν Unit) := by
  refine Steady.get.bind fun _ => Steady.bind ?_ fun _ => ?_
  · exact steady_modify (fun _ => rfl) fun _ => rfl
  · exact (steady_take _).bind fun items => (Steady.mapM steady_toCdo items).bind fun _ =>
      (steady_newObject _).bind steady_push

lemma steady_fluentReceiver (f : Frame) : Calm (fluentReceiver f : M ν (Value ν)) :=
  Steady.get.bind fun _ => (Steady.orCrash _ _).ite (Steady.pure _)

lemma steady_setTop (n : Nat) : Calm (modify (·.setTop n) : M ν Unit) :=
  steady_modify (fun _ => rfl) fun _ => rfl

lemma steady_returnValues (vm : VM ν) (slots n : Nat) : Calm (returnValues vm slots n) :=
  (Steady.crash _).ite <| (Steady.pure _).ite (Steady.orCrash _ _)

lemma steady_returnTo (f : Frame) (receiver : Value ν) (retCount : Nat) :
    Calm (returnTo f receiver retCount) :=
  Steady.get.bind fun vm =>
    ((steady_setTop _).bind fun _ => (steady_push _).bind fun _ => steady_setLastRet 1).ite
      ((steady_returnValues vm _ _).bind fun _ => (steady_setTop _).bind fun _ => steady_pushAll _)

lemma steady_targetAt (off : Int) : Calm (targetAt off : M ν CodePtr) :=
  steady_frame.bind fun _ => (Steady.crash _).ite (Steady.pure _)

lemma steady_loopAt (word : String) (depth : Nat) : Calm (loopAt word depth : M ν _) :=
  Steady.get.bind fun _ => (steady_fail _).ite ((Steady.orCrash _ _).bind fun _ => Steady.pure _)

lemma steady_opCatchBegin (n : Nat) : Calm (opCatchBegin n : M ν Unit) :=
  Steady.get.bind fun _ => (steady_pushAll _).bind fun _ =>
    steady_modify (fun _ => rfl) fun _ => rfl

lemma steady_opThrow (a : Nat) : Calm (opThrow a : M ν Unit) := by
  refine (Steady.when (Steady.crash _)).bind fun _ => Steady.get.bind fun _ =>
    (Steady.when (Steady.crash _)).bind fun _ => (steady_take _).bind fun vals => ?_
  exact Steady.modify_raise (fun vm => ⟨rfl, .refl vm.store⟩) fun _ => rfl

lemma steady_opReraise : Calm (opReraise : M ν Unit) := by
  intro vm
  simp only [opReraise, bind_apply, get_apply, Outcome.bind_ok]
  split
  · exact ⟨refl_of Quiet vm, by assumption⟩
  · exact steady_fail _ vm

lemma steady_slideTo (base n : Nat) : Calm (slideTo base n : M ν Unit) :=
  (steady_take n).bind fun _ => (steady_popTo base).bind fun _ => steady_pushAll _

lemma steady_methodCallable (method : Value ν) : Calm (methodCallable method) := by
  cases method with
  | object h => exact (steady_resolve h).bind fun _ => Steady.pure _
  | _ => exact Steady.pure _

lemma steady_insertMethod (method : Value ν) (argCount : Nat) :
    Calm (insertMethod method argCount) :=
  (steady_take _).bind fun args => (steady_push method).bind fun _ => steady_pushAll args

lemma steady_finishMethod (isFluent : Bool) (base : Nat) (receiver : Value ν)
    (rets : List (Value ν)) : Calm (finishMethod isFluent base receiver rets) :=
  (steady_popTo base).bind fun _ =>
    ((steady_push receiver).bind fun _ => steady_setLastRet 1).ite
      ((steady_pushAll _).bind fun _ => steady_setLastRet _)

lemma steady_lookupMethod (receiver : Value ν) (nameCi : Nat) :
    Calm (lookupMethod receiver nameCi) := by
  refine Steady.get.bind fun vm => ?_
  cases receiver with
  | string s =>
    dsimp only
    split
    · exact (steady_nameAt nameCi).bind fun _ => (steady_objectGetM _ _).bind fun _ => Steady.pure _
    · exact Steady.pure _
  | object h =>
    refine (steady_resolve h).bind fun obj => (steady_nameAt nameCi).bind fun name =>
      (steady_objectGetM h name).bind fun found => ?_
    cases found with
    | some m => exact Steady.pure m
    | none =>
      dsimp only
      split
      · exact (steady_objectGetM _ name).bind fun _ => Steady.pure _
      · exact Steady.pure _
  | _ => exact steady_fail _

lemma steady_opJumpIf (cond : Bool) (a : Nat) : Calm (opJumpIf cond a : M ν Unit) :=
  (steady_peek 0).bind fun _ => Steady.when (steady_jumpBy _)

lemma steady_fillTriplet (total : Int) : Calm (fillTriplet total : M ν Unit) :=
  (steady_pushAll _).ite ((steady_pushAll _).ite ((steady_push _).ite (steady_popN _)))

lemma steady_opAwait (E : Env ν) : Calm (opAwait E) := by
  refine steady_pop.bind fun v => ?_
  cases v with
  | object h =>
    refine (steady_resolve h).bind fun _ => (Steady.when (steady_fail _)).bind fun _ =>
      Steady.get.bind fun vm => Steady.bind (fun vm => ⟨rfl, (E.await h vm.store).2.2⟩) fun _ => ?_
    split
    · exact Steady.modify_raise (fun vm => ⟨rfl, .refl vm.store⟩) fun _ => rfl
    · exact (steady_pushAll _).bind fun _ => steady_setLastRet _
  | _ => exact steady_fail _

lemma steady_opThread (E : Env ν) : Calm (opThread E) := by
  refine steady_pop.bind fun v => ?_
  cases v with
  | object h =>
    exact (steady_resolve h).bind fun _ => (Steady.when (steady_fail _)).bind fun _ =>
      Steady.get.bind fun _ => ((steady_newObject _).bind steady_push).ite (steady_fail _)
  | _ => exact steady_fail _

variable [F64 ν]

lemma steady_opRangeCheck (flags : Nat) : Calm (opRangeCheck flags : M ν Unit) := by
  refine steady_pop.bind fun vmax => steady_pop.bind fun vval => steady_pop.bind fun vmin => ?_
  split
  · exact steady_push _
  · exact steady_fail _

lemma steady_opBitwise (f : BitVec 64 → BitVec 64 → Option (BitVec 64)) :
    Calm (opBitwise f : M ν Unit) :=
  steady_pop.bind fun _ => steady_pop.bind fun _ => (Steady.orCrash _ _).bind fun _ =>
    (Steady.orCrash _ _).bind fun _ => (Steady.orCrash _ _).bind fun _ => steady_push _

lemma steady_opBitNot : Calm (opBitNot : M ν Unit) :=
  steady_pop.bind fun _ => (Steady.orCrash _ _).bind fun _ => steady_push _

lemma steady_opGetIndex : Calm (opGetIndex : M ν Unit) := by
  refine steady_pop.bind fun idx => steady_pop.bind fun v => ?_
  cases v with
  | object h =>
    refine (steady_resolve h).bind fun obj => ?_
    cases idx with
    | number x =>
      exact (Steady.orCrash _ _).bind fun _ => (Steady.when (Steady.crash _)).bind fun _ =>
        steady_pushField _
    | string key => exact steady_pushField _
    | _ => exact steady_fail _
  | _ => exact steady_fail _

lemma steady_dropLoopState (loopType : Nat) : Calm (dropLoopState loopType : M ν Unit) :=
  (steady_popN 4).ite <| Steady.when <| (steady_numBelow 0).bind fun _ => (steady_popN 2).bind fun _ =>
    (Steady.orCrash _ _).bind fun _ => steady_popN _

lemma steady_opClosure (ci : Nat) : Calm (opClosure ci : M ν Unit) := by
  refine (steady_constAt ci).bind fun v => ?_
  cases v with
  | number x =>
    exact (Steady.orCrash _ _).bind fun _ => steady_frame.bind fun _ =>
      (steady_newObject _).bind steady_push
  | _ => exact Steady.crash _

lemma steady_opRange (asc : Bool) : Calm (opRange asc : M ν Unit) := by
  refine steady_pop.bind fun b => steady_pop.bind fun a => ?_
  split
  · exact (Steady.orCrash _ _).bind fun _ => (Steady.orCrash _ _).bind fun _ =>
      (steady_newObject _).bind steady_push
  · exact steady_fail _

lemma steady_loopItems (keysMode : Nat) (iterable : Value ν) :
    Calm (loopItems keysMode iterable) := by
  cases iterable with
  | object h =>
    exact (steady_resolve h).bind fun _ =>
      ((Steady.pure _).ite (steady_arrayValues _)).ite ((Steady.pure _).ite (steady_arrayValues _))
  | _ => exact Steady.pure _

lemma steady_opForInit (keysMode : Nat) : Calm (opForInit keysMode : M ν Unit) :=
  steady_pop.bind fun it => (steady_loopItems keysMode it).bind fun _ =>
    (steady_pushAll _).bind fun _ => (steady_push _).bind fun _ => steady_push _

lemma steady_nextItem (index count : ν) : Calm (nextItem index count) :=
  (Steady.orCrash _ _).bind fun _ => (Steady.orCrash _ _).bind fun _ =>
    (steady_setBelow 0 _).bind fun _ => (steady_belowInt _).bind steady_push

lemma steady_opForNext (a : Nat) : Calm (opForNext a : M ν Unit) :=
  (steady_numBelow 0).bind fun index => (steady_numBelow 1).bind fun count =>
    ((steady_popN 2).bind fun _ => (Steady.orCrash _ _).bind fun _ => (steady_popN _).bind fun _ =>
      steady_jumpBy _).ite (steady_nextItem index count)

lemma steady_opForOverInit (nvar packed : Nat) :
    Calm (opForOverInit nvar packed : M ν Unit) := by
  refine Steady.get.bind fun vm => (steady_fillTriplet _).bind fun _ => (steady_push _).bind fun _ =>
    steady_setLastRet 0

lemma steady_opPipeInit : Calm (opPipeInit : M ν Unit) := by
  refine steady_pop.bind fun v => ?_
  cases v with
  | object h =>
    exact (steady_resolve h).bind fun _ => (Steady.when (steady_fail _)).bind fun _ =>
      (steady_newObject _).bind fun _ => (steady_push _).bind fun _ =>
        (steady_arrayValues _).bind fun _ => (steady_pushAll _).bind fun _ =>
          (steady_push _).bind fun _ => steady_push _
  | _ => exact steady_fail _

lemma steady_opPipeNext (a : Nat) : Calm (opPipeNext a : M ν Unit) :=
  (steady_numBelow 0).bind fun index => (steady_numBelow 1).bind fun count =>
    (steady_jumpBy _).ite (steady_nextItem index count)

lemma steady_opPipeEnd : Calm (opPipeEnd : M ν Unit) := by
  refine steady_pop.bind fun _ => steady_pop.bind fun v => ?_
  cases v with
  | number x => exact (Steady.orCrash _ _).bind fun _ => steady_popN _
  | _ => exact Steady.crash _

lemma steady_collect (v : Value ν) : Calm (collect v) := by
  refine (steady_numBelow 1).bind fun _ => (Steady.orCrash _ _).bind fun _ =>
    (steady_belowInt _).bind fun arr => ?_
  cases arr with
  | object h =>
    exact (steady_resolve h).bind fun _ => (steady_toCdo v).bind fun _ =>
      (Steady.when (Steady.crash _)).bind fun _ => steady_modifyObj h (CdoObject.arrayPush_same _)
  | _ => exact Steady.crash _

lemma steady_opFilterCollect : Calm (opFilterCollect : M ν Unit) :=
  steady_pop.bind fun v => Steady.when (steady_collect v)

end Handlers

/-! ### Handlers that re-enter the loop

`L` is a property of programs that quiet ones have and that can be proved along a program's text. Once the
two ways into a nested run are known to have it, so have the natives, the metamethods and the handlers that
use them. -/

section Nested

variable {L : ∀ α : Type, M ν α → Prop} [Closed L]

/-- Quiet programs and the two ways into a nested run have the property. -/
structure Nested (L : ∀ α : Type, M ν α → Prop) : Prop where
  steady : ∀ {α : Type} {m : M ν α}, Calm m → Meets L m
  captured : ∀ closure pc args, Meets L (runCaptured closure pc args)
  eval : ∀ chunk, Meets L (execEval chunk)

namespace Nested

variable (H : Nested L)

include H

omit [Closed L] in
lemma setError (msg : Str) : Meets L (modify (setError msg) : M ν Unit) :=
  H.steady (steady_modify (fun _ => rfl) fun _ => rfl)

lemma callFunction (fnObj : CdoObject ν) (args : List (Value ν)) :
    Meets L (callFunction fnObj args) := by
  refine Meets.bind ?_ fun _ => Meets.get.bind fun _ =>
    (H.steady (steady_pushAll _)).bind fun _ => Meets.pure _
  unfold callClosureWithArgs
  cases fnObj.bytecode with
  | some closure => exact H.captured closure _ args
  | none => exact Meets.pure _

omit H in
lemma reenter {α : Type} {m : M ν α} (h : Meets L m) : Meets L (reenter m) :=
  Meets.get.bind fun _ => h.bind fun _ => Meets.get.bind fun _ =>
    (Meets.crash _).ite (Meets.pure _)

variable [F64 ν] {E : Env ν} {call : NativeCall ν} (hc : ∀ ni args, Meets L (call ni args))

lemma metaOffset (x : ν) (args : List (Value ν)) : Meets L (metaOffset x args) :=
  (Meets.orCrash _ _).bind fun _ => (H.steady steady_frame).bind fun _ =>
    (H.captured _ _ _).bind fun _ => Meets.get.bind fun _ =>
      ((H.setError _).bind fun _ => Meets.pure _).ite <|
        (Meets.pure _).ite ((H.steady (steady_push _)).bind fun _ => Meets.pure _)

omit [F64 ν] in
lemma metaFunction (fnObj : CdoObject ν) (args : List (Value ν)) :
    Meets L (metaFunction fnObj args) :=
  (H.callFunction fnObj args).bind fun _ => Meets.get.bind fun _ => (Meets.pure _).ite <|
    ((H.steady steady_pop).bind fun _ => (H.steady (steady_popN _)).bind fun _ =>
      (H.steady (steady_push _)).bind fun _ => Meets.pure _).ite <|
    (Meets.when (H.steady (steady_push _))).bind fun _ => Meets.pure _

omit [F64 ν] [Closed L] in
lemma metaObjNative (fn : Nat) (args : List (Value ν)) :
    Meets L (metaObjNative E fn args) :=
  H.steady <| (Steady.mapM steady_toCdo args).bind fun _ => (steady_callObjNative E fn _).bind fun _ =>
    (steady_toCando _).bind fun _ => (steady_push _).bind fun _ => Steady.pure true

include hc

omit H in
lemma nativeResult (f : Value ν) (args : List (Value ν)) :
    Meets L (nativeResult E call f args) :=
  (Meets.orCrash _ _).bind fun _ => (Meets.pure _).ite <|
    (hc _ _).bind fun _ => Meets.get.bind fun _ => Meets.pure _

lemma metaNative (f : Value ν) (args : List (Value ν)) :
    Meets L (metaNative E call f args) :=
  (Meets.orCrash _ _).bind fun _ => ((H.setError _).bind fun _ => Meets.pure _).ite <|
    Meets.get.bind fun _ => (hc _ _).bind fun _ => Meets.get.bind fun _ =>
      (Meets.pure _).ite <| (Meets.when (H.steady (steady_push _))).bind fun _ =>
        (H.steady (steady_popTo _)).bind fun _ => Meets.pure _

lemma callValue (f : Value ν) (args : List (Value ν)) :
    Meets L (callValue E call f args) := by
  refine (nativeResult hc f args).ite ?_
  cases f with
  | object h =>
    exact (H.steady (steady_resolve h)).bind fun _ => (H.callFunction _ _).ite (Meets.pure _)
  | _ => exact Meets.pure _

lemma callMeta (h : Nat) (key : Str) (args : List (Value ν)) :
    Meets L (callMeta E call h key args) := by
  refine (H.steady (steady_objectGetM h key)).bind fun found => ?_
  cases found with
  | none => exact Meets.pure _
  | some raw =>
    refine (H.steady (steady_toCando raw)).bind fun callee => (H.metaNative hc _ _).ite ?_
    cases callee with
    | number x => exact H.metaOffset x args
    | object g =>
      refine (H.steady (steady_resolve g)).bind fun fnObj => ?_
      split
      · exact H.metaObjNative _ _
      · exact H.metaFunction _ _
      · exact (H.setError _).bind fun _ => Meets.pure _
    | _ => exact (H.setError _).bind fun _ => Meets.pure _

/-- Along the program of a native. -/
lemma runNative (p : Native ν) : Meets L (runNative E call p) := by
  induction p with
  | done rets => exact (H.steady (steady_pushAll rets)).bind fun _ => Meets.pure _
  | fail msg => exact (H.setError msg).bind fun _ => Meets.pure _
  | stop => exact Meets.pure _
  | read k ih => exact Meets.get.bind fun vm => ih _
  | update f k ih =>
    refine Meets.bind ?_ fun _ => ih
    exact H.steady fun vm => ⟨rfl, (f vm.store).2⟩
  | callValue f args popped k ih =>
    exact (H.callValue hc f args).bind fun n => Meets.get.bind fun vm =>
      (H.steady (steady_popN _)).bind fun _ => ih _ _
  | callMeta h key args k ih =>
    exact (H.callMeta hc h key args).bind fun pushed => Meets.get.bind fun vm =>
      ((H.steady steady_pop).bind fun v => ih _ _).ite (ih _ _)
  | eval chunk k ih => exact (H.eval chunk).bind fun r => ih _ _

omit hc

/-- Natives calling natives, to any depth. -/
lemma nativeCall (depth ni : Nat) (args : List (Value ν)) :
    Meets L (nativeCall E depth ni args) := by
  induction depth generalizing ni args with
  | zero => exact Meets.crash _
  | succ depth ih => exact (Meets.orCrash _ _).bind fun prog => H.runNative ih _

/-! The handlers themselves. -/

lemma metamethod (h : Nat) (key : Str) (args : List (Value ν)) :
    Meets L (Cando.reenter (Cando.callMeta E (callNative E) h key args)) :=
  reenter (H.callMeta (H.nativeCall E.cDepth) h key args)

lemma tryBinaryMeta (key : Str) (a b : Value ν) (args : List (Value ν)) :
    Meets L (tryBinaryMeta E key a b args) := by
  unfold Cando.tryBinaryMeta
  split
  · exact (H.metamethod _ _ _).bind fun _ => (Meets.pure _).ite <|
      (H.steady steady_failed).bind fun _ => Meets.pure _
  · exact (H.metamethod _ _ _).bind fun _ => (Meets.pure _).ite <|
      (H.steady steady_failed).bind fun _ => Meets.pure _
  · exact Meets.pure _

lemma opArith (key : String) (msg : Value ν → Value ν → Str) (f : ν → ν → Except Str ν) :
    Meets L (opArith E key msg f) := by
  refine (H.steady steady_pop).bind fun b => (H.steady steady_pop).bind fun a =>
    (H.tryBinaryMeta _ _ _ _).bind fun _ => (Meets.pure _).ite ?_
  split
  · split
    · exact H.steady (steady_push _)
    · exact H.steady (steady_fail _)
  · exact H.steady (steady_fail _)

lemma opAdd : Meets L (opAdd E) := by
  refine (H.steady (steady_peek 0)).bind fun b => (H.steady (steady_peek 1)).bind fun a => ?_
  split
  · exact H.steady ((steady_popN 2).bind fun _ => steady_push _)
  · exact H.opArith _ _ _

lemma opNeg : Meets L (opNeg E) := by
  refine (H.steady steady_pop).bind fun a => ?_
  cases a with
  | object h =>
    exact (H.metamethod _ _ _).bind fun _ => (Meets.pure _).ite <|
      (H.steady steady_failed).bind fun _ => H.steady (steady_fail _)
  | number x => exact H.steady (steady_push _)
  | _ => exact H.steady (steady_fail _)

lemma opEq : Meets L (opEq E) :=
  (H.steady steady_pop).bind fun _ => (H.steady steady_pop).bind fun _ =>
    (H.tryBinaryMeta _ _ _ _).bind fun _ => (Meets.pure _).ite (H.steady (steady_push _))

lemma opNeq : Meets L (opNeq E) :=
  (H.steady steady_pop).bind fun _ => (H.steady steady_pop).bind fun _ =>
    (H.tryBinaryMeta _ _ _ _).bind fun _ =>
      (H.steady (steady_pop.bind fun _ => steady_push _)).ite (H.steady (steady_push _))

lemma opOrder (key : String) (swap : Bool) (rel : ν → ν → Bool) :
    Meets L (opOrder E key swap rel) := by
  refine (H.steady steady_pop).bind fun b => (H.steady steady_pop).bind fun a =>
    (H.tryBinaryMeta _ _ _ _).bind fun _ => (Meets.pure _).ite ?_
  split
  · exact H.steady (steady_push _)
  · exact H.steady (steady_fail _)

lemma assignField (h : Nat) (key : Str) (v : Value ν) : Meets L (assignField E h key v) :=
  (H.steady (steady_resolve h)).bind fun _ =>
    (H.steady ((steady_toCdo v).bind fun _ => steady_rawsetField h key _ _)).ite <|
      (H.metamethod _ _ _).bind fun _ => (Meets.pure _).ite <|
        H.steady <| steady_failed.bind fun _ => (steady_toCdo v).bind fun _ =>
          steady_rawsetField h key _ _

lemma opSetField (ci : Nat) : Meets L (opSetField E ci) := by
  refine (H.steady steady_pop).bind fun v => (H.steady (steady_peek 0)).bind fun o => ?_
  cases o with
  | object h => exact (H.steady (steady_nameAt ci)).bind fun _ => H.assignField h _ v
  | _ => exact H.steady (steady_fail _)

lemma opSetIndex : Meets L (opSetIndex E) := by
  refine (H.steady steady_pop).bind fun v => (H.steady steady_pop).bind fun idx =>
    (H.steady (steady_peek 0)).bind fun o => ?_
  cases o with
  | object h =>
    refine (H.steady (steady_resolve h)).bind fun obj => ?_
    cases idx with
    | number x =>
      exact H.steady <| (Steady.orCrash _ _).bind fun _ => (Steady.when (Steady.crash _)).bind fun _ =>
        (steady_toCdo v).bind fun _ => steady_modifyObj h (CdoObject.arrayRawset_same _ _)
    | string key => exact H.assignField h key v
    | _ => exact H.steady (steady_fail _)
  | _ => exact H.steady (steady_fail _)

lemma opLen : Meets L (opLen E) := by
  refine (H.steady steady_pop).bind fun a => ?_
  cases a with
  | string s => exact H.steady (steady_push _)
  | object h =>
    exact (H.metamethod _ _ _).bind fun _ => (Meets.pure _).ite <|
      H.steady <| steady_failed.bind fun _ => (steady_resolve h).bind fun _ => steady_push _
  | _ => exact H.steady (steady_fail _)

lemma callNativeTop (ni argCount : Nat) : Meets L (callNativeTop E ni argCount) :=
  Meets.get.bind fun _ => (reenter (H.nativeCall E.cDepth ni _)).bind fun _ =>
    (H.steady steady_failed).bind fun _ => Meets.pure _

lemma callNativeValue (callee : Value ν) (argCount : Nat) :
    Meets L (callNativeValue E callee argCount) :=
  Meets.get.bind fun _ => (Meets.orCrash _ _).bind fun _ =>
    (Meets.when (H.steady (steady_fail _))).bind fun _ => (H.callNativeTop _ _).bind fun _ =>
      (H.steady ((steady_popTo _).bind fun _ => (steady_push _).bind fun _ => steady_setLastRet _)).ite
        (H.steady ((steady_slideTo _ _).bind fun _ => steady_setLastRet _))

lemma callMethodNative (isFluent : Bool) (method receiver : Value ν) (totalArgc : Nat) :
    Meets L (callMethodNative E isFluent method receiver totalArgc) :=
  Meets.get.bind fun _ => (Meets.orCrash _ _).bind fun _ => (H.callNativeTop _ _).bind fun _ =>
    H.steady ((steady_take _).bind fun _ => steady_finishMethod _ _ _ _)

omit [F64 ν] [Closed L] in
lemma callMethodObjNative (isFluent : Bool) (fn : Nat) (receiver : Value ν) (totalArgc : Nat) :
    Meets L (callMethodObjNative E isFluent fn receiver totalArgc) :=
  H.steady <| Steady.get.bind fun _ => (Steady.mapM steady_toCdo _).bind fun _ =>
    (steady_callObjNative E fn _).bind fun _ => steady_failed.bind fun _ =>
      (Steady.mapM steady_toCando _).bind fun _ => steady_finishMethod _ _ _ _

lemma opForOverNext (a : Nat) : Meets L (opForOverNext E a) := by
  refine (H.steady (steady_numBelow 0)).bind fun x => (Meets.orCrash _ _).bind fun nvar =>
    (H.steady (steady_below 1)).bind fun control => (H.steady (steady_below 2)).bind fun state =>
      (H.steady (steady_below 3)).bind fun iter =>
        (reenter (H.callValue (H.nativeCall E.cDepth) _ _)).bind fun ret => H.steady ?_
  refine Steady.bind (steady_modify (fun _ => rfl) fun _ => rfl) fun _ => steady_failed.bind fun _ =>
    Steady.get.bind fun vm => ?_
  dsimp only
  split
  · exact ((steady_popN _).bind fun _ => steady_jumpBy _).ite <|
      (steady_setBelow _ _).bind fun _ => (steady_popN _).bind fun _ => steady_pushAll _
  · exact (steady_popN _).bind fun _ => steady_jumpBy _

-- calls of script functions push a frame
variable (hf : ∀ closure pc argCount isFluent pads,
  Meets L (enterFunction closure pc argCount isFluent pads))

include hf

lemma opCall (staticArgc : Nat) : Meets L (opCall E staticArgc) := by
  refine Meets.get.bind fun vm => Meets.bind (H.steady ?_) fun _ =>
    (H.steady (steady_below _)).bind fun callee => (H.callNativeValue _ _).ite ?_
  · exact steady_modify (fun _ => rfl) fun _ => rfl
  · cases callee with
    | number x =>
      exact (Meets.orCrash _ _).bind fun _ => (H.steady steady_frame).bind fun f => hf _ _ _ _ _
    | object h =>
      refine (H.steady (steady_resolve h)).bind fun fnObj => ?_
      split
      · exact hf _ _ _ _ _
      · exact H.steady (steady_fail _)
    | _ => exact H.steady (steady_fail _)

lemma callMethod (isFluent : Bool) (method receiver : Value ν) (totalArgc : Nat) :
    Meets L (callMethod E isFluent method receiver totalArgc) := by
  cases method with
  | number x =>
    exact (H.callMethodNative _ _ _ _).ite <|
      (Meets.orCrash _ _).bind fun _ => (H.steady steady_frame).bind fun f => hf _ _ _ _ _
  | object h =>
    refine (H.steady (steady_resolve h)).bind fun mo => ?_
    split
    · exact H.callMethodObjNative _ _ _ _
    · exact hf _ _ _ _ _
    · exact Meets.crash _
  | _ => exact Meets.crash _

lemma opMethodCall (isFluent : Bool) (nameCi argCount : Nat) :
    Meets L (opMethodCall E isFluent nameCi argCount) :=
  (H.steady (steady_below _)).bind fun _ => (H.steady (steady_lookupMethod _ _)).bind fun _ =>
    (H.steady (steady_toCando _)).bind fun _ => (H.steady (steady_methodCallable _)).bind fun _ =>
      (Meets.when (H.steady (steady_fail _))).bind fun _ => Meets.get.bind fun _ =>
        (Meets.when (H.steady (steady_fail _))).bind fun _ =>
          (H.steady (steady_insertMethod _ _)).bind fun _ => H.callMethod hf _ _ _ _

end Nested

/-- The opcodes that change the frame, try or loop stack themselves, or end the run. -/
def Opcode.isControl : Opcode → Bool
  | .break | .continue | .loopMark | .loopEnd | .return | .tryBegin | .tryEnd | .finallyBegin
  | .halt => Bool.true
  | _ => Bool.false

/-- A property of the opcodes on control is one of all handlers. -/
theorem meets_exec [F64 ν] {E : Env ν} (H : Nested L)
    (hf : ∀ closure pc argCount isFluent pads,
      Meets L (enterFunction closure pc argCount isFluent pads))
    (i : Instr) (hi : i.op.isControl → Meets L (exec E i)) : Meets L (exec E i) := by
  obtain ⟨op, a, b⟩ := i
  cases op <;> dsimp only [exec]
  case const => exact H.steady (steady_opConst a)
  case null => exact H.steady (steady_push _)
  case true => exact H.steady (steady_push _)
  case false => exact H.steady (steady_push _)
  case pop => exact H.steady (steady_popN 1)
  case popN => exact H.steady (steady_popN a)
  case dup => exact H.steady steady_opDup
  case loadLocal => exact H.steady (steady_opLoadLocal a)
  case storeLocal => exact H.steady (steady_opStoreLocal a)
  case defLocal => exact H.steady (steady_opDefLocal a)
  case defConstLocal => exact H.steady (steady_opDefLocal a)
  case loadGlobal => exact H.steady (steady_opLoadGlobal a)
  case storeGlobal => exact H.steady (steady_opStoreGlobal a)
  case defGlobal => exact H.steady (steady_opDefGlobal a _)
  case defConstGlobal => exact H.steady (steady_opDefGlobal a _)
  case loadUpval => exact Meets.crash _
  case storeUpval => exact Meets.crash _
  case closeUpval => exact Meets.crash _
  case add => exact H.opAdd
  case sub => exact H.opArith _ _ _
  case mul => exact H.opArith _ _ _
  case div => exact H.opArith _ _ _
  case mod => exact H.opArith _ _ _
  case pow => exact H.opArith _ _ _
  case neg => exact H.opNeg
  case pos => exact H.steady steady_opPos
  case incr => exact H.steady (steady_opIncr _ _)
  case decr => exact H.steady (steady_opIncr _ _)
  case eq => exact H.opEq
  case neq => exact H.opNeq
  case lt => exact H.opOrder _ _ _
  case gt => exact H.opOrder _ _ _
  case leq => exact H.opOrder _ _ _
  case geq => exact H.opOrder _ _ _
  case eqStack => exact H.steady (steady_opCompareList _ _)
  case neqStack => exact H.steady (steady_opCompareList _ _)
  case ltStack => exact H.steady (steady_opCompareList _ _)
  case gtStack => exact H.steady (steady_opCompareList _ _)
  case leqStack => exact H.steady (steady_opCompareList _ _)
  case geqStack => exact H.steady (steady_opCompareList _ _)
  case rangeCheck => exact H.steady (steady_opRangeCheck a)
  case bitAnd => exact H.steady (steady_opBitwise _)
  case bitOr => exact H.steady (steady_opBitwise _)
  case bitXor => exact H.steady (steady_opBitwise _)
  case bitNot => exact H.steady steady_opBitNot
  case lshift => exact H.steady (steady_opBitwise _)
  case rshift => exact H.steady (steady_opBitwise _)
  case not => exact H.steady steady_opNot
  case andJump => exact H.steady (steady_opJumpIf _ _)
  case orJump => exact H.steady (steady_opJumpIf _ _)
  case newObject => exact H.steady steady_opNewObject
  case newArray => exact H.steady (steady_opNewArray a)
  case getField => exact H.steady (steady_opGetField a)
  case setField => exact H.opSetField a
  case getIndex => exact H.steady steady_opGetIndex
  case setIndex => exact H.opSetIndex
  case len => exact H.opLen
  case keysOf => exact H.steady (steady_opFieldsOf _ _)
  case valsOf => exact H.steady (steady_opFieldsOf _ _)
  case jump => exact H.steady (steady_jumpBy _)
  case jumpIfFalse => exact H.steady (steady_opJumpIf _ _)
  case jumpIfTrue => exact H.steady (steady_opJumpIf _ _)
  case loop => exact H.steady (steady_jumpBy _)
  case closure => exact H.steady (steady_opClosure a)
  case call => exact H.opCall hf a
  case methodCall => exact H.opMethodCall hf _ a b
  case fluentCall => exact H.opMethodCall hf _ a b
  case tailCall => exact H.steady (steady_fail _)
  case loadVararg => exact H.steady (steady_push _)
  case varargLen => exact H.steady (steady_push _)
  case unpack => exact H.steady steady_opUnpack
  case rangeAsc => exact H.steady (steady_opRange _)
  case rangeDesc => exact H.steady (steady_opRange _)
  case forInit => exact H.steady (steady_opForInit a)
  case forNext => exact H.steady (steady_opForNext a)
  case forOverInit => exact H.steady (steady_opForOverInit a b)
  case forOverNext => exact H.opForOverNext a
  case pipeInit => exact H.steady steady_opPipeInit
  case pipeNext => exact H.steady (steady_opPipeNext a)
  case filterNext => exact H.steady (steady_opPipeNext a)
  case pipeEnd => exact H.steady steady_opPipeEnd
  case pipeCollect => exact H.steady (steady_pop.bind fun v => steady_collect v)
  case filterCollect => exact H.steady steady_opFilterCollect
  case catchBegin => exact H.steady (steady_opCatchBegin a)
  case throw => exact H.steady (steady_opThrow a)
  case reraise => exact H.steady steady_opReraise
  case async => exact H.steady (steady_fail _)
  case await => exact H.steady (steady_opAwait E)
  case yield => exact H.steady (steady_fail _)
  case thread => exact H.steady (steady_opThread E)
  case newClass => exact H.steady (steady_opNewClass a)
  case bindMethod => exact H.steady (steady_opBindMethod a)
  case inherit => exact H.steady steady_opInherit
  case maskPass => exact Meets.pure ()
  case maskSkip => exact H.steady (steady_pop.bind fun _ => Steady.pure _)
  case maskApply => exact H.steady (steady_opMaskApply a b)
  case spreadRet => exact H.steady (steady_modify (fun _ => rfl) fun _ => rfl)
  case arraySpread => exact H.steady (steady_modify (fun _ => rfl) fun _ => rfl)
  case truncateRet => exact H.steady steady_opTruncateRet
  case eqSpread => exact H.steady (steady_opCompareSpread _)
  case neqSpread => exact H.steady (steady_opCompareSpread _)
  case ltSpread => exact H.steady (steady_opCompareSpread _)
  case gtSpread => exact H.steady (steady_opCompareSpread _)
  case leqSpread => exact H.steady (steady_opCompareSpread _)
  case geqSpread => exact H.steady (steady_opCompareSpread _)
  case nop => exact Meets.pure ()
  all_goals exact hi rfl

/-- One instruction, from the opcodes on control. -/
lemma meets_step [F64 ν] {E : Env ν} (H : Nested L)
    (hf : ∀ closure pc argCount isFluent pads,
      Meets L (enterFunction closure pc argCount isFluent pads))
    (hc : ∀ i : Instr, i.op.isControl → Meets L (exec E i)) :
    Meets L (step E) := by
  refine Meets.bind (H.steady ?_) fun i => meets_exec H hf i (hc i)
  exact steady_frame.bind fun f => (steady_chunkOf _).bind fun chunk => (Steady.orCrash _ _).bind fun i =>
    (steady_setIp _).bind fun _ => Steady.pure i

end Nested

end Cando
