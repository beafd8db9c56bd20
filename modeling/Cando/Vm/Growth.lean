import Cando.Vm.Effects

/-!
# Chunks and objects are never taken back

Along any run, nested runs included, the store grows as `Store.Extends` allows and chunks are only added. So
whatever a function object was made to refer to, it refers to for the rest of the run.
-/

namespace Cando

open Program Value Machine

variable {ν : Type}

/-- The store and the chunks have only grown. -/
structure Grows (vm vm' : VM ν) : Prop where
  store : vm.store.Extends vm'.store
  chunks : vm.chunks <+: vm'.chunks

instance : IsPreorder (VM ν) Grows where
  refl vm := ⟨.refl vm.store, List.prefix_refl _⟩
  trans _ _ _ h h' := ⟨h.store.trans h'.store, h.chunks.trans h'.chunks⟩

lemma Quiet.chunks {vm vm' : VM ν} (h : Quiet vm vm') : vm'.chunks = vm.chunks :=
  congrArg Control.chunks h.control

lemma Quiet.grows {vm vm' : VM ν} (h : Quiet vm vm') : Grows vm vm' where
  store := h.store
  chunks := h.chunks ▸ List.prefix_refl _

/-- Changes to other fields. -/
lemma Grows.of_eq {vm vm' : VM ν} (store : vm'.store = vm.store) (chunks : vm'.chunks = vm.chunks) :
    Grows vm vm' :=
  ⟨store ▸ .refl _, chunks ▸ List.prefix_refl _⟩

/-- Programs that keep what they find in the store and among the chunks. -/
abbrev Growing {α : Type} (m : M ν α) : Prop := Meets (Carries Grows) m

lemma growing_steady {α : Type} {m : M ν α} (h : Calm m) : Growing m :=
  h.carries fun _ _ => Quiet.grows

/-- Changing other fields. -/
lemma growing_modify {f : VM ν → VM ν} (h : ∀ vm, (f vm).store = vm.store ∧ (f vm).chunks = vm.chunks) :
    Growing (modify f : M ν Unit) :=
  fun vm => .of_eq (h vm).1 (h vm).2

lemma growing_enter : Growing (enter : M ν VMResult) :=
  fun vm => ⟨refl_of Grows vm, fun _ vm' => refl_of Grows vm'⟩

lemma growing_pushFrame (f : Frame) : Growing (pushFrame f : M ν Unit) :=
  growing_modify fun _ => ⟨rfl, rfl⟩

/-! ### Ways into a nested run -/

lemma growing_enterClosure (closure pc : Nat) (args : List (Value ν)) :
    Growing (enterClosure closure pc args) :=
  (growing_steady (steady_push _)).bind fun _ => Meets.get.bind fun _ =>
    ((growing_steady steady_pop).bind fun _ => Meets.pure _).ite <|
      (growing_steady (steady_chunkOf _)).bind fun _ => (growing_pushFrame _).bind fun _ =>
        (growing_steady (steady_pushAll _)).bind fun _ =>
          (growing_steady (steady_pushAll _)).bind fun _ => Meets.pure _

lemma growing_runCaptured (closure pc : Nat) (args : List (Value ν)) :
    Growing (runCaptured closure pc args) := by
  refine Meets.get.bind fun vm => Meets.bind ?_ fun _ => (growing_enterClosure _ _ _).bind fun entered =>
    (Meets.when (growing_enter.bind fun _ => Meets.pure ())).bind fun _ => Meets.bind ?_ fun _ =>
      Meets.pure _
  · exact growing_modify fun _ => ⟨rfl, rfl⟩
  · exact growing_modify fun _ => ⟨rfl, rfl⟩

lemma growing_vmCall (closure argCount : Nat) : Growing (vmCall closure argCount : M ν Bool) := by
  refine (growing_steady (steady_chunkOf _)).bind fun chunk => Meets.get.bind fun vm => Meets.ite ?_ <|
    Meets.ite ?_ <| (Meets.crash _).ite <| Meets.bind ?_ fun _ =>
      (growing_steady (steady_pushAll _)).bind fun _ => Meets.pure _
  · exact Meets.bind (growing_modify fun _ => ⟨rfl, rfl⟩) fun _ => Meets.pure _
  · exact Meets.bind (growing_modify fun _ => ⟨rfl, rfl⟩) fun _ => Meets.pure _
  · exact growing_modify fun _ => ⟨rfl, rfl⟩

lemma growing_execEval (chunk : Chunk ν) : Growing (execEval chunk) := by
  refine Meets.get.bind fun vm => Meets.bind ?_ fun _ => (growing_steady (steady_push _)).bind fun _ =>
    (growing_vmCall _ _).bind fun _ => Meets.ite ?_ ?_
  · exact fun vm => ⟨.refl _, List.prefix_append _ _⟩
  · refine growing_enter.bind fun _ => Meets.get.bind fun _ => Meets.bind ?_ fun _ => Meets.pure _
    exact growing_modify fun _ => ⟨rfl, rfl⟩
  · refine (growing_steady steady_pop).bind fun _ => Meets.bind ?_ fun _ => Meets.pure _
    exact growing_modify fun _ => ⟨rfl, rfl⟩

lemma nested_growing : Nested (Carries (Grows (ν := ν))) where
  steady := growing_steady
  captured := growing_runCaptured
  eval := growing_execEval

/-! ### Opcodes on control -/

lemma growing_enterFunction (closure pc argCount : Nat) (isFluent pads : Bool) :
    Growing (enterFunction closure pc argCount isFluent pads : M ν Unit) := by
  refine Meets.get.bind fun vm => (Meets.when (growing_steady (steady_fail _))).bind fun _ =>
    Meets.bind ?_ fun _ => Meets.when ?_
  · exact growing_modify fun _ => ⟨rfl, rfl⟩
  · exact growing_steady ((steady_chunkOf _).bind fun _ => steady_pushAll _)

lemma growing_exit (r : VMResult) : Growing (exit r : M ν Unit) := fun vm => refl_of Grows vm

lemma growing_leaveFrame (f : Frame) (receiver : Value ν) (retCount : Nat) :
    Growing (leaveFrame f receiver retCount) := by
  refine Meets.get.bind fun vm => Meets.ite ?_ <| Meets.ite ?_ <| Meets.ite ?_ <|
    growing_steady (steady_returnTo _ _ _)
  · exact Meets.bind (growing_modify fun _ => ⟨rfl, rfl⟩) fun _ => growing_exit _
  · exact Meets.bind (growing_modify fun _ => ⟨rfl, rfl⟩) fun _ => growing_exit _
  · exact (growing_steady (steady_popTo 0)).bind fun _ => growing_exit _

lemma growing_opReturn (retCount : Nat) : Growing (opReturn retCount : M ν Unit) := by
  refine (growing_steady steady_frame).bind fun f =>
    (Meets.when (growing_steady (steady_setLastRet _))).bind fun _ =>
      (growing_steady (steady_fluentReceiver f)).bind fun _ => Meets.get.bind fun _ =>
        (Meets.when (Meets.crash _)).bind fun _ => Meets.bind ?_ fun _ => growing_leaveFrame _ _ _
  exact growing_modify fun _ => ⟨rfl, rfl⟩

lemma growing_opBreak [F64 ν] (depth : Nat) : Growing (opBreak depth : M ν Unit) := by
  refine (growing_steady (steady_loopAt _ _)).bind fun (idx, lf) =>
    (growing_steady (steady_popTo _)).bind fun _ => (growing_steady (steady_dropLoopState _)).bind fun _ =>
      Meets.bind ?_ fun _ => (growing_steady (steady_setIp _)).bind fun _ => ?_
  · exact growing_modify fun _ => ⟨rfl, rfl⟩
  · exact growing_modify fun _ => ⟨rfl, rfl⟩

lemma growing_opLoopMark (a b : Nat) : Growing (opLoopMark a b : M ν Unit) := by
  refine Meets.get.bind fun _ => (Meets.when (Meets.crash _)).bind fun _ =>
    (growing_steady (steady_targetAt _)).bind fun _ => (growing_steady (steady_targetAt _)).bind fun _ => ?_
  exact growing_modify fun _ => ⟨rfl, rfl⟩

lemma growing_opTryBegin (a : Nat) : Growing (opTryBegin a : M ν Unit) := by
  refine (growing_steady (steady_targetAt _)).bind fun _ => Meets.get.bind fun _ =>
    (Meets.when (Meets.crash _)).bind fun _ => ?_
  exact growing_modify fun _ => ⟨rfl, rfl⟩

lemma growing_opFinallyBegin (a : Nat) : Growing (opFinallyBegin a : M ν Unit) := by
  refine (growing_steady (steady_targetAt _)).bind fun _ => growing_modify fun vm => ?_
  split <;> exact ⟨rfl, rfl⟩

variable [F64 ν]

lemma growing_step (E : Env ν) : Growing (step E) := by
  refine meets_step nested_growing growing_enterFunction fun i hi => ?_
  obtain ⟨op, a, b⟩ := i
  cases op <;> simp only [Opcode.isControl, Bool.false_eq_true] at hi <;> dsimp only [exec]
  case «break» => exact growing_opBreak a
  case «continue» =>
    exact (growing_steady (steady_loopAt _ _)).bind fun _ => (growing_steady (steady_setIp _)).bind fun _ =>
      growing_modify fun _ => ⟨rfl, rfl⟩
  case loopMark => exact growing_opLoopMark a b
  case loopEnd => exact growing_modify fun _ => ⟨rfl, rfl⟩
  case «return» => exact growing_opReturn a
  case tryBegin => exact growing_opTryBegin a
  case tryEnd => exact growing_modify fun _ => ⟨rfl, rfl⟩
  case finallyBegin => exact growing_opFinallyBegin a
  case halt => exact growing_exit _

omit [F64 ν] in
lemma growing_unwind (tfs : List TryFrame) : Growing (unwind tfs : M ν Unit) := by
  induction tfs with
  | nil => exact fun vm => refl_of Grows vm
  | cons tf tfs ih =>
    intro vm
    simp only [unwind]
    split
    · refine Outcome.Along.from ?_ (growing_steady (steady_setIp _) _)
      exact .of_eq rfl rfl
    · refine Outcome.Along.from ?_ (growing_steady (steady_setIp _) _)
      exact .of_eq rfl rfl
    · refine Outcome.Along.from ?_ (ih _)
      exact .of_eq rfl rfl

/-- Chunks and objects are never taken back, in whichever activation. -/
theorem run_grows {E : Env ν} {G : Config (VM ν) VMResult Crash → Prop} {vm : VM ν} {c c'}
    (rs : (interp E).Reaches G c c') (h : Follows Grows vm c) : Follows Grows vm c' :=
  rs.follows (fun vm => growing_step E vm) (fun vm => growing_unwind vm.tryStack vm) h

end Cando
