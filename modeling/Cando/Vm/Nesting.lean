import Cando.Vm.Entry

/-!
# Errors in nested runs

A re-entrant activation of `vm_run` is entered with one frame above its caller's frames and with a stop mark
at their number. `handle_error` unwinds along one try stack that all activations share, so an activation
stays above its caller's frames only as long as the innermost try frame, when it raises an error, is its own.
`nested_confined` is that statement over whole runs: under the guard `OwnHandlers`, every activation keeps
its caller's frames below it, handles an error in a try frame of its own or stops with the error pending.
-/

namespace Cando

open Program Value Machine

variable {ν : Type}

/-- The frames of the caller of the activation that was entered in this state. -/
def VM.base (e : VM ν) : List Frame := e.frames.tail

/-- The state is one in which a re-entrant activation is entered. -/
def Reentrant (e : VM ν) : Prop :=
  e.frames ≠ [] ∧ (e.threadStopFrame = some e.base.length ∨ e.evalStopFrame = some e.base.length)

/-- A try frame up to its `FINALLY` target, which `OP_FINALLY_BEGIN` sets later. -/
def TryFrame.core (tf : TryFrame) : TryFrame := { tf with finallyIp := none }

/-- The try frames are ones that the activation entered in `e` has pushed, above what is left of those it
found. -/
def OwnTries (e : VM ν) (ts : List TryFrame) : Prop :=
  ∃ own rest, ts = own ++ rest ∧ rest.map TryFrame.core <:+ e.tryStack.map TryFrame.core ∧
    ∀ tf ∈ own, e.base.length < tf.frameSave ∧ tf.catchIp.isSome

/-- The activation of `e` enters one in state `s`: a re-entrant one, above its own frames. -/
def Entered (e s : VM ν) : Prop := Reentrant s ∧ (Reentrant e → e.base <:+ s.base)

/-- What the activation entered in `e` leaves alone until its end: its caller's frames and the stop
marks. -/
structure Left (e s : VM ν) : Prop where
  frames : e.base <:+ s.frames
  tries : OwnTries e s.tryStack
  threadMark : s.threadStopFrame = e.threadStopFrame
  evalMark : s.evalStopFrame = e.evalStopFrame

/-- While it runs, it has frames above its caller's. -/
structure Within (e s : VM ν) : Prop extends Left e s where
  above : e.base.length < s.frameCount

/-- The invariant of an activation that runs, -/
def Confined (e s : VM ν) : Prop := Reentrant e → Within e s

/-- that has failed, -/
def Failing (e s : VM ν) : Prop := s.hasError ∧ Confined e s

/-- and that is left with a result. -/
def Finished (e : VM ν) (r : VMResult) (s : VM ν) : Prop :=
  (r = .runtimeErr → s.hasError) ∧ (Reentrant e → Left e s)

/-- Programs that keep to these as part of the activation entered in `e`. -/
abbrev Confines (e : VM ν) {α : Type} (m : M ν α) : Prop :=
  Meets (Maintains (fun s => Entered e s ∧ Confined s s) Finished (Confined e) (Failing e) (Finished e)) m

/-! ### Changes that matter to no activation -/

section Steady

variable {e s s' : VM ν}

lemma OwnTries.refl (e : VM ν) : OwnTries e e.tryStack :=
  ⟨[], e.tryStack, rfl, List.suffix_refl _, fun _ h => by cases h⟩

/-- The frames, the try stack and the marks are the same. -/
lemma Confined.of_eq (h : Confined e s) (frames : s'.frames = s.frames)
    (tries : s'.tryStack = s.tryStack) (threadMark : s'.threadStopFrame = s.threadStopFrame)
    (evalMark : s'.evalStopFrame = s.evalStopFrame) : Confined e s' := by
  intro re
  obtain ⟨⟨hf, ht, hm, he⟩, above⟩ := h re
  exact ⟨⟨frames ▸ hf, tries ▸ ht, threadMark.trans hm, evalMark.trans he⟩, by
    rwa [VM.frameCount, frames]⟩

/-- Only the running frame's `ip` differs. -/
lemma Confined.quiet (h : Confined e s) (q : Quiet s s') : Confined e s' := by
  have shape : shapeOf s'.frames = shapeOf s.frames := congrArg Control.frames q.control
  have tries : s'.tryStack = s.tryStack := congrArg Control.tryStack q.control
  have threadMark : s'.threadStopFrame = s.threadStopFrame := congrArg Control.threadStopFrame q.control
  have evalMark : s'.evalStopFrame = s.evalStopFrame := congrArg Control.evalStopFrame q.control
  intro re
  obtain ⟨⟨hf, ht, hm, he⟩, above⟩ := h re
  simp only [VM.frameCount] at above
  cases hs : s.frames with
  | nil => simp [hs] at above
  | cons f fs =>
    cases hs' : s'.frames with
    | nil => simp [hs, hs', shapeOf] at shape
    | cons f' fs' =>
      rw [hs, hs', shapeOf, shapeOf] at shape
      obtain rfl : fs' = fs := (List.cons.inj shape).2
      rw [hs] at hf above
      have below : e.base <:+ fs' := by
        obtain hb | hb := List.suffix_cons_iff.mp hf
        · rw [hb] at above
          exact absurd above (Nat.lt_irrefl _)
        · exact hb
      refine ⟨⟨hs' ▸ below.trans (List.suffix_cons _ _), tries ▸ ht, threadMark.trans hm,
        evalMark.trans he⟩, ?_⟩
      rw [VM.frameCount, hs']
      exact above

lemma confines_calm {α : Type} {m : M ν α} (h : Calm m) : Confines e m :=
  h.maintains (fun _ _ q c => c.quiet q) fun _ _ q hasError c => ⟨hasError, c.quiet q⟩

lemma confines_modify {f : VM ν → VM ν} (h : ∀ s, (f s).frames = s.frames ∧ (f s).tryStack = s.tryStack ∧
    (f s).threadStopFrame = s.threadStopFrame ∧ (f s).evalStopFrame = s.evalStopFrame) :
    Confines e (modify f : M ν Unit) :=
  fun s c => c.of_eq (h s).1 (h s).2.1 (h s).2.2.1 (h s).2.2.2

end Steady

/-! ### Entering nested runs -/

section Enter

variable {e : VM ν}

/-- What is a try frame of an activation above is one of the activation below. -/
lemma OwnTries.trans {s : VM ν} {ts : List TryFrame} (h : OwnTries e s.tryStack)
    (h' : OwnTries s ts) (above : e.base.length ≤ s.base.length) : OwnTries e ts := by
  obtain ⟨own, rest, hs, hrest, howns⟩ := h
  obtain ⟨own', rest', rfl, hrest', howns'⟩ := h'
  rw [hs, List.map_append] at hrest'
  have own_lt : ∀ tf ∈ own', e.base.length < tf.frameSave ∧ tf.catchIp.isSome := fun tf htf =>
    ⟨Nat.lt_of_le_of_lt above (howns' tf htf).1, (howns' tf htf).2⟩
  obtain ⟨pre, hpre⟩ := hrest'
  obtain ⟨mid, hown, hmid⟩ | ⟨mid, -, hmid⟩ := List.append_eq_append_iff.mp hpre
  · -- some of its own frames are left
    obtain ⟨own₁, rest₁, rfl, hown₁, hrest₁⟩ := List.map_eq_append_iff.mp hmid
    refine ⟨own' ++ own₁, rest₁, (List.append_assoc ..).symm, by rwa [hrest₁], fun tf htf => ?_⟩
    obtain htf | htf := List.mem_append.mp htf
    · exact own_lt tf htf
    · have hcore : tf.core ∈ own.map TryFrame.core := by
        rw [hown, ← hown₁]
        exact List.mem_append_right _ (List.mem_map_of_mem htf)
      obtain ⟨tf', htf', heq⟩ := List.mem_map.mp hcore
      have save : tf'.core.frameSave = tf.core.frameSave := congrArg TryFrame.frameSave heq
      have ip : tf'.core.catchIp = tf.core.catchIp := congrArg TryFrame.catchIp heq
      have own := howns tf' htf'
      rwa [show tf'.frameSave = tf.frameSave from save, show tf'.catchIp = tf.catchIp from ip] at own
  · refine ⟨own', rest', rfl, List.IsSuffix.trans ?_ hrest, own_lt⟩
    exact ⟨mid, hmid.symm⟩

/-- An inner activation, entered above the whole stack of frames, gives back what the outer one relies on;
the stop marks have been put back. -/
lemma Confined.resume {s₀ s' s'' s₁ : VM ν} (h : Confined e s₀) (inner : Left s' s'')
    (base : s'.base = s₀.frames) (tries : s'.tryStack = s₀.tryStack)
    (frames₁ : s₁.frames = s''.frames) (tries₁ : s₁.tryStack = s''.tryStack)
    (threadMark₁ : s₁.threadStopFrame = s₀.threadStopFrame)
    (evalMark₁ : s₁.evalStopFrame = s₀.evalStopFrame) : Confined e s₁ := by
  intro re
  obtain ⟨⟨hf, ht, hm, he⟩, above⟩ := h re
  have grown : s₀.frames <:+ s₁.frames := base ▸ frames₁ ▸ inner.frames
  refine ⟨⟨hf.trans grown, ?_, threadMark₁.trans hm, evalMark₁.trans he⟩,
    Nat.lt_of_lt_of_le above grown.length_le⟩
  have depth : e.base.length ≤ s'.base.length := by
    rw [base]
    exact Nat.le_of_lt above
  rw [tries₁]
  exact OwnTries.trans (tries ▸ ht) inner.tries depth

/-- An activation that has just been entered is within its bounds. -/
lemma within_self {s : VM ν} (h : s.frames ≠ []) : Within s s := by
  refine ⟨⟨List.tail_suffix _, .refl s, rfl, rfl⟩, ?_⟩
  rw [VM.base, List.length_tail, VM.frameCount]
  exact Nat.sub_lt (List.length_pos_iff.mpr h) Nat.one_pos

/-- A state in which a nested run is entered, with the frames of the activation that enters it. -/
lemma confined_entry {s₀ s : VM ν} {f : Frame} (c : Confined e s₀) (frames : s.frames = f :: s₀.frames)
    (mark : s.threadStopFrame = some s₀.frameCount ∨ s.evalStopFrame = some s₀.frameCount) :
    Entered e s ∧ Confined s s := by
  have some_frame : s.frames ≠ [] := by simp [frames]
  have base : s.base = s₀.frames := by rw [VM.base, frames, List.tail_cons]
  refine ⟨⟨⟨some_frame, by rwa [base]⟩, fun re => ?_⟩, fun _ => within_self some_frame⟩
  rw [base]
  exact (c re).frames

lemma confines_captured (closure pc : Nat) (args : List (Value ν)) :
    Confines e (runCaptured closure pc args) := by
  intro s c
  simp only [runCaptured, bind_apply, get_apply, Outcome.bind_ok, modify_apply]
  obtain ⟨k, h⟩ | ⟨-, dead, h⟩ | ⟨ch, -, h⟩ := enterClosure_cases closure pc args
    { s with threadStopFrame := some s.frameCount, threadResults := [] }
  · rw [h]
    trivial
  · rw [h]
    exact c.of_eq rfl rfl rfl rfl
  · rw [h]
    refine ⟨confined_entry c rfl (.inl rfl), fun r s' fin => ?_⟩
    have left := fin.2 (confined_entry c rfl (.inl rfl)).1.1
    exact c.resume left rfl rfl rfl rfl rfl left.evalMark

/-- What `vm_call` does: it pushes a frame and fills the local slots, or refuses with an error set. -/
lemma vmCall_cases (closure argCount : Nat) (vm : VM ν) :
    (∃ k, vmCall closure argCount vm = .crash k) ∨
      (∃ msg, vmCall closure argCount vm = .ok false (setError msg vm)) ∨
      ∃ slots vs, vmCall closure argCount vm = .ok true
        { vm.pushed vs with frames := ⟨closure, ⟨closure, 0⟩, slots, false⟩ :: vm.frames } := by
  simp only [vmCall, bind_apply, chunkOf, get_apply, Outcome.bind_ok]
  cases vm.chunks[closure]? with
  | none => exact .inl ⟨_, rfl⟩
  | some c =>
    simp only [orCrash_some, pure_apply, Outcome.bind_ok]
    split
    · exact .inr (.inl ⟨_, rfl⟩)
    rw [bind_apply, get_apply, Outcome.bind_ok]
    split
    · exact .inr (.inl ⟨_, rfl⟩)
    split
    · exact .inl ⟨_, rfl⟩
    · simp only [pushFrame]
      rw [bind_apply, modify_apply, Outcome.bind_ok]
      obtain h | h := pushAll_bind_cases (List.replicate (c.localCount - (argCount + 1)) Value.null)
        (fun _ => pure true) _
      · exact .inr (.inr ⟨_, _, h⟩)
      · exact .inl h

lemma confines_eval (chunk : Chunk ν) : Confines e (execEval chunk) := by
  intro s c
  simp only [execEval, bind_apply, get_apply, Outcome.bind_ok, modify_apply]
  obtain h | h := push_cases Value.null
    { s with chunks := s.chunks ++ [chunk], evalStopFrame := some s.frameCount, evalResults := [] }
  · rw [h, Outcome.bind_ok, bind_apply]
    obtain ⟨k, h⟩ | ⟨msg, h⟩ | ⟨slots, vs, h⟩ := vmCall_cases s.chunks.length 0 (({ s with
      chunks := s.chunks ++ [chunk], evalStopFrame := some s.frameCount, evalResults := [] } :
        VM ν).pushed [Value.null])
    · rw [h]
      trivial
    · rw [h]
      exact c.of_eq rfl rfl rfl rfl
    · rw [h]
      refine ⟨confined_entry c rfl (.inr rfl), fun r s' fin => ?_⟩
      have left := fin.2 (confined_entry c rfl (.inr rfl)).1.1
      exact c.resume left rfl rfl rfl rfl left.threadMark rfl
  · rw [h]
    trivial

lemma nested_confines : Nested (Maintains (fun s => Entered e s ∧ Confined s s) Finished (Confined e)
    (Failing e) (Finished e)) where
  steady := confines_calm
  captured := confines_captured
  eval := confines_eval

end Enter

/-! ### Opcodes on control -/

section Control

variable {e : VM ν}

lemma Confined.pushFrame {s : VM ν} (h : Confined e s) (f : Frame) :
    Confined e { s with frames := f :: s.frames } := by
  intro re
  obtain ⟨⟨hf, ht, hm, he⟩, above⟩ := h re
  exact ⟨⟨hf.trans (List.suffix_cons f _), ht, hm, he⟩, Nat.lt_succ_of_lt above⟩

lemma confines_enterFunction (closure pc argCount : Nat) (isFluent pads : Bool) :
    Confines e (enterFunction closure pc argCount isFluent pads) := by
  refine Meets.get.bind fun vm => (Meets.when (confines_calm (steady_fail _))).bind fun _ =>
    Meets.bind ?_ fun _ => Meets.when ?_
  · exact fun s c => c.pushFrame _
  · exact confines_calm ((steady_chunkOf _).bind fun _ => steady_pushAll _)

lemma confines_setIp (p : CodePtr) : Confines e (setIp p) := confines_calm (steady_setIp p)

lemma confines_opBreak [F64 ν] (depth : Nat) : Confines e (opBreak depth) := by
  refine (confines_calm (steady_loopAt _ _)).bind fun (idx, lf) =>
    (confines_calm (steady_popTo _)).bind fun _ => (confines_calm (steady_dropLoopState _)).bind fun _ =>
      Meets.bind ?_ fun _ => (confines_setIp _).bind fun _ => ?_
  · exact confines_modify fun _ => ⟨rfl, rfl, rfl, rfl⟩
  · exact confines_modify fun _ => ⟨rfl, rfl, rfl, rfl⟩

lemma confines_opContinue (depth : Nat) : Confines e (opContinue depth) := by
  refine (confines_calm (steady_loopAt _ _)).bind fun _ => (confines_setIp _).bind fun _ => ?_
  exact confines_modify fun _ => ⟨rfl, rfl, rfl, rfl⟩

lemma confines_opLoopMark (a b : Nat) : Confines e (opLoopMark a b) := by
  refine Meets.get.bind fun _ => (Meets.when (Meets.crash _)).bind fun _ =>
    (confines_calm (steady_targetAt _)).bind fun _ => (confines_calm (steady_targetAt _)).bind fun _ => ?_
  exact confines_modify fun _ => ⟨rfl, rfl, rfl, rfl⟩

/-- The try frame that `OP_TRY_BEGIN` pushes is the activation's own. -/
lemma confines_opTryBegin (a : Nat) : Confines e (opTryBegin a) := by
  refine (confines_calm (steady_targetAt _)).bind fun p => ?_
  intro s c
  simp only [bind_apply, get_apply, Outcome.bind_ok, when]
  split
  · trivial
  · intro re
    obtain ⟨⟨hf, ⟨own, rest, hs, hrest, howns⟩, hm, he⟩, above⟩ := c re
    refine ⟨⟨hf, ⟨_ :: own, rest, congrArg (_ :: ·) hs, hrest, fun tf htf => ?_⟩, hm, he⟩, above⟩
    obtain rfl | htf := List.mem_cons.mp htf
    · exact ⟨above, rfl⟩
    · exact howns tf htf

lemma OwnTries.tail {ts : List TryFrame} (h : OwnTries e ts) : OwnTries e ts.tail := by
  obtain ⟨own, rest, rfl, hrest, howns⟩ := h
  cases own with
  | nil =>
    refine ⟨[], rest.tail, rfl, List.IsSuffix.trans ?_ hrest, fun _ h => by cases h⟩
    rw [List.map_tail]
    exact List.tail_suffix _
  | cons tf own => exact ⟨own, rest, rfl, hrest, fun tf' h => howns tf' (.tail tf h)⟩

lemma confines_opTryEnd : Confines e opTryEnd := by
  intro s c re
  obtain ⟨⟨hf, ht, hm, he⟩, above⟩ := c re
  exact ⟨⟨hf, ht.tail, hm, he⟩, above⟩

lemma OwnTries.finally {tf : TryFrame} {ts : List TryFrame} (h : OwnTries e (tf :: ts)) (p : CodePtr) :
    OwnTries e ({ tf with finallyIp := some p } :: ts) := by
  obtain ⟨own, rest, hs, hrest, howns⟩ := h
  cases own with
  | nil =>
    obtain rfl : tf :: ts = rest := hs
    exact ⟨[], _, rfl, hrest, fun _ h => by cases h⟩
  | cons tf' own =>
    obtain ⟨rfl, rfl⟩ := List.cons.inj hs
    refine ⟨_ :: own, rest, rfl, hrest, fun tf' h => ?_⟩
    obtain rfl | h := List.mem_cons.mp h
    · exact howns tf List.mem_cons_self
    · exact howns tf' (.tail tf h)

lemma confines_opFinallyBegin (a : Nat) : Confines e (opFinallyBegin a) := by
  refine (confines_calm (steady_targetAt _)).bind fun p => ?_
  intro s c
  rw [modify_apply]
  split
  · rename_i tf rest ht
    intro re
    obtain ⟨⟨hf, hts, hm, he⟩, above⟩ := c re
    exact ⟨⟨hf, (ht ▸ hts).finally p, hm, he⟩, above⟩
  · exact c

/-- `OP_RETURN` from the activation's only frame leaves it, from any other frame stays within. -/
lemma confines_leaveFrame {s : VM ν} (c : Confined e s) (f : Frame) (receiver : Value ν)
    (retCount : Nat) :
    (leaveFrame f receiver retCount { s with frames := s.frames.tail }).All
      (fun s => Entered e s ∧ Confined s s) Finished (Confined e) (Failing e) (Finished e) := by
  have left (re : Reentrant e) : e.base <:+ s.frames.tail := by
    obtain ⟨⟨hf, -⟩, above⟩ := c re
    cases hs : s.frames with
    | nil => simp [VM.frameCount, hs] at above
    | cons g gs =>
      rw [hs] at hf
      obtain hb | hb := List.suffix_cons_iff.mp hf
      · rw [VM.frameCount, hs, hb] at above
        exact absurd above (Nat.lt_irrefl _)
      · exact hb
  have done {r : VMResult} (hr : r ≠ .runtimeErr) {s₁ : VM ν} (frames : s₁.frames = s.frames.tail)
      (tries : s₁.tryStack = s.tryStack) (threadMark : s₁.threadStopFrame = s.threadStopFrame)
      (evalMark : s₁.evalStopFrame = s.evalStopFrame) : Finished e r s₁ :=
    ⟨fun h => absurd h hr, fun re => ⟨frames ▸ left re, tries ▸ (c re).tries,
      threadMark.trans (c re).threadMark, evalMark.trans (c re).evalMark⟩⟩
  simp only [leaveFrame, bind_apply, get_apply, Outcome.bind_ok]
  split
  · exact done (by decide) rfl rfl rfl rfl
  split
  · exact done (by decide) rfl rfl rfl rfl
  split
  · exact done (by decide) rfl rfl rfl rfl
  · rename_i thread eval _
    refine confines_calm (steady_returnTo _ _ _) _ fun re => ⟨⟨left re, (c re).tries, (c re).threadMark,
      (c re).evalMark⟩, Nat.lt_of_le_of_ne (left re).length_le fun count => ?_⟩
    -- the marks would have stopped the run
    have hcount : ({ s with frames := s.frames.tail } : VM ν).frameCount = e.base.length := count.symm
    rw [hcount] at thread eval
    obtain mark | mark := re.2
    · exact thread ((c re).threadMark.trans mark)
    · exact eval ((c re).evalMark.trans mark)

lemma confines_opReturn (retCount : Nat) : Confines e (opReturn retCount) := by
  refine (confines_calm steady_frame).bind fun f =>
    (Meets.when (confines_calm (steady_setLastRet _))).bind fun _ =>
      (confines_calm (steady_fluentReceiver f)).bind fun receiver => Meets.get.bind fun _ =>
        (Meets.when (Meets.crash _)).bind fun _ => ?_
  exact fun s c => confines_leaveFrame c f receiver retCount

lemma confines_halt : Confines e (exit .halt : M ν Unit) := by
  intro s c
  exact (⟨nofun, fun re => (c re).toLeft⟩ : Finished e .halt s)

variable [F64 ν]

/-- One instruction of an activation. -/
lemma confines_step (E : Env ν) : Confines e (step E) := by
  refine meets_step nested_confines confines_enterFunction fun i hi => ?_
  obtain ⟨op, a, b⟩ := i
  cases op <;> simp only [Opcode.isControl, Bool.false_eq_true] at hi <;> dsimp only [exec]
  case «break» => exact confines_opBreak a
  case «continue» => exact confines_opContinue a
  case loopMark => exact confines_opLoopMark a b
  case loopEnd => exact confines_modify fun _ => ⟨rfl, rfl, rfl, rfl⟩
  case «return» => exact confines_opReturn a
  case tryBegin => exact confines_opTryBegin a
  case tryEnd => exact confines_opTryEnd
  case finallyBegin => exact confines_opFinallyBegin a
  case halt => exact confines_halt

end Control

/-! ### Unwinding -/

/-- The guard: when a re-entrant activation raises an error, the try stack is empty, or it is more than what
is left of the one that the activation found, so that the innermost try frame is its own. -/
def OwnHandlers : Config (VM ν) VMResult Crash → Prop
  | .raised e s _ => Reentrant e →
    s.tryStack = [] ∨ ¬ s.tryStack.map TryFrame.core <:+ e.tryStack.map TryFrame.core
  | _ => True

/-- The error is handled in a try frame of the activation's own, or the activation stops with the error
pending. -/
def Handled (e s : VM ν) : Prop :=
  (handleError s = .exit .runtimeErr s ∧ s.hasError) ∨
    ∃ tf rest p s', s.tryStack = tf :: rest ∧ e.base.length < tf.frameSave ∧ tf.catchIp = some p ∧
      handleError s = setIp p s' ∧ s'.tryStack = rest ∧ Within e s'

/-- Unwinding to a try frame of its own keeps an activation within its bounds. -/
lemma within_unwound {e s : VM ν} {tf : TryFrame} {rest : List TryFrame} (w : Within e s)
    (ts : s.tryStack = tf :: rest) (save : e.base.length < tf.frameSave) (hasError : Bool) :
    Within e { s.popTo tf.stackSave with
      frames := s.frames.drop (s.frameCount - tf.frameSave)
      loopDepth := tf.loopSave
      tryStack := rest
      hasError } := by
  obtain ⟨⟨hf, ht, hm, he⟩, above⟩ := w
  refine ⟨⟨?_, ?_, hm, he⟩, ?_⟩
  · obtain ⟨top, htop⟩ := hf
    have drops : s.frameCount - tf.frameSave ≤ top.length := by
      have len := congrArg List.length htop
      simp only [List.length_append] at len
      simp only [VM.frameCount] at above ⊢
      omega
    refine ⟨top.drop (s.frameCount - tf.frameSave), ?_⟩
    change _ = s.frames.drop (s.frameCount - tf.frameSave)
    rw [← htop, List.drop_append_of_le_length drops]
  · have tail := OwnTries.tail ht
    rwa [ts] at tail
  · change _ < (s.frames.drop (s.frameCount - tf.frameSave)).length
    simp only [List.length_drop, VM.frameCount] at above ⊢
    omega

/-- A re-entrant activation that satisfies the guard handles its errors. -/
lemma handled_of_own {e s : VM ν} (f : Failing e s) (re : Reentrant e)
    (own : s.tryStack = [] ∨ ¬ s.tryStack.map TryFrame.core <:+ e.tryStack.map TryFrame.core) :
    Handled e s := by
  have w := f.2 re
  obtain ⟨frames, rest, hs, hrest, howns⟩ := w.tries
  cases frames with
  | nil =>
    obtain rfl : s.tryStack = rest := hs
    have empty : s.tryStack = [] := own.resolve_right (not_not.mpr hrest)
    exact .inl ⟨by rw [handleError, empty, unwind], f.1⟩
  | cons tf frames =>
    obtain ⟨save, catches⟩ := howns tf List.mem_cons_self
    obtain ⟨p, hp⟩ := Option.isSome_iff_exists.mp catches
    refine .inr ⟨tf, frames ++ rest, p, _, hs, save, hp, ?_, rfl, within_unwound w hs save false⟩
    rw [handleError, hs, List.cons_append, unwind]
    simp only [hp]
    rfl

/-- Unwinding an activation that is not re-entrant. -/
lemma unwind_pending {e : VM ν} (tfs : List TryFrame) {s : VM ν} (hasError : s.hasError)
    (re : ¬ Reentrant e) : (unwind tfs s).All (fun s => Entered e s ∧ Confined s s) Finished (Confined e)
      (Failing e) (Finished e) := by
  have any (s : VM ν) : Confined e s := fun h => absurd h re
  induction tfs generalizing s with
  | nil => exact ⟨fun _ => hasError, fun h => absurd h re⟩
  | cons tf tfs ih =>
    simp only [unwind]
    split
    · exact confines_setIp _ _ (any _)
    · exact confines_setIp _ _ (any _)
    · exact ih hasError

/-- Unwinding keeps to the bounds of the activation. -/
lemma confines_handleError {e s : VM ν} {outer : List (Suspended (VM ν) VMResult Crash)}
    (f : Failing e s) (own : OwnHandlers (.raised e s outer)) :
    (handleError s).All (fun s => Entered e s ∧ Confined s s) Finished (Confined e) (Failing e)
      (Finished e) := by
  by_cases re : Reentrant e
  · obtain ⟨stops, hasError⟩ | ⟨tf, rest, p, s', -, -, -, handles, -, w⟩ := handled_of_own f re (own re)
    · rw [stops]
      exact ⟨fun _ => hasError, fun _ => (f.2 re).toLeft⟩
    · rw [handles]
      exact confines_setIp p s' fun _ => w
  · exact unwind_pending _ f.1 re

/-! ### Runs -/

section Runs

variable [F64 ν]

/-- What is to hold in a configuration of an activation that waits for none inside it, and of the error it
has raised. An activation that another one has entered is re-entrant. -/
def KeepsOut : Config (VM ν) VMResult Crash → Prop
  | .running e s outer => (outer ≠ [] → Reentrant e) ∧ (Reentrant e → Within e s)
  | .raised e s outer => (outer ≠ [] → Reentrant e) ∧ (Reentrant e → Within e s ∧ Handled e s)
  | _ => True

omit [F64 ν] in
lemma reentrant_of_waiting {J F N} {e₀ e : VM ν} {outer : List (Suspended (VM ν) VMResult Crash)}
    (h : Waiting Entered J F N e₀ e outer) (inner : outer ≠ []) : Reentrant e := by
  cases outer with
  | nil => exact absurd rfl inner
  | cons a outer => exact h.1.1

/-- Every activation of a run keeps its invariant. -/
lemma confined_run {E : Env ν} {vm : VM ν} {c : Config (VM ν) VMResult Crash}
    (rs : (interp E).Reaches OwnHandlers (start vm) c) : Holds Entered Confined Failing Finished vm c := by
  have entry : Confined vm vm := fun re => within_self re.1
  exact rs.holds (fun e s outer _ c => confines_step E s c) (fun e s outer own f => confines_handleError f own) entry

/-- The caller's frames are there, and below others as long as the run goes on. -/
def Hides (base : List Frame) : Config (VM ν) VMResult Crash → Prop
  | .running _ s _ => base <:+ s.frames ∧ base.length < s.frameCount
  | .raised _ s _ => base <:+ s.frames ∧ base.length < s.frameCount
  | .done _ s => base <:+ s.frames
  | .crashed _ => True

omit [F64 ν] in
/-- Activations within an activation stand above its caller's frames, too. -/
lemma above_of_waiting {J F N} {e₀ e : VM ν} {outer : List (Suspended (VM ν) VMResult Crash)}
    (h : Waiting Entered J F N e₀ e outer) (re : Reentrant e₀) : Reentrant e ∧ e₀.base <:+ e.base := by
  induction outer generalizing e with
  | nil =>
    obtain rfl : e = e₀ := h
    exact ⟨re, List.suffix_refl _⟩
  | cons a outer ih =>
    obtain ⟨⟨inner, grown⟩, -, rest⟩ := h
    obtain ⟨outer_re, above⟩ := ih rest
    exact ⟨inner, above.trans (grown outer_re)⟩

omit [F64 ν] in
lemma Within.hides {e₀ e s : VM ν} (w : Within e s) (above : e₀.base <:+ e.base) :
    e₀.base <:+ s.frames ∧ e₀.base.length < s.frameCount :=
  ⟨above.trans w.frames, Nat.lt_of_le_of_lt above.length_le w.above⟩

/-- In every such run of a re-entrant activation, no code of its caller runs: the caller's frames stay where they
are until the run is over. -/
theorem nested_hides {E : Env ν} {vm : VM ν} {c : Config (VM ν) VMResult Crash}
    (rs : (interp E).Reaches OwnHandlers (start vm) c) (re : Reentrant vm) : Hides vm.base c := by
  have h := confined_run rs
  cases c with
  | running e s outer =>
    obtain ⟨inner, above⟩ := above_of_waiting h.2 re
    exact (h.1 inner).hides above
  | raised e s outer =>
    obtain ⟨inner, above⟩ := above_of_waiting h.2 re
    exact (h.1.2 inner).hides above
  | done r s => exact (h.2 re).frames
  | crashed k => trivial

/-! ### An error that escapes -/

instance (e : VM ν) : Decidable (Reentrant e) := inferInstanceAs (Decidable (_ ∧ _))

instance (c : Config (VM ν) VMResult Crash) : Decidable (OwnHandlers c) :=
  match c with
  | .raised _ _ _ => inferInstanceAs (Decidable (_ → _))
  | .running _ _ _ => .isTrue trivial
  | .done _ _ => .isTrue trivial
  | .crashed _ => .isTrue trivial

end Runs

/-- A native that calls back the function it is given, as `array.map` does. -/
def callbackEnv : Env Int where
  natives := [fun args => .callValue (args.headD .null) [] 1 fun failed _ => if failed then .stop else .done []]

/-- A script that hands a callback at 3 to the native within a `TRY` of its own. The callback throws, in a
`TRY` of its own or not. -/
def callbackChunk (inner : Bool) : Chunk Int where
  code := [{ op := .tryBegin, a := 20 }, { op := .const }, { op := .closure, a := 1 },
    { op := .call, a := 1 }, { op := .tryEnd }, { op := .halt },
    (if inner then { op := .tryBegin, a := 6 } else { op := .const }), { op := .const }, { op := .throw, a := 1 },
    { op := .catchBegin, a := 1 }, { op := .return, a := 1 }].flatMap Instr.encode
  constants := [.number (-1), .number 14]
  localCount := 1

def callbackState (inner : Bool) : VM Int where
  stack := [.null]
  frames := [⟨0, ⟨0, 0⟩, 0, false⟩]
  chunks := [callbackChunk inner]

/-- The script after `n` steps. -/
@[irreducible] def callbackRun (inner : Bool) (n : Nat) : Config (VM Int) VMResult Crash :=
  (interp callbackEnv).steps n (start (callbackState inner))

lemma reaches_callbackRun {G : Config (VM Int) VMResult Crash → Prop} {inner : Bool} {n : Nat}
    (h : ∀ i < n, G (callbackRun inner i)) :
    (interp callbackEnv).Reaches G (start (callbackState inner)) (callbackRun inner n) := by
  unfold callbackRun at h ⊢
  exact reaches_steps_of _ n h

/-- The frames that an activation found below its own when it was entered, and those it has now. -/
def baseAndFrames : Config (VM ν) VMResult Crash → Option (List Frame × List Frame)
  | .running e s (_ :: _) => some (e.base, s.frames)
  | _ => none

/-- A nested run that has no more frames than its caller has left its bounds. -/
lemma not_keepsOut {c : Config (VM ν) VMResult Crash} {base frames : List Frame}
    (h : baseAndFrames c = some (base, frames)) (le : frames.length ≤ base.length) : ¬ KeepsOut c := by
  intro keeps
  cases c with
  | running e s outer =>
    cases outer with
    | nil => cases h
    | cons a outer =>
      obtain ⟨rfl, rfl⟩ := Prod.mk.inj (Option.some.inj h)
      exact absurd (keeps.2 (keeps.1 (List.cons_ne_nil a outer))).above (Nat.not_lt.mpr le)
  | _ => cases h

end Cando
