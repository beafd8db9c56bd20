import Cando.Vm.CoreExpression

/-!
# Running the code of the core: statements

The code of a row of statements does what the statements mean: the machine comes to the end of the code, or to where
the loop around it is left or goes on, or raises the error that the statements end in; and it runs on while their fuel
lasts. The induction is over the statements, and inside a loop over its turns. A loop runs its body under one loop frame
more and a TRY under one try frame more; what an error leaves behind is what the handler of the TRY begins with.
-/

namespace Cando.Lang

open Program Machine

variable {ν : Type} {E : Env ν} {K : Site ν} {off : Nat} {temps : List (Value ν)} {s : State ν} {vm : VM ν}
  {v : Value ν} {fuel : Nat} {lf : LoopFrame} {tf : TryFrame}

/-! ### Loops -/

/-- The site in the body of a loop. -/
def Site.inside (K : Site ν) (lf : LoopFrame) : Site ν := { K with marks := K.marks ++ [lf] }

/-- The site in the middle of a TRY. -/
def Site.guarded (K : Site ν) (tf : TryFrame) : Site ν := { K with tries := tf :: K.tries }

/-- Where the machine is when statements have ended: behind their code, or where the loop around them is left or goes
on. -/
def Behind (K : Site ν) (off : Nat) : Ending → State ν → VM ν → Prop
  | .normal, s, vm => K.At off [] s vm
  | .broken, s, vm => ∃ (J : Site ν) (lf : LoopFrame), K = J.inside lf ∧ J.At lf.breakIp.off [] s vm
  | .continued, s, vm => ∃ (J : Site ν) (lf : LoopFrame), K = J.inside lf ∧ J.At lf.contIp.off [] s vm

/-- The loop frame of a WHILE in this code. -/
structure Site.OfWhile (K : Site ν) (lf : LoopFrame) : Prop where
  breakIp : lf.breakIp.chunk = K.frame.ip.chunk
  contIp : lf.contIp.chunk = K.frame.ip.chunk
  save : lf.stackSave = K.height
  type : lf.loopType = loopWhile

/-- The code stands in the body of a loop. -/
def Looping (K : Site ν) : Prop := ∃ (J : Site ν) (lf : LoopFrame), K = J.inside lf ∧ J.OfWhile lf

lemma Site.Valid.inside (h : K.Valid) (lf : LoopFrame) : (K.inside lf).Valid := ⟨h.closure, h.chunk, h.slots, h.short⟩

lemma Site.Valid.guarded (h : K.Valid) (tf : TryFrame) : (K.guarded tf).Valid := ⟨h.closure, h.chunk, h.slots, h.short⟩

lemma Site.inside_inj {J : Site ν} {lf' : LoopFrame} (h : K.inside lf = J.inside lf') : J = K ∧ lf' = lf := by
  obtain ⟨frame, callers, chunk, base, width, marks, tries, rest⟩ := K
  obtain ⟨frame', callers', chunk', base', width', marks', tries', rest'⟩ := J
  simp only [Site.inside, Site.mk.injEq] at h
  obtain ⟨rfl, rfl, rfl, rfl, rfl, same, rfl, rfl⟩ := h
  obtain ⟨rfl, last⟩ := List.append_inj' same rfl
  exact ⟨rfl, (List.singleton_inj.mp last).symm⟩

lemma Behind.cut {ending : Ending} (h : Behind K off ending s vm) (n : Nat) : Behind K off ending (s.cut n) vm := by
  cases ending with
  | normal => exact Site.At.cut h n
  | broken | continued =>
    obtain ⟨J, lf, inside, at_⟩ := h
    exact ⟨J, lf, inside, at_.cut n⟩

/-- An error in the body of a loop is one around it. -/
lemma Site.Raised.outside (h : (K.inside lf).Raised v s vm) : K.Raised v s vm :=
  ⟨h.frames, h.stack, h.store, h.value, h.failed, (List.prefix_append _ _).trans h.marks, h.tries, h.rest⟩

/-- A target in the code. -/
lemma Site.At.targetAt (h : K.At off temps s vm) {d : Int} {target : Nat} (e : (off : Int) + d = target) :
    Cando.targetAt d vm = .ok ⟨K.frame.ip.chunk, target⟩ vm := by
  have inside : ¬ ((off : Int) + d < 0) := by omega
  rw [Cando.targetAt, bind_apply, h.frame, Outcome.bind_ok]
  show (if (off : Int) + d < 0 then crash .undefined else pure ⟨K.frame.ip.chunk, ((off : Int) + d).toNat⟩ :
    M ν CodePtr)
    vm = _
  rw [if_neg inside, e]
  rfl

/-- A loop begins. -/
lemma Site.At.loopMark (h : K.At off [] s vm) (room : K.marks.length < loopMax) {fwd back target start : Nat}
    (forward : off + fwd = target) (backward : start + back = off) (small : back < 16384) :
    ∃ lf, K.OfWhile lf ∧ lf.breakIp.off = target ∧ lf.contIp.off = start ∧
      ∃ vm', opLoopMark fwd back vm = .ok () vm' ∧ (K.inside lf).At off [] s vm' := by
  let lf : LoopFrame := ⟨⟨K.frame.ip.chunk, target⟩, ⟨K.frame.ip.chunk, start⟩, K.height, loopWhile⟩
  refine ⟨lf, ⟨rfl, rfl, rfl, rfl⟩, rfl, rfl, pushLoop lf vm, ?_, ?_⟩
  · have below : ¬ vm.loopDepth ≥ loopMax := by
      rw [h.depth]
      omega
    have breakIp : Cando.targetAt (fwd : Int) vm = .ok ⟨K.frame.ip.chunk, target⟩ vm := h.targetAt (by omega)
    have contIp : Cando.targetAt (-(back % 16384 : Nat) : Int) vm = .ok ⟨K.frame.ip.chunk, start⟩ vm := by
      apply h.targetAt
      rw [Nat.mod_eq_of_lt small]
      omega
    have type : back / 16384 % 4 = loopWhile := by
      rw [Nat.div_eq_of_lt small]
      rfl
    have height : vm.height = K.height := by rw [h.height, List.length_nil, Nat.zero_add]
    rw [opLoopMark, bind_apply, get_apply, Outcome.bind_ok, bind_apply, Program.when, if_neg below, pure_apply,
      Outcome.bind_ok, bind_apply, breakIp, Outcome.bind_ok, bind_apply, contIp, Outcome.bind_ok, modify_apply, type,
      height]
  · have taken : vm.loopStack.take vm.loopDepth = K.marks := by
      rw [h.depth]
      exact (List.prefix_iff_eq_take.mp h.marks).symm
    refine { h with depth := ?_, marks := ?_, rest := h.rest }
    · show vm.loopDepth + 1 = (K.marks ++ [lf]).length
      rw [h.depth, List.length_append, List.length_singleton]
    · show K.marks ++ [lf] <+: vm.loopStack.take vm.loopDepth ++ lf :: vm.loopStack.drop (vm.loopDepth + 1)
      rw [taken]
      exact (List.prefix_append_right_inj K.marks).mpr ⟨_, rfl⟩

/-- A loop ends. -/
lemma Site.At.loopEnd (h : (K.inside lf).At off temps s vm) :
    ∃ vm', opLoopEnd vm = .ok () vm' ∧ K.At off temps s vm' := by
  refine ⟨{ vm with loopDepth := vm.loopDepth - 1 }, rfl, ?_⟩
  refine ⟨h.frames, h.stack, h.store, h.quiet, ?_, (List.prefix_append _ _).trans h.marks, h.tries, h.rest⟩
  show vm.loopDepth - 1 = K.marks.length
  rw [h.depth, Site.inside, List.length_append, List.length_singleton, Nat.add_sub_cancel]

/-- The loop frame by which BREAK and CONTINUE leave. -/
lemma Site.At.loopAt (h : (K.inside lf).At off temps s vm) (word : String) :
    Cando.loopAt word 0 vm = .ok (K.marks.length, lf) vm := by
  have depth : vm.loopDepth = K.marks.length + 1 := by
    rw [h.depth, Site.inside, List.length_append, List.length_singleton]
  have there : vm.loopStack[K.marks.length]? = some lf := by
    obtain ⟨tail, e⟩ := h.marks
    rw [← e, Site.inside, List.append_assoc, List.getElem?_append_right (Nat.le_refl _), Nat.sub_self]
    rfl
  have within : ¬ (vm.loopDepth = 0 ∨ 0 ≥ vm.loopDepth) := by omega
  have index : vm.loopDepth - 1 - 0 = K.marks.length := by omega
  rw [Cando.loopAt, bind_apply, get_apply, Outcome.bind_ok, if_neg within]
  simp only [index, there]
  rfl

lemma setIp_apply (h : (K.inside lf).At off temps s vm) {p : CodePtr} (chunk : p.chunk = K.frame.ip.chunk) :
    setIp p vm = .ok () { vm with frames := K.frame.goto p.off :: K.callers } := by
  obtain ⟨c, o⟩ := p
  obtain rfl : c = K.frame.ip.chunk := chunk
  rw [setIp, h.frames]
  rfl

variable [F64 ν]

/-- BREAK leaves the loop. -/
lemma Site.At.break (h : (K.inside lf).At off [] s vm) (loop : K.OfWhile lf) :
    ∃ vm', opBreak 0 vm = .ok () vm' ∧ K.At lf.breakIp.off [] s vm' := by
  obtain ⟨window, holds, stack⟩ := h.stack
  let cut := vm.popTo lf.stackSave
  have same : cut.stack = window := by
    show vm.stack.drop (vm.height - lf.stackSave) = window
    rw [h.height, loop.save, List.length_nil, Nat.zero_add]
    show vm.stack.drop (K.height - K.height) = window
    rw [Nat.sub_self]
    exact stack
  have at_ : (K.inside lf).At off [] s { cut with spreadExtra := 0 } :=
    { h with stack := ⟨window, holds, same⟩, rest := h.rest }
  refine ⟨{ cut with
    spreadExtra := 0, frames := K.frame.goto lf.breakIp.off :: K.callers, loopDepth := K.marks.length },
    ?_, ⟨rfl, ⟨window, holds, same⟩, h.store, h.quiet, rfl, (List.prefix_append _ _).trans h.marks, h.tries, h.rest⟩⟩
  rw [opBreak, bind_apply, h.loopAt, Outcome.bind_ok]
  show ((Cando.popTo lf.stackSave >>= fun _ => dropLoopState lf.loopType >>= fun _ => _) : M ν Unit) vm = _
  rw [loop.type]
  show (setIp lf.breakIp >>= fun _ => Program.modify fun vm => { vm with loopDepth := K.marks.length } : M ν Unit)
    { cut with spreadExtra := 0 } = _
  rw [bind_apply, setIp_apply at_ loop.breakIp]
  rfl

omit [F64 ν] in
/-- CONTINUE goes on with the loop. -/
lemma Site.At.continue (h : (K.inside lf).At off [] s vm) (loop : K.OfWhile lf) :
    ∃ vm', opContinue 0 vm = .ok () vm' ∧ K.At lf.contIp.off [] s vm' := by
  refine ⟨{ vm with frames := K.frame.goto lf.contIp.off :: K.callers, loopDepth := K.marks.length }, ?_,
    ⟨rfl, h.stack, h.store, h.quiet, rfl, (List.prefix_append _ _).trans h.marks, h.tries, h.rest⟩⟩
  rw [opContinue, bind_apply, h.loopAt, Outcome.bind_ok]
  show (setIp lf.contIp >>= fun _ => Program.modify fun vm => { vm with loopDepth := K.marks.length } : M ν Unit) vm = _
  rw [bind_apply, setIp_apply h loop.contIp]
  rfl

/-! ### Jumps -/

/-- A jump forward over `n` bytes. -/
lemma jump_follows (valid : K.Valid) {n : Nat} (placed : K.Placed off (code .jump (toU16 n) 0)) (small : n < 32768)
    (h : K.At off temps s vm) :
    Follows E K fuel vm (fun _ s' vm' => s' = s ∧ K.At (off + 3 + n) temps s vm') (.ok () s) := by
  refine .instr h valid placed ⟨toU16_lt (n : Int), rfl⟩ fun vm₁ h₁ => ?_
  obtain ⟨vm₂, run, at₂⟩ := h₁.jumpBy (toI16 (toU16 n)) (off + 3 + n) (by rw [toI16_toU16 small]; rfl)
  exact ⟨vm₂, run, rfl, at₂⟩

/-- The condition of an IF or a WHILE: what it guards begins behind a pop on both sides. -/
lemma guard_follows (valid : K.Valid) {n : Nat} (placed : K.Placed off (code .jumpIfFalse (toU16 n) 0))
    (small : n < 32768) (h : K.At off (v :: temps) s vm) :
    Follows E K fuel vm (fun _ s' vm' => s' = s ∧
      K.At (if v.isTruthy = false then off + 3 + n else off + 3) (v :: temps) s vm') (.ok () s) :=
  jumpIf_follows .jumpIfFalse valid false rfl (fun _ fits => ⟨fits, rfl⟩) (fun _ => rfl) placed small h

/-! ### Errors -/

omit [F64 ν] in
/-- A TRY begins. -/
lemma Site.At.tryBegin (h : K.At off [] s vm) (room : K.tries.length < tryMax) {n : Nat} (small : n < 32768) :
    ∃ tf, tf.catchIp = some ⟨K.frame.ip.chunk, off + n⟩ ∧ tf.stackSave = K.height ∧
      tf.frameSave = K.callers.length + 1 ∧ tf.loopSave = K.marks.length ∧
      ∃ vm', opTryBegin (toU16 n) vm = .ok () vm' ∧ (K.guarded tf).At off [] s vm' := by
  let tf : TryFrame := ⟨some ⟨K.frame.ip.chunk, off + n⟩, none, K.height, K.callers.length + 1, K.marks.length⟩
  refine ⟨tf, rfl, rfl, rfl, rfl, { vm with tryStack := tf :: vm.tryStack }, ?_, ?_⟩
  · have target : Cando.targetAt (toI16 (toU16 n)) vm = .ok ⟨K.frame.ip.chunk, off + n⟩ vm := by
      apply h.targetAt
      rw [toI16_toU16 small]
      rfl
    have below : ¬ vm.tryDepth ≥ tryMax := by
      rw [VM.tryDepth, h.tries]
      omega
    have height : vm.height = K.height := by rw [h.height, List.length_nil, Nat.zero_add]
    have frames : vm.frameCount = K.callers.length + 1 := by rw [VM.frameCount, h.frames, List.length_cons]
    rw [opTryBegin, bind_apply, target, Outcome.bind_ok, bind_apply, get_apply, Outcome.bind_ok, bind_apply,
      Program.when,
      if_neg below, pure_apply, Outcome.bind_ok, modify_apply, height, frames, h.depth]
  · exact { h with tries := congrArg (tf :: ·) h.tries, rest := h.rest }

omit [F64 ν] in
/-- A TRY ends without an error. -/
lemma Site.At.tryEnd (h : (K.guarded tf).At off temps s vm) : ∃ vm', opTryEnd vm = .ok () vm' ∧ K.At off temps s vm' :=
  ⟨{ vm with tryStack := vm.tryStack.tail }, rfl,
    ⟨h.frames, h.stack, h.store, h.quiet, h.depth, h.marks, congrArg List.tail h.tries, h.rest⟩⟩

omit [F64 ν] in
/-- An error in the middle of a TRY is caught. -/
lemma Site.Raised.caught (h : (K.guarded tf).Raised v s vm) {target : Nat}
    (catchIp : tf.catchIp = some ⟨K.frame.ip.chunk, target⟩) (save : tf.stackSave = K.height)
    (frames : tf.frameSave = K.callers.length + 1) (loops : tf.loopSave = K.marks.length) :
    ∃ vm', handleError vm = .ok () vm' ∧ K.At target [] s vm' ∧ vm'.errorVals = [v] := by
  obtain ⟨off, there⟩ := h.frames
  obtain ⟨temps, window, holds, stack⟩ := h.stack
  have count : vm.frameCount - tf.frameSave = 0 := by
    rw [VM.frameCount, there, List.length_cons, frames]
    exact Nat.sub_self _
  have popped : (vm.popTo tf.stackSave).stack = window := by
    have length : window.length = K.height := holds.length
    rw [save, ← length]
    exact VM.popTo_window temps stack
  refine ⟨{ vm.popTo tf.stackSave with
    frames := K.frame.goto target :: K.callers, loopDepth := K.marks.length, tryStack := K.tries, hasError := false },
    ?_, ⟨rfl, ⟨window, holds, popped⟩, h.store, rfl, rfl, h.marks, rfl, h.rest⟩, h.value⟩
  rw [handleError, h.tries, Site.guarded, unwind, catchIp, count, List.drop_zero, there, loops]
  rfl

/-- The handler of a TRY begins with the value of the error in a variable of its own. -/
lemma catch_follows (valid : K.Valid) (room : K.height < stackMax) {names : List Str} (x : Str)
    (same : s.names = names) (free : names.length < K.width)
    (placed : K.Placed off (code .catchBegin 1 0 ++ code .defLocal (names.length % 65536) 0)) (h : K.At off [] s vm)
    (value : vm.errorVals = [v]) :
    Follows E K fuel vm (fun _ s' vm' => s' = s.declare false x v ∧ K.At (off + 6) [] s' vm')
      (.ok () (s.declare false x v)) := by
  have bound : stackMax = 2048 := rfl
  have small : names.length < 65536 := by
    rw [Site.height] at room
    omega
  have length : s.scope.length = names.length := by rw [← same, State.names, List.length_map]
  refine (Follows.next h valid placed.left ⟨by decide, rfl⟩ fun vm₁ at₁ kept => ?_).weaken (Nat.le_add_left _ 1)
  obtain ⟨vm₂, pushed, at₂⟩ := at₁.push (by rw [List.length_nil, Nat.zero_add]; exact room) v
  refine ⟨{ vm₂ with errorVals := [] }, ?_, ?_⟩
  · show opCatchBegin 1 vm₁ = _
    rw [opCatchBegin, bind_apply, get_apply, Outcome.bind_ok, kept, value]
    show (pushAll [v] >>= fun _ => Program.modify fun vm => { vm with errorVals := [] } : M ν Unit) vm₁ = _
    rw [pushAll, bind_apply, bind_apply, pushed]
    rfl
  · have at₃ : K.At (off + 3) [v] s { vm₂ with errorVals := [] } := { at₂ with rest := at₂.rest }
    rw [Nat.mod_eq_of_lt small] at placed
    refine .instr at₃ valid placed.right ⟨small, rfl⟩ fun vm₄ at₄ => ?_
    obtain ⟨vm₅, defined, at₅⟩ := at₄.define valid x (by omega)
    refine ⟨vm₅, ?_, rfl, at₅⟩
    rw [← length]
    exact defined

/-! ### Statements -/

lemma leave_follows {r : Result ν Ending} (h : Follows E K fuel vm (Behind K off) r) (n : Nat) :
    Follows E K fuel vm (Behind K off) (leave n r) := by
  cases r with
  | ok ending s =>
    obtain ⟨m, vm', goes, behind⟩ := h
    exact ⟨m, vm', goes, behind.cut n⟩
  | error | stuck | timeout => exact h

/-- More code behind statements runs if they end at their end. -/
lemma then_follows {off' : Nat} {r : Result ν Ending} (h : Follows E K fuel vm (Behind K off) r)
    (rest : ∀ s vm, K.At off [] s vm → Follows E K fuel vm (Behind K off') (.ok .normal s)) :
    Follows E K fuel vm (Behind K off') r := by
  cases r with
  | ok ending s =>
    cases ending with
    | normal =>
      obtain ⟨n, vm', goes, at_⟩ := h
      exact ((rest s vm' at_).after goes).weaken (Nat.le_add_left _ _)
    | broken | continued => exact h
  | error | stuck | timeout => exact h

/-- An `ifElse`, given what its parts do. -/
lemma if_follows (valid : K.Valid) {c : Expr} {bc ba bb : List UInt8} {yes no : State ν → Result ν Ending}
    (placed : K.Placed off (bc ++ (code .jumpIfFalse (toU16 (1 + (ba.length + 3))) 0 ++ (code .pop 0 0 ++
      (ba ++ (code .jump (toU16 (1 + bb.length)) 0 ++ (code .pop 0 0 ++ bb)))))))
    (cond : Follows E K fuel vm (Yields K (off + bc.length) [] s.names) (eval c s))
    (first : ∀ {off s' vm}, s'.names = s.names → K.Placed off ba → K.At off [] s' vm →
      Follows E K fuel vm (Behind K (off + ba.length)) (yes s'))
    (second : ∀ {off s' vm}, s'.names = s.names → K.Placed off bb → K.At off [] s' vm →
      Follows E K fuel vm (Behind K (off + bb.length)) (no s')) :
    Follows E K fuel vm (Behind K (off + (bc.length + (3 + (1 + (ba.length + (3 + (1 + bb.length))))))))
      ((eval c s).bind fun v s => leave s.scope.length (if v.isTruthy then yes s else no s)) := by
  have short := placed_short valid placed
  simp only [List.length_append, code_length] at short
  have across : toU16 (1 + (ba.length + 3)) = toU16 ((1 + (ba.length + 3) : Nat) : Int) := by push_cast; rfl
  have past : toU16 (1 + bb.length) = toU16 ((1 + bb.length : Nat) : Int) := by push_cast; rfl
  rw [across, past] at placed
  refine cond.bind fun v s₁ vm₁ ⟨names, at₁⟩ => ?_
  refine (guard_follows valid placed.right.left (by omega) at₁).bind (f := fun _ s => leave s.scope.length
    (if v.isTruthy then yes s else no s)) fun _ s₂ vm₂ ⟨same, at₂⟩ => leave_follows ?_ _
  subst same
  have inside := placed.right.right
  have beyond := inside.right.right.right
  rw [code_length] at inside beyond
  rw [code_length, code_length] at beyond
  by_cases truthy : v.isTruthy
  · rw [if_pos truthy]
    rw [truthy, if_neg nofun] at at₂
    refine (pop_follows valid inside.left at₂).bind (f := fun _ s => yes s) fun _ s₃ vm₃ ⟨same, at₃⟩ => ?_
    subst same
    refine then_follows (first names inside.right.left at₃) fun s₄ vm₄ at₄ => ?_
    refine (jump_follows valid inside.right.right.left (by omega) at₄).bind (f := fun _ s => .ok Ending.normal s)
      fun _ s₅ vm₅ ⟨same, at₅⟩ => .ok ?_
    subst same
    have target : off + bc.length + 3 + 1 + ba.length + 3 + (1 + bb.length) =
        off + (bc.length + (3 + (1 + (ba.length + (3 + (1 + bb.length)))))) := by omega
    exact target ▸ at₅
  · rw [if_neg truthy]
    rw [if_pos (Bool.not_eq_true _ ▸ truthy)] at at₂
    have target : off + bc.length + 3 + (1 + (ba.length + 3)) = off + bc.length + 3 + 1 + ba.length + 3 := by omega
    rw [target] at at₂
    refine (pop_follows valid beyond.left at₂).bind (f := fun _ s => no s) fun _ s₃ vm₃ ⟨same, at₃⟩ => ?_
    subst same
    have target : off + bc.length + 3 + 1 + ba.length + 3 + 1 + bb.length =
        off + (bc.length + (3 + (1 + (ba.length + (3 + (1 + bb.length)))))) := by omega
    exact target ▸ second names beyond.right at₃

/-- A `whileLoop`, given what its parts do. Each turn takes a step at least, so the loop runs as long as its fuel. -/
lemma while_follows (valid : K.Valid) {names : List Str} {c : Expr} {bc bb : List UInt8}
    {body : State ν → Result ν Ending} (room : K.marks.length < loopMax)
    (placed : K.Placed off (bc ++ (code .jumpIfFalse (toU16 (1 + (5 + (bb.length + (1 + 3))))) 0 ++ (code .pop 0 0 ++
      (code .loopMark (toU16 (bb.length + (1 + (3 + 1)))) (toU16 (bc.length + (3 + (1 + 5))) % 16384) ++
        (bb ++ (code .loopEnd 0 0 ++ (code .loop (toU16 (bc.length + (3 + (1 + (5 + (bb.length + (1 + 3))))))) 0 ++
          code .pop 0 0))))))))
    (cond : ∀ {s vm}, s.names = names → K.At off [] s vm →
      ∀ fuel, Follows E K fuel vm (Yields K (off + bc.length) [] names) (eval c s))
    (inner : ∀ {off lf s vm}, K.OfWhile lf → s.names = names → K.Placed off bb → (K.inside lf).At off [] s vm →
      Follows E (K.inside lf) fuel vm (Behind (K.inside lf) (off + bb.length)) (body s))
    (restores : ∀ s, Restores s (body s)) (turns : Nat) (le : turns ≤ fuel) (same : s.names = names)
    (h : K.At off [] s vm) :
    Follows E K turns vm (Behind K (off + (bc.length + (3 + (1 + (5 + (bb.length + (1 + (3 + 1)))))))))
      (loop (eval c) body turns s) := by
  have short : bc.length + (3 + (1 + (5 + (bb.length + (1 + (3 + 1)))))) ≤ 16384 := by
    have short := placed_short valid placed
    simp only [List.length_append, code_length] at short
    exact short
  have past : toU16 (1 + (5 + (bb.length + (1 + 3)))) = toU16 ((1 + (5 + (bb.length + (1 + 3))) : Nat) : Int) := by
    push_cast
    rfl
  have forward : toU16 (bb.length + (1 + (3 + 1))) = bb.length + 5 := by
    rw [toU16]
    omega
  have start : toU16 (bc.length + (3 + (1 + 5))) % 16384 = bc.length + 9 := by
    rw [toU16]
    omega
  have back : toU16 (bc.length + (3 + (1 + (5 + (bb.length + (1 + 3)))))) = bc.length + bb.length + 13 := by
    rw [toU16]
    omega
  rw [past, forward, start, back] at placed
  -- Where the parts of the code stand.
  have guard := placed.right.left
  have pop : K.Placed (off + bc.length + 3) (code .pop 0 0) := placed.right.right.left
  have mark : K.Placed (off + bc.length + 3 + 1) (code .loopMark (bb.length + 5) (bc.length + 9)) :=
    placed.right.right.right.left
  have inside : K.Placed (off + bc.length + 3 + 1 + 5) bb := placed.right.right.right.right.left
  have loopEnd : K.Placed (off + bc.length + 3 + 1 + 5 + bb.length) (code .loopEnd 0 0) :=
    placed.right.right.right.right.right.left
  have again : K.Placed (off + bc.length + 3 + 1 + 5 + bb.length + 1) (code .loop (bc.length + bb.length + 13) 0) :=
    placed.right.right.right.right.right.right.left
  have last : K.Placed (off + bc.length + 3 + 1 + 5 + bb.length + 1 + 3) (code .pop 0 0) :=
    placed.right.right.right.right.right.right.right
  induction turns generalizing s vm with
  | zero => exact .zero vm
  | succ turns ih =>
    rw [loop]
    refine (cond same h (turns + 1)).bind fun v s₁ vm₁ yields => ?_
    obtain ⟨names₁, at₁⟩ := yields
    refine (guard_follows valid guard (by omega) at₁).bind (f := fun _ s => if v.isTruthy then
      (body s).bind fun r s => if r = .broken then .ok .normal s else loop (eval c) body turns s
      else .ok .normal s) fun _ s₂ vm₂ landed => ?_
    obtain ⟨rfl, at₂⟩ := landed
    by_cases truthy : v.isTruthy
    · rw [if_pos truthy]
      rw [truthy, if_neg (Ne.symm Bool.false_ne_true)] at at₂
      rw [Nat.add_comm turns 1]
      refine .next at₂ valid pop ⟨rfl, rfl⟩ fun vm₃ at₃ _ => ?_
      obtain ⟨vm₄, popped, at₄⟩ := acts_pop at₃
      refine ⟨vm₄, popped, ?_⟩
      refine (Follows.next at₄ valid mark ⟨show bb.length + 5 < 65536 by omega, show bc.length + 9 < 65536 by omega⟩
        fun vm₅ at₅ _ => ?_).weaken (Nat.le_add_left _ 1)
      have at₅ : K.At (off + bc.length + 3 + 1 + 5) [] s₂ vm₅ := at₅
      have forth : off + bc.length + 3 + 1 + 5 + (bb.length + 5) =
          off + (bc.length + (3 + (1 + (5 + (bb.length + (1 + (3 + 1))))))) := by omega
      have behind : off + (bc.length + 9) = off + bc.length + 3 + 1 + 5 := by omega
      obtain ⟨lf, loop, breakIp, contIp, vm₆, marked, at₆⟩ := at₅.loopMark room forth behind (by omega)
      refine ⟨vm₆, marked, ?_⟩
      -- The body runs in the site of the loop.
      have follows := (inner loop names₁ inside at₆).knowing (restores s₂)
      refine ((follows.within (fun _ _ _ h => h) fun _ _ _ => Site.Raised.outside).weaken
        (Nat.le_of_succ_le le)).bind fun ending s₇ vm₇ left => ?_
      obtain ⟨behind, kept⟩ := left
      have names₇ : s₇.names = names := kept.trans names₁
      cases ending with
      | normal =>
        rw [if_neg (by rintro ⟨⟩)]
        refine (Follows.next behind (valid.inside lf) loopEnd ⟨rfl, rfl⟩ fun vm₈ at₈ _ => ?_).weaken
          (Nat.le_add_left _ 1)
        obtain ⟨vm₉, ended, at₉⟩ := at₈.loopEnd
        refine ⟨vm₉, ended, ?_⟩
        refine (Follows.next at₉ valid again ⟨show bc.length + bb.length + 13 < 65536 by omega, rfl⟩
          fun vm₁₀ at₁₀ _ => ?_).weaken (Nat.le_add_left _ 1)
        have at₁₀ : K.At (off + bc.length + 3 + 1 + 5 + bb.length + 1 + 3) [] s₇ vm₁₀ := at₁₀
        obtain ⟨vm₁₁, jumped, at₁₁⟩ := at₁₀.jumpBy (-((bc.length + bb.length + 13 : Nat) : Int)) off
          (by omega)
        exact ⟨vm₁₁, jumped, ih (Nat.le_of_succ_le le) names₇ at₁₁⟩
      | broken =>
        rw [if_pos rfl]
        obtain ⟨J, lf', same, at₇⟩ := behind
        obtain ⟨rfl, rfl⟩ := Site.inside_inj same
        rw [breakIp] at at₇
        exact .ok at₇
      | continued =>
        rw [if_neg (by rintro ⟨⟩)]
        obtain ⟨J, lf', same, at₇⟩ := behind
        obtain ⟨rfl, rfl⟩ := Site.inside_inj same
        rw [contIp] at at₇
        exact ih (Nat.le_of_succ_le le) names₇ at₇
    · rw [if_neg truthy]
      rw [if_pos (Bool.not_eq_true _ ▸ truthy)] at at₂
      have target : off + bc.length + 3 + (1 + (5 + (bb.length + (1 + 3)))) =
          off + bc.length + 3 + 1 + 5 + bb.length + 1 + 3 := by omega
      rw [target] at at₂
      refine (pop_follows valid last at₂).bind (f := fun _ s => .ok Ending.normal s) fun _ s₃ vm₃ popped => .ok ?_
      obtain ⟨rfl, at₃⟩ := popped
      have target : off + bc.length + 3 + 1 + 5 + bb.length + 1 + 3 + 1 =
          off + (bc.length + (3 + (1 + (5 + (bb.length + (1 + (3 + 1))))))) := by omega
      exact target ▸ at₃

/-- A `tryCatch`, given what its parts do: an error in the middle is caught in the state that it has left behind. -/
lemma try_follows (valid : K.Valid) {top : Bool} {a h : Stmt} {x : Str} {ba bh : List UInt8}
    (fits : a.Fits false) (room : K.tries.length < tryMax) (stack : K.height < stackMax)
    (free : s.names.length < K.width)
    (placed : K.Placed off (code .tryBegin (toU16 (ba.length + (1 + 3))) 0 ++ (ba ++ (code .tryEnd 0 0 ++
      (code .jump (toU16 (3 + (3 + bh.length))) 0 ++ (code .catchBegin 1 0 ++
        (code .defLocal (s.names.length % 65536) 0 ++ bh)))))))
    (inner : ∀ {off tf vm}, K.Placed off ba → (K.guarded tf).At off [] s vm →
      Follows E (K.guarded tf) fuel vm (Behind (K.guarded tf) (off + ba.length)) (exec fuel false a s))
    (outer : ∀ {off s' vm}, s'.names = x :: s.names → K.Placed off bh → K.At off [] s' vm →
      Follows E K fuel vm (Behind K (off + bh.length)) (exec fuel false h s'))
    (at_ : K.At off [] s vm) :
    Follows E K fuel vm (Behind K (off + (3 + (ba.length + (1 + (3 + (3 + (3 + bh.length))))))))
      (exec fuel top (.tryCatch a x h) s) := by
  have short : 3 + (ba.length + (1 + (3 + (3 + (3 + bh.length))))) ≤ 16384 := by
    have short := placed_short valid placed
    simp only [List.length_append, code_length] at short
    exact short
  have across : toU16 (ba.length + (1 + 3)) = toU16 ((ba.length + (1 + 3) : Nat) : Int) := by push_cast; rfl
  have past : toU16 (3 + (3 + bh.length)) = toU16 ((3 + (3 + bh.length) : Nat) : Int) := by push_cast; rfl
  rw [across, past] at placed
  have middle : K.Placed (off + 3) ba := placed.right.left
  have tryEnd : K.Placed (off + 3 + ba.length) (code .tryEnd 0 0) := placed.right.right.left
  have jump : K.Placed (off + 3 + ba.length + 1) (code .jump (toU16 ((3 + (3 + bh.length) : Nat) : Int)) 0) :=
    placed.right.right.right.left
  have handler : K.Placed (off + 3 + ba.length + 1 + 3) (code .catchBegin 1 0 ++
      code .defLocal (s.names.length % 65536) 0) := by
    have rest := placed.right.right.right.right
    rw [← List.append_assoc] at rest
    exact rest.left
  have last : K.Placed (off + 3 + ba.length + 1 + 3 + 6) bh := placed.right.right.right.right.right.right
  refine (Follows.next at_ valid placed.left ⟨toU16_lt ((ba.length + (1 + 3) : Nat) : Int), rfl⟩
    fun vm₁ at₁ _ => ?_).weaken (Nat.le_add_left _ 1)
  have at₁ : K.At (off + 3) [] s vm₁ := at₁
  obtain ⟨tf, catchIp, save, frames, loops, vm₂, began, at₂⟩ := at₁.tryBegin room (n := ba.length + (1 + 3)) (by omega)
  refine ⟨vm₂, began, ?_⟩
  have follows := leave_follows (inner middle at₂) s.scope.length
  have normal := (exec_normal fuel false fits s).leave s.scope.length
  have names := (exec_declares fuel false a s).leave
  rw [exec]
  cases result : leave s.scope.length (exec fuel false a s) with
  | ok ending s₃ =>
    rw [result] at follows normal
    obtain ⟨n, vm₃, goes, at₃⟩ := follows
    obtain rfl : ending = .normal := normal
    refine Follows.weaken (Follows.after goes ?_) (Nat.le_add_left _ _)
    refine (Follows.next (show (K.guarded tf).At _ _ _ _ from at₃) (valid.guarded tf) tryEnd ⟨rfl, rfl⟩
      fun vm₄ at₄ _ => ?_).weaken (Nat.le_add_left _ 1)
    obtain ⟨vm₅, ended, at₅⟩ := at₄.tryEnd
    refine ⟨vm₅, ended, ?_⟩
    have at₅ : K.At (off + 3 + ba.length + 1) [] s₃ vm₅ := at₅
    refine (jump_follows valid jump (by omega) at₅).bind (f := fun _ s => .ok Ending.normal s)
      fun _ s₆ vm₆ landed => .ok ?_
    obtain ⟨rfl, at₆⟩ := landed
    have target : off + 3 + ba.length + 1 + 3 + (3 + (3 + bh.length)) =
        off + (3 + (ba.length + (1 + (3 + (3 + (3 + bh.length)))))) := by omega
    exact target ▸ at₆
  | error v s₃ =>
    rw [result] at follows names
    obtain ⟨n, vm₃, throws, raised⟩ := follows
    obtain ⟨vm₄, caught, at₄, value⟩ := raised.caught catchIp save frames loops
    refine Follows.weaken (Follows.after (throws.caught caught) ?_) (Nat.le_add_left _ _)
    have same : (s₃.cut s.scope.length).names = s.names := State.names_cut names
    have target : off + 3 + (ba.length + (1 + 3)) = off + 3 + ba.length + 1 + 3 := by omega
    rw [target] at at₄
    refine leave_follows ?_ _
    refine (catch_follows valid stack x same free handler (at₄.cut _) value).bind (f := fun _ s => exec fuel false h s)
      fun _ s₅ vm₅ bound => ?_
    obtain ⟨same₅, at₅⟩ := bound
    have names₅ : s₅.names = x :: s.names := by
      rw [same₅, ← same]
      rfl
    have target : off + 3 + ba.length + 1 + 3 + 6 + bh.length =
        off + (3 + (ba.length + (1 + (3 + (3 + (3 + bh.length)))))) := by omega
    exact target ▸ outer names₅ last at₅
  | stuck => trivial
  | timeout =>
    rw [result] at follows
    exact follows

/-- There is room for what the statements need: on the stack, for loops and for TRYs. -/
structure Site.Room (K : Site ν) (a : Stmt) : Prop where
  stack : K.height + a.need ≤ stackMax
  loops : K.marks.length + a.loops ≤ loopMax
  tries : K.tries.length + a.tries ≤ tryMax

omit [F64 ν] in
lemma Site.Room.mono {a b : Stmt} (h : K.Room a) (need : b.need ≤ a.need) (loops : b.loops ≤ a.loops)
    (tries : b.tries ≤ a.tries) : K.Room b :=
  ⟨Nat.le_trans (Nat.add_le_add_left need _) h.stack, Nat.le_trans (Nat.add_le_add_left loops _) h.loops,
    Nat.le_trans (Nat.add_le_add_left tries _) h.tries⟩

/-- The value of an expression outside of all others. -/
lemma value_follows (valid : K.Valid) {e : Expr} {bs : List UInt8} (holds : e.Code K.chunk.constants s.names bs)
    (placed : K.Placed off bs) (room : K.height + e.need ≤ stackMax) (h : K.At off [] s vm) :
    Follows E K fuel vm (Yields K (off + bs.length) [] s.names) (eval e s) := by
  apply eval_follows valid holds placed _ h
  rw [List.length_nil, Nat.zero_add]
  exact room

/-- A declaration binds the value on top. -/
lemma declare_follows (valid : K.Valid) {top : Bool} {x : Str} {e : Expr} {bs : List UInt8}
    (holds : Stmt.Code K.chunk.constants K.width top s.names (.declare x e) bs) (room : K.height + e.need ≤ stackMax)
    (placed : K.Placed off bs) (h : K.At off [] s vm) :
    Follows E K fuel vm (Behind K (off + bs.length)) (exec fuel top (.declare x e) s) := by
  rw [exec]
  cases holds with
  | @global _ _ _ be ci holds there =>
    rw [List.length_append, code_length, ← Nat.add_assoc]
    refine (value_follows valid holds placed.left room h).bind fun v s₁ vm₁ yields => ?_
    refine .instr yields.2 valid placed.right ⟨there.2, rfl⟩ fun vm₂ at₂ => ?_
    obtain ⟨vm₃, popped, at₃⟩ := at₂.pop
    have store : vm₃.store = s₁.store := at₃.store
    refine ⟨{ vm₃ with store := (vm₃.store.setGlobal x v false).getD vm₃.store, spreadExtra := 0 }, ?_, ?_⟩
    · show opDefGlobal ci false vm₂ = _
      rw [opDefGlobal, bind_apply, at₂.nameAt valid there, Outcome.bind_ok, bind_apply, popped, Outcome.bind_ok,
        modify_apply]
    · rw [store]
      exact { at₃ with store := rfl, rest := at₃.rest }
  | @«local» _ _ _ be holds free =>
    rw [List.length_append, code_length, ← Nat.add_assoc]
    refine (value_follows valid holds placed.left room h).bind fun v s₁ vm₁ yields => ?_
    obtain ⟨names, at₁⟩ := yields
    have length : s₁.scope.length = s.names.length := by rw [← names, State.names, List.length_map]
    have bound : stackMax = 2048 := rfl
    have small : s.names.length < 65536 := by
      rw [Site.height] at room
      omega
    rw [Nat.mod_eq_of_lt small] at placed
    refine .instr at₁ valid placed.right ⟨small, rfl⟩ fun vm₂ at₂ => ?_
    obtain ⟨vm₃, defined, at₃⟩ := at₂.define valid x (by omega)
    refine ⟨vm₃, ?_, at₃⟩
    rw [← length]
    exact defined

/-- An error raised by a program. -/
lemma throw_follows (valid : K.Valid) (placed : K.Placed off (code .throw 1 0)) (h : K.At off (v :: temps) s vm)
    (P : Ending → State ν → VM ν → Prop) : Follows E K fuel vm P (.error v s) := by
  refine .instr h valid placed ⟨by decide, rfl⟩ fun vm₁ at₁ => ?_
  obtain ⟨window, holds, stack⟩ := at₁.stack
  have enough : ¬ vm₁.height < 1 := by
    rw [at₁.height, List.length_cons]
    omega
  have taken : take 1 vm₁ = .ok [v] { vm₁ with stack := temps ++ window, dead := [v] ++ vm₁.dead } :=
    take_stack [v] stack
  refine ⟨{ vm₁ with stack := temps ++ window, dead := [v] ++ vm₁.dead, errorVals := [v], hasError := true }, ?_, ?_⟩
  · show opThrow 1 vm₁ = _
    rw [opThrow]
    show (get >>= fun vm => Program.when (vm.height < 1) (crash .assertion) >>= fun _ => take 1 >>= fun vals =>
      Program.modify (fun vm => { vm with errorVals := vals, hasError := true }) >>= fun _ => raise : M ν Unit) vm₁ = _
    rw [bind_apply, get_apply, Outcome.bind_ok, bind_apply, Program.when, if_neg enough, pure_apply, Outcome.bind_ok,
      bind_apply, taken]
    rfl
  · exact ⟨⟨_, at₁.frames⟩, ⟨temps, window, holds, rfl⟩, at₁.store, rfl, rfl, at₁.marks, at₁.tries, at₁.rest⟩

/-- The code of a row of statements does what they mean. -/
lemma exec_follows (valid : K.Valid) {top inLoop : Bool} {a : Stmt} {bs : List UInt8} (fits : a.Fits inLoop)
    (holds : a.Code K.chunk.constants K.width top s.names bs) (looping : inLoop → Looping K) (room : K.Room a)
    (placed : K.Placed off bs) (h : K.At off [] s vm) :
    Follows E K fuel vm (Behind K (off + bs.length)) (exec fuel top a s) := by
  induction a generalizing K top inLoop off s vm bs with
  | nil =>
    cases holds with
    | nil => exact .ok h
  | empty =>
    cases holds with
    | empty => exact .ok h
  | seq a b iha ihb =>
    cases holds with
    | @seq _ _ _ _ ba bb first second =>
      have roomA : K.Room a := room.mono (Nat.le_max_left _ _) (Nat.le_max_left _ _) (Nat.le_max_left _ _)
      have roomB : K.Room b := room.mono (Nat.le_max_right _ _) (Nat.le_max_right _ _) (Nat.le_max_right _ _)
      have follows := (iha valid fits.1 first looping roomA placed.left h).knowing (exec_declares fuel top a s)
      refine follows.bind fun ending s' vm' ⟨behind, _, names⟩ => ?_
      cases ending with
      | normal =>
        rw [if_pos rfl, List.length_append, ← Nat.add_assoc]
        exact ihb valid fits.2 (names rfl ▸ second) looping roomB placed.right behind
      | broken | continued =>
        rw [if_neg nofun]
        exact .ok behind
  | expr e =>
    cases holds with
    | @expr _ _ _ bs holds =>
      refine (value_follows valid holds placed.left room.stack h).bind fun v s₁ vm₁ ⟨_, at₁⟩ => ?_
      refine (pop_follows valid placed.right at₁).bind (f := fun _ s => .ok Ending.normal s) fun _ s₂ vm₂ ⟨same, at₂⟩ =>
        .ok ?_
      subst same
      rw [List.length_append, code_length, ← Nat.add_assoc]
      exact at₂
  | declare x e => exact declare_follows valid holds room.stack placed h
  | block b ih =>
    cases holds with
    | block holds => exact leave_follows (ih valid fits holds looping ⟨room.stack, room.loops, room.tries⟩ placed h) _
  | ifElse c a b iha ihb =>
    cases holds with
    | @ifElse _ _ _ _ _ bc ba bb cond first second =>
      have stack : K.height + c.need ≤ stackMax :=
        Nat.le_trans (Nat.add_le_add_left (Nat.le_max_left _ _) _) room.stack
      have roomA : K.Room a := room.mono (Nat.le_trans (Nat.le_max_left _ _) (Nat.le_max_right _ _))
        (Nat.le_max_left _ _) (Nat.le_max_left _ _)
      have roomB : K.Room b := room.mono (Nat.le_trans (Nat.le_max_right _ _) (Nat.le_max_right _ _))
        (Nat.le_max_right _ _) (Nat.le_max_right _ _)
      have follows := if_follows valid placed (value_follows valid cond placed.left stack h)
        (fun names placed at_ => iha valid fits.2.1 (names ▸ first) looping roomA placed at_)
        (fun names placed at_ => ihb valid fits.2.2.1 (names ▸ second) looping roomB placed at_)
      simp only [List.length_append, code_length]
      exact follows
  | whileLoop c b ih =>
    cases holds with
    | @whileLoop _ _ _ _ bc bb cond inner =>
      have stack : K.height + c.need ≤ stackMax :=
        Nat.le_trans (Nat.add_le_add_left (Nat.le_max_left _ _) _) room.stack
      have deep : K.marks.length + (b.loops + 1) ≤ loopMax := room.loops
      have follows := while_follows valid
        (Nat.lt_of_lt_of_le (Nat.lt_add_of_pos_right b.loops.succ_pos) deep) placed
        (fun same at_ fuel => same ▸ value_follows valid (same ▸ cond) placed.left stack at_)
        (fun {off lf s vm} loop same placed at_ => leave_follows (ih (valid.inside lf) fits.2 (same ▸ inner)
          (fun _ => ⟨K, lf, rfl, loop⟩) ⟨Nat.le_trans (Nat.add_le_add_left (Nat.le_max_right _ _) _) room.stack, ?_,
            room.tries⟩ placed at_) _)
        (fun s => (exec_declares fuel false b s).leave) fuel (Nat.le_refl _) rfl h
      · simp only [List.length_append, code_length]
        exact follows
      · rw [Site.inside, List.length_append, List.length_singleton]
        omega
  | breakLoop =>
    cases holds with
    | breakLoop =>
      obtain ⟨J, lf, rfl, loop⟩ := looping fits
      refine .instr h valid placed ⟨by decide, rfl⟩ fun vm₁ at₁ => ?_
      obtain ⟨vm₂, broke, at₂⟩ := at₁.break loop
      exact ⟨vm₂, broke, J, lf, rfl, at₂⟩
  | continueLoop =>
    cases holds with
    | continueLoop =>
      obtain ⟨J, lf, rfl, loop⟩ := looping fits
      refine .instr h valid placed ⟨by decide, rfl⟩ fun vm₁ at₁ => ?_
      obtain ⟨vm₂, went, at₂⟩ := at₁.continue loop
      exact ⟨vm₂, went, J, lf, rfl, at₂⟩
  | tryCatch a x b iha ihb =>
    cases holds with
    | @tryCatch _ _ _ _ _ ba bb first second free =>
      have stack : K.height + max a.need (max 1 b.need) ≤ stackMax := room.stack
      have deep : K.tries.length + max (a.tries + 1) b.tries ≤ tryMax := room.tries
      have roomA (tf : TryFrame) : (K.guarded tf).Room a := by
        refine ⟨?_, Nat.le_trans (Nat.add_le_add_left (Nat.le_max_left _ _) _) room.loops, ?_⟩
        · show K.height + a.need ≤ stackMax
          omega
        · rw [Site.guarded, List.length_cons]
          omega
      have roomB : K.Room b := room.mono (Nat.le_trans (Nat.le_max_right _ _) (Nat.le_max_right _ _))
        (Nat.le_max_right _ _) (Nat.le_max_right _ _)
      have follows : Follows E K fuel vm _ (exec fuel top (.tryCatch a x b) s) :=
        try_follows valid fits.1 (by omega) (by omega) free placed
        (fun {off tf vm} placed at_ => iha (valid.guarded tf) fits.1 first nofun (roomA tf) placed at_)
        (fun names placed at_ => ihb valid fits.2 (names ▸ second) looping roomB placed at_) h
      simp only [List.length_append, code_length]
      exact follows
  | throwValue e =>
    cases holds with
    | @throwValue _ _ _ bs holds =>
      refine (value_follows valid holds placed.left room.stack h).bind fun v s₁ vm₁ ⟨_, at₁⟩ => ?_
      exact throw_follows valid placed.right at₁ _

end Cando.Lang
