import Cando.Vm.CoreStatement

/-!
# Running the code of the core: programs

A compiled program of the core under the entry points of the interpreter: `cando_vm_exec`, as `cando_dostring` calls it,
and `cando_vm_exec_eval`. An idle interpreter with room for the program runs it to the end that the program comes to.
A script leaves its frame behind, with the slots, and otherwise an idle interpreter; so scripts can follow one another
as long as there are frames.
-/

namespace Cando.Lang

open Program Machine

variable {ν : Type} {E : Env ν} {vm : VM ν} {chunk : Chunk ν} {a : Stmt} {fuel : Nat}

/-- No error is pending, and no loop or TRY is around. -/
structure Idle (vm : VM ν) : Prop where
  quiet : vm.hasError = false
  loops : vm.loopDepth = 0
  tries : vm.tryStack = []

/-- Above so many frames and values there is room to run the statements in a chunk, whose code has no long jumps. -/
structure Roomy (frames height : Nat) (chunk : Chunk ν) (a : Stmt) (need : Nat) : Prop where
  frames : frames < framesMax
  stack : height + max 1 chunk.localCount + max a.need need ≤ stackMax
  loops : a.loops ≤ loopMax
  tries : a.tries ≤ tryMax
  short : chunk.code.length ≤ 16384

/-- The site of a chunk that is entered from outside. -/
def Site.entered (closure : Nat) (vm : VM ν) (chunk : Chunk ν) : Site ν where
  frame := { closure, ip := ⟨closure, 0⟩, slots := vm.height }
  callers := vm.frames
  chunk
  base := vm.stack
  width := max 1 chunk.localCount
  marks := []
  tries := []
  rest := still vm

lemma Site.entered_valid {closure : Nat} (there : vm.chunks[closure]? = some chunk)
    (short : chunk.code.length ≤ 16384) : (Site.entered closure vm chunk).Valid :=
  ⟨rfl, there, rfl, short⟩

lemma vmCall_script {closure : Nat} {σ : List (Value ν)} (there : vm.chunks[closure]? = some chunk)
    (arity : chunk.arity = 0) (frames : vm.frameCount < framesMax) (stack : vm.stack = .null :: σ)
    (room : σ.length + max 1 chunk.localCount ≤ stackMax) :
    vmCall closure 0 vm = .ok true { vm.pushed (List.replicate (chunk.localCount - 1) .null) with
      frames := ⟨closure, ⟨closure, 0⟩, σ.length, false⟩ :: vm.frames } := by
  have height : vm.height = σ.length + 1 := by rw [VM.height, stack, List.length_cons]
  have fits : ¬ (!chunk.hasVararg ∧ (0 : Nat) ≠ chunk.arity) := fun h => h.2 arity.symm
  have deep : ¬ vm.frameCount ≥ framesMax := Nat.not_le.mpr frames
  have low : ¬ vm.height < 0 + 1 := by omega
  have slots : vm.height - 0 - 1 = σ.length := by omega
  rw [vmCall, chunkOf, bind_apply, bind_apply, get_apply, Outcome.bind_ok, there, orCrash_some, pure_apply,
    Outcome.bind_ok, bind_apply, get_apply, Outcome.bind_ok, if_neg fits, if_neg deep, if_neg low, slots, bind_apply,
    pushFrame, modify_apply, Outcome.bind_ok, bind_apply, padLocals, Nat.zero_add, pushAll_apply]
  · rfl
  · show vm.height + (List.replicate _ _).length ≤ stackMax
    rw [List.length_replicate]
    omega

/-- The chunk is entered. -/
lemma entered_at {closure : Nat} (there : vm.chunks[closure]? = some chunk) (arity : chunk.arity = 0)
    (frames : vm.frameCount < framesMax) (idle : Idle vm) (room : vm.height + max 1 chunk.localCount ≤ stackMax) :
    ∃ vm₁ vm₂, push .null vm = .ok () vm₁ ∧ vmCall closure 0 vm₁ = .ok true vm₂ ∧
      (Site.entered closure vm chunk).At 0 [] { store := vm.store } vm₂ := by
  have pushed : push .null vm = _ := push_room (by omega)
  refine ⟨_, _, pushed, vmCall_script there arity frames rfl room, ?_⟩
  refine ⟨rfl, ⟨_, ⟨List.replicate (max 1 chunk.localCount) .null, ?_, rfl⟩, ?_⟩, rfl, idle.quiet, idle.loops,
    List.nil_prefix, idle.tries, rfl⟩
  · rw [List.length_replicate]
    rfl
  · show (List.replicate (chunk.localCount - 1) Value.null).reverse ++ .null :: vm.stack =
      [] ++ (List.replicate (max 1 chunk.localCount) .null ++ ([] ++ vm.stack))
    have count : max 1 chunk.localCount = chunk.localCount - 1 + 1 := by omega
    rw [List.reverse_replicate, count, List.replicate_succ', List.append_assoc]
    rfl

/-! ### Scripts -/

/-- The site of a script. -/
def Site.script (vm : VM ν) (chunk : Chunk ν) : Site ν :=
  .entered vm.chunks.length { vm with chunks := vm.chunks ++ [chunk] } chunk

variable [F64 ν]

/-- What a call of the interpreter comes to where a program comes to this: it ends in the one way or in the other; where
the program has used up its fuel, the interpreter is still running after as many steps. -/
def Comes {α β : Type} (E : Env ν) (fuel : Nat) (o : Res ν α) (ended : β → State ν → α → VM ν → Prop)
    (failed : Value ν → State ν → α → VM ν → Prop) : Result ν β → Prop
  | .ok b s => ∃ r vm', o.Becomes (interp E).Returns (.ok r vm') ∧ ended b s r vm'
  | .error v s => ∃ r vm', o.Becomes (interp E).Returns (.ok r vm') ∧ failed v s r vm'
  | .stuck => True
  | .timeout => ∃ t, o.Enters (interp E).Returns t ∧ ∀ n ≤ fuel, Active ((interp E).steps n (start t))

lemma Comes.mono {α β : Type} {o : Res ν α} {r : Result ν β} {ended ended' : β → State ν → α → VM ν → Prop}
    {failed failed' : Value ν → State ν → α → VM ν → Prop} (h : Comes E fuel o ended failed r)
    (he : ∀ b s a vm, ended b s a vm → ended' b s a vm) (hf : ∀ v s a vm, failed v s a vm → failed' v s a vm) :
    Comes E fuel o ended' failed' r := by
  cases r with
  | ok b s =>
    obtain ⟨a, vm', becomes, holds⟩ := h
    exact ⟨a, vm', becomes, he b s a vm' holds⟩
  | error v s =>
    obtain ⟨a, vm', becomes, holds⟩ := h
    exact ⟨a, vm', becomes, hf v s a vm' holds⟩
  | stuck | timeout => exact h

/-- How many slots a script leaves on the stack. -/
def slotsOf (chunk : Chunk ν) : Nat := max 1 chunk.localCount

/-- An idle interpreter is left by a script, which has left its frame and its slots. -/
structure LeftBy (vm : VM ν) (chunk : Chunk ν) (s : State ν) (vm' : VM ν) : Prop where
  idle : Idle vm'
  state : s = { store := vm'.store }
  frames : vm'.frameCount = vm.frameCount + 1
  height : vm'.height = vm.height + slotsOf chunk

/-- The error that ended a script is there to be asked for. -/
structure FailedBy (v : Value ν) (s : State ν) (vm' : VM ν) : Prop where
  failed : vm'.hasError = true
  value : vm'.errorVals = [v]
  store : vm'.store = s.store

omit [F64 ν] in
lemma Site.Raised.failedBy {K : Site ν} {v : Value ν} {s : State ν} (h : K.Raised v s vm) : FailedBy v s vm :=
  ⟨h.failed, h.value, h.store⟩

omit [F64 ν] in
/-- An error that nothing catches ends the run. -/
lemma Site.Raised.uncaught {K : Site ν} {v : Value ν} {s : State ν} (h : K.Raised v s vm) (none : K.tries = []) :
    handleError vm = .exit .runtimeErr vm := by
  rw [handleError, h.tries, none, unwind]

omit [F64 ν] in
lemma Roomy.room {need closure : Nat} (h : Roomy vm.frameCount vm.height chunk a need) :
    (Site.entered closure vm chunk).Room a :=
  ⟨Nat.le_trans (Nat.add_le_add_left (Nat.le_max_left _ _) _) h.stack,
    Nat.le_trans (Nat.le_of_eq (Nat.zero_add _)) h.loops, Nat.le_trans (Nat.le_of_eq (Nat.zero_add _)) h.tries⟩

omit [F64 ν] in
/-- A script is entered. -/
lemma doScript_enters (compiled : chunk.arity = 0) (idle : Idle vm) (frames : vm.frameCount < framesMax)
    (room : vm.height + max 1 chunk.localCount ≤ stackMax) :
    ∃ vm₁, doScript (.compiled chunk) vm =
        .enter vm₁ (fun r t => .ok (if r = .runtimeErr then .errRuntime else .ok) t) ∧
      (Site.script vm chunk).At 0 [] { store := vm.store } vm₁ := by
  let w : VM ν := { vm with chunks := vm.chunks ++ [chunk] }
  have there : w.chunks[vm.chunks.length]? = some chunk := List.getElem?_concat_length
  obtain ⟨vm₁, vm₂, pushed, called, at_⟩ := entered_at there compiled frames ⟨idle.quiet, idle.loops, idle.tries⟩ room
  refine ⟨vm₂, ?_, at_⟩
  have run : vmExec chunk vm = .enter vm₂ .ok := by
    rw [vmExec, bind_apply, get_apply, Outcome.bind_ok, bind_apply, modify_apply, Outcome.bind_ok, bind_apply, pushed,
      Outcome.bind_ok, bind_apply, called]
    rfl
  rw [doScript, bind_apply, run, Outcome.bind_enter]
  refine congrArg (Outcome.enter vm₂) (funext fun r => funext fun t => ?_)
  rw [Outcome.bind_ok]
  split <;> rfl

/-- How a run ends that does what the program means, with the frames and slots of the script left behind. -/
def Ended (E : Env ν) (fuel : Nat) (vm : VM ν) (chunk : Chunk ν) (vm₁ : VM ν) : Result ν Ending → Prop
  | .ok ending s => ending = .normal ∧ ∃ vm', (interp E).Returns vm₁ .halt vm' ∧ LeftBy vm chunk s vm'
  | .error v s => ∃ vm', (interp E).Returns vm₁ .runtimeErr vm' ∧ FailedBy v s vm'
  | .stuck => True
  | .timeout => ∀ n ≤ fuel, Active ((interp E).steps n (start vm₁))

/-- A script of the core enters a run that does what the program means. -/
lemma script_runs (compiled : ScriptOf chunk a) (fits : a.Fits false) (idle : Idle vm)
    (room : Roomy vm.frameCount vm.height chunk a 0) :
    ∃ vm₁, doScript (.compiled chunk) vm =
        .enter vm₁ (fun r t => .ok (if r = .runtimeErr then .errRuntime else .ok) t) ∧
      ∀ fuel, Ended E fuel vm chunk vm₁ (exec fuel true a { store := vm.store }) := by
  have stack := room.stack
  obtain ⟨vm₁, run, at₁⟩ := doScript_enters compiled.arity idle room.frames (by omega)
  refine ⟨vm₁, run, fun fuel => ?_⟩
  have valid : (Site.script vm chunk).Valid := Site.entered_valid
    (List.getElem?_concat_length : (vm.chunks ++ [chunk])[vm.chunks.length]? = some chunk) room.short
  obtain ⟨bs, holds, code⟩ := compiled.code
  have placed : (Site.script vm chunk).Placed 0 (bs ++ Lang.code .halt 0 0) := by
    rw [← code]
    exact List.prefix_rfl
  have wide : a.Code chunk.constants (max 1 chunk.localCount) true [] bs :=
    holds.mono List.prefix_rfl (Nat.le_max_right _ _)
  have follows : Follows E _ fuel vm₁ _ (exec fuel true a { store := vm.store }) :=
    exec_follows valid fits wide nofun (Roomy.room room) placed.left at₁
  have normal := exec_normal fuel true fits { store := vm.store }
  have names := exec_declares fuel true a { store := vm.store }
  cases result : exec fuel true a { store := vm.store } with
  | ok ending s =>
    rw [result] at follows normal names
    obtain ⟨n, vm₂, goes, at₂⟩ := follows
    obtain rfl : ending = .normal := normal
    have outside : s.scope = [] := by
      have none := names.2 rfl
      rw [a.declares_top] at none
      exact List.map_eq_nil_iff.mp none
    obtain ⟨vm₃, turn, at₃, -⟩ := Site.At.turn (E := E) at₂ valid placed.right ⟨rfl, rfl⟩
    refine ⟨rfl, vm₃, goes.returns (turn.trans rfl), ⟨at₃.quiet, at₃.depth, at₃.tries⟩, ?_, ?_, ?_⟩
    · rw [at₃.store, ← outside]
    · rw [VM.frameCount, at₃.frames]
      rfl
    · rw [at₃.height, List.length_nil, Nat.zero_add]
      rfl
  | error v s =>
    rw [result] at follows
    obtain ⟨n, vm₂, throws, raised⟩ := follows
    exact ⟨vm₂, throws.returns (raised.uncaught rfl), raised.failedBy⟩
  | stuck => trivial
  | timeout =>
    rw [result] at follows
    exact fun n le => (Lasts.mono follows le).active

/-- A script of the core does what the program means. -/
lemma script_comes (compiled : ScriptOf chunk a) (fits : a.Fits false) (idle : Idle vm)
    (room : Roomy vm.frameCount vm.height chunk a 0) :
    Comes E fuel (doScript (.compiled chunk) vm)
      (fun ending s r vm' => ending = .normal ∧ r = .ok ∧ LeftBy vm chunk s vm')
      (fun v s r vm' => r = .errRuntime ∧ FailedBy v s vm') (exec fuel true a { store := vm.store }) := by
  obtain ⟨vm₁, run, ended⟩ := script_runs (E := E) compiled fits idle room
  have ended := ended fuel
  rw [run]
  cases result : exec fuel true a { store := vm.store } with
  | ok ending s =>
    rw [result] at ended
    obtain ⟨normal, vm', back, left⟩ := ended
    exact ⟨.ok, vm', ⟨.halt, vm', back, rfl⟩, normal, rfl, left⟩
  | error v s =>
    rw [result] at ended
    obtain ⟨vm', back, failed⟩ := ended
    exact ⟨.errRuntime, vm', ⟨.runtimeErr, vm', back, rfl⟩, rfl, failed⟩
  | stuck => trivial
  | timeout =>
    rw [result] at ended
    exact ⟨vm₁, .inl rfl, ended⟩

/-! ### Evaluation -/

/-- An interpreter is as it was but for the store and the chunks, and what the last call has left. -/
structure Restored (vm : VM ν) (s : State ν) (vm' : VM ν) : Prop where
  idle : Idle vm'
  store : vm'.store = s.store
  frames : vm'.frames = vm.frames
  stack : vm'.stack = vm.stack
  evalMark : vm'.evalStopFrame = vm.evalStopFrame
  evalResults : vm'.evalResults = vm.evalResults

omit [F64 ν] in
lemma setTop_window (vs : List (Value ν)) {σ : List (Value ν)} (window : vm.stack = vs ++ σ) :
    (vm.setTop σ.length).stack = σ := by
  have cut := VM.popTo_window vs window
  have none : σ.length - (vm.popTo σ.length).height = 0 := by rw [VM.height, cut, Nat.sub_self]
  rw [VM.setTop]
  dsimp only
  rw [none, List.take_zero, List.reverse_nil, List.nil_append, cut]

omit [F64 ν] in
/-- `OP_RETURN` at the end of a text in eval mode. -/
lemma return_eval {K : Site ν} {off : Nat} {v : Value ν} {s : State ν} (h : K.At off [v] s vm)
    (slots : K.frame.slots = K.base.length) (plain : K.frame.isFluent = false)
    (mark : K.rest.evalStopFrame = some K.callers.length) (thread : K.rest.threadStopFrame ≠ some K.callers.length) :
    ∃ vm', opReturn 1 vm = .exit .evalDone vm' ∧ vm'.evalResults = [v] ∧ vm'.frames = K.callers ∧ vm'.stack = K.base ∧
      vm'.store = s.store ∧ vm'.hasError = false ∧ vm'.loopDepth = K.marks.length ∧ vm'.tryStack = K.tries := by
  obtain ⟨window, holds, stack⟩ := h.stack
  obtain ⟨free, full, rfl⟩ := holds
  let back : VM ν := { vm with frames := K.callers, lastRetCount := 1 }
  have marked : back.evalStopFrame = some back.frameCount := by
    show vm.evalStopFrame = some K.callers.length
    rw [← mark, ← h.rest]
    rfl
  have elsewhere : back.threadStopFrame ≠ some back.frameCount := by
    intro e
    rw [← h.rest] at thread
    exact thread e
  have low : back.stack = (v :: (free ++ s.scope.map Prod.snd)) ++ K.base := by
    show vm.stack = _
    rw [stack, List.singleton_append, List.cons_append, List.append_assoc]
  have top : back.stack.take 1 = [v] := by
    rw [low]
    rfl
  have enough : ¬ 1 > VM.height { vm with lastRetCount := 1 } := by
    show ¬ 1 > vm.height
    rw [h.height, List.length_singleton]
    omega
  refine ⟨{ back.setTop K.frame.slots with lastRetCount := 1, evalResults := [v] }, ?_, rfl, rfl,
    slots ▸ setTop_window _ low, h.store, h.quiet, h.depth, h.tries⟩
  have fluent : (K.frame.goto off).isFluent = false := plain
  have leave : leaveFrame (K.frame.goto off) .null 1 back =
      .exit .evalDone { back.setTop K.frame.slots with lastRetCount := 1, evalResults := [v] } := by
    rw [leaveFrame, bind_apply, get_apply, Outcome.bind_ok, if_neg elsewhere, if_pos marked, fluent,
      if_neg Bool.false_ne_true, top]
    rfl
  have receiver : fluentReceiver (K.frame.goto off) { vm with lastRetCount := 1 } =
      .ok .null { vm with lastRetCount := 1 } := by
    rw [fluentReceiver, bind_apply, get_apply, Outcome.bind_ok, fluent]
    rfl
  have counted : (Program.when (!(K.frame.goto off).isFluent) (setLastRet 1) : M ν Unit) vm =
      .ok () { vm with lastRetCount := 1 } := by
    rw [fluent]
    rfl
  rw [opReturn, bind_apply, h.frame, Outcome.bind_ok, bind_apply]
  show ((Program.when (!(K.frame.goto off).isFluent) (setLastRet 1) : M ν Unit) vm).bind _ = _
  rw [counted, Outcome.bind_ok, bind_apply, receiver, Outcome.bind_ok, bind_apply, get_apply, Outcome.bind_ok,
    bind_apply,
    Program.when, if_neg enough, pure_apply, Outcome.bind_ok, bind_apply, modify_apply, Outcome.bind_ok]
  have popped : ({ vm with lastRetCount := 1, frames := vm.frames.tail } : VM ν) = back := by rw [h.frames]; rfl
  show leaveFrame (K.frame.goto off) .null 1 { vm with lastRetCount := 1, frames := vm.frames.tail } = _
  rw [popped, leave]

omit [F64 ν] in
/-- A chunk in eval mode is entered. -/
lemma execEval_enters (compiled : chunk.arity = 0) (idle : Idle vm) (frames : vm.frameCount < framesMax)
    (room : vm.height + max 1 chunk.localCount ≤ stackMax) :
    ∃ vm₁, execEval chunk vm = .enter vm₁ (fun r t => .ok (r, t.evalResults)
        { t with evalStopFrame := vm.evalStopFrame, evalResults := vm.evalResults }) ∧
      (Site.entered vm.chunks.length { vm with
        chunks := vm.chunks ++ [chunk], evalStopFrame := some vm.frameCount, evalResults := [] } chunk).At 0 []
          { store := vm.store } vm₁ := by
  let w : VM ν := { vm with
    chunks := vm.chunks ++ [chunk], evalStopFrame := some vm.frameCount, evalResults := [] }
  have there : w.chunks[vm.chunks.length]? = some chunk := List.getElem?_concat_length
  obtain ⟨vm₁, vm₂, pushed, called, at_⟩ := entered_at there compiled frames ⟨idle.quiet, idle.loops, idle.tries⟩ room
  refine ⟨vm₂, ?_, at_⟩
  rw [execEval, bind_apply, get_apply, Outcome.bind_ok, bind_apply, modify_apply, Outcome.bind_ok, bind_apply, pushed,
    Outcome.bind_ok, bind_apply, called, Outcome.bind_ok, if_pos rfl]
  rfl

/-- A text in eval mode: the value of its last expression is handed back, and the interpreter is as it was. -/
lemma eval_comes {e : Expr} (compiled : EvalOf chunk a e) (fits : a.Fits false) (idle : Idle vm)
    (room : Roomy vm.frameCount vm.height chunk a e.need) (thread : vm.threadStopFrame ≠ some vm.frameCount) :
    Comes E fuel (execEval chunk vm) (fun v s r vm' => r = (.evalDone, [v]) ∧ Restored vm s vm')
      (fun v s r vm' => r.1 = .runtimeErr ∧ FailedBy v s vm')
      ((exec fuel true a { store := vm.store }).bind fun _ s => eval e s) := by
  have stack := room.stack
  obtain ⟨vm₁, run, at₁⟩ := execEval_enters compiled.arity idle room.frames (by omega)
  let w : VM ν := { vm with
    chunks := vm.chunks ++ [chunk], evalStopFrame := some vm.frameCount, evalResults := [] }
  have valid : (Site.entered vm.chunks.length w chunk).Valid := Site.entered_valid
    (List.getElem?_concat_length : (vm.chunks ++ [chunk])[vm.chunks.length]? = some chunk) room.short
  obtain ⟨bs, be, holds, value, code⟩ := compiled.code
  have placed : (Site.entered vm.chunks.length w chunk).Placed 0 (bs ++ (be ++ Lang.code .return 1 0)) := by
    rw [← code]
    exact List.prefix_rfl
  have wide : a.Code chunk.constants (max 1 chunk.localCount) true [] bs :=
    holds.mono List.prefix_rfl (Nat.le_max_right _ _)
  have first : Follows E _ fuel vm₁ _ (exec fuel true a { store := vm.store }) :=
    exec_follows valid fits wide nofun (Roomy.room room) placed.left at₁
  have follows : Follows E (Site.entered vm.chunks.length w chunk) fuel vm₁
      (Yields (Site.entered vm.chunks.length w chunk) (0 + bs.length + be.length) [] [])
      ((exec fuel true a { store := vm.store }).bind fun _ s => eval e s) := by
    refine ((first.knowing (exec_normal fuel true fits _)).knowing (exec_declares fuel true a _)).bind
      fun ending s vm₂ ⟨⟨behind, normal⟩, _, same⟩ => ?_
    subst normal
    have names : s.names = [] := by
      rw [same rfl, a.declares_top]
      rfl
    have need : vm.height + max 1 chunk.localCount + e.need ≤ stackMax := by omega
    rw [← names] at value ⊢
    exact value_follows valid value placed.right.left need behind
  cases result : (exec fuel true a { store := vm.store }).bind fun _ s => eval e s with
  | ok v s =>
    rw [result] at follows
    obtain ⟨n, vm₂, goes, -, at₂⟩ := follows
    obtain ⟨vm₃, turn, at₃, -⟩ := Site.At.turn (E := E) at₂ valid placed.right.right ⟨by decide, rfl⟩
    obtain ⟨vm₄, returned, results, frames, under, store, quiet, loops, tries⟩ := return_eval at₃ rfl rfl rfl thread
    have back : (interp E).Returns vm₁ .evalDone vm₄ := goes.returns (turn.trans returned)
    refine ⟨_, { vm₄ with evalStopFrame := vm.evalStopFrame, evalResults := vm.evalResults }, ?_, rfl,
      ⟨quiet, loops, tries⟩, store, frames, under, rfl, rfl⟩
    rw [run, ← results]
    exact ⟨.evalDone, vm₄, back, rfl⟩
  | error v s =>
    rw [result] at follows
    obtain ⟨n, vm₂, throws, raised⟩ := follows
    have back : (interp E).Returns vm₁ .runtimeErr vm₂ := throws.returns (raised.uncaught rfl)
    refine ⟨(.runtimeErr, vm₂.evalResults), { vm₂ with
      evalStopFrame := vm.evalStopFrame, evalResults := vm.evalResults }, ?_, rfl, raised.failed, raised.value,
      raised.store⟩
    rw [run]
    exact ⟨.runtimeErr, vm₂, back, rfl⟩
  | stuck => trivial
  | timeout =>
    rw [result] at follows
    exact ⟨vm₁, run ▸ .inl rfl, fun n le => (Lasts.mono follows le).active⟩

/-! ### Sessions -/

/-- Scripts one after another in the same interpreter, until one fails. -/
def doScripts : List (Script ν) → M ν ScriptResult
  | [] => pure .ok
  | script :: scripts => do
    let r ← doScript script
    if r = .ok then doScripts scripts else return r

/-- A row of programs as one. -/
def Stmt.all : List Stmt → Stmt := List.foldr .seq .nil

/-- There is room for scripts one after another. -/
def Rooms : Nat → Nat → List (Chunk ν × Stmt) → Prop
  | _, _, [] => True
  | frames, height, (chunk, a) :: ps =>
    Roomy frames height chunk a 0 ∧ Rooms (frames + 1) (height + slotsOf chunk) ps

omit [F64 ν] in
lemma doScripts_append (first rest : List (Script ν)) :
    doScripts (first ++ rest) = doScripts first >>= fun r => if r = .ok then doScripts rest else pure r := by
  induction first with
  | nil => rw [List.nil_append, doScripts, pure_bind, if_pos rfl]
  | cons script first ih =>
    rw [List.cons_append, doScripts, doScripts, bind_assoc]
    congr 1
    funext r
    by_cases ok : r = .ok
    · rw [if_pos ok, if_pos ok, ih]
    · rw [if_neg ok, if_neg ok, pure_bind, if_neg ok]

lemma Comes.bind {α β γ δ : Type} {r : Result ν β} {g : β → State ν → Result ν γ} {o : Res ν α} {f : α → M ν δ}
    {ended : β → State ν → α → VM ν → Prop} {failed : Value ν → State ν → α → VM ν → Prop}
    {ended' : γ → State ν → δ → VM ν → Prop} {failed' : Value ν → State ν → δ → VM ν → Prop}
    (h : Comes E fuel o ended failed r)
    (next : ∀ b s a vm, ended b s a vm → Comes E fuel (f a vm) ended' failed' (g b s))
    (stop : ∀ v s a vm, failed v s a vm →
      ∃ c vm', (f a vm).Becomes (interp E).Returns (.ok c vm') ∧ failed' v s c vm') :
    Comes E fuel (o.bind f) ended' failed' (r.bind g) := by
  cases r with
  | ok b s =>
    obtain ⟨a, vm₁, first, holds⟩ := h
    have rest := next b s a vm₁ holds
    rw [Result.bind_ok]
    cases result : g b s with
    | ok c t =>
      rw [result] at rest
      obtain ⟨d, vm₂, second, holds⟩ := rest
      exact ⟨d, vm₂, Outcome.becomes_bind.mpr ⟨a, vm₁, first, second⟩, holds⟩
    | error v t =>
      rw [result] at rest
      obtain ⟨d, vm₂, second, holds⟩ := rest
      exact ⟨d, vm₂, Outcome.becomes_bind.mpr ⟨a, vm₁, first, second⟩, holds⟩
    | stuck => trivial
    | timeout =>
      rw [result] at rest
      obtain ⟨t, enters, active⟩ := rest
      exact ⟨t, first.enters_bind enters, active⟩
  | error v s =>
    obtain ⟨a, vm₁, first, holds⟩ := h
    obtain ⟨c, vm₂, second, holds⟩ := stop v s a vm₁ holds
    exact ⟨c, vm₂, Outcome.becomes_bind.mpr ⟨a, vm₁, first, second⟩, holds⟩
  | stuck => trivial
  | timeout =>
    obtain ⟨t, enters, active⟩ := h
    exact ⟨t, enters.bind, active⟩

/-- Scripts of the core one after another do what their programs mean as one. -/
lemma session_comes {ps : List (Chunk ν × Stmt)} (compiled : ∀ p ∈ ps, ScriptOf p.1 p.2 ∧ p.2.Fits false)
    (idle : Idle vm) (room : Rooms vm.frameCount vm.height ps) :
    Comes E fuel (doScripts (ps.map fun p => .compiled p.1) vm)
      (fun ending s r vm' => ending = .normal ∧ r = .ok ∧ Idle vm' ∧ s = { store := vm'.store } ∧
        vm'.frameCount = vm.frameCount + ps.length ∧ vm'.height = vm.height + (ps.map fun p => slotsOf p.1).sum)
      (fun v s r vm' => r = .errRuntime ∧ FailedBy v s vm')
      (exec fuel true (Stmt.all (ps.map Prod.snd)) { store := vm.store }) := by
  induction ps generalizing vm with
  | nil => exact ⟨.ok, vm, rfl, rfl, rfl, idle, rfl, rfl, rfl⟩
  | cons p ps ih =>
    obtain ⟨chunk, a⟩ := p
    obtain ⟨first, rest⟩ := List.forall_mem_cons.mp compiled
    refine (script_comes first.1 first.2 idle room.1).bind ?_ ?_
    · rintro _ s _ vm₁ ⟨rfl, rfl, left⟩
      rw [if_pos rfl, if_pos rfl, left.state]
      have roomy := room.2
      rw [← left.frames, ← left.height] at roomy
      have follows := ih rest left.idle roomy
      rw [left.frames, left.height, Nat.add_assoc, Nat.add_comm 1, Nat.add_assoc] at follows
      exact follows
    · rintro v s _ vm₁ ⟨rfl, failed⟩
      exact ⟨.errRuntime, vm₁, rfl, rfl, failed⟩

omit [F64 ν] in
/-- Where no frame is left, a script is refused. -/
lemma doScript_refused (arity : chunk.arity = 0) (full : framesMax ≤ vm.frameCount) (room : vm.height < stackMax) :
    ∃ vm', doScript (.compiled chunk) vm = .ok .errRuntime vm' ∧
      FailedBy (message (bytes "call stack overflow")) { store := vm.store } vm' := by
  let u : VM ν := { vm with chunks := vm.chunks ++ [chunk] }
  let w : VM ν := u.pushed [.null]
  have there : w.chunks[vm.chunks.length]? = some chunk := List.getElem?_concat_length
  have low : u.height < stackMax := room
  have pushed : push .null u = .ok () w := push_room low
  have fits : ¬ (!chunk.hasVararg ∧ (0 : Nat) ≠ chunk.arity) := fun h => h.2 arity.symm
  have deep : w.frameCount ≥ framesMax := full
  have refused : vmCall vm.chunks.length 0 w = .ok false (setError (bytes "call stack overflow") w) := by
    rw [vmCall, chunkOf, bind_apply, bind_apply, get_apply, Outcome.bind_ok, there, orCrash_some, pure_apply,
      Outcome.bind_ok, bind_apply, get_apply, Outcome.bind_ok, if_neg fits, if_pos deep, bind_apply, modify_apply]
    rfl
  refine ⟨setError (bytes "call stack overflow") w, ?_, rfl, rfl, rfl⟩
  have run : vmExec chunk vm = .ok .runtimeErr (setError (bytes "call stack overflow") w) := by
    rw [vmExec, bind_apply, get_apply, Outcome.bind_ok, bind_apply, modify_apply, Outcome.bind_ok, bind_apply, pushed,
      Outcome.bind_ok, bind_apply, refused]
    rfl
  rw [doScript, bind_apply, run]
  rfl

end Cando.Lang
