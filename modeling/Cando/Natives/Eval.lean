import Cando.Vm.Nesting

/-!
# Evaluating code

The native `eval` (`lib/eval.c`): it compiles its argument and runs it in a frame above its caller's. With
`options.sandbox` the code sees a table of globals of its own, filled with the caller's native functions, and the
caller's table comes back when the run is over. A native function is told from other globals by its value alone, a
negative number; and an error of the code may end in a `TRY` of the caller, whose code then goes on inside the run.

The parser is a parameter: from a chunk name and a source text it makes a chunk or an error.
-/

namespace Cando

open Program Value Machine

variable {ν : Type} [F64 ν]

/-! ### The native -/

/-- The body of the loop in `sandbox_enter`: an entry that holds a native function is copied. -/
def Store.copyNative (w : Store ν) (e : GlobalEntry ν) : Store ν :=
  if e.value.isNativeFn then (w.setGlobal e.key e.value e.isConst).getD w else w

/-- `sandbox_enter`: a new table with the native functions of the old one. -/
def Store.sandboxEnter (w : Store ν) : Store ν := w.globals.foldl copyNative { w with globals := [] }

/-- `sandbox_exit`: the table that `sandbox_enter` saved is in force again. -/
def Store.sandboxExit (saved : List (GlobalEntry ν)) (w : Store ν) : Store ν := { w with globals := saved }

omit [F64 ν] in
lemma Store.extends_sandboxExit (saved : List (GlobalEntry ν)) (w : Store ν) : w.Extends (w.sandboxExit saved) where
  handles := List.prefix_refl _
  objs _ o h := ⟨o, h, rfl, rfl, rfl, rfl⟩

lemma Store.extends_copyNative (w : Store ν) (e : GlobalEntry ν) : w.Extends (w.copyNative e) := by
  rw [copyNative]
  split
  · cases h : w.setGlobal e.key e.value e.isConst with
    | none => exact .refl w
    | some w' => exact w.extends_setGlobal h
  · exact .refl w

lemma Store.extends_copyAll (es : List (GlobalEntry ν)) (w : Store ν) : w.Extends (es.foldl copyNative w) := by
  induction es generalizing w with
  | nil => exact .refl w
  | cons e es ih => exact (w.extends_copyNative e).trans (ih _)

lemma Store.extends_sandboxEnter (w : Store ν) : w.Extends w.sandboxEnter :=
  (w.extends_sandboxExit []).trans (extends_copyAll _ _)

/-- `options.name` and `options.sandbox`, with their defaults; the name is cut to fit its buffer. -/
def evalOptions (args : List (Value ν)) (w : Store ν) : Str × Bool :=
  match args with
  | _ :: .object h :: _ =>
    let field (key : Str) := (w.resolve h).bind fun opts => opts.rawget key
    (match field (bytes "name") with
      | some (.string s) => cstr (s.take 255)
      | _ => bytes "<eval>",
     match field (bytes "sandbox") with
      | some (.bool b) => b
      | _ => false)
  | _ => (bytes "<eval>", false)

/-- What `native_eval` returns: `NULL` when the code returned nothing. -/
def evalResult (failed : Bool) (rets : List (Value ν)) : Native ν :=
  if failed then .stop
  else match rets with
    | [] => .done [.null]
    | rets => .done rets

/-- `native_eval`. -/
def nativeEval (compile : Str → Str → Except Str (Chunk ν)) (args : List (Value ν)) : Native ν :=
  match args with
  | .string src :: _ => .read fun w =>
    let (name, sandbox) := evalOptions args w
    match compile name src with
    | .error msg => .fail (bytes "eval parse error: " ++ msg)
    | .ok chunk =>
      if sandbox then
        .update (fun w => ⟨w.sandboxEnter, w.extends_sandboxEnter⟩) <| .eval chunk fun failed rets =>
          .update (fun w' => ⟨w'.sandboxExit w.globals, w'.extends_sandboxExit w.globals⟩) (evalResult failed rets)
      else .eval chunk evalResult
  | _ => .fail (bytes "eval: first argument must be a string")

/-! ### What the code sees -/

/-- The machine with another table of globals. -/
def VM.withGlobals (vm : VM ν) (g : List (GlobalEntry ν)) : VM ν :=
  { vm with store := { vm.store with globals := g } }

/-- The sandbox is filled with what `IS_NATIVE_FN` accepts. -/
lemma Store.copyAll_filter (es : List (GlobalEntry ν)) (w : Store ν) :
    es.foldl copyNative w = (es.filter (·.value.isNativeFn)).foldl copyNative w := by
  have skips (w : Store ν) (e : GlobalEntry ν) :
      w.copyNative e = if e.value.isNativeFn then w.copyNative e else w := by
    cases h : e.value.isNativeFn with
    | true => rfl
    | false => rw [copyNative, h, if_neg Bool.false_ne_true, if_neg Bool.false_ne_true]
  rw [List.foldl_filter]
  exact congrArg (fun f => es.foldl f w) (funext fun w => funext fun e => skips w e)

/-- Where user variables hold no negative numbers, `IS_NATIVE_FN` accepts registered entries only. -/
lemma natives_registered {names : List Str} {g : List (GlobalEntry ν)}
    (user : ∀ e ∈ g, e.key ∉ names → e.value.isNativeFn = false) :
    g.filter (·.value.isNativeFn) = (g.filter (·.key ∈ names)).filter (·.value.isNativeFn) := by
  rw [List.filter_filter]
  refine List.filter_congr fun e he => ?_
  cases h : e.value.isNativeFn with
  | false => rfl
  | true =>
    have registered : e.key ∈ names := by
      by_contra own
      rw [user e he own] at h
      cases h
    simp [registered]

/-- So the sandbox depends only on the registered native functions. -/
lemma Store.sandboxEnter_eq {names : List Str} {g g' : List (GlobalEntry ν)}
    (agree : g.filter (·.key ∈ names) = g'.filter (·.key ∈ names))
    (user : ∀ e ∈ g, e.key ∉ names → e.value.isNativeFn = false)
    (user' : ∀ e ∈ g', e.key ∉ names → e.value.isNativeFn = false) (w : Store ν) :
    Store.sandboxEnter { w with globals := g } = Store.sandboxEnter { w with globals := g' } := by
  have natives : g.filter (·.value.isNativeFn) = g'.filter (·.value.isNativeFn) := by
    rw [natives_registered user, agree, ← natives_registered user']
  rw [sandboxEnter, sandboxEnter, copyAll_filter, natives, ← copyAll_filter]

/-! ### The run of the code -/

omit [F64 ν] in
/-- `cando_vm_exec_eval` refuses, or runs the chunk in a frame above the caller's. -/
lemma execEval_cases (chunk : Chunk ν) (vm : VM ν) :
    (∃ k, execEval chunk vm = .crash k) ∨
      (∃ s, execEval chunk vm = .ok (.runtimeErr, []) s) ∨
      ∃ f s, s.frames = f :: vm.frames ∧ s.evalStopFrame = some vm.frameCount ∧
        execEval chunk vm = .enter s fun r s' => .ok (r, s'.evalResults)
          { s' with evalStopFrame := vm.evalStopFrame, evalResults := vm.evalResults } := by
  simp only [execEval, bind_apply, get_apply, Outcome.bind_ok, modify_apply]
  obtain h | h := push_cases Value.null
    { vm with chunks := vm.chunks ++ [chunk], evalStopFrame := some vm.frameCount, evalResults := [] }
  · rw [h, Outcome.bind_ok, bind_apply]
    obtain ⟨k, h⟩ | ⟨msg, h⟩ | ⟨slots, vs, h⟩ := vmCall_cases vm.chunks.length 0 (({ vm with
      chunks := vm.chunks ++ [chunk], evalStopFrame := some vm.frameCount, evalResults := [] } :
        VM ν).pushed [Value.null])
    · rw [h]
      exact .inl ⟨k, rfl⟩
    · rw [h]
      exact .inr (.inl ⟨_, rfl⟩)
    · rw [h]
      exact .inr (.inr ⟨_, _, rfl, rfl, rfl⟩)
  · rw [h]
    exact .inl ⟨_, rfl⟩

/-- Two states are the same but for their tables of globals, which are `g` and `g'`. -/
def SameBut (g g' : List (GlobalEntry ν)) (s s' : VM ν) : Prop :=
  ∃ t : VM ν, s = t.withGlobals g ∧ s' = t.withGlobals g'

/-- The table is the one in force. -/
def InForce (g : List (GlobalEntry ν)) (s : VM ν) : Prop := s.store.globals = g

variable {E : Env ν} {call : NativeCall ν} {compile : Str → Str → Except Str (Chunk ν)} {args : List (Value ν)}
variable {g g' : List (GlobalEntry ν)}

omit [F64 ν] in
/-- Pushing values has to do with no table. -/
lemma pushAll_alike (vs : List (Value ν)) (t : VM ν) {n n' : Int} (same : n = n') :
    Outcome.Alike (SameBut g g') ((pushAll vs (t.withGlobals g)).bind fun _ => pure n)
      ((pushAll vs (t.withGlobals g')).bind fun _ => pure n') := by
  subst same
  induction vs generalizing t with
  | nil => exact .ok ⟨t, rfl, rfl⟩
  | cons v vs ih =>
    simp only [pushAll, bind_apply, push, Outcome.bind_assoc]
    by_cases room : t.height < stackMax
    · rw [if_pos (show (t.withGlobals g).height < stackMax from room),
        if_pos (show (t.withGlobals g').height < stackMax from room)]
      exact ih { t with stack := v :: t.stack, dead := t.dead.tail }
    · rw [if_neg (show ¬ (t.withGlobals g).height < stackMax from room),
        if_neg (show ¬ (t.withGlobals g').height < stackMax from room)]
      exact .crash

/-- What `eval` returns has nothing to do with the caller's table either. -/
lemma evalResult_alike (failed : Bool) (rets : List (Value ν)) (t : VM ν) :
    Outcome.Alike (SameBut g g') (runNative E call (evalResult failed rets) (t.withGlobals g))
      (runNative E call (evalResult failed rets) (t.withGlobals g')) := by
  cases failed with
  | true => exact .ok ⟨t, rfl, rfl⟩
  | false =>
    cases rets with
    | nil => exact pushAll_alike [.null] t rfl
    | cons v vs => exact pushAll_alike (v :: vs) t rfl

/-- `sandbox_exit` and what `eval` returns, after the run. -/
abbrev sandboxedRest (E : Env ν) (call : NativeCall ν) (saved : List (GlobalEntry ν))
    (res : VMResult × List (Value ν)) : M ν Int :=
  runNative E call (.update (fun w => ⟨w.sandboxExit saved, w.extends_sandboxExit saved⟩)
    (evalResult (res.1 == .runtimeErr) res.2))

/-- Whatever the run has left, the caller's table comes back. -/
lemma sandboxedRest_alike (res : VMResult × List (Value ν)) (t : VM ν) :
    Outcome.Alike (SameBut g g') (sandboxedRest E call g res t) (sandboxedRest E call g' res t) :=
  evalResult_alike _ _ t

/-- The run of the code in its sandbox, with what follows it. -/
lemma sandboxed_alike (chunk : Chunk ν) (vm : VM ν) :
    Outcome.Alike (SameBut g g') ((execEval chunk >>= sandboxedRest E call g) vm)
      ((execEval chunk >>= sandboxedRest E call g') vm) := by
  rw [bind_apply, bind_apply]
  obtain ⟨k, h⟩ | ⟨s, h⟩ | ⟨f, s, -, -, h⟩ := execEval_cases chunk vm
  · rw [h]
    exact .crash
  · rw [h]
    exact sandboxedRest_alike _ s
  · rw [h]
    refine .enter fun r t => ?_
    exact sandboxedRest_alike _ _

/-- What a caller with these frames and this table may expect of an evaluation: as long as the activations of its run
handle their own errors, none of the caller's code runs; and whatever the run has left, the caller's table is in force
in the end, as it was. -/
def RestoresTable (E : Env ν) (base : List Frame) (g : List (GlobalEntry ν)) (o : Res ν Int) : Prop :=
  o.All (fun s => ∀ c, (interp E).Reaches OwnHandlers (start s) c → Hides base c) (fun _ _ _ => True) (InForce g)
    (InForce g) fun _ => InForce g

lemma sandboxedRest_restores (base : List Frame) (res : VMResult × List (Value ν)) (t : VM ν) :
    RestoresTable E base g (sandboxedRest E call g res t) := by
  obtain ⟨r, rets⟩ := res
  have pushes (vs : List (Value ν)) : RestoresTable E base g (runNative E call (.done vs) (t.withGlobals g)) := by
    simp only [runNative, bind_apply]
    obtain h | h := pushAll_cases vs (t.withGlobals g)
    · rw [h]
      exact rfl
    · rw [h]
      trivial
  change RestoresTable E base g (runNative E call (evalResult (r == .runtimeErr) rets) (t.withGlobals g))
  cases r == .runtimeErr with
  | true => exact rfl
  | false =>
    cases rets with
    | nil => exact pushes [.null]
    | cons v vs => exact pushes (v :: vs)

/-- The run of the code above the caller's frames, with what follows it. -/
lemma sandboxed_restores (chunk : Chunk ν) (vm : VM ν) :
    RestoresTable E vm.frames g ((execEval chunk >>= sandboxedRest E call g) vm) := by
  rw [bind_apply]
  obtain ⟨k, h⟩ | ⟨s, h⟩ | ⟨f, s, frames, mark, h⟩ := execEval_cases chunk vm
  · rw [h]
    trivial
  · rw [h]
    exact sandboxedRest_restores _ _ s
  · have base : s.base = vm.frames := by rw [VM.base, frames, List.tail_cons]
    have reentrant : Reentrant s := ⟨by simp [frames], .inr (by rwa [base])⟩
    rw [h]
    refine ⟨fun c rs => ?_, fun r t _ => ?_⟩
    · rw [← base]
      exact nested_hides rs reentrant
    · exact sandboxedRest_restores _ _ _

/-! ### Evaluation in a sandbox -/

/-- A sandboxed `eval` compiles its code and runs it on a table of the caller's native functions. -/
lemma sandboxedEval_cases (E : Env ν) (call : NativeCall ν) (compile : Str → Str → Except Str (Chunk ν)) {vm : VM ν}
    (sandboxed : (evalOptions args vm.store).2 = true) :
    (∃ msg, ∀ g, runNative E call (nativeEval compile args) (vm.withGlobals g) =
        .ok (-1) ((setError msg vm).withGlobals g)) ∨
      ∃ chunk, ∀ g, runNative E call (nativeEval compile args) (vm.withGlobals g) =
        (execEval chunk >>= sandboxedRest E call g)
          { vm with store := Store.sandboxEnter { vm.store with globals := g } } := by
  cases args with
  | nil => exact .inl ⟨_, fun _ => rfl⟩
  | cons code opts =>
    cases code with
    | string src =>
      have options (g : List (GlobalEntry ν)) : evalOptions (.string src :: opts) { vm.store with globals := g } =
          evalOptions (.string src :: opts) vm.store := rfl
      cases compiled : compile (evalOptions (.string src :: opts) vm.store).1 src with
      | error msg =>
        refine .inl ⟨bytes "eval parse error: " ++ msg, fun g => ?_⟩
        simp only [nativeEval, runNative, bind_apply, get_apply, Outcome.bind_ok, VM.withGlobals, options, compiled]
        rfl
      | ok chunk =>
        refine .inr ⟨chunk, fun g => ?_⟩
        simp only [nativeEval, runNative, bind_apply, get_apply, Outcome.bind_ok, VM.withGlobals, options, compiled,
          sandboxed, if_true]
        rfl
    | _ => exact .inl ⟨_, fun _ => rfl⟩

/-- What the parser makes of `secret` and of `THROW 1;` in eval mode. -/
def evalCompile (_name src : Str) : Except Str (Chunk Int) :=
  .ok (if src = bytes "secret" then
    { code := [{ op := .loadGlobal }, { op := .return, a := 1 }].flatMap Instr.encode
      constants := [.string (bytes "secret")] }
  else
    { code := [{ op := .const }, { op := .throw, a := 1 }, { op := .return }].flatMap Instr.encode
      constants := [.number 1] })

def evalEnv : Env Int where
  natives := [nativeEval evalCompile]

/-- A script that evaluates a text in a sandbox within a `TRY` of its own, the `CATCH` of which reads `secret`. -/
def evalScript (src : Str) : Chunk Int where
  code := [{ op := .tryBegin, a := 14 }, { op := .loadGlobal }, { op := .const, a := 1 }, { op := .loadLocal, a := 1 },
    { op := .call, a := 2 }, { op := .tryEnd }, { op := .halt },
    { op := .catchBegin, a := 1 }, { op := .loadGlobal, a := 2 }, { op := .halt }].flatMap Instr.encode
  constants := [.string (bytes "eval"), .string src, .string (bytes "secret")]
  localCount := 1

/-- The native `eval`, and a variable of the script. -/
def evalGlobals (secret : Int) : List (GlobalEntry Int) :=
  [⟨bytes "eval", .number (-1), true⟩, ⟨bytes "secret", .number secret, false⟩]

/-- The script's local is `{ sandbox: TRUE }`. -/
def evalState (src : Str) : VM Int where
  stack := [.object 0, .null]
  frames := [⟨0, ⟨0, 0⟩, 0, false⟩]
  chunks := [evalScript src]
  store := { objs := [{ slots := [⟨bytes "sandbox", .bool true, false⟩] }], handles := [0] }

/-- The script after `n` steps. -/
@[irreducible] def evalRun (src : Str) (secret : Int) (n : Nat) : Config (VM Int) VMResult Crash :=
  (interp evalEnv).steps n (start ((evalState src).withGlobals (evalGlobals secret)))

/-- The value that a run has left on top of the stack. -/
def resultOf : Config (VM ν) VMResult Crash → Option (Value ν)
  | .done _ s => s.stack.head?
  | _ => none

/-- The call frames of a run and the names in the table in force. -/
def framesAndNames : Config (VM ν) VMResult Crash → Option (List Frame × List Str)
  | .running _ s _ => some (s.frames, s.store.globals.map (·.key))
  | _ => none

end Cando
