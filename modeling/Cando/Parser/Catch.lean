import Cando.Parser.Finaly
import Cando.Parser.State
import Cando.Vm.Locals

/-!
# Catch parameters

What `OP_THROW` (`vm/vm.c`) throws waits in `error_vals` while `handle_error` unwinds to the handler on top of the try
stack. `OP_CATCH_BEGIN` then pushes one value for each parameter of the CATCH, the first on top, and the `OP_DEF_LOCAL`s
behind it bind them.
-/

namespace Cando

open Program Machine

variable {ν : Type}

/-- A TRY statement in its place, with the slots that `declare_local` gave to its catch parameters: the chunk it was
compiled into and the frame that runs it. -/
structure CatchSite (ν : Type) where
  stmt : TryStmt
  named : stmt.slots ≠ []
  few : stmt.slots.length ≤ maxCatchParams
  distinct : stmt.slots.Nodup
  before : Chunk ν
  chunk : Chunk ν
  placed : (stmt.parseTry before).code <+: chunk.code
  declared : ∀ slot ∈ stmt.slots, slot < chunk.localCount ∧ slot < localMax
  frame : Frame
  outer : List Frame

namespace CatchSite

variable (S : CatchSite ν)

/-- Where the statement, its CATCH part, the binding of the parameters and the CATCH block begin. -/
def start : Nat := S.before.code.length
def catchStart : Nat := S.start + (S.stmt.body.length + 7)
def paramsStart : Nat := S.catchStart + 3
def blockStart : Nat := S.paramsStart + 3 * S.stmt.slots.length

/-- The frame of the statement with its `ip` at an offset. -/
def top (off : Nat) : Frame := { S.frame with ip := ⟨S.frame.ip.chunk, off⟩ }

/-- The handler of the TRY block when the statement begins in this state. -/
def handler (vm₀ : VM ν) : TryFrame :=
  ⟨some ⟨S.frame.ip.chunk, S.catchStart⟩, none, vm₀.height, S.outer.length + 1, vm₀.loopDepth⟩

/-- A THROW of these values is about to be executed, in the frame of the statement or above it, and the handler on top
is the one recorded in `vm₀`, where the statement began. `vm_call` has seen to it that the window of a frame holds its
locals. -/
structure Throws (vm₀ : VM ν) (vals : List (Value ν)) (vm : VM ν) : Prop where
  window : S.frame.slots + S.chunk.localCount ≤ vm₀.height
  frames : ∃ above off, vm.frames = above ++ S.top off :: S.outer
  chunk : vm.chunks[S.frame.ip.chunk]? = some S.chunk
  fetched : ∃ vm', fetch vm = .ok ⟨.throw, vals.length, 0⟩ vm'
  nonempty : vals ≠ []
  stack : ∃ σ, vm.stack = vals.reverse ++ σ
  room : vm.height ≤ stackMax
  handlers : ∃ rest, vm.tryStack = S.handler vm₀ :: rest

/-- The CATCH takes the values: at the beginning of its block each parameter is bound to the value at its position, or
to `NULL` if there is none, no value is left in `error_vals`, and the stack is as high as it was in `vm₀`. -/
def Binds [F64 ν] (E : Env ν) (entry : VM ν) (waiting : List (Suspended (VM ν) VMResult Crash)) (vm₀ : VM ν)
    (vals : List (Value ν)) (vm : VM ν) : Prop :=
  ∃ vm', (interp E).steps (S.stmt.slots.length + 3) (.running entry vm waiting) = .running entry vm' waiting ∧
    vm'.frames = S.top S.blockStart :: S.outer ∧ vm'.errorVals = [] ∧ vm'.height = vm₀.height ∧
    ∀ i slot : Nat, S.stmt.slots[i]? = some slot → vm'.cell (S.frame.slots + slot) = some (vals[i]?.getD .null)

end CatchSite

section Binding

variable {S : CatchSite ν} {vm vm₀ : VM ν} {vals : List (Value ν)} {off : Nat} {i : Instr}

/-- The CATCH part, as it stands in its chunk. -/
lemma CatchSite.catch_placed (S : CatchSite ν) : S.stmt.catchCode <+: S.chunk.code.drop S.catchStart := by
  obtain ⟨rest, code⟩ := S.placed
  obtain ⟨front, e⟩ : ∃ front, S.before.code ++ ((Instr.mk .tryBegin (toU16 (S.stmt.body.length + 4)) 0).encode ++
      S.stmt.body ++ (Instr.mk .tryEnd 0 0).encode ++
      (Instr.mk .jump (toU16 S.stmt.catchCode.length) 0).encode) = front := ⟨_, rfl⟩
  have size : S.catchStart = front.length := by
    rw [← e]
    simp only [List.length_append, Instr.encode_length, CatchSite.catchStart, CatchSite.start]
    show _ = _ + (3 + _ + 1 + 3)
    omega
  have whole : S.chunk.code = front ++ (S.stmt.catchCode ++ (S.stmt.finaly.getD [] ++ rest)) := by
    rw [← code, TryStmt.parseTry_code, TryStmt.code, ← e]
    simp only [List.append_assoc]
  rw [whole, size, List.drop_left]
  exact List.prefix_append _ _

lemma CatchSite.fetch_at (frames : vm.frames = S.top off :: S.outer)
    (chunk : vm.chunks[S.frame.ip.chunk]? = some S.chunk) (fits : i.Fits)
      (placed : i.encode <+: S.chunk.code.drop off) :
    fetch vm = .ok i { vm with frames := S.top (off + i.op.size) :: S.outer } :=
  fetch_goto frames chunk fits placed

/-- What `OP_CATCH_BEGIN` pushes, the first on top. -/
def caughtVals (m : Nat) (vm : VM ν) : List (Value ν) := (List.range m).map fun i => vm.errorVals[i]?.getD .null

lemma caughtVals_length (m : Nat) (vm : VM ν) : (caughtVals m vm).length = m := by
  rw [caughtVals, List.length_map, List.length_range]

variable [F64 ν] {E : Env ν} {entry : VM ν} {waiting : List (Suspended (VM ν) VMResult Crash)}

omit [F64 ν] in
lemma CatchSite.fetch_catchBegin (frames : vm.frames = S.top S.catchStart :: S.outer)
    (chunk : vm.chunks[S.frame.ip.chunk]? = some S.chunk) :
    fetch vm = .ok ⟨.catchBegin, S.stmt.slots.length, 0⟩ { vm with frames := S.top S.paramsStart :: S.outer } := by
  have few : S.stmt.slots.length < 65536 := Nat.lt_of_le_of_lt S.few (by decide)
  refine S.fetch_at frames chunk ⟨few, rfl⟩ ?_
  refine List.IsPrefix.trans ?_ S.catch_placed
  rw [TryStmt.catchCode, List.append_assoc]
  exact List.prefix_append _ _

/-- The beginning of the CATCH part, if there is room for the values of its parameters. -/
lemma CatchSite.step_catchBegin (frames : vm.frames = S.top S.catchStart :: S.outer)
    (chunk : vm.chunks[S.frame.ip.chunk]? = some S.chunk) (room : vm.height + S.stmt.slots.length ≤ stackMax) :
    ∃ vm', step E vm = .ok () vm' ∧ vm'.frames = S.top S.paramsStart :: S.outer ∧ vm'.chunks = vm.chunks ∧
      vm'.errorVals = [] ∧ vm'.stack = caughtVals S.stmt.slots.length vm ++ vm.stack := by
  have pushes : pushAll ((List.range S.stmt.slots.length).reverse.map fun i => vm.errorVals[i]?.getD .null)
      { vm with frames := S.top S.paramsStart :: S.outer } = .ok () { vm with
        frames := S.top S.paramsStart :: S.outer
        stack := caughtVals S.stmt.slots.length vm ++ vm.stack
        dead := vm.dead.drop S.stmt.slots.length } := by
    rw [pushAll_apply, VM.pushed, List.map_reverse, List.reverse_reverse, List.length_reverse, List.length_map,
      List.length_range]
    · rfl
    · rw [List.length_map, List.length_reverse, List.length_range]
      exact room
  refine ⟨{ vm with
    frames := S.top S.paramsStart :: S.outer
    stack := caughtVals S.stmt.slots.length vm ++ vm.stack
    dead := vm.dead.drop S.stmt.slots.length
    errorVals := [] }, ?_, rfl, rfl, rfl, rfl⟩
  rw [step_apply (S.fetch_catchBegin frames chunk)]
  show opCatchBegin S.stmt.slots.length _ = _
  rw [opCatchBegin, bind_apply, get_apply, Outcome.bind_ok, bind_apply, pushes, Outcome.bind_ok, modify_apply]

/-- Without that room, it fails the assertion on the stack's capacity. -/
lemma CatchSite.step_catchBegin_full (frames : vm.frames = S.top S.catchStart :: S.outer)
    (chunk : vm.chunks[S.frame.ip.chunk]? = some S.chunk) (kept : vm.height ≤ stackMax)
    (full : stackMax < vm.height + S.stmt.slots.length) : step E vm = .crash .assertion := by
  have pushes : pushAll ((List.range S.stmt.slots.length).reverse.map fun i => vm.errorVals[i]?.getD .null)
      { vm with frames := S.top S.paramsStart :: S.outer } = .crash .assertion := by
    refine pushAll_full kept ?_
    rw [List.length_map, List.length_reverse, List.length_range]
    exact full
  rw [step_apply (S.fetch_catchBegin frames chunk)]
  show opCatchBegin S.stmt.slots.length _ = _
  rw [opCatchBegin, bind_apply, get_apply, Outcome.bind_ok, bind_apply, pushes, Outcome.bind_crash]

omit [F64 ν] in
/-- `OP_THROW` moves the values into the error buffer. -/
lemma opThrow_apply {σ : List (Value ν)} (stack : vm.stack = vals.reverse ++ σ) (nonempty : vals ≠ [])
    (few : vals.length ≤ maxThrowArgs) : opThrow vals.length vm =
      .error { vm with stack := σ, dead := vals ++ vm.dead, errorVals := vals, hasError := true } := by
  have some : vals.length ≠ 0 := fun none => nonempty (List.eq_nil_of_length_eq_zero none)
  have there : ¬ vm.height < vals.length := by
    rw [VM.height, stack, List.length_append, List.length_reverse]
    omega
  rw [opThrow, if_neg some]
  simp only [Program.when, if_neg (Nat.not_lt.mpr few), bind_apply, pure_apply, Outcome.bind_ok, get_apply,
    if_neg there, take_stack vals stack, modify_apply, raise_apply]

omit [F64 ν] in
/-- More values than the buffer holds are written past its end. -/
lemma opThrow_overflow (many : maxThrowArgs < vals.length) : opThrow vals.length vm = .crash .undefined := by
  have some : vals.length ≠ 0 := by
    rintro none
    rw [none] at many
    exact Nat.not_lt_zero _ many
  rw [opThrow, if_neg some]
  simp only [Program.when, if_pos many, bind_apply, crash_apply, Outcome.bind_crash]

/-- The THROW and the unwinding behind it: control is at the CATCH part, and the stack has been cut down to the height
of the TRY. -/
lemma CatchSite.Throws.unwinds (entry : VM ν) (waiting : List (Suspended (VM ν) VMResult Crash))
    (h : S.Throws vm₀ vals vm) (few : vals.length ≤ maxThrowArgs) :
    ∃ s, (∀ n, (interp E).steps (n + 2) (.running entry vm waiting) = (interp E).steps n (.running entry s waiting)) ∧
      s.frames = S.top S.catchStart :: S.outer ∧ s.chunks[S.frame.ip.chunk]? = some S.chunk ∧ s.errorVals = vals ∧
      s.height = min (vm.height - vals.length) vm₀.height := by
  obtain ⟨above, off, frames⟩ := h.frames
  obtain ⟨vm', fetched⟩ := h.fetched
  obtain ⟨σ, stack⟩ := h.stack
  obtain ⟨rest, handlers⟩ := h.handlers
  obtain ⟨f, ip, fs, frames', rfl⟩ := fetch_moves fetched
  obtain ⟨above', off', moved⟩ : ∃ above' off', { f with ip := ⟨f.ip.chunk, ip⟩ } :: fs =
      above' ++ S.top off' :: S.outer := by
    rw [frames'] at frames
    cases above with
    | nil =>
      obtain ⟨rfl, rfl⟩ := List.cons.inj frames
      exact ⟨[], ip, rfl⟩
    | cons g above =>
      obtain ⟨-, rfl⟩ := List.cons.inj frames
      exact ⟨_ :: above, off, rfl⟩
  obtain ⟨s, e⟩ : ∃ s : VM ν, { vm with
      frames := above' ++ S.top off' :: S.outer
      stack := σ
      dead := vals ++ vm.dead
      errorVals := vals
      hasError := true } = s := ⟨_, rfl⟩
  have thrown : step E vm = .error s := by
    have here : VM.stack { vm with frames := above' ++ S.top off' :: S.outer } = vals.reverse ++ σ := stack
    rw [step_apply fetched, moved, ← e]
    exact opThrow_apply here h.nonempty few
  have frames : s.frames = above' ++ S.top off' :: S.outer := by rw [← e]
  have stack' : s.stack = σ := by rw [← e]
  have count : s.frameCount - (S.outer.length + 1) = above'.length := by
    rw [VM.frameCount, frames, List.length_append, List.length_cons]
    omega
  have left : s.frames.drop above'.length = S.top off' :: S.outer := by
    rw [frames, List.drop_left]
  obtain ⟨s', e'⟩ : ∃ s' : VM ν, { s.popTo vm₀.height with
      frames := S.top S.catchStart :: S.outer
      loopDepth := vm₀.loopDepth
      tryStack := rest
      hasError := false } = s' := ⟨_, rfl⟩
  have handled : handleError s = .ok () s' := by
    have handlers : s.tryStack = S.handler vm₀ :: rest := by rw [← e, ← handlers]
    rw [handleError, handlers, unwind]
    simp only [CatchSite.handler, count, left]
    exact congrArg (Outcome.ok ()) e'
  have size : σ.length = vm.height - vals.length := by
    rw [VM.height, stack, List.length_append, List.length_reverse]
    omega
  refine ⟨s', fun n => ?_, ?_, ?_, ?_, ?_⟩
  · rw [steps, machine_raise thrown, steps, machine_unwind handled]
  · rw [← e']
  · rw [← e', ← e]
    exact h.chunk
  · rw [← e', ← e]
    rfl
  · rw [← e', VM.height]
    show (s.stack.drop (s.height - vm₀.height)).length = _
    rw [VM.height, stack', List.length_drop, size]
    omega

/-- A THROW of too many values runs over the error buffer. -/
lemma CatchSite.Throws.overflows (h : S.Throws vm₀ vals vm) (many : maxThrowArgs < vals.length) (n : Nat) :
    (interp E).steps (n + 1) (.running entry vm waiting) = .crashed .undefined := by
  obtain ⟨vm', fetched⟩ := h.fetched
  have crashed : step E vm = .crash .undefined := by
    rw [step_apply fetched]
    exact opThrow_overflow many
  rw [steps, machine_crash crashed, steps_crashed]

omit [F64 ν] in
lemma CatchSite.slot_fits (S : CatchSite ν) : ∀ slot ∈ S.stmt.slots, slot < 65536 :=
  fun slot mem => Nat.lt_trans (S.declared slot mem).2 (by decide)

omit [F64 ν] in
lemma CatchSite.params_placed (S : CatchSite ν) :
    bindCode S.stmt.slots <+: S.chunk.code.drop S.paramsStart := by
  have placed := S.catch_placed
  rw [TryStmt.catchCode, List.append_assoc] at placed
  have behind := placed_next placed
  rw [Instr.encode_length] at behind
  exact (List.prefix_append _ _).trans behind

/-- From the beginning of the CATCH part on, the parameters are bound if the stack is as high as at the TRY and there is
room. -/
lemma CatchSite.catch_binds (entry : VM ν) (waiting : List (Suspended (VM ν) VMResult Crash))
    (frames : vm.frames = S.top S.catchStart :: S.outer)
    (chunk : vm.chunks[S.frame.ip.chunk]? = some S.chunk) (window : S.frame.slots + S.chunk.localCount ≤ vm.height)
    (room : vm.height + S.stmt.slots.length ≤ stackMax) :
    ∃ vm', (interp E).steps (S.stmt.slots.length + 1) (.running entry vm waiting) = .running entry vm' waiting ∧
      vm'.frames = S.top S.blockStart :: S.outer ∧ vm'.errorVals = [] ∧ vm'.height = vm.height ∧
      ∀ i slot : Nat, S.stmt.slots[i]? = some slot →
        vm'.cell (S.frame.slots + slot) = some (vm.errorVals[i]?.getD .null) := by
  obtain ⟨s, begun, frames', chunks', errorVals', stack'⟩ := S.step_catchBegin (E := E) frames chunk room
  have low : ∀ slot ∈ S.stmt.slots, S.frame.slots + slot < vm.stack.length := fun slot mem =>
    Nat.lt_of_lt_of_le (Nat.add_lt_add_left (S.declared slot mem).1 _) window
  rw [← chunks'] at chunk
  obtain ⟨vm', run, frames'', errorVals'', height'', params, -⟩ := bindLocals_run (E := E) entry waiting
    (caughtVals_length _ vm) S.distinct low frames' chunk S.slot_fits S.params_placed stack'
  refine ⟨vm', ?_, frames'', errorVals''.trans errorVals', height'', fun i slot there => ?_⟩
  · rw [steps, machine_step begun, run]
  · have within : i < S.stmt.slots.length := (List.getElem?_eq_some_iff.mp there).1
    rw [params i slot there, caughtVals, List.getElem?_map, List.getElem?_range within, Option.map_some]

/-- From there the stack gets back to the height that it has there, or an assertion fails. -/
lemma CatchSite.height_catch {vm' : VM ν} (frames : vm.frames = S.top S.catchStart :: S.outer)
    (chunk : vm.chunks[S.frame.ip.chunk]? = some S.chunk) (kept : vm.height ≤ stackMax)
    (run : (interp E).steps (S.stmt.slots.length + 1) (.running entry vm waiting) = .running entry vm' waiting) :
    vm'.height = vm.height ∧ vm.height + S.stmt.slots.length ≤ stackMax := by
  rw [steps] at run
  obtain full | room := Nat.lt_or_ge stackMax (vm.height + S.stmt.slots.length)
  · rw [machine_crash (S.step_catchBegin_full frames chunk kept full), steps_crashed] at run
    cases run
  · obtain ⟨s, begun, frames', chunks', -, stack'⟩ := S.step_catchBegin (E := E) frames chunk room
    have height' : s.height = S.stmt.slots.length + vm.height := by
      rw [VM.height, stack', List.length_append, caughtVals_length, VM.height]
    rw [← chunks'] at chunk
    rw [machine_step begun] at run
    exact ⟨height_bindLocals frames' chunk S.slot_fits S.params_placed height' run, room⟩

end Binding

/-! ### Thirty-three values -/

section Overflow

set_option maxRecDepth 4000

/-- `parse_throw`: the expressions, compiled, and their number. -/
def parseThrow (exprs : List (List UInt8)) : List UInt8 :=
  exprs.flatten ++ (Instr.mk .throw (exprs.length % 65536) 0).encode

/-- The numbers below `n`. -/
def throwVals (n : Nat) : List (Value Int) := (List.range n).map fun i => .number i

/-- `TRY { THROW 0, 1, …; } CATCH (e) {}` with `n` values. -/
def throwStmt (n : Nat) : TryStmt where
  body := parseThrow ((List.range n).map fun i => (Instr.mk .const i 0).encode)
  slots := [1]
  handler := []
  finaly := none

/-- A script that consists of the statement, and the state in which it begins. -/
def throwChunk (n : Nat) : Chunk Int :=
  { code := ((throwStmt n).parseTry (ν := Int) {}).code ++ [Opcode.halt.toByte], constants := throwVals n,
    localCount := 2 }

def throwState (n : Nat) : VM Int :=
  { stack := [.null, .null], frames := [scriptFrame 0], chunks := [throwChunk n] }

/-- The statement in its place. -/
def throwSite (n : Nat) : CatchSite Int where
  stmt := throwStmt n
  named := List.cons_ne_nil _ _
  few := show [1].length ≤ maxCatchParams by decide
  distinct := show [1].Nodup by decide
  before := {}
  chunk := throwChunk n
  placed := List.prefix_append _ _
  declared := show ∀ slot ∈ [1], slot < 2 ∧ slot < localMax by decide
  frame := scriptFrame 0
  outer := []

/-- The state in which the values are about to be thrown. -/
def throwingState (n : Nat) : VM Int := { throwState n with
  stack := (throwVals n).reverse ++ [.null, .null]
  frames := [(throwSite n).top (3 * n + 3)]
  tryStack := [(throwSite n).handler (throwState n)] }

end Overflow

end Cando
