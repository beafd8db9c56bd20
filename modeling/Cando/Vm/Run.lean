import Cando.Vm.Control
import Cando.Lib.Machine

/-!
# Running

`vm_run` (`vm/vm.c`) as a machine over `step` and `handleError`, and the entry points of the embedding API:
`cando_vm_exec`, `cando_dostring` and `cando_dofile` (`cando_lib.c`).
-/

namespace Cando

variable {ν : Type} [F64 ν]

open Program Value Machine

/-- The interpreter. -/
def interp (E : Env ν) : Machine (VM ν) VMResult Crash where
  turn := step E
  unwind := handleError

section Turns

variable {E : Env ν}

omit [F64 ν] in
/-- The instruction at the `ip` of the running frame is fetched. -/
lemma fetch_apply {s : VM ν} {f : Frame} {fs : List Frame} {c : Chunk ν} {i : Instr} (frames : s.frames = f :: fs)
    (chunk : s.chunks[f.ip.chunk]? = some c) (decoded : decode c.code f.ip.off = some i) :
    fetch s = .ok i { s with frames := { f with ip := ⟨f.ip.chunk, f.ip.off + i.op.size⟩ } :: fs } := by
  have top : frame s = .ok f s := by rw [frame, frames]
  have running : chunkOf f.ip.chunk s = .ok c s := by
    rw [chunkOf, bind_apply, get_apply, Outcome.bind_ok, chunk, orCrash_some, pure_apply]
  have moved : setIp ⟨f.ip.chunk, f.ip.off + i.op.size⟩ s =
      .ok () { s with frames := { f with ip := ⟨f.ip.chunk, f.ip.off + i.op.size⟩ } :: fs } := by
    rw [setIp, frames]
  rw [fetch, bind_apply, top, Outcome.bind_ok, bind_apply, running, Outcome.bind_ok, bind_apply, decoded, orCrash_some,
    pure_apply, Outcome.bind_ok, bind_apply, moved, Outcome.bind_ok, pure_apply]

lemma step_apply {s s₁ : VM ν} {i : Instr} (h : fetch s = .ok i s₁) : step E s = exec E i s₁ := by
  rw [Cando.step, bind_apply, h, Outcome.bind_ok]

/-- A turn that ends is a step of the machine. -/
lemma machine_step {e s s' : VM ν} {outer} (h : step E s = .ok () s') :
    (interp E).step (.running e s outer) = .running e s' outer := by
  cases outer <;> simp [Machine.step, interp, h, settle]

/-- An error that finds a handler goes on there. -/
lemma machine_unwind {e s s' : VM ν} {outer} (h : handleError s = .ok () s') :
    (interp E).step (.raised e s outer) = .running e s' outer := by
  cases outer <;> simp [Machine.step, interp, h, settle]

lemma machine_step_crash {e s : VM ν} {outer} {x : Crash} (h : step E s = .crash x) :
    ((interp E).step (.running e s outer)).state = none := by
  cases outer <;> simp [Machine.step, interp, h, settle, Config.state]

lemma machine_crash {e s : VM ν} {outer} {x : Crash} (h : step E s = .crash x) :
    (interp E).step (.running e s outer) = .crashed x := by
  cases outer <;> simp [Machine.step, interp, h, settle]

/-- An error is raised. -/
lemma machine_raise {e s s' : VM ν} {outer} (h : step E s = .error s') :
    (interp E).step (.running e s outer) = .raised e s' outer := by
  cases outer <;> simp [Machine.step, interp, h, settle]

/-- The machine gets from one state to the other, in whatever activation. -/
def Runs (E : Env ν) (vm vm' : VM ν) : Prop :=
  ∀ entry outer, (interp E).Reaches (fun _ => True) (.running entry vm outer) (.running entry vm' outer)

variable {vm vm' vm'' : VM ν}

lemma Runs.refl (vm : VM ν) : Runs E vm vm := fun _ _ => .refl

lemma Runs.trans (h : Runs E vm vm') (h' : Runs E vm' vm'') : Runs E vm vm'' :=
  fun entry outer => (h entry outer).trans (h' entry outer)

lemma Runs.step (h : step E vm = .ok () vm') : Runs E vm vm' :=
  fun _ _ => .single ⟨trivial, machine_step h⟩

end Turns

/-- `cando_vm_exec`: run a compiled script in a frame of its own. -/
def vmExec (chunk : Chunk ν) : M ν VMResult := do
  let vm ← get
  modify fun vm => { vm with chunks := vm.chunks ++ [chunk] }
  push .null
  if ← vmCall vm.chunks.length 0 then enter else return .runtimeErr

/-- What `cando_dostring` and `cando_dofile` report. -/
inductive ScriptResult where
  | ok | errFile | errParse | errRuntime
  deriving DecidableEq, Repr

/-- A script on its way to `cando_vm_exec`. -/
inductive Script (ν : Type) where
  /-- a file that could not be read -/
  | unreadable
  /-- a source that `cando_parse` rejected -/
  | rejected
  | compiled (chunk : Chunk ν)

/-- `cando_dostring` and `cando_dofile`, from the compiled source on. -/
def doScript : Script ν → M ν ScriptResult
  | .unreadable => do
    modify fun vm => { vm with hasError := true }
    return .errFile
  | .rejected => do
    modify fun vm => { vm with hasError := true }
    return .errParse
  | .compiled chunk => do
    if (← vmExec chunk) = .runtimeErr then return .errRuntime else return .ok

end Cando
