import Cando.Vm.Entry

/-!
# What a called function finds

Two questions about every way of calling: whether the callee's window is complete (the callee, the arguments,
a `NULL` in every other local slot) and whether the code that runs is the code of the called body. Both fail
for bare code offsets, which carry no chunk and which `OP_METHOD_CALL` enters without filling the local slots.
-/

namespace Cando

open Program Value Machine

variable {ν : Type}

/-- The window in which a body at `pc` starts: the callee in slot 0, the arguments above it, and `NULL`s in
the slots that are left up to the local count of the chunk that runs. -/
def LaidOut (site : CallSite ν) (pc : Nat) (vm vm' : VM ν) : Prop :=
  ∃ closure c callee, vm'.frames =
      ⟨closure, ⟨closure, pc⟩, (site.below vm).length, site.isFluent⟩ :: vm.frames ∧
    vm'.chunks[closure]? = some c ∧
    vm'.stack = List.replicate (c.localCount - ((site.args vm).length + 1)) .null ++
      ((site.args vm).reverse ++ callee :: site.below vm)

/-- The chunk that is running has no local slots beyond the callee and `n` arguments. -/
def SlotsSuffice (vm : VM ν) (n : Nat) : Prop :=
  ∃ f fs c, vm.frames = f :: fs ∧ vm.chunks[f.closure]? = some c ∧ c.localCount ≤ n + 1

/-- The frame runs the body: its code, under its own constants, with all the local slots of its chunk. -/
def RunsBody (b : Body) (vm vm' : VM ν) : Prop :=
  ∃ f c, vm'.frames = f :: vm.frames ∧ f.closure = b.closure ∧ f.ip = ⟨b.closure, b.pc⟩ ∧
    vm'.chunks[b.closure]? = some c ∧ c.localCount ≤ vm'.height - f.slots

variable [F64 ν]

lemma callValue_offset {E : Env ν} {call : NativeCall ν} {x : ν} {args : List (Value ν)} {vm : VM ν}
    (nonneg : F64.lt x (F64.ofInt 0) = false) :
    callValue E call (.number x) args vm = .ok 0 vm := by
  simp [callValue, isNativeFn, nonneg]

/-- `cando_vm_call_value` enters no function through a bare offset. -/
lemma value_offset_stays {E : Env ν} {site : CallSite ν} {raw : CdoValue ν} {b : Body} {vm vm' : VM ν}
    (hraw : site.callee vm = some raw) (hb : Denotes vm.store b raw) (hv : site.isValue ∧ raw.isOffset)
    (hr : (site.perform E vm).reached = some vm') : vm' = vm := by
  cases site with
  | value f args =>
    cases hb with
    | object => cases hv.2
    | offset nonneg pc =>
      obtain rfl := number_of_toCdo hraw
      rw [CallSite.perform, bind_apply, callValue_offset nonneg] at hr
      exact (Option.some.inj hr).symm
  | _ => cases hv.1

omit [F64 ν] in
lemma entered_offset {vm : VM ν} {b b' : Body} {raw : CdoValue ν} (ho : raw.isOffset)
    (h : entered vm b raw = some b') : ∃ f fs, vm.frames = f :: fs ∧ b' = ⟨f.closure, b.pc⟩ := by
  cases raw with
  | number x =>
    obtain ⟨f, hf, rfl⟩ := Option.map_eq_some_iff.mp h
    obtain ⟨fs, e⟩ := List.head?_eq_some_iff.mp hf
    exact ⟨f, fs, e, rfl⟩
  | _ => cases ho

omit [F64 ν] in
lemma entered_pc {vm : VM ν} {b b' : Body} {raw : CdoValue ν} (h : entered vm b raw = some b') :
    b'.pc = b.pc := by
  cases raw with
  | number x =>
    obtain ⟨f, hf, rfl⟩ := Option.map_eq_some_iff.mp h
    rfl
  | _ =>
    obtain rfl := Option.some.inj h
    rfl

/-- The code of `FUNCTION m(self) { VAR x = 1; VAR y = 2; RETURN x; }`, then a call of method `m` on the
receiver that is on top of the stack. -/
def methodChunk : Chunk Int where
  code := [{ op := .const }, { op := .defLocal, a := 2 }, { op := .const, a := 1 },
    { op := .defLocal, a := 3 }, { op := .loadLocal, a := 2 }, { op := .return, a := 1 },
    { op := .methodCall, a := 2 }].flatMap Instr.encode
  constants := [.number 1, .number 2, .string (bytes "m")]
  localCount := 4

/-- About to call method `m`, which the receiver holds as the given value. -/
def methodState (m : CdoValue Int) : VM Int where
  stack := [.object 0, .null]
  dead := List.replicate 4 .null
  frames := [⟨0, ⟨0, 18⟩, 0, false⟩]
  chunks := [methodChunk]
  store := { handles := [0], objs := [{ slots := [⟨bytes "m", m, false⟩] },
    { kind := .function, bytecode := some 0, paramCount := 0 }] }

/-- The state after `n` steps. -/
def stateAfter (E : Env Int) (n : Nat) (vm : VM Int) : Option (VM Int) :=
  match (interp E).steps n (start vm) with
  | .running _ vm _ => some vm
  | _ => none

/-- The value on top of the stack after `n` steps. -/
def topAfter (E : Env Int) (n : Nat) (vm : VM Int) : Option (Value Int) :=
  (stateAfter E n vm).bind fun vm => vm.stack.head?

/-- An instruction by which the compiler lets a function body become a value: `OP_CLOSURE`, or for a class
method `OP_CONST`, whose number `OP_BIND_METHOD` then stores. It takes `vm` to `vm'` and leaves `raw` for the
body, in the chunk that is running. -/
inductive Creates : Instr → VM ν → VM ν → Body → CdoValue ν → Prop where
  | closure {ci pc : Nat} {vm vm' : VM ν} {f fs c x v raw} (running : vm.frames = f :: fs)
      (chunk : vm.chunks[f.closure]? = some c) (const : c.constants[ci]? = some (.number x))
      (offset : F64.toU32 x = some pc) (done : opClosure ci vm = .ok () vm') (top : vm'.stack.head? = some v)
      (value : vm'.store.toCdo v = some raw) :
      Creates { op := .closure, a := ci } vm vm' ⟨f.closure, pc⟩ raw
  | method {ci pc : Nat} {vm vm' : VM ν} {f fs c x} (running : vm.frames = f :: fs)
      (chunk : vm.chunks[f.closure]? = some c) (const : c.constants[ci]? = some (.number x))
      (nonneg : F64.lt x (F64.ofInt 0) = false) (offset : F64.toU32 x = some pc)
      (done : opConst ci vm = .ok () vm') :
      Creates { op := .const, a := ci } vm vm' ⟨f.closure, pc⟩ (.number x)

omit [F64 ν] in
lemma frame_apply {vm : VM ν} {f : Frame} {fs : List Frame} (h : vm.frames = f :: fs) :
    frame vm = .ok f vm := by
  simp [frame, h]

omit [F64 ν] in
lemma constAt_apply {vm : VM ν} {f : Frame} {fs : List Frame} {c : Chunk ν} {ci : Nat} {v : Value ν}
    (running : vm.frames = f :: fs) (chunk : vm.chunks[f.closure]? = some c)
    (const : c.constants[ci]? = some v) : constAt ci vm = .ok v vm := by
  rw [constAt, bind_apply, frame_apply running, Outcome.bind_ok]
  simp only [chunkOf, bind_apply, get_apply, Outcome.bind_ok, chunk, orCrash_some, pure_apply, const]

/-- What has just been made stands for the body. -/
lemma Creates.denotes {i : Instr} {vm vm' : VM ν} {b : Body} {raw : CdoValue ν}
    (h : Creates i vm vm' b raw) : Denotes vm'.store b raw := by
  cases h with
  | closure running chunk const offset done top value =>
    rename_i ci n f fs c x v
    simp only [opClosure, bind_apply, constAt_apply running chunk const, Outcome.bind_ok, offset,
      orCrash_some, pure_apply, frame_apply running] at done
    obtain ⟨w, vm₁, made, done⟩ := Outcome.bind_eq_ok done
    simp only [newObject, Store.newObject, Store.handleAlloc, Outcome.ok.injEq] at made
    obtain ⟨rfl, rfl⟩ := made
    obtain e | e := push_cases (Value.object vm.store.handles.length) _ <;> rw [e] at done
    · cases done
      cases top
      obtain ⟨p, hp, rfl⟩ := Option.map_eq_some_iff.mp value
      obtain rfl : vm.store.objs.length = p := by simpa [Store.pointer, VM.pushed] using hp
      exact .object (by simp [VM.pushed]; rfl) rfl rfl rfl
    · cases done
  | method running chunk const nonneg offset done => exact .offset nonneg offset

lemma Denotes.mono {w w' : Store ν} {b : Body} {raw : CdoValue ν} (h : Denotes w b raw)
    (e : w.Extends w') : Denotes w' b raw := by
  cases h with
  | object ho kind closure pc =>
    obtain ⟨o', ho', k, c, p, _⟩ := e.objs _ _ ho
    exact .object ho' (k.trans kind) (c.trans closure) (p.trans pc)
  | offset nonneg pc => exact .offset nonneg pc

lemma Creates.exec {E : Env ν} {i : Instr} {vm vm' : VM ν} {b : Body} {raw : CdoValue ν}
    (h : Creates i vm vm' b raw) : exec E i vm = .ok () vm' := by
  cases h with
  | closure running chunk const offset done top value => exact done
  | method running chunk const nonneg offset done => exact done

/-- A value made for a body stands for it in whatever state the run reaches from there. -/
lemma denotes_later {E : Env ν} {vm₀ vm₁ vm₁' vm₂ vm₃ : VM ν} {e₁ e₃ o₁ o₃} {i : Instr} {b : Body}
    {raw : CdoValue ν} (run : (interp E).Reaches (fun _ => True) (start vm₀) (.running e₁ vm₁ o₁))
    (fetched : fetch vm₁ = .ok i vm₁') (made : Creates i vm₁' vm₂ b raw)
    (later : (interp E).Reaches (fun _ => True) (.running e₁ vm₂ o₁) (.running e₃ vm₃ o₃)) :
    Denotes vm₃.store b raw := by
  have turn : (interp E).step (.running e₁ vm₁ o₁) = .running e₁ vm₂ o₁ := by
    have e : Cando.step E vm₁ = .ok () vm₂ := by
      rw [Cando.step, bind_apply, fetched, Outcome.bind_ok, made.exec]
    cases o₁ <;> simp [Machine.step, interp, e, settle]
  have h := run_grows (run.tail ⟨trivial, turn⟩) (follows_start vm₀)
  exact made.denotes.mono (run_grows later ⟨refl_of Grows vm₂, h.2⟩).1.store

omit [F64 ν] in
/-- A frame that a call has opened runs the body if it is the body's frame and has the local slots. -/
lemma Opened.runs_iff {site : CallSite ν} {vm vm' : VM ν} {b b' : Body} {p : Bool}
    (h : Opened site vm vm' b' p) :
    RunsBody b vm vm' ↔ b' = b ∧
      (p ∨ ∃ c, vm.chunks[b.closure]? = some c ∧ c.localCount ≤ (site.args vm).length + 1) := by
  obtain ⟨frames, chunks, callee, c, hc, stack⟩ := h
  have height : vm'.height - (site.below vm).length =
      (if p then c.localCount - ((site.args vm).length + 1) else 0) + ((site.args vm).length + 1) := by
    simp only [VM.height, stack, List.length_append, List.length_replicate, List.length_reverse,
      List.length_cons]
    omega
  constructor
  · rintro ⟨f, c', hf, closure, ip, hc', fits⟩
    obtain ⟨rfl, -⟩ := List.cons.inj (frames.symm.trans hf)
    obtain rfl : b' = b := by
      cases b'
      cases b
      cases ip
      rfl
    refine ⟨rfl, ?_⟩
    cases p with
    | true => exact .inl rfl
    | false =>
      rw [height] at fits
      exact .inr ⟨c', chunks ▸ hc', by simpa using fits⟩
  · rintro ⟨rfl, hp⟩
    cases p with
    | true =>
      refine ⟨_, c, frames, rfl, rfl, chunks ▸ hc rfl, ?_⟩
      rw [height, if_pos rfl]
      omega
    | false =>
      obtain ⟨c', hc', fits⟩ := hp.resolve_left (by simp)
      refine ⟨_, c', frames, rfl, rfl, chunks ▸ hc', ?_⟩
      rw [height]
      simpa using fits

/-- A script that pushes the offset of its own first instruction and calls it. -/
def selfCallState (off : Nat) (stack : List (Value Int)) : VM Int where
  stack := stack
  frames := [⟨0, ⟨0, off⟩, 0, false⟩]
  chunks := [{ code := [{ op := .const }, { op := .call }].flatMap Instr.encode, constants := [.number 0] }]

/-- The code of a module: a class with the method `FUNCTION m(self) { RETURN 1; }`, whose body is at 3. -/
def moduleChunk : Chunk Int where
  code := [{ op := .jump, a := 6 }, { op := .const }, { op := .return, a := 1 }, { op := .newClass, a := 1 },
    { op := .const, a := 2 }, { op := .bindMethod, a := 3 }, { op := .return, a := 1 }].flatMap Instr.encode
  constants := [.number 1, .string (bytes "C"), .number 3, .string (bytes "m")]
  localCount := 2

/-- The code of a script with a function `RETURN 7;` at 3, which loads the module and calls `m` on it. -/
def loaderChunk : Chunk Int where
  code := [{ op := .jump, a := 6 }, { op := .const }, { op := .return, a := 1 }, { op := .const, a := 1 },
    { op := .call }, { op := .methodCall, a := 2 }, { op := .return, a := 1 }].flatMap Instr.encode
  constants := [.number 7, .number (-1), .string (bytes "m")]
  localCount := 1

/-- The native that loads the module. -/
def loaderEnv : Env Int where
  natives := [fun _ => .eval moduleChunk fun _ rets => .done rets]

/-- The script about to start. -/
def loaderState : VM Int where
  stack := [.null]
  frames := [⟨0, ⟨0, 0⟩, 0, false⟩]
  chunks := [loaderChunk]

end Cando
