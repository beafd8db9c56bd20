import Cando.Vm.Run

/-!
# Binding locals

The compiler binds values that lie on the stack by a row of `OP_DEF_LOCAL`s, one for each name, the value on top first:
the parameters of a CATCH and the variables of a loop. Here is what such a row of instructions does, wherever it stands
in the code of the frame that is running.
-/

namespace Cando

open Program Machine

variable {ν : Type}

/-- The frame with its `ip` at an offset. -/
def Frame.goto (f : Frame) (off : Nat) : Frame := { f with ip := ⟨f.ip.chunk, off⟩ }

/-- The code that binds the values on top to the slots. -/
def bindCode (slots : List Nat) : List UInt8 := slots.flatMap fun slot => (Instr.mk .defLocal slot 0).encode

section Binding

variable {f : Frame} {fs : List Frame} {c : Chunk ν} {vm : VM ν} {off : Nat} {i : Instr}

lemma VM.height_setCell (vm : VM ν) (j : Nat) (v : Value ν) : (vm.setCell j v).height = vm.height := by
  rw [VM.setCell]
  split
  · exact List.length_set
  · rfl

/-- The cells of the lower part of the stack. -/
lemma VM.cell_low {us τ : List (Value ν)} {j : Nat} (stack : vm.stack = us ++ τ) (low : j < τ.length) :
    vm.cell j = τ[τ.length - 1 - j]? := by
  have height : vm.height = us.length + τ.length := by rw [VM.height, stack, List.length_append]
  have behind : us.length ≤ vm.height - 1 - j := by omega
  have index : vm.height - 1 - j - us.length = τ.length - 1 - j := by omega
  rw [VM.cell, if_pos (by omega), stack, List.getElem?_append_right behind, index]

lemma VM.setCell_low {us τ : List (Value ν)} {j : Nat} (stack : vm.stack = us ++ τ) (low : j < τ.length)
    (v : Value ν) : (vm.setCell j v).stack = us ++ τ.set (τ.length - 1 - j) v := by
  have height : vm.height = us.length + τ.length := by rw [VM.height, stack, List.length_append]
  have behind : us.length ≤ vm.height - 1 - j := by omega
  have index : vm.height - 1 - j - us.length = τ.length - 1 - j := by omega
  rw [VM.setCell, if_pos (by omega), stack, List.set_append_right _ _ behind, index]

/-- What stands behind a piece of placed code. -/
lemma placed_next {code seg rest : List UInt8} {n : Nat} (h : seg ++ rest <+: code.drop n) :
    rest <+: code.drop (n + seg.length) := by
  obtain ⟨tail, e⟩ := h
  refine ⟨tail, ?_⟩
  rw [← List.drop_drop, ← e, List.append_assoc, List.drop_left]

/-- Fetching moves the `ip` of the running frame. -/
lemma fetch_moves {vm' : VM ν} (h : fetch vm = .ok i vm') :
    ∃ f ip fs, vm.frames = f :: fs ∧ vm' = { vm with frames := { f with ip := ⟨f.ip.chunk, ip⟩ } :: fs } := by
  cases frames : vm.frames with
  | nil =>
    rw [fetch, bind_apply, frame, frames] at h
    cases h
  | cons f fs =>
    have top : frame vm = .ok f vm := by rw [frame, frames]
    cases there : vm.chunks[f.ip.chunk]? with
    | none =>
      rw [fetch, bind_apply, top, Outcome.bind_ok, bind_apply, chunkOf, bind_apply, get_apply, Outcome.bind_ok,
        there] at h
      cases h
    | some c =>
      have running : chunkOf f.ip.chunk vm = .ok c vm := by
        rw [chunkOf, bind_apply, get_apply, Outcome.bind_ok, there, orCrash_some, pure_apply]
      cases decoded : decode c.code f.ip.off with
      | none =>
        rw [fetch, bind_apply, top, Outcome.bind_ok, bind_apply, running, Outcome.bind_ok, bind_apply, decoded] at h
        cases h
      | some j =>
        rw [fetch_apply frames there decoded] at h
        cases h
        exact ⟨f, _, fs, rfl, rfl⟩

/-- The state behind the binding of a local. -/
def VM.defined (vm : VM ν) (j : Nat) (v : Value ν) (τ : List (Value ν)) : VM ν :=
  { ({ vm with stack := τ, dead := v :: vm.dead } : VM ν).setCell j v with spreadExtra := 0 }

lemma VM.height_defined (vm : VM ν) (j : Nat) (v : Value ν) (τ : List (Value ν)) :
    (vm.defined j v τ).height = τ.length :=
  VM.height_setCell _ j v

lemma VM.defined_kept (vm : VM ν) (j : Nat) (v : Value ν) (τ : List (Value ν)) : (vm.defined j v τ).frames = vm.frames ∧
    (vm.defined j v τ).chunks = vm.chunks ∧ (vm.defined j v τ).errorVals = vm.errorVals := by
  rw [VM.defined, VM.setCell]
  split
  · exact ⟨rfl, rfl, rfl⟩
  · exact ⟨rfl, rfl, rfl⟩

/-- `OP_DEF_LOCAL` binds the value on top to a slot, which is there at least when it lies on the stack. -/
lemma opDefLocal_apply {slot : Nat} {v : Value ν} {τ : List (Value ν)}
    (frames : vm.frames = f :: fs) (stack : vm.stack = v :: τ) :
    opDefLocal slot vm = .ok () (vm.defined (f.slots + slot) v τ) ∨
      opDefLocal slot vm = .crash .undefined ∧ τ.length ≤ f.slots + slot := by
  obtain ⟨s, e⟩ : ∃ s, ({ vm with stack := τ, dead := v :: vm.dead } : VM ν) = s := ⟨_, rfl⟩
  have popped : pop vm = .ok v s := by
    rw [pop, stack, ← e]
  have top : frame s = .ok f s := by
    rw [frame, ← e, frames]
  have old : readLocal slot s = orCrash .undefined (s.cell (f.slots + slot)) s := by
    rw [readLocal, bind_apply, top, Outcome.bind_ok, bind_apply, get_apply, Outcome.bind_ok]
  rw [opDefLocal, bind_apply, popped, Outcome.bind_ok, bind_apply, setLocal, bind_apply, old]
  cases there : s.cell (f.slots + slot) with
  | some w =>
    left
    rw [orCrash_some, pure_apply, Outcome.bind_ok, bind_apply, top, Outcome.bind_ok, modify_apply, Outcome.bind_ok,
      modify_apply, VM.defined, e]
  | none =>
    right
    refine ⟨rfl, Nat.le_of_not_lt fun low => ?_⟩
    have here : s.stack = [] ++ τ := by rw [← e, List.nil_append]
    rw [VM.cell_low here low] at there
    have within := List.getElem?_eq_none_iff.mp there
    omega

/-- The instruction at the `ip` is the one that was placed there. -/
lemma fetch_goto (frames : vm.frames = f.goto off :: fs) (chunk : vm.chunks[f.ip.chunk]? = some c) (fits : i.Fits)
    (placed : i.encode <+: c.code.drop off) : fetch vm = .ok i { vm with frames := f.goto (off + i.op.size) :: fs } :=
  fetch_apply frames chunk (decode_placed fits placed)

variable [F64 ν] {E : Env ν} {entry : VM ν} {waiting : List (Suspended (VM ν) VMResult Crash)}

/-- One local is bound, at least when its slot lies on the stack. -/
lemma step_defLocal {slot : Nat} {v : Value ν} {τ : List (Value ν)}
    (frames : vm.frames = f.goto off :: fs) (chunk : vm.chunks[f.ip.chunk]? = some c)
    (fits : slot < 65536) (placed : (Instr.mk .defLocal slot 0).encode <+: c.code.drop off)
    (stack : vm.stack = v :: τ) :
    (∃ vm', step E vm = .ok () vm' ∧ vm'.frames = f.goto (off + 3) :: fs ∧ vm'.chunks = vm.chunks ∧
      vm'.errorVals = vm.errorVals ∧ vm'.height = τ.length ∧
      (f.slots + slot < τ.length → vm'.stack = τ.set (τ.length - 1 - (f.slots + slot)) v)) ∨
    step E vm = .crash .undefined ∧ τ.length ≤ f.slots + slot := by
  have fits : (Instr.mk .defLocal slot 0).Fits := ⟨fits, rfl⟩
  obtain ⟨s, e⟩ : ∃ s, ({ vm with frames := f.goto (off + 3) :: fs } : VM ν) = s := ⟨_, rfl⟩
  have frames' : s.frames = f.goto (off + 3) :: fs := by rw [← e]
  have stack' : s.stack = v :: τ := by rw [← e, stack]
  have run : step E vm = opDefLocal slot s := by
    rw [step_apply (fetch_goto frames chunk fits placed), ← e]
    rfl
  rw [run]
  refine (opDefLocal_apply frames' stack').imp_left fun defined => ?_
  obtain ⟨frames₁, chunks₁, errorVals₁⟩ := s.defined_kept (f.slots + slot) v τ
  refine ⟨_, defined, frames₁.trans frames', chunks₁.trans ?_, errorVals₁.trans ?_, VM.height_defined _ _ _ _,
    fun low => ?_⟩
  · rw [← e]
  · rw [← e]
  · have here : VM.stack { s with stack := τ, dead := v :: s.dead } = [] ++ τ := (List.nil_append τ).symm
    exact VM.setCell_low here low v

/-- Binding the locals takes their values off the stack, whatever the slots are. -/
lemma height_bindLocals {pending : List Nat} {n : Nat} {vm' : VM ν}
    (frames : vm.frames = f.goto off :: fs) (chunk : vm.chunks[f.ip.chunk]? = some c)
    (fits : ∀ slot ∈ pending, slot < 65536)
    (placed : bindCode pending <+: c.code.drop off)
    (height : vm.height = pending.length + n)
    (run : (interp E).steps pending.length (.running entry vm waiting) = .running entry vm' waiting) :
    vm'.height = n := by
  induction pending generalizing vm off with
  | nil =>
    cases run
    rw [height, List.length_nil, Nat.zero_add]
  | cons slot pending ih =>
    obtain ⟨fit, fits⟩ := List.forall_mem_cons.mp fits
    rw [bindCode, List.flatMap_cons] at placed
    obtain ⟨v, τ, stack⟩ : ∃ v τ, vm.stack = v :: τ := by
      apply List.exists_cons_of_length_pos
      rw [← VM.height, height, List.length_cons]
      omega
    have low : τ.length = pending.length + n := by
      rw [VM.height, stack, List.length_cons, List.length_cons] at height
      omega
    rw [List.length_cons, steps] at run
    obtain ⟨vm₁, next, frames₁, chunks₁, -, height₁, -⟩ | ⟨next, -⟩ :=
      step_defLocal frames chunk fit ((List.prefix_append _ _).trans placed) stack
    · rw [machine_step next] at run
      rw [← chunks₁] at chunk
      exact ih frames₁ chunk fits (placed_next placed) (height₁.trans low) run
    · rw [machine_crash next, steps_crashed] at run
      cases run

/-- The values on top are bound to the slots, if these lie below them. -/
lemma bindLocals_run (entry : VM ν) (waiting : List (Suspended (VM ν) VMResult Crash))
    {pending : List Nat} {args τ : List (Value ν)} (same : args.length = pending.length)
    (distinct : pending.Nodup) (window : ∀ slot ∈ pending, f.slots + slot < τ.length)
    (frames : vm.frames = f.goto off :: fs) (chunk : vm.chunks[f.ip.chunk]? = some c)
    (fits : ∀ slot ∈ pending, slot < 65536)
    (placed : bindCode pending <+: c.code.drop off)
    (stack : vm.stack = args ++ τ) :
    ∃ vm', (interp E).steps pending.length (.running entry vm waiting) = .running entry vm' waiting ∧
      vm'.frames = f.goto (off + 3 * pending.length) :: fs ∧ vm'.errorVals = vm.errorVals ∧
      vm'.height = τ.length ∧
      (∀ i slot : Nat, pending[i]? = some slot → vm'.cell (f.slots + slot) = args[i]?) ∧
      ∀ j < τ.length, (∀ slot ∈ pending, j ≠ f.slots + slot) → vm'.cell j = vm.cell j := by
  induction pending generalizing vm off args τ with
  | nil =>
    have none : args = [] := List.eq_nil_of_length_eq_zero same
    rw [none, List.nil_append] at stack
    refine ⟨vm, rfl, frames, rfl, by rw [VM.height, stack], fun i slot there => ?_, fun j _ _ => rfl⟩
    rw [List.getElem?_nil] at there
    cases there
  | cons slot pending ih =>
    obtain ⟨v, args, rfl⟩ := List.exists_cons_of_length_eq_add_one same
    obtain ⟨fit, fits⟩ := List.forall_mem_cons.mp fits
    obtain ⟨low, window⟩ := List.forall_mem_cons.mp window
    obtain ⟨fresh, distinct⟩ := List.nodup_cons.mp distinct
    have same : args.length = pending.length := Nat.succ.inj same
    rw [bindCode, List.flatMap_cons] at placed
    have inside : f.slots + slot < (args ++ τ).length := by
      rw [List.length_append]
      omega
    rw [List.cons_append] at stack
    obtain ⟨vm₁, next, frames₁, chunks₁, errorVals₁, height₁, stack₁⟩ | ⟨-, above⟩ :=
      step_defLocal (E := E) frames chunk fit ((List.prefix_append _ _).trans placed) stack
    · have index : (args ++ τ).length - 1 - (f.slots + slot) - args.length =
          τ.length - 1 - (f.slots + slot) := by
        rw [List.length_append]
        omega
      have behind : args.length ≤ (args ++ τ).length - 1 - (f.slots + slot) := by
        rw [List.length_append]
        omega
      have stack₁ : vm₁.stack = args ++ τ.set (τ.length - 1 - (f.slots + slot)) v := by
        rw [stack₁ inside, List.set_append_right _ _ behind, index]
      have size : (τ.set (τ.length - 1 - (f.slots + slot)) v).length = τ.length := List.length_set
      rw [← chunks₁] at chunk
      obtain ⟨vm', run, frames', errorVals', height', values, others⟩ :=
        ih same distinct (by rwa [size]) frames₁ chunk fits (placed_next placed) stack₁
      rw [size] at height' others
      have here : vm'.cell (f.slots + slot) = some v := by
        rw [others _ low fun slot' mem same => ?_, VM.cell_low stack₁ (by rwa [size]), size,
          List.getElem?_set_self (by omega)]
        obtain rfl : slot = slot' := Nat.add_left_cancel same
        exact fresh mem
      refine ⟨vm', ?_, ?_, errorVals'.trans errorVals₁, height', fun i slot' there => ?_, fun j less apart => ?_⟩
      · rw [List.length_cons, steps, machine_step next, run]
      · rw [frames', List.length_cons, Nat.mul_succ, Nat.add_comm (3 * pending.length), ← Nat.add_assoc]
      · cases i with
        | zero =>
          obtain rfl : slot = slot' := Option.some.inj there
          exact here
        | succ i => exact values i slot' there
      · obtain ⟨ne, apart⟩ := List.forall_mem_cons.mp apart
        have far : τ.length - 1 - (f.slots + slot) ≠ τ.length - 1 - j := by omega
        have stack : vm.stack = (v :: args) ++ τ := stack
        rw [others j less apart, VM.cell_low stack₁ (by rwa [size]), size, List.getElem?_set_ne far,
          VM.cell_low stack less]
    · omega

end Binding

end Cando
