import Cando.Vm.Calls

/-!
# What a loop keeps on the stack

A `FOR IN` or `FOR OF` loop keeps its items, their count and the next index on the value stack. `OP_FOR_INIT`
writes these cells, `OP_FOR_NEXT` steps the index and drops them when no item is left, and `OP_BREAK` reads
them again. A run inside a loop leaves the cells to the loop's own `OP_FOR_NEXT`. On such runs `OP_BREAK` drops
as many items as the loop has taken, so it restores the height from before the loop on the last item only;
`OP_CONTINUE` drops nothing, so the next `OP_FOR_NEXT` finds the cells on top only if nothing lies above them.
-/

namespace Cando

open Program Value Machine

variable {ν : Type}

/-- The `n` cells from index `h` on, the lowest first. -/
def VM.cells (vm : VM ν) (h n : Nat) : List (Value ν) := (vm.stack.reverse.drop h).take n

/-- Cells that are there lie above `h` others. -/
lemma VM.cells_split {vm : VM ν} {h : Nat} {C : List (Value ν)} (e : vm.cells h C.length = C) (ne : C ≠ []) :
    ∃ τ σ, vm.stack = τ ++ (C.reverse ++ σ) ∧ σ.length = h := by
  have rest : vm.stack.reverse = vm.stack.reverse.take h ++ (C ++ (vm.stack.reverse.drop h).drop C.length) := by
    nth_rewrite 1 [← List.take_append_drop h vm.stack.reverse]
    congr 1
    exact (List.take_append_drop C.length _).symm.trans (congrArg (· ++ _) e)
  refine ⟨((vm.stack.reverse.drop h).drop C.length).reverse, (vm.stack.reverse.take h).reverse, ?_, ?_⟩
  · have back := congrArg List.reverse rest
    rw [List.reverse_reverse, List.reverse_append, List.reverse_append] at back
    rw [← List.append_assoc]
    exact back
  · have len := congrArg List.length e
    have pos := List.length_pos_iff.mpr ne
    simp only [VM.cells, List.length_take, List.length_drop, List.length_reverse] at len ⊢
    omega

lemma VM.cells_append {vm : VM ν} {τ C σ : List (Value ν)} (e : vm.stack = τ ++ (C.reverse ++ σ)) :
    vm.cells σ.length C.length = C := by
  have drop : vm.stack.reverse.drop σ.length = C ++ τ.reverse := by simp [e]
  rw [VM.cells, drop, List.take_left]

lemma push_eq_ok {v : Value ν} {vm vm' : VM ν} (h : push v vm = .ok () vm') :
    vm'.stack = v :: vm.stack ∧ vm.height < stackMax := by
  unfold push at h
  split at h
  · rename_i room
    cases h
    exact ⟨rfl, room⟩
  · cases h

/-- Popping what is known to lie on top. -/
lemma popN_append (τ : List (Value ν)) {σ : List (Value ν)} {vm : VM ν} (h : vm.stack = τ ++ σ) :
    ∃ vm', popN τ.length vm = .ok () vm' ∧ vm'.stack = σ ∧ vm'.frames = vm.frames := by
  induction τ generalizing vm with
  | nil => exact ⟨vm, rfl, h, rfl⟩
  | cons v τ ih =>
    have e : pop vm = .ok v { vm with stack := τ ++ σ, dead := v :: vm.dead } := by
      simp [pop, h]
    rw [List.length_cons, popN, bind_apply, e]
    exact ih rfl

/-! ### The cells of a loop -/

section Cells

variable [F64 ν]

/-- The cells of a loop over `items` that has taken `k` of them, the lowest first. -/
def forCells (items : List (Value ν)) (k : Nat) : List (Value ν) := items ++ [ofNat items.length, ofNat k]

/-- The stack of the loop when its cells are on top, above the cells `σ`. -/
def forStack (σ items : List (Value ν)) (k : Nat) : List (Value ν) :=
  ofNat k :: ofNat items.length :: (items.reverse ++ σ)

@[simp] lemma forCells_length (items : List (Value ν)) (k : Nat) :
    (forCells items k).length = items.length + 2 := by
  simp [forCells]

lemma forCells_reverse_append (σ items : List (Value ν)) (k : Nat) :
    (forCells items k).reverse ++ σ = forStack σ items k := by
  simp [forCells, forStack]

@[simp] lemma forStack_length (σ items : List (Value ν)) (k : Nat) :
    (forStack σ items k).length = σ.length + (items.length + 2) := by
  simp only [forStack, List.length_cons, List.length_append, List.length_reverse]
  omega

/-- A program that ends in a state has left the stack as it was. -/
def SameStack (vm vm' : VM ν) : Prop := vm'.stack = vm.stack

instance : IsPreorder (VM ν) SameStack where
  refl _ := rfl
  trans _ _ _ h h' := h'.trans h

omit [F64 ν] in
lemma sameStack_resolve (h : Nat) : Steady SameStack (fun _ => True) (resolve h : M ν _) :=
  Steady.get.bind fun _ => Steady.orCrash _ _

omit [F64 ν] in
lemma sameStack_toCando (v : CdoValue ν) : Steady SameStack (fun _ => True) (toCando v) := fun _ => rfl

omit [F64 ν] in
lemma sameStack_arrayValues (items : List (CdoValue ν)) :
    Steady SameStack (fun _ => True) (arrayValues items) :=
  Steady.mapM sameStack_toCando items

/-- Looking at the items of a loop moves nothing. -/
lemma sameStack_loopItems (mode : Nat) (iterable : Value ν) :
    Steady SameStack (fun _ => True) (loopItems mode iterable) := by
  cases iterable with
  | object h =>
    exact (sameStack_resolve h).bind fun _ => ((Steady.pure _).ite (sameStack_arrayValues _)).ite
      ((Steady.pure _).ite (sameStack_arrayValues _))
  | _ => exact Steady.pure _

lemma loopItems_stack {mode : Nat} {iterable : Value ν} {vm vm' : VM ν} {items : List (Value ν)}
    (h : loopItems mode iterable vm = .ok items vm') : vm'.stack = vm.stack := by
  have steady := sameStack_loopItems mode iterable vm
  rwa [h] at steady

/-- `OP_FOR_INIT` lays the loop's cells out over the stack below the iterated value, or runs out of stack. -/
lemma opForInit_cases {mode : Nat} {vm vm₁ vm₂ : VM ν} {iterable : Value ν} {items : List (Value ν)}
    (popped : pop vm = .ok iterable vm₁) (found : loopItems mode iterable vm₁ = .ok items vm₂) :
    (∃ vm', opForInit mode vm = .ok () vm' ∧ vm'.stack = forStack vm₁.stack items 0 ∧
      items.length < stackMax) ∨ opForInit mode vm = .crash .assertion := by
  rw [opForInit, bind_apply, popped, Outcome.bind_ok, bind_apply, found, Outcome.bind_ok, bind_apply]
  obtain e₁ | e₁ := pushAll_cases items vm₂ <;> rw [e₁]
  · rw [Outcome.bind_ok, bind_apply]
    obtain e₂ | e₂ := push_cases (ofNat items.length) (vm₂.pushed items) <;> rw [e₂]
    · rw [Outcome.bind_ok]
      obtain e₃ | e₃ := push_cases (ofNat 0) ((vm₂.pushed items).pushed [ofNat items.length])
      · refine .inl ⟨_, e₃, ?_, ?_⟩
        · simp [VM.pushed, forStack, loopItems_stack found]
        · have room := (push_eq_ok e₂).2
          simp only [VM.height, VM.pushed, List.length_append, List.length_reverse] at room
          omega
      · exact .inr e₃
    · exact .inr rfl
  · exact .inr rfl

omit [F64 ν] in
lemma numBelow_apply {vm : VM ν} {d : Nat} {x : ν} (h : vm.stack[d]? = some (.number x)) :
    numBelow d vm = .ok x vm := by
  simp [numBelow, below, h]

/-- The item that a loop takes next lies in the cell where `OP_FOR_NEXT` looks for it. -/
lemma nextItem_apply {σ items : List (Value ν)} {k : Nat} {vm : VM ν} (stack : vm.stack = forStack σ items k)
    (more : k < items.length) (bound : items.length < stackMax) :
    nextItem (F64.ofInt (k : Int)) (F64.ofInt (items.length : Int)) vm =
      push items[k] { vm with stack := forStack σ items (k + 1) } := by
  have small : k < 4294967296 ∧ items.length < 4294967296 := by
    simp only [stackMax] at bound
    omega
  have next : F64.add (F64.ofInt (k : Int)) (F64.ofInt 1 : ν) = F64.ofInt ((k + 1 : Nat) : Int) := by
    rw [F64.add_ofInt _ _ (by omega) (by omega) (by omega)]
    rfl
  have dist : (1 + (items.length : Int) - k).toNat = items.length - 1 - k + 2 := by omega
  have item : (forStack σ items (k + 1))[items.length - 1 - k + 2]? = some items[k] := by
    have lt : items.length - 1 - k < items.reverse.length := by simp; omega
    simp only [forStack, List.getElem?_cons_succ]
    rw [List.getElem?_append_left lt, List.getElem?_eq_getElem lt, List.getElem_reverse]
    congr 2
    omega
  have top : vm.stack.set 0 (.number (F64.ofInt ((k + 1 : Nat) : Int))) = forStack σ items (k + 1) := by
    rw [stack]
    rfl
  have tall : 0 < vm.height := by
    rw [VM.height, stack, forStack_length]
    omega
  simp only [nextItem, F64.toI64_ofInt small.1, F64.toI64_ofInt small.2, orCrash_some, bind_apply,
    pure_apply, Outcome.bind_ok, setBelow, tall, if_true, next, top, belowInt]
  rw [if_neg (by omega), dist, below, item]
  rfl

/-- Leaving the loop with the item that it took last: as many cells go as the loop has taken items. -/
lemma dropLoopState_apply {σ items : List (Value ν)} {k : Nat} {vm : VM ν}
    (stack : vm.stack = forStack σ items k) (le : k ≤ items.length) (bound : items.length < stackMax) :
    ∃ vm', dropLoopState loopFor vm = .ok () vm' ∧ vm'.height = σ.length + (items.length - k) ∧
      vm'.frames = vm.frames := by
  have index : numBelow 0 vm = .ok (F64.ofInt (k : Int)) vm := numBelow_apply (by rw [stack]; rfl)
  have small : k < 4294967296 := by
    simp only [stackMax] at bound
    omega
  obtain ⟨vm₁, counters, stack₁, frames₁⟩ := popN_append [ofNat k, ofNat items.length] stack
  have len : (items.reverse.take k).length = k := by simp [le]
  have stack₁ : vm₁.stack = items.reverse ++ σ := stack₁
  have split : vm₁.stack = items.reverse.take k ++ (items.reverse.drop k ++ σ) := by
    rw [stack₁, ← List.append_assoc, List.take_append_drop]
  obtain ⟨vm₂, taken, stack₂, frames₂⟩ := popN_append _ split
  have counters : popN 2 vm = .ok () vm₁ := counters
  rw [len] at taken
  refine ⟨vm₂, ?_, ?_, frames₂.trans frames₁⟩
  · rw [dropLoopState, if_neg (by decide), when, if_pos rfl, bind_apply, index, Outcome.bind_ok,
      bind_apply, counters, Outcome.bind_ok, F64.toI64_ofInt small, orCrash_some]
    exact taken
  · simp only [VM.height, stack₂, List.length_append, List.length_drop, List.length_reverse]
    omega

omit [F64 ν] in
lemma setIp_apply (vm : VM ν) (p : CodePtr) (running : vm.frames ≠ []) :
    ∃ f fs, vm.frames = f :: fs ∧ setIp p vm = .ok () { vm with frames := { f with ip := p } :: fs } := by
  obtain ⟨f, fs, e⟩ := List.exists_cons_of_ne_nil running
  exact ⟨f, fs, e, by simp [setIp, e]⟩

/-- `OP_BREAK` out of a loop that has taken `k` items leaves the others on the stack. -/
lemma opBreak_apply {σ items : List (Value ν)} {k depth idx : Nat} {lf : LoopFrame} {vm : VM ν}
    (running : vm.frames ≠ []) (found : loopAt "BREAK" depth vm = .ok (idx, lf) vm)
    (kind : lf.loopType = loopFor) (save : lf.stackSave = (forStack σ items k).length) {τ : List (Value ν)}
    (cells : vm.stack = τ ++ forStack σ items k) (le : k ≤ items.length) (bound : items.length < stackMax) :
    ∃ vm', opBreak depth vm = .ok () vm' ∧ vm'.height = σ.length + (items.length - k) := by
  have stack : (vm.popTo lf.stackSave).stack = forStack σ items k := by
    have above : vm.height - lf.stackSave = τ.length := by
      rw [save, VM.height, cells, List.length_append, Nat.add_sub_cancel]
    rw [VM.popTo, above, cells, List.drop_left]
  obtain ⟨vm₁, dropped, height, frames⟩ := dropLoopState_apply stack le bound
  have frames : vm₁.frames ≠ [] := by rw [frames]; exact running
  obtain ⟨f, fs, -, jumped⟩ := setIp_apply { vm₁ with spreadExtra := 0 } lf.breakIp frames
  refine ⟨{ vm₁ with spreadExtra := 0, frames := { f with ip := lf.breakIp } :: fs, loopDepth := idx },
    ?_, height⟩
  simp only [opBreak, bind_apply, found, Outcome.bind_ok, popTo, modify_apply, kind, dropped, jumped]

omit [F64 ν] in
/-- `OP_CONTINUE` leaves the stack as it is. -/
lemma opContinue_apply {depth idx : Nat} {lf : LoopFrame} {vm : VM ν} (running : vm.frames ≠ [])
    (found : loopAt "CONTINUE" depth vm = .ok (idx, lf) vm) :
    ∃ vm', opContinue depth vm = .ok () vm' ∧ vm'.stack = vm.stack := by
  obtain ⟨f, fs, -, jumped⟩ := setIp_apply vm lf.contIp running
  refine ⟨{ vm with frames := { f with ip := lf.contIp } :: fs, loopDepth := idx }, ?_, rfl⟩
  simp only [opContinue, bind_apply, found, Outcome.bind_ok, jumped, modify_apply]

omit [F64 ν] in
lemma jumpBy_stack {off : Int} {vm vm' : VM ν} (h : jumpBy off vm = .ok () vm') : vm'.stack = vm.stack := by
  obtain ⟨f, s₁, hf, h₁⟩ := Outcome.bind_eq_ok h
  obtain rfl := reads_frame vm f s₁ hf
  dsimp only at h₁
  split at h₁
  · cases h₁
  · unfold setIp at h₁
    split at h₁ <;> cases h₁
    rfl

end Cells

/-! ### Runs inside a loop -/

section Runs

variable [OrderedF64 ν] {E : Env ν} {σ items : List (Value ν)} {k : Nat}

/-- A run of the interpreter that is inside a loop begun at stack height `h` and has taken `k` of its items,
from the loop's `OP_FOR_INIT` on: the loop's `OP_FOR_NEXT` takes an item, and what the body does, nested runs
included, leaves the loop's cells alone. -/
inductive InLoop (E : Env ν) (h : Nat) (items : List (Value ν)) : Nat → Config (VM ν) VMResult Crash → Prop where
  | init {e s s₁ s₂ s₃ : VM ν} {outer mode iterable} (fetched : fetch s = .ok { op := .forInit, a := mode } s₁)
      (popped : pop s₁ = .ok iterable s₂) (below : s₂.height = h)
      (found : loopItems mode iterable s₂ = .ok items s₃) :
      InLoop E h items 0 ((interp E).step (.running e s outer))
  | next {k : Nat} {e s s₁ : VM ν} {outer} {i : Instr} (run : InLoop E h items k (.running e s outer))
      (fetched : fetch s = .ok i s₁) (op : i.op = .forNext) (top : s.height = h + (items.length + 2))
      (more : k < items.length) : InLoop E h items (k + 1) ((interp E).step (.running e s outer))
  | body {k : Nat} {c} (run : InLoop E h items k c)
      (spares : ∀ s s', c.state = some s → ((interp E).step c).state = some s' →
        s'.cells h (items.length + 2) = s.cells h (items.length + 2)) :
      InLoop E h items k ((interp E).step c)

/-- The loop's cells are where `OP_FOR_INIT` put them. -/
structure LoopCells (h : Nat) (items : List (Value ν)) (k : Nat) (vm : VM ν) : Prop where
  cells : vm.cells h (items.length + 2) = forCells items k
  taken : k ≤ items.length
  bound : items.length < stackMax

/-- The loop's cells with what lies above and below them. -/
lemma LoopCells.split {h : Nat} {vm : VM ν} (cells : LoopCells h items k vm) :
    ∃ τ σ, vm.stack = τ ++ forStack σ items k ∧ σ.length = h := by
  have e := cells.cells
  rw [← forCells_length items k] at e
  obtain ⟨τ, σ, stack, below⟩ := VM.cells_split e (by simp [forCells])
  exact ⟨τ, σ, by rw [stack, forCells_reverse_append], below⟩

lemma LoopCells.of_stack {τ σ : List (Value ν)} {vm : VM ν} (stack : vm.stack = τ ++ forStack σ items k)
    (taken : k ≤ items.length) (bound : items.length < stackMax) : LoopCells σ.length items k vm := by
  refine ⟨?_, taken, bound⟩
  rw [← forCells_reverse_append] at stack
  rw [← forCells_length items k]
  exact VM.cells_append stack

/-- Nothing lies above the loop's cells when the stack is just so high. -/
lemma LoopCells.top_iff {h : Nat} {vm : VM ν} (cells : LoopCells h items k vm) :
    (∃ σ, vm.stack = forStack σ items k ∧ σ.length = h) ↔ vm.height = h + (items.length + 2) := by
  constructor
  · rintro ⟨σ, stack, rfl⟩
    rw [VM.height, stack, forStack_length]
  · intro top
    obtain ⟨τ, σ, stack, below⟩ := cells.split
    refine ⟨σ, ?_, below⟩
    rw [VM.height, stack, List.length_append, forStack_length] at top
    have none : τ = [] := List.eq_nil_of_length_eq_zero (by omega)
    rw [stack, none, List.nil_append]

omit [OrderedF64 ν] in
lemma reads_chunkOf (closure : Nat) : Meets Reads (chunkOf closure : M ν (Chunk ν)) :=
  Meets.get.bind fun _ => Meets.orCrash _ _

omit [OrderedF64 ν] in
/-- Reading an instruction moves the `ip` of the running frame and nothing else. -/
lemma fetch_eq_ok {s s₁ : VM ν} {i : Instr} (h : fetch s = .ok i s₁) :
    s₁.stack = s.stack ∧ s₁.frames ≠ [] := by
  obtain ⟨f, s₂, hf, h₁⟩ := Outcome.bind_eq_ok h
  obtain ⟨c, s₃, hc, h₂⟩ := Outcome.bind_eq_ok h₁
  obtain ⟨j, s₄, hj, h₃⟩ := Outcome.bind_eq_ok h₂
  obtain ⟨_, s₅, jumped, h₄⟩ := Outcome.bind_eq_ok h₃
  have e₂ : s₂ = s := reads_frame s f s₂ hf
  have e₃ : s₃ = s₂ := reads_chunkOf _ s₂ c s₃ hc
  have e₄ : s₄ = s₃ := (Meets.orCrash (L := Reads) Crash.undefined _) s₃ j s₄ hj
  cases h₄
  rw [← e₂, ← e₃, ← e₄]
  unfold setIp at jumped
  split at jumped
  · cases jumped
    exact ⟨rfl, List.cons_ne_nil _ _⟩
  · cases jumped

/-- With an item left, `OP_FOR_NEXT` pushes it and steps the index, or runs out of stack. -/
lemma opForNext_more {a : Nat} {vm : VM ν} (stack : vm.stack = forStack σ items k) (more : k < items.length)
    (bound : items.length < stackMax) :
    opForNext a vm = .ok () (({ vm with stack := forStack σ items (k + 1) } : VM ν).pushed [items[k]]) ∨
      opForNext a vm = .crash .assertion := by
  have index : numBelow 0 vm = .ok (F64.ofInt (k : Int)) vm := numBelow_apply (by rw [stack]; rfl)
  have count : numBelow 1 vm = .ok (F64.ofInt (items.length : Int)) vm :=
    numBelow_apply (by rw [stack]; rfl)
  have less : F64.le (F64.ofInt (items.length : Int) : ν) (F64.ofInt (k : Int)) = false := by
    simp only [stackMax] at bound
    rw [OrderedF64.le_ofInt _ _ (by omega) (by omega), decide_eq_false_iff_not]
    omega
  have e : opForNext a vm = push items[k] { vm with stack := forStack σ items (k + 1) } := by
    rw [opForNext, bind_apply, index, Outcome.bind_ok, bind_apply, count, Outcome.bind_ok, less]
    exact nextItem_apply stack more bound
  rw [e]
  exact push_cases _ _

/-- With no item left, `OP_FOR_NEXT` drops the loop's cells. -/
lemma opForNext_done {a : Nat} {vm vm' : VM ν} (stack : vm.stack = forStack σ items items.length)
    (bound : items.length < stackMax) (h : opForNext a vm = .ok () vm') : vm'.stack = σ := by
  have index : numBelow 0 vm = .ok (F64.ofInt (items.length : Int)) vm :=
    numBelow_apply (by rw [stack]; rfl)
  have count : numBelow 1 vm = .ok (F64.ofInt (items.length : Int)) vm :=
    numBelow_apply (by rw [stack]; rfl)
  have small : items.length < 4294967296 := by
    simp only [stackMax] at bound
    omega
  have done : F64.le (F64.ofInt (items.length : Int) : ν) (F64.ofInt (items.length : Int)) = true := by
    rw [OrderedF64.le_ofInt _ _ (by omega) (by omega)]
    exact decide_eq_true (Int.le_refl _)
  obtain ⟨vm₁, counters, stack₁, -⟩ := popN_append [ofNat items.length, ofNat items.length] stack
  obtain ⟨vm₂, taken, stack₂, -⟩ := popN_append items.reverse stack₁
  have counters : popN 2 vm = .ok () vm₁ := counters
  rw [List.length_reverse] at taken
  have taken : popN (items.length : Int).toNat vm₁ = .ok () vm₂ := taken
  rw [opForNext, bind_apply, index, Outcome.bind_ok, bind_apply, count, Outcome.bind_ok, done, if_pos rfl,
    bind_apply, counters, Outcome.bind_ok, F64.toI64_ofInt small, orCrash_some, bind_apply, pure_apply,
    Outcome.bind_ok, bind_apply, taken, Outcome.bind_ok] at h
  rw [jumpBy_stack h, stack₂]

/-- A crash is final. -/
lemma step_crashed {c : Config (VM ν) VMResult Crash} (h : c.state = none) :
    ((interp E).step c).state = none := by
  cases c with
  | crashed x => rfl
  | _ => cases h

/-- On every run inside the loop its cells hold the items, their count and the number of items taken. -/
lemma InLoop.holds {h : Nat} {c : Config (VM ν) VMResult Crash} (run : InLoop E h items k c) {s : VM ν}
    (now : c.state = some s) : LoopCells h items k s := by
  induction run generalizing s with
  | @init e s₀ s₁ s₂ s₃ outer mode iterable fetched popped below found =>
    obtain ⟨s', done, stack, bound⟩ | crashed := opForInit_cases popped found
    · rw [machine_step ((step_apply fetched).trans done)] at now
      obtain rfl := Option.some.inj now
      rw [← below]
      exact .of_stack (τ := []) stack (Nat.zero_le _) bound
    · rw [machine_step_crash ((step_apply fetched).trans crashed)] at now
      cases now
  | @next k e s₀ s₁ outer i _ fetched op top more ih =>
    have inside := ih rfl
    obtain ⟨σ, stack, below⟩ := inside.top_iff.mpr top
    rw [← (fetch_eq_ok fetched).1] at stack
    have turn : step E s₀ = opForNext i.a s₁ := by rw [step_apply fetched, exec, op]
    obtain done | crashed := opForNext_more (a := i.a) stack more inside.bound
    · rw [machine_step (turn.trans done)] at now
      obtain rfl := Option.some.inj now
      rw [← below]
      exact .of_stack (τ := [items[k]]) rfl more inside.bound
    · rw [machine_step_crash (turn.trans crashed)] at now
      cases now
  | @body k c _ spares ih =>
    cases e : c.state with
    | none =>
      rw [step_crashed e] at now
      cases now
    | some s₀ =>
      obtain ⟨cells, taken, bound⟩ := ih e
      exact ⟨(spares s₀ s e now).trans cells, taken, bound⟩

/-- The loop that an instruction leaves or goes on with, `depth` loops out, has its cells just below index
`m`. -/
def OwnFrame (word : String) (depth m : Nat) (vm : VM ν) : Prop :=
  ∃ idx lf, loopAt word depth vm = .ok (idx, lf) vm ∧ lf.stackSave = m ∧ lf.loopType = loopFor

end Runs

/-- `FOR x OF a { BREAK; }`, with the array in slot 1 and `x` in slot 2. -/
def breakChunk : Chunk Int where
  code := [{ op := .loadLocal, a := 1 }, { op := .forInit }, { op := .forNext, a := 15 },
    { op := .defLocal, a := 2 }, { op := .loopMark, a := 7, b := 16395 }, { op := .break },
    { op := .loopEnd }, { op := .loop, a := 18 }, { op := .halt }].flatMap Instr.encode
  localCount := 3

/-- `FOR x OF a { a ~> { CONTINUE; }; }`, with `x` in slot 2 and `pipe` in slot 3. -/
def continueChunk : Chunk Int where
  code := [{ op := .loadLocal, a := 1 }, { op := .forInit }, { op := .forNext, a := 38 },
    { op := .defLocal, a := 2 }, { op := .loopMark, a := 30, b := 16395 }, { op := .loadLocal, a := 1 },
    { op := .pipeInit, a := 1 }, { op := .null }, { op := .defLocal, a := 3 }, { op := .pipeNext, a := 11 },
    { op := .defLocal, a := 3 }, { op := .continue }, { op := .null }, { op := .pipeCollect },
    { op := .loop, a := 14 }, { op := .pipeEnd }, { op := .pop }, { op := .loopEnd },
    { op := .loop, a := 41 }, { op := .halt }].flatMap Instr.encode
  localCount := 4

/-- A chunk at an offset, over an array of the given items in slot 1; the values in `frame` fill the slots
from 2 on, those in `top` lie above them. -/
def arrayState (chunk : Chunk Int) (items : List Int) (off : Nat) (top frame dead : List (Value Int))
    (loops : List LoopFrame) : VM Int where
  stack := top ++ (frame ++ [.object 0, .null])
  dead := dead
  frames := [⟨0, ⟨0, off⟩, 0, false⟩]
  loopStack := loops
  loopDepth := loops.length
  chunks := [chunk]
  store := { handles := [0], objs := [{ kind := .array, items := items.map .number }] }

/-! ### Computed runs -/

section Computed

variable {ν : Type} [OrderedF64 ν] {E : Env ν} {h k k' : Nat} {items : List (Value ν)} {e s s' : VM ν}
  {outer : List (Suspended (VM ν) VMResult Crash)}

/-- The instruction that is about to be executed is an `OP_FOR_NEXT`. -/
def atForNext (s : VM ν) : Bool :=
  match fetch s with
  | .ok i _ => i.op = .forNext
  | _ => false

variable [DecidableEq ν]

/-- A turn inside a loop over `n` items of which `k` are taken. -/
def loopTurn (E : Env ν) (h n k : Nat) (s : VM ν) : Option (Nat × VM ν) :=
  (step E s).ended.bind fun x =>
    if atForNext s ∧ s.height = h + (n + 2) ∧ k < n then some (k + 1, x.2)
    else if x.2.cells h (n + 2) = s.cells h (n + 2) then some (k, x.2)
    else none

/-- Some turns inside the loop. -/
def loopTurns (E : Env ν) (h n : Nat) : Nat → Nat → VM ν → Option (Nat × VM ν)
  | 0, k, s => some (k, s)
  | t + 1, k, s => (loopTurn E h n k s).bind fun x => loopTurns E h n t x.1 x.2

/-- A turn that is computed is one of the run. -/
lemma InLoop.turn (run : InLoop E h items k (.running e s outer))
    (turn : loopTurn E h items.length k s = some (k', s')) : InLoop E h items k' (.running e s' outer) := by
  obtain ⟨⟨⟨⟩, s₂⟩, ended, turn⟩ := Option.bind_eq_some_iff.mp turn
  have done : (interp E).step (.running e s outer) = .running e s₂ outer :=
    machine_step (Outcome.ended_eq_some ended)
  split at turn
  · rename_i next
    obtain ⟨rfl, rfl⟩ := Prod.mk.inj (Option.some.inj turn)
    rw [← done]
    obtain ⟨atNext, top, more⟩ := next
    unfold atForNext at atNext
    split at atNext
    · rename_i i s₁ fetched
      exact run.next fetched (of_decide_eq_true atNext) top more
    · cases atNext
  · split at turn
    · rename_i spares
      obtain ⟨rfl, rfl⟩ := Prod.mk.inj (Option.some.inj turn)
      rw [← done]
      refine run.body fun s₀ s₁ e₀ e₁ => ?_
      rw [done] at e₁
      obtain rfl := Option.some.inj e₀
      obtain rfl := Option.some.inj e₁
      exact spares
    · cases turn

lemma InLoop.turns {t : Nat} (run : InLoop E h items k (.running e s outer))
    (turns : loopTurns E h items.length t k s = some (k', s')) :
    InLoop E h items k' (.running e s' outer) := by
  induction t generalizing k s with
  | zero =>
    obtain ⟨rfl, rfl⟩ := Prod.mk.inj (Option.some.inj turns)
    exact run
  | succ t ih =>
    obtain ⟨⟨k₁, s₁⟩, turn, rest⟩ := Option.bind_eq_some_iff.mp turns
    exact ih (run.turn turn) rest

end Computed

/-- A loop over an array that has come to its first `OP_FOR_NEXT`. -/
lemma inLoop_array (chunk : Chunk Int) (xs : List Int) (frame : List (Value Int)) (s₁ s₂ s₃ s' : VM Int)
    (fetched : (fetch (arrayState chunk xs 3 [.object 0] frame [] [])).ended = some ({ op := .forInit }, s₁))
    (popped : (pop s₁).ended = some (.object 0, s₂))
    (found : (loopItems 0 (.object 0) s₂).ended = some (xs.map .number, s₃))
    (done : (step {} (arrayState chunk xs 3 [.object 0] frame [] [])).ended = some ((), s')) :
    InLoop ({} : Env Int) s₂.height (xs.map .number) 0 (.running s' s' []) := by
  have turn : (interp {}).step (.running s' _ []) = .running s' s' [] :=
    machine_step (Outcome.ended_eq_some done)
  rw [← turn]
  exact .init (Outcome.ended_eq_some fetched) (Outcome.ended_eq_some popped) rfl
    (Outcome.ended_eq_some found)

/-- `breakChunk` at its `OP_BREAK` in the first iteration, with the loop's cells on top. -/
def atBreak (xs : List Int) (cells : List (Value Int)) : VM Int :=
  arrayState breakChunk xs 17 cells [.number 1] [.number 1] [⟨⟨0, 24⟩, ⟨0, 6⟩, xs.length + 5, loopFor⟩]

/-- `continueChunk` at its `OP_CONTINUE`, inside a pipe over the same array. -/
def atContinue : VM Int :=
  { arrayState continueChunk [7, 8] 33
      [.number 1, .number 2, .number 8, .number 7, .object 1, .number 1, .number 2, .number 8, .number 7]
      [.number 7, .number 7] [.number 7] [⟨⟨0, 47⟩, ⟨0, 6⟩, 8, loopFor⟩] with
    store := { handles := [0, 1], objs := [{ kind := .array, items := [.number 7, .number 8] },
      { kind := .array }] } }

end Cando
