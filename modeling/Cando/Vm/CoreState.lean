import Cando.Lang.Code
import Cando.Lang.Semantics
import Cando.Lib.Stretch

/-!
# Running the code of the core: states

How a state of the machine stands for a state of a program of the core. The frame has a window of slots on the stack,
which the variables of the blocks around fill from below; above it lie the values of the expression that is being
evaluated. The instructions of the core are told in these terms, one by one.
-/

namespace Cando.Lang

open Program Machine

variable {ν : Type}

/-- The machine but for what the code of the core changes. -/
def still (vm : VM ν) : VM ν := { vm with
  stack := [], dead := [], frames := [], tryStack := [], loopStack := [], loopDepth := 0, store := {}
  hasError := false, errorVals := [], spreadExtra := 0 }

/-- Where code of the core runs: the frame and its callers, its chunk, the stack under its slots, how many slots there
are, the loops and TRYs around the code, and the rest of the machine. -/
structure Site (ν : Type) where
  frame : Frame
  callers : List Frame
  chunk : Chunk ν
  base : List (Value ν)
  width : Nat
  marks : List LoopFrame
  tries : List TryFrame
  rest : VM ν

namespace Site

/-- The frame runs the chunk, whose jumps are short, and its slots begin above the base. -/
structure Valid (K : Site ν) : Prop where
  closure : K.frame.closure = K.frame.ip.chunk
  chunk : K.rest.chunks[K.frame.ip.chunk]? = some K.chunk
  slots : K.frame.slots = K.base.length
  short : K.chunk.code.length ≤ 16384

/-- How high the stack is when no expression is being evaluated. -/
def height (K : Site ν) : Nat := K.base.length + K.width

/-- The slots of the frame hold the variables, the first of them in the lowest. -/
def Window (K : Site ν) (s : State ν) (window : List (Value ν)) : Prop :=
  ∃ free, free.length + s.scope.length = K.width ∧ window = free ++ (s.scope.map Prod.snd ++ K.base)

/-- The machine is at this offset of the code, with these values above the slots, and its variables are those of the
state. -/
structure At (K : Site ν) (off : Nat) (temps : List (Value ν)) (s : State ν) (vm : VM ν) : Prop where
  frames : vm.frames = K.frame.goto off :: K.callers
  stack : ∃ window, K.Window s window ∧ vm.stack = temps ++ window
  store : vm.store = s.store
  quiet : vm.hasError = false
  depth : vm.loopDepth = K.marks.length
  marks : K.marks <+: vm.loopStack
  tries : vm.tryStack = K.tries
  rest : still vm = K.rest

/-- The machine has raised an error somewhere in the code. -/
structure Raised (K : Site ν) (v : Value ν) (s : State ν) (vm : VM ν) : Prop where
  frames : ∃ off, vm.frames = K.frame.goto off :: K.callers
  stack : ∃ temps window, K.Window s window ∧ vm.stack = temps ++ window
  store : vm.store = s.store
  value : vm.errorVals = [v]
  failed : vm.hasError = true
  marks : K.marks <+: vm.loopStack
  tries : vm.tryStack = K.tries
  rest : still vm = K.rest

variable {K : Site ν} {off : Nat} {temps : List (Value ν)} {s : State ν} {vm : VM ν} {v : Value ν}

/-- The code stands at this offset of the chunk. -/
def Placed (K : Site ν) (off : Nat) (bs : List UInt8) : Prop := bs <+: K.chunk.code.drop off

lemma Window.length {window : List (Value ν)} (h : K.Window s window) : window.length = K.height := by
  obtain ⟨free, full, rfl⟩ := h
  rw [List.length_append, List.length_append, List.length_map, height]
  omega

lemma At.height (h : K.At off temps s vm) : vm.height = temps.length + K.height := by
  obtain ⟨window, holds, stack⟩ := h.stack
  rw [VM.height, stack, List.length_append, holds.length]

lemma At.chunks (h : K.At off temps s vm) : vm.chunks = K.rest.chunks := by
  rw [← h.rest]
  rfl

/-! ### The stack -/

lemma At.push (h : K.At off temps s vm) (room : temps.length + K.height < stackMax) (v : Value ν) :
    ∃ vm', Cando.push v vm = .ok () vm' ∧ K.At off (v :: temps) s vm' := by
  obtain ⟨window, holds, stack⟩ := h.stack
  refine ⟨_, push_room (h.height ▸ room), ?_⟩
  exact { h with stack := ⟨window, holds, congrArg (v :: ·) stack⟩, rest := h.rest }

lemma At.pop (h : K.At off (v :: temps) s vm) : ∃ vm', Cando.pop vm = .ok v vm' ∧ K.At off temps s vm' := by
  obtain ⟨window, holds, stack⟩ := h.stack
  refine ⟨{ vm with stack := temps ++ window, dead := v :: vm.dead }, ?_, ?_⟩
  · rw [Cando.pop, stack]
    rfl
  · exact { h with stack := ⟨window, holds, rfl⟩, rest := h.rest }

lemma At.peek (h : K.At off (v :: temps) s vm) : Cando.peek 0 vm = .ok v vm := by
  obtain ⟨window, holds, stack⟩ := h.stack
  rw [Cando.peek, stack]
  rfl

/-! ### Variables -/

section Variables

variable {x : Str} {free : List (Value ν)}

/-- Where a name stands among those of the blocks around. -/
lemma scope_find (x : Str) (scope : List (Str × Value ν)) :
    match (scope.map Prod.fst).findIdx? (· == x) with
    | none => scope.lookup x = none
    | some i => i < scope.length ∧ (∃ v, scope.lookup x = some v ∧ (scope.map Prod.snd)[i]? = some v) ∧
        ∀ w, (rebind x w scope).map Prod.snd = (scope.map Prod.snd).set i w := by
  induction scope with
  | nil => rfl
  | cons b scope ih =>
    obtain ⟨y, v⟩ := b
    by_cases same : x = y
    · subst same
      rw [List.map_cons, List.findIdx?_cons, beq_self_eq_true, if_pos rfl]
      refine ⟨Nat.succ_pos _, ⟨v, List.lookup_cons_self, rfl⟩, fun w => ?_⟩
      rw [rebind, beq_self_eq_true, if_pos rfl]
      rfl
    · have other : (y == x) = false := beq_eq_false_iff_ne.mpr (Ne.symm same)
      have differs : (x == y) = false := beq_eq_false_iff_ne.mpr same
      have next : ((y, v) :: scope).lookup x = scope.lookup x := by rw [List.lookup_cons, differs]
      rw [List.map_cons, List.findIdx?_cons, other, if_neg Bool.false_ne_true, next]
      cases found : (scope.map Prod.fst).findIdx? (· == x) with
      | none =>
        rw [found] at ih
        exact ih
      | some i =>
        rw [found] at ih
        obtain ⟨inside, there, set⟩ := ih
        refine ⟨Nat.succ_lt_succ inside, there, fun w => ?_⟩
        rw [rebind, differs, if_neg Bool.false_ne_true, List.map_cons, set]
        rfl

lemma slotOf_none (h : slotOf s.names x = none) : s.scope.lookup x = none := by
  have found := scope_find x s.scope
  rw [slotOf, Option.map_eq_none_iff, State.names] at h
  rw [h] at found
  exact found

lemma slotOf_some {k : Nat} (h : slotOf s.names x = some k) : ∃ i, i < s.scope.length ∧ k = s.scope.length - 1 - i ∧
    (∃ v, s.scope.lookup x = some v ∧ (s.scope.map Prod.snd)[i]? = some v) ∧
    ∀ w, (rebind x w s.scope).map Prod.snd = (s.scope.map Prod.snd).set i w := by
  have found := scope_find x s.scope
  obtain ⟨i, there, rfl⟩ := Option.map_eq_some_iff.mp h
  rw [State.names] at there
  rw [there] at found
  exact ⟨i, found.1, by rw [State.names, List.length_map], found.2⟩

/-- The cell of a slot, counted from the top of the window. -/
lemma slot_index (free values : List (Value ν)) {j k : Nat} (full : j + 1 + k = free.length + values.length) :
    (free ++ (values ++ K.base)).length - 1 - (K.base.length + k) = j ∧
      K.base.length + k < (free ++ (values ++ K.base)).length := by
  rw [List.length_append, List.length_append]
  omega

lemma setCell_of_low {vm : VM ν} {j : Nat} (low : j < vm.height) (v : Value ν) :
    vm.setCell j v = { vm with stack := vm.stack.set (vm.height - 1 - j) v } := if_pos low

lemma At.frame (h : K.At off temps s vm) : Cando.frame vm = .ok (K.frame.goto off) vm := by
  rw [Cando.frame, h.frames]

lemma At.readLocal (h : K.At off temps s vm) (valid : K.Valid) {k : Nat} (slot : slotOf s.names x = some k) :
    ∃ v, s.scope.lookup x = some v ∧ Cando.readLocal k vm = .ok v vm := by
  obtain ⟨i, inside, rfl, ⟨v, there, value⟩, -⟩ := slotOf_some slot
  obtain ⟨window, ⟨free, full, rfl⟩, stack⟩ := h.stack
  refine ⟨v, there, ?_⟩
  have index := slot_index (K := K) free (s.scope.map Prod.snd) (j := free.length + i)
    (k := s.scope.length - 1 - i) (by rw [List.length_map]; omega)
  have cell : vm.cell (K.base.length + (s.scope.length - 1 - i)) = some v := by
    rw [VM.cell_low stack index.2, index.1, List.getElem?_append_right (Nat.le_add_right _ _), Nat.add_sub_cancel_left,
      List.getElem?_append_left (by rw [List.length_map]; exact inside), value]
  rw [Cando.readLocal, bind_apply, h.frame, Outcome.bind_ok, bind_apply, get_apply, Outcome.bind_ok]
  show (orCrash Crash.undefined (vm.cell (K.frame.slots + _)) : M ν (Value ν)) vm = _
  rw [valid.slots, cell]
  rfl

lemma At.setLocal (h : K.At off temps s vm) (valid : K.Valid) {k : Nat} (slot : slotOf s.names x = some k)
    (w : Value ν) : ∃ vm', Cando.setLocal k w vm = .ok () vm' ∧
      K.At off temps { s with scope := rebind x w s.scope } vm' := by
  obtain ⟨v, -, read⟩ := h.readLocal valid slot
  obtain ⟨i, inside, rfl, -, set⟩ := slotOf_some slot
  obtain ⟨window, ⟨free, full, rfl⟩, stack⟩ := h.stack
  have index := slot_index (K := K) free (s.scope.map Prod.snd) (j := free.length + i)
    (k := s.scope.length - 1 - i) (by rw [List.length_map]; omega)
  have low : K.base.length + (s.scope.length - 1 - i) < vm.height := by
    rw [VM.height, stack, List.length_append]
    omega
  have cells := VM.setCell_low stack index.2 w
  rw [index.1, List.set_append_right _ _ (Nat.le_add_right _ _), Nat.add_sub_cancel_left,
    List.set_append_left _ _ (by rw [List.length_map]; exact inside), ← set w] at cells
  refine ⟨vm.setCell (K.base.length + (s.scope.length - 1 - i)) w, ?_, ?_⟩
  · rw [Cando.setLocal, bind_apply, read, Outcome.bind_ok, bind_apply, h.frame, Outcome.bind_ok, modify_apply,
      ← valid.slots]
    rfl
  · rw [setCell_of_low low] at cells ⊢
    have length : (rebind x w s.scope).length = s.scope.length := by
      rw [← List.length_map Prod.fst, rebind_names, List.length_map]
    exact { h with stack := ⟨_, ⟨free, by rw [length]; exact full, rfl⟩, cells⟩, rest := h.rest }

/-- The value on top becomes the next variable. -/
lemma At.define (h : K.At off (v :: temps) s vm) (valid : K.Valid) (x : Str) (room : s.scope.length < K.width) :
    ∃ vm', opDefLocal s.scope.length vm = .ok () vm' ∧ K.At off temps { s with scope := (x, v) :: s.scope } vm' := by
  obtain ⟨window, ⟨free, full, rfl⟩, stack⟩ := h.stack
  have some : free ≠ [] := by
    rintro rfl
    rw [List.length_nil, Nat.zero_add] at full
    omega
  obtain ⟨front, last, rfl⟩ : ∃ front last, free = front ++ [last] :=
    ⟨_, _, (List.dropLast_append_getLast some).symm⟩
  rw [List.length_append, List.length_singleton] at full
  have index := slot_index (K := K) (front ++ [last]) (s.scope.map Prod.snd) (j := front.length)
    (k := s.scope.length) (by rw [List.length_append, List.length_singleton, List.length_map])
  have popped : vm.stack = v :: (temps ++ ((front ++ [last]) ++ (s.scope.map Prod.snd ++ K.base))) := stack
  have defines : opDefLocal s.scope.length vm = _ ∨ opDefLocal s.scope.length vm = _ ∧ _ :=
    opDefLocal_apply h.frames popped
  obtain defined | ⟨-, above⟩ := defines
  · let t : VM ν := { vm with
      stack := temps ++ ((front ++ [last]) ++ (s.scope.map Prod.snd ++ K.base)), dead := v :: vm.dead }
    have low : K.base.length + s.scope.length < t.height := by
      show _ < (temps ++ _).length
      rw [List.length_append]
      omega
    have cells := @VM.setCell_low _ t _ _ _ rfl index.2 v
    rw [index.1, List.append_assoc, List.set_append_right _ _ (Nat.le_refl _), Nat.sub_self] at cells
    refine ⟨_, defined, ?_⟩
    show K.At off temps _ { t.setCell (K.frame.slots + s.scope.length) v with spreadExtra := 0 }
    rw [valid.slots]
    rw [setCell_of_low low] at cells ⊢
    refine { h with
      stack := ⟨front ++ (v :: (s.scope.map Prod.snd ++ K.base)), ⟨front, ?_, rfl⟩, cells⟩, rest := h.rest }
    rw [List.length_cons]
    omega
  · have below : K.frame.slots = K.base.length := valid.slots
    rw [List.length_append] at above
    have height : (K.frame.goto off).slots = K.frame.slots := rfl
    omega

end Variables

/-- The slots of variables that have ended are free again. -/
lemma Window.cut {window : List (Value ν)} (h : K.Window s window) (n : Nat) : K.Window (s.cut n) window := by
  obtain ⟨free, full, rfl⟩ := h
  let m := s.scope.length - n
  have split : s.scope.map Prod.snd = (s.scope.take m).map Prod.snd ++ (s.scope.drop m).map Prod.snd := by
    rw [← List.map_append, List.take_append_drop]
  refine ⟨free ++ (s.scope.take m).map Prod.snd, ?_, ?_⟩
  · show (free ++ _).length + (s.scope.drop m).length = K.width
    rw [List.length_append, List.length_map, List.length_take, List.length_drop]
    omega
  · rw [split, List.append_assoc, List.append_assoc]
    rfl

lemma At.cut (h : K.At off temps s vm) (n : Nat) : K.At off temps (s.cut n) vm := by
  obtain ⟨window, holds, stack⟩ := h.stack
  exact { h with stack := ⟨window, holds.cut n, stack⟩, store := h.store, rest := h.rest }

/-! ### Code -/

section Code

variable {bs bs' : List UInt8} {pool : List (Value ν)}

lemma Placed.left (h : K.Placed off (bs ++ bs')) : K.Placed off bs := (List.prefix_append _ _).trans h

lemma Placed.right (h : K.Placed off (bs ++ bs')) : K.Placed (off + bs.length) bs' := placed_next h

/-- The constant that an instruction names. -/
lemma At.constAt (h : K.At off temps s vm) (valid : K.Valid) {ci : Nat} (holds : Holds K.chunk.constants v ci) :
    Cando.constAt ci vm = .ok v vm := by
  have chunk : vm.chunks[K.frame.closure]? = some K.chunk := by
    rw [h.chunks, valid.closure]
    exact valid.chunk
  have running : chunkOf (K.frame.goto off).closure vm = .ok K.chunk vm := by
    rw [chunkOf, bind_apply, get_apply, Outcome.bind_ok]
    show (orCrash Crash.undefined vm.chunks[K.frame.closure]? : M ν (Chunk ν)) vm = _
    rw [chunk]
    rfl
  rw [Cando.constAt, bind_apply, h.frame, Outcome.bind_ok, bind_apply, running, Outcome.bind_ok, holds.1]
  rfl

lemma At.nameAt (h : K.At off temps s vm) (valid : K.Valid) {ci : Nat} {x : Str}
    (holds : Holds K.chunk.constants (.string x) ci) : Cando.nameAt ci vm = .ok x vm := by
  rw [Cando.nameAt, bind_apply, h.constAt valid holds, Outcome.bind_ok]
  rfl

/-- A jump in the code. -/
lemma At.jumpBy (h : K.At off temps s vm) (d : Int) (off' : Nat) (target : (off : Int) + d = off') :
    ∃ vm', Cando.jumpBy d vm = .ok () vm' ∧ K.At off' temps s vm' := by
  refine ⟨{ vm with frames := K.frame.goto off' :: K.callers }, ?_, { h with frames := rfl, rest := h.rest }⟩
  have inside : ¬ ((off : Int) + d < 0) := by omega
  rw [Cando.jumpBy, bind_apply, h.frame, Outcome.bind_ok]
  show (if (off : Int) + d < 0 then crash .undefined else setIp ⟨K.frame.ip.chunk, ((off : Int) + d).toNat⟩ : M ν Unit)
    vm = _
  rw [if_neg inside, target, setIp, h.frames]
  rfl

/-- An error with a message. -/
lemma At.fail {α : Type} (h : K.At off temps s vm) (msg : Str) :
    ∃ vm', (Cando.fail msg : M ν α) vm = .error vm' ∧ K.Raised (message msg) s vm' := by
  refine ⟨setError msg vm, rfl, ?_⟩
  obtain ⟨window, holds, stack⟩ := h.stack
  exact ⟨⟨off, h.frames⟩, ⟨temps, window, holds, stack⟩, h.store, rfl, rfl, h.marks, h.tries, h.rest⟩

end Code

end Site

/-! ### Handlers and runs -/

section Runs

variable {K : Site ν} {α β : Type} {P Q : α → State ν → VM ν → Prop} {R : β → State ν → VM ν → Prop} {vm vm' : VM ν}
  {r : Result ν α} {m : M ν Unit}

/-- The handler comes to what the program comes to: `P` holds behind it, or the error is raised. -/
def Acts (K : Site ν) (m : M ν Unit) (vm : VM ν) (P : α → State ν → VM ν → Prop) : Result ν α → Prop
  | .ok a s => ∃ vm', m vm = .ok () vm' ∧ P a s vm'
  | .error v s => ∃ vm', m vm = .error vm' ∧ K.Raised v s vm'
  | .stuck => True
  | .timeout => False

lemma Acts.of_eq {m' : M ν Unit} (e : m vm = m' vm') (h : Acts K m' vm' P r) : Acts K m vm P r := by
  cases r with
  | ok a s =>
    obtain ⟨t, run, holds⟩ := h
    exact ⟨t, e.trans run, holds⟩
  | error v s =>
    obtain ⟨t, run, raised⟩ := h
    exact ⟨t, e.trans run, raised⟩
  | stuck => trivial
  | timeout => exact h

variable [F64 ν] {E : Env ν} {fuel : Nat}

/-- The instruction at the offset is fetched, and its handler runs behind it. -/
lemma Site.At.turn {op : Opcode} {a b off : Nat} {temps : List (Value ν)} {s : State ν} (h : K.At off temps s vm)
    (valid : K.Valid) (placed : K.Placed off (code op a b)) (fits : (Instr.mk op a b).Fits) :
    ∃ vm', (interp E).turn vm = Cando.exec E ⟨op, a, b⟩ vm' ∧ K.At (off + op.size) temps s vm' ∧
      vm'.errorVals = vm.errorVals := by
  have chunk : vm.chunks[K.frame.ip.chunk]? = some K.chunk := by
    rw [h.chunks]
    exact valid.chunk
  exact ⟨_, step_apply (fetch_goto h.frames chunk fits placed), { h with frames := rfl, rest := h.rest }, rfl⟩

/-- The machine comes to what the program comes to; where the program has used up its fuel, the machine has made so
many steps. -/
def Follows (E : Env ν) (K : Site ν) (fuel : Nat) (vm : VM ν) (P : α → State ν → VM ν → Prop) : Result ν α → Prop
  | .ok a s => ∃ n vm', (interp E).Goes n vm vm' ∧ P a s vm'
  | .error v s => ∃ n vm', (interp E).Throws n vm vm' ∧ K.Raised v s vm'
  | .stuck => True
  | .timeout => (interp E).Lasts fuel vm

namespace Follows

lemma mono (h : Follows E K fuel vm P r) (hQ : ∀ a s vm', P a s vm' → Q a s vm') : Follows E K fuel vm Q r := by
  cases r with
  | ok a s =>
    obtain ⟨n, vm', goes, holds⟩ := h
    exact ⟨n, vm', goes, hQ a s vm' holds⟩
  | error | stuck | timeout => exact h

/-- Behind a stretch of the run. -/
lemma after {n : Nat} (goes : (interp E).Goes n vm vm') (h : Follows E K fuel vm' P r) :
    Follows E K (n + fuel) vm P r := by
  cases r with
  | ok a s =>
    obtain ⟨k, t, goes', holds⟩ := h
    exact ⟨n + k, t, goes.trans goes', holds⟩
  | error v s =>
    obtain ⟨k, t, throws, raised⟩ := h
    exact ⟨n + k, t, goes.throws throws, raised⟩
  | stuck => trivial
  | timeout => exact goes.lasts h

lemma weaken {fuel' : Nat} (h : Follows E K fuel' vm P r) (le : fuel ≤ fuel') : Follows E K fuel vm P r := by
  cases r with
  | timeout => exact Lasts.mono h le
  | ok | error | stuck => exact h

/-- Going on where a part of the program has ended. -/
lemma bind {f : α → State ν → Result ν β} (h : Follows E K fuel vm P r)
    (hf : ∀ a s vm', P a s vm' → Follows E K fuel vm' R (f a s)) : Follows E K fuel vm R (r.bind f) := by
  cases r with
  | ok a s =>
    obtain ⟨n, t, goes, holds⟩ := h
    exact ((hf a s t holds).after goes).weaken (Nat.le_add_left _ _)
  | error | stuck | timeout => exact h

lemma ok {a : α} {s : State ν} (h : P a s vm) : Follows E K fuel vm P (.ok a s) := ⟨0, vm, .refl vm, h⟩

variable {op : Opcode} {a b off : Nat} {temps : List (Value ν)} {s : State ν}

/-- An instruction of the code: its handler runs behind it. -/
lemma instr {K' : Site ν} (at_ : K'.At off temps s vm) (valid : K'.Valid) (placed : K'.Placed off (code op a b))
    (fits : (Instr.mk op a b).Fits)
    (acts : ∀ vm', K'.At (off + op.size) temps s vm' → Acts K (Cando.exec E ⟨op, a, b⟩) vm' P r) :
    Follows E K fuel vm P r := by
  obtain ⟨vm₁, turn, at₁, -⟩ := at_.turn (E := E) valid placed fits
  have behind := acts vm₁ at₁
  cases r with
  | ok v s' =>
    obtain ⟨vm', run, holds⟩ := behind
    exact ⟨1, vm', .turn (turn.trans run), holds⟩
  | error v s' =>
    obtain ⟨vm', run, raised⟩ := behind
    exact ⟨1, vm', .turn (turn.trans run), raised⟩
  | stuck => trivial
  | timeout => exact behind.elim

/-- An instruction of the code, and what follows. -/
lemma next {K' : Site ν} (at_ : K'.At off temps s vm) (valid : K'.Valid) (placed : K'.Placed off (code op a b))
    (fits : (Instr.mk op a b).Fits)
    (acts : ∀ vm', K'.At (off + op.size) temps s vm' → vm'.errorVals = vm.errorVals →
      ∃ vm'', Cando.exec E ⟨op, a, b⟩ vm' = .ok () vm'' ∧ Follows E K fuel vm'' P r) :
    Follows E K (1 + fuel) vm P r := by
  obtain ⟨vm₁, turn, at₁, kept⟩ := at_.turn (E := E) valid placed fits
  obtain ⟨vm₂, run, follows⟩ := acts vm₁ at₁ kept
  exact follows.after (.turn (turn.trans run))

/-- The same in other terms. -/
lemma within {K' : Site ν} (h : Follows E K' fuel vm P r) (hQ : ∀ a s vm', P a s vm' → Q a s vm')
    (raised : ∀ v s vm', K'.Raised v s vm' → K.Raised v s vm') : Follows E K fuel vm Q r := by
  cases r with
  | ok a s =>
    obtain ⟨n, vm', goes, holds⟩ := h
    exact ⟨n, vm', goes, hQ a s vm' holds⟩
  | error v s =>
    obtain ⟨n, vm', throws, holds⟩ := h
    exact ⟨n, vm', throws, raised v s vm' holds⟩
  | stuck | timeout => exact h

/-- With what is known of the result. -/
lemma knowing {A : α → State ν → Prop} {F : State ν → Prop} (h : Follows E K fuel vm P r) (all : r.All A F) :
    Follows E K fuel vm (fun a s vm' => P a s vm' ∧ A a s) r := by
  cases r with
  | ok a s =>
    obtain ⟨n, vm', goes, holds⟩ := h
    exact ⟨n, vm', goes, holds, all⟩
  | error | stuck | timeout => exact h

end Follows

end Runs

end Cando.Lang
