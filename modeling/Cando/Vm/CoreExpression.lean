import Cando.Vm.CoreState

/-!
# Running the code of the core: expressions

The code of an expression computes its value: the machine comes to the end of the code with the value on top of what was
there, or raises the error that the expression ends in. The variables and the store are then those that the meaning of
the expression leaves. The induction is over the expression; each operator is one instruction behind its operands.
-/

namespace Cando.Lang

open Program Machine

variable {ν : Type} {E : Env ν} {K : Site ν} {off : Nat} {temps : List (Value ν)} {s : State ν} {vm : VM ν}
  {a b v : Value ν} {fuel : Nat}

/-- The machine is at this offset with a value on top, and the names of the variables are these. -/
def Yields (K : Site ν) (off : Nat) (temps : List (Value ν)) (names : List Str) (v : Value ν) (s : State ν)
    (vm : VM ν) : Prop :=
  s.names = names ∧ K.At off (v :: temps) s vm

/-! ### Operators -/

/-- The result of an operator is pushed, or its error raised. -/
def deliver : Except Str (Value ν) → M ν Unit
  | .ok v => push v
  | .error msg => fail msg

lemma acts_deliver (h : K.At off temps s vm) (room : temps.length + K.height < stackMax) (r : Except Str (Value ν)) :
    Acts K (deliver r) vm (Yields K off temps s.names) (give (some r) s) := by
  cases r with
  | ok v =>
    obtain ⟨vm', pushed, at_⟩ := h.push room v
    exact ⟨vm', pushed, rfl, at_⟩
  | error msg => exact h.fail msg

lemma deliver_arith (msg : Value ν → Value ν → Str) (f : ν → ν → Except Str ν) (a b : Value ν) :
    Operator.arith msg f a b = deliver (arithmetic msg f a b) := by
  cases a with
  | number x =>
    cases b with
    | number y =>
      simp only [Operator.arith, arithmetic]
      cases f x y <;> rfl
    | _ => rfl
  | _ => rfl

lemma deliver_order (rel : ν → ν → Bool) (a b : Value ν) : Operator.order rel a b = deliver (ordering rel a b) := by
  cases a with
  | number x => cases b <;> rfl
  | _ => rfl

section Direct

variable [F64 ν]

lemma direct_eq (o : Operator) (a b : Value ν) : o.direct a b = deliver (compute o a b) := by
  cases o with
  | add =>
    have numeric := deliver_arith operandsMessage (fun x y => .ok (F64.add x y)) a b
    cases a with
    | string x =>
      cases b with
      | string y => rfl
      | _ => exact numeric
    | _ => exact numeric
  | sub => exact deliver_arith operandsMessage (fun x y => .ok (F64.sub x y)) a b
  | mul => exact deliver_arith operandsMessage (fun x y => .ok (F64.mul x y)) a b
  | div => exact deliver_arith _ _ a b
  | mod => exact deliver_arith (fun _ _ => bytes "operands must be numbers") (fun x y => .ok (F64.fmod x y)) a b
  | pow => exact deliver_arith (fun _ _ => bytes "operands must be numbers") (fun x y => .ok (F64.pow x y)) a b
  | eq | neq => rfl
  | lt | gt | leq | geq => exact deliver_order _ _ _

end Direct

/-- No metamethod is asked where the meaning of the program says so. -/
lemma noMeta {key : Str} (quiet : vm.hasError = false) (h : unasked vm.store key a b = true) : NoMeta vm key a b := by
  intro g asked
  rw [unasked, asked] at h
  refine ⟨quiet, ?_⟩
  cases pointer : vm.store.pointer g with
  | none =>
    simp only [pointer] at h
    cases h
  | some p =>
    simp only [pointer] at h
    exact ⟨p, rfl, Option.isNone_iff_eq_none.mp h⟩

/-- The two operands of an operator leave the stack. -/
lemma pops (h : K.At off (b :: a :: temps) s vm) :
    ∃ vm₀, vm = vm₀.pushed [a, b] ∧ K.At off temps s (afterPops vm₀ a b) := by
  obtain ⟨window, holds, stack⟩ := h.stack
  refine ⟨{ vm with stack := temps ++ window, dead := [a, b] ++ vm.dead }, ?_, ?_⟩
  · have same : ({ vm with stack := b :: a :: temps ++ window } : VM ν) = vm := by rw [← stack]
    exact same.symm
  · exact { h with stack := ⟨window, holds, rfl⟩, rest := h.rest }

variable [F64 ν]

lemma acts_operator (o : Operator) (h : K.At off (b :: a :: temps) s vm) (room : temps.length + K.height < stackMax) :
    Acts K (Cando.exec E ⟨o.op, 0, 0⟩) vm (Yields K off temps s.names)
      (give ((Binary.plain o).apply s.store a b) s) := by
  obtain ⟨vm₀, rfl, popped⟩ := pops h
  rw [Binary.apply]
  split
  · rename_i plain
    refine .of_eq ?_ (acts_deliver popped room (compute o a b))
    have free : NoMeta (afterPops vm₀ a b) o.metaKey a b := noMeta popped.quiet (popped.store ▸ plain)
    show Cando.exec E { op := o.op } _ = _
    rw [exec_operator, Operator.onOperands, bind_apply, free.ends, Outcome.bind_ok, if_neg Bool.false_ne_true,
      direct_eq]
  · trivial

lemma acts_bitwise (o : Bitwise) (h : K.At off (b :: a :: temps) s vm) (room : temps.length + K.height < stackMax) :
    Acts K (Cando.exec E ⟨o.op, 0, 0⟩) vm (Yields K off temps s.names)
      (give ((Binary.bits o).apply s.store a b) s) := by
  obtain ⟨vm₁, pop₁, at₁⟩ := h.pop
  obtain ⟨vm₂, pop₂, at₂⟩ := at₁.pop
  rw [Binary.apply]
  cases result : bitwise o a b with
  | none => trivial
  | some v =>
    refine .of_eq ?_ (acts_deliver at₂ room (.ok v))
    obtain ⟨j, right, result⟩ := Option.bind_eq_some_iff.mp result
    obtain ⟨i, left, result⟩ := Option.bind_eq_some_iff.mp result
    obtain ⟨z, bits, result⟩ := Option.bind_eq_some_iff.mp result
    cases result
    show Cando.exec E { op := o.op } vm = _
    rw [exec_bitwise, opBitwise, bind_apply, pop₁, Outcome.bind_ok, bind_apply, pop₂, Outcome.bind_ok, right,
      orCrash_some, pure_bind, left, orCrash_some, pure_bind, bits, orCrash_some, pure_bind]
    rfl

lemma acts_binary (o : Binary) (h : K.At off (b :: a :: temps) s vm) (room : temps.length + K.height < stackMax) :
    Acts K (Cando.exec E ⟨o.op, 0, 0⟩) vm (Yields K off temps s.names) (give (o.apply s.store a b) s) := by
  cases o with
  | plain o => exact acts_operator o h room
  | bits o => exact acts_bitwise o h room

lemma acts_neg (h : K.At off (a :: temps) s vm) (room : temps.length + K.height < stackMax) :
    Acts K (opNeg E) vm (Yields K off temps s.names) (give (negate s.store a) s) := by
  obtain ⟨vm', popped, at_⟩ := h.pop
  have refused : fail (bytes "unary '-' requires a number") vm' =
      deliver (.error (bytes "unary '-' requires a number")) vm' := rfl
  cases a with
  | number x =>
    refine .of_eq ?_ (acts_deliver at_ room (.ok (.number (F64.neg x))))
    rw [opNeg, bind_apply, popped]
    rfl
  | object g =>
    show Acts K _ vm _ (give (if unasked s.store (bytes "__unm") (.object g) .null then _ else none) s)
    split
    · rename_i plain
      refine .of_eq ?_ (acts_deliver at_ room (.error _))
      obtain ⟨quiet, p, pointer, missing⟩ := noMeta at_.quiet (at_.store ▸ plain) g rfl
      rw [opNeg, bind_apply, popped, Outcome.bind_ok, ← refused]
      simp [reenter, callMeta, objectGetM, Cando.pointer, pointer, missing, failed, Program.when, quiet]
    · trivial
  | null | bool | string =>
    refine .of_eq ?_ (acts_deliver at_ room (.error _))
    rw [opNeg, bind_apply, popped, Outcome.bind_ok, ← refused]

/-! ### Variables -/

omit [F64 ν] in
lemma acts_load (h : K.At off temps s vm) (valid : K.Valid) (room : temps.length + K.height < stackMax) {x : Str}
    {ci : Nat} (missing : slotOf s.names x = none) (holds : Holds K.chunk.constants (.string x) ci) :
    Acts K (opLoadGlobal ci) vm (Yields K off temps s.names) (s.load x) := by
  rw [State.load, Site.slotOf_none missing]
  dsimp only
  have store : vm.store = s.store := h.store
  cases found : s.store.getGlobal x with
  | some v =>
    obtain ⟨vm', pushed, at_⟩ := h.push room v
    refine ⟨vm', ?_, rfl, at_⟩
    rw [opLoadGlobal, bind_apply, h.nameAt valid holds, Outcome.bind_ok, bind_apply, get_apply, Outcome.bind_ok, store,
      found]
    exact pushed
  | none =>
    obtain ⟨vm', failed, raised⟩ := h.fail (bytes "undefined variable '" ++ cstr x ++ bytes "'")
    refine ⟨vm', ?_, raised⟩
    rw [opLoadGlobal, bind_apply, h.nameAt valid holds, Outcome.bind_ok, bind_apply, get_apply, Outcome.bind_ok, store,
      found]
    exact failed

omit [F64 ν] in
lemma acts_assign (h : K.At off (v :: temps) s vm) (valid : K.Valid) {x : Str} {ci : Nat}
    (missing : slotOf s.names x = none) (holds : Holds K.chunk.constants (.string x) ci) :
    Acts K (opStoreGlobal ci) vm (Yields K off temps s.names) (s.assign x v) := by
  rw [State.assign, Site.slotOf_none missing]
  dsimp only
  have store : vm.store = s.store := h.store
  cases written : s.store.setGlobal x v false with
  | some w =>
    refine ⟨{ vm with store := w }, ?_, rfl, { h with store := rfl, rest := h.rest }⟩
    rw [opStoreGlobal, bind_apply, h.nameAt valid holds, Outcome.bind_ok, bind_apply, h.peek, Outcome.bind_ok,
      bind_apply, get_apply, Outcome.bind_ok, store, written]
    rfl
  | none =>
    obtain ⟨vm', failed, raised⟩ := h.fail (bytes "cannot assign to constant '" ++ cstr x ++ bytes "'")
    refine ⟨vm', ?_, raised⟩
    rw [opStoreGlobal, bind_apply, h.nameAt valid holds, Outcome.bind_ok, bind_apply, h.peek, Outcome.bind_ok,
      bind_apply, get_apply, Outcome.bind_ok, store, written]
    exact failed

omit [F64 ν] in
/-- A slot fits an operand. -/
lemma slot_small (h : K.At off temps s vm) (room : K.height ≤ stackMax) {x : Str} {k : Nat}
    (slot : slotOf s.names x = some k) : k < 65536 := by
  obtain ⟨i, inside, rfl, -⟩ := Site.slotOf_some slot
  obtain ⟨window, ⟨free, full, -⟩, -⟩ := h.stack
  have bound : stackMax = 2048 := rfl
  rw [Site.height] at room
  omega

/-- The code that loads a variable. -/
lemma load_follows (valid : K.Valid) {x : Str} {bs : List UInt8} (loads : Loads K.chunk.constants s.names x bs)
    (placed : K.Placed off bs) (room : temps.length + K.height < stackMax) (h : K.At off temps s vm) :
    Follows E K fuel vm (Yields K (off + bs.length) temps s.names) (s.load x) := by
  cases loads with
  | slot found =>
    have small := slot_small h (by omega) found
    rw [Nat.mod_eq_of_lt small] at placed ⊢
    refine .instr h valid placed ⟨small, rfl⟩ fun vm' h' => ?_
    obtain ⟨v, there, read⟩ := h'.readLocal valid found
    obtain ⟨vm'', pushed, at_⟩ := h'.push room v
    rw [State.load, there]
    refine ⟨vm'', ?_, rfl, ?_⟩
    · show opLoadLocal _ vm' = _
      rw [opLoadLocal, bind_apply, read, Outcome.bind_ok, pushed]
    · rw [code_length]
      exact at_
  | global missing holds =>
    refine .instr h valid placed ⟨holds.2, rfl⟩ fun vm' h' => ?_
    rw [code_length]
    exact acts_load h' valid room missing holds

/-- The code that stores what is on top in a variable. -/
lemma store_follows (valid : K.Valid) {x : Str} {bs : List UInt8} (stores : Stores K.chunk.constants s.names x bs)
    (placed : K.Placed off bs) (room : temps.length + K.height < stackMax) (h : K.At off (v :: temps) s vm) :
    Follows E K fuel vm (Yields K (off + bs.length) temps s.names) (s.assign x v) := by
  cases stores with
  | slot found =>
    have small := slot_small h (by omega) found
    rw [Nat.mod_eq_of_lt small] at placed ⊢
    refine .instr h valid placed ⟨small, rfl⟩ fun vm' h' => ?_
    obtain ⟨w, there, -⟩ := h'.readLocal valid found
    obtain ⟨vm'', written, at_⟩ := h'.setLocal valid found v
    rw [State.assign, there]
    refine ⟨vm'', ?_, rebind_names x v s.scope, ?_⟩
    · show opStoreLocal _ vm' = _
      rw [opStoreLocal, bind_apply, h'.peek, Outcome.bind_ok, written]
    · rw [code_length]
      exact at_
  | global missing holds =>
    refine .instr h valid placed ⟨holds.2, rfl⟩ fun vm' h' => ?_
    rw [code_length]
    exact acts_assign h' valid missing holds

/-! ### Expressions -/

/-- A jump forward over `n` bytes of the code. -/
lemma toI16_toU16 {n : Nat} (small : n < 32768) : toI16 (toU16 n) = n := by
  rw [toI16, toU16]
  split <;> omega

omit [F64 ν] in
/-- The code is short. -/
lemma placed_short (valid : K.Valid) {bs : List UInt8} (placed : K.Placed off bs) : bs.length ≤ 16384 := by
  have fits := placed.length_le
  have short := valid.short
  rw [List.length_drop] at fits
  omega

omit [F64 ν] in
/-- What `&&` and `||` do with the value on top: they jump over the second operand, or go on before it. -/
lemma acts_jumpIf (h : K.At off (v :: temps) s vm) (cond : Bool) {n : Nat} (small : n < 32768) :
    ∃ vm', opJumpIf cond (toU16 n) vm = .ok () vm' ∧
      K.At (if v.isTruthy = cond then off + n else off) (v :: temps) s vm' := by
  by_cases taken : v.isTruthy = cond
  · obtain ⟨vm', jumped, at_⟩ := h.jumpBy (toI16 (toU16 n)) (off + n) (by rw [toI16_toU16 small]; rfl)
    refine ⟨vm', ?_, ?_⟩
    · rw [opJumpIf, bind_apply, h.peek, Outcome.bind_ok, Program.when, if_pos taken, jumped]
    · rw [if_pos taken]
      exact at_
  · refine ⟨vm, ?_, ?_⟩
    · rw [opJumpIf, bind_apply, h.peek, Outcome.bind_ok, Program.when, if_neg taken, pure_apply]
    · rw [if_neg taken]
      exact h

/-- A jump over `n` bytes, which the value on top decides. -/
lemma jumpIf_follows (op : Opcode) (valid : K.Valid) (cond : Bool) {n : Nat} (format : op.fmt = .a)
    (fits : ∀ a < 65536, (Instr.mk op a 0).Fits) (handler : ∀ a, Cando.exec E ⟨op, a, 0⟩ = opJumpIf cond a)
    (placed : K.Placed off (code op (toU16 n) 0)) (small : n < 32768) (h : K.At off (v :: temps) s vm) :
    Follows E K fuel vm (fun _ s' vm' => s' = s ∧
      K.At (if v.isTruthy = cond then off + 3 + n else off + 3) (v :: temps) s vm') (.ok () s) := by
  have size : op.size = 3 := by rw [Opcode.size, format]
  refine .instr h valid placed (fits _ (toU16_lt _)) fun vm₁ h₁ => ?_
  rw [size] at h₁
  obtain ⟨vm₂, run, at₂⟩ := acts_jumpIf h₁ cond small
  exact ⟨vm₂, by rw [handler, run], rfl, at₂⟩

/-- The value on top is dropped. -/
lemma acts_pop (h : K.At off (v :: temps) s vm) :
    ∃ vm', Cando.exec E ⟨.pop, 0, 0⟩ vm = .ok () vm' ∧ K.At off temps s vm' := by
  obtain ⟨vm', popped, at_⟩ := h.pop
  refine ⟨vm', ?_, at_⟩
  show opPopN 1 vm = _
  rw [opPopN, popN, bind_apply, popped]
  rfl

lemma pop_follows (valid : K.Valid) (placed : K.Placed off (code .pop 0 0)) (h : K.At off (v :: temps) s vm) :
    Follows E K fuel vm (fun _ s' vm' => s' = s ∧ K.At (off + 1) temps s vm') (.ok () s) := by
  refine .instr h valid placed ⟨rfl, rfl⟩ fun vm' h' => ?_
  obtain ⟨vm'', popped, at_⟩ := acts_pop h'
  exact ⟨vm'', popped, rfl, at_⟩

/-- `&&` and `||`. -/
lemma logical_follows (valid : K.Valid) {op : Opcode} (cond : Bool) {bl br : List UInt8} {l r : Expr}
    (format : op.fmt = .a) (fits : ∀ a < 65536, (Instr.mk op a 0).Fits)
    (handler : ∀ a, Cando.exec E ⟨op, a, 0⟩ = opJumpIf cond a)
    (placed : K.Placed off (bl ++ (code op (toU16 (1 + br.length)) 0 ++ (code .pop 0 0 ++ br))))
    (left : Follows E K fuel vm (Yields K (off + bl.length) temps s.names) (eval l s))
    (right : ∀ {off s' vm}, s'.names = s.names → K.Placed off br → K.At off temps s' vm →
      Follows E K fuel vm (Yields K (off + br.length) temps s.names) (eval r s')) :
    Follows E K fuel vm
      (Yields K (off + (bl ++ (code op (toU16 (1 + br.length)) 0 ++ (code .pop 0 0 ++ br))).length) temps s.names)
      ((eval l s).bind fun a s => if a.isTruthy = cond then .ok a s else eval r s) := by
  have size : op.size = 3 := by rw [Opcode.size, format]
  have short := placed_short valid placed
  rw [List.length_append, List.length_append, List.length_append, code_length, code_length, size] at short ⊢
  refine left.bind fun a s' vm' yields => ?_
  obtain ⟨names, at_⟩ := yields
  have cast : toU16 (1 + br.length) = toU16 ((1 + br.length : Nat) : Int) := by rw [Nat.cast_add]; rfl
  rw [cast] at placed
  have jumped : Follows E K fuel vm' _ _ :=
    jumpIf_follows op valid cond format fits handler placed.right.left (by omega) at_
  refine jumped.bind (f := fun _ t => if a.isTruthy = cond then .ok a t else eval r t) fun _ t vm₁ landed => ?_
  obtain ⟨rfl, at₁⟩ := landed
  by_cases taken : a.isTruthy = cond
  · rw [if_pos taken] at at₁ ⊢
    refine .ok ⟨names, ?_⟩
    have target : off + bl.length + 3 + (1 + br.length) = off + (bl.length + (3 + (Opcode.size .pop + br.length))) := by
      rw [show Opcode.size .pop = 1 from rfl]
      omega
    exact target ▸ at₁
  · rw [if_neg taken] at at₁ ⊢
    have popPlaced := placed.right.right
    rw [code_length, size] at popPlaced
    refine (pop_follows valid popPlaced.left at₁).bind (f := fun _ t => eval r t) fun _ t' vm₂ popped => ?_
    obtain ⟨rfl, at₂⟩ := popped
    refine (right names popPlaced.right at₂).mono fun v s'' vm'' yields => ⟨yields.1, ?_⟩
    have target : off + bl.length + 3 + 1 + br.length = off + (bl.length + (3 + (Opcode.size .pop + br.length))) := by
      rw [show Opcode.size .pop = 1 from rfl]
      omega
    exact target ▸ yields.2

/-- The code of a constant. -/
lemma push_follows (valid : K.Valid) {op : Opcode} {a : Nat} (fits : (Instr.mk op a 0).Fits)
    (handler : ∀ vm', K.At (off + op.size) temps s vm' → Cando.exec E ⟨op, a, 0⟩ vm' = push v vm')
    (placed : K.Placed off (code op a 0)) (room : temps.length + K.height < stackMax) (h : K.At off temps s vm) :
    Follows E K fuel vm (Yields K (off + (code op a 0).length) temps s.names) (.ok v s) := by
  refine .instr h valid placed fits fun vm' h' => ?_
  obtain ⟨vm'', pushed, at_⟩ := h'.push room v
  refine ⟨vm'', (handler vm' h').trans pushed, rfl, ?_⟩
  rw [code_length]
  exact at_

/-- An operator behind its operand or operands. -/
lemma operator_follows (op : Opcode) (valid : K.Valid) (format : op.fmt = .none) (fits : (Instr.mk op 0 0).Fits)
    {temps' : List (Value ν)} {r : Result ν (Value ν)} (placed : K.Placed off (code op 0 0)) (h : K.At off temps' s vm)
    (acts : ∀ vm', K.At (off + 1) temps' s vm' →
      Acts K (Cando.exec E ⟨op, 0, 0⟩) vm' (Yields K (off + 1) temps s.names) r) :
    Follows E K fuel vm (Yields K (off + (code op 0 0).length) temps s.names) r := by
  have size : op.size = 1 := by rw [Opcode.size, format]
  refine .instr h valid placed fits fun vm' h' => ?_
  rw [code_length, size]
  rw [size] at h'
  exact acts vm' h'

/-- The code of an expression computes its value. -/
lemma eval_follows (valid : K.Valid) {e : Expr} {bs : List UInt8} (holds : e.Code K.chunk.constants s.names bs)
    (placed : K.Placed off bs) (room : temps.length + K.height + e.need ≤ stackMax) (h : K.At off temps s vm) :
    Follows E K fuel vm (Yields K (off + bs.length) temps s.names) (eval e s) := by
  induction e generalizing off temps s vm bs with
  | number text =>
    cases holds with
    | number holds =>
      refine push_follows valid ⟨holds.2, rfl⟩ (fun vm' h' => ?_) placed room h
      show opConst _ vm' = _
      rw [opConst, bind_apply, h'.constAt valid holds, Outcome.bind_ok]
  | string q content =>
    cases holds with
    | string holds =>
      refine push_follows valid ⟨holds.2, rfl⟩ (fun vm' h' => ?_) placed room h
      show opConst _ vm' = _
      rw [opConst, bind_apply, h'.constAt valid holds, Outcome.bind_ok]
  | null =>
    cases holds with
    | null => exact push_follows valid ⟨rfl, rfl⟩ (fun vm' h' => rfl) placed room h
  | bool b =>
    cases holds with
    | bool =>
      cases b with
      | true => exact push_follows valid ⟨rfl, rfl⟩ (fun vm' h' => rfl) placed room h
      | false => exact push_follows valid ⟨rfl, rfl⟩ (fun vm' h' => rfl) placed room h
  | name x =>
    cases holds with
    | name loads => exact load_follows valid loads placed room h
  | paren e ih =>
    cases holds with
    | paren holds => exact ih holds placed room h
  | neg e ih =>
    cases holds with
    | @neg _ bs holds =>
      refine (ih holds placed.left room h).bind fun a s' vm' ⟨names, at_⟩ => ?_
      have pos := e.need_pos
      rw [List.length_append, ← Nat.add_assoc, ← names]
      exact operator_follows .neg valid rfl ⟨rfl, rfl⟩ placed.right at_ fun vm'' h' =>
        acts_neg h' (Nat.lt_of_lt_of_le (Nat.lt_add_of_pos_right pos) room)
  | not e ih =>
    cases holds with
    | @not _ bs holds =>
      refine (ih holds placed.left room h).bind fun a s' vm' ⟨names, at_⟩ => ?_
      have pos := e.need_pos
      rw [List.length_append, ← Nat.add_assoc, ← names]
      refine operator_follows .not valid rfl ⟨rfl, rfl⟩ placed.right at_ fun vm₁ h₁ => ?_
      obtain ⟨vm₂, popped, at₂⟩ := h₁.pop
      obtain ⟨vm₃, pushed, at₃⟩ := at₂.push (Nat.lt_of_lt_of_le (Nat.lt_add_of_pos_right pos) room) (.bool !a.isTruthy)
      refine ⟨vm₃, ?_, rfl, at₃⟩
      show opNot vm₁ = _
      rw [opNot, bind_apply, popped, Outcome.bind_ok, pushed]
  | binary o l r ihl ihr =>
    cases holds with
    | @binary _ _ _ bl br left right =>
      have roomL : temps.length + K.height + l.need ≤ stackMax :=
        Nat.le_trans (Nat.add_le_add_left (Nat.le_max_left _ _) _) room
      have roomR : temps.length + K.height + (1 + r.need) ≤ stackMax :=
        Nat.le_trans (Nat.add_le_add_left (Nat.le_max_right _ _) _) room
      refine (ihl left placed.left roomL h).bind fun a s₁ vm₁ ⟨names₁, at₁⟩ => ?_
      rw [← names₁] at right
      refine (ihr right placed.right.left (by rw [List.length_cons]; omega) at₁).bind fun b s₂ vm₂ ⟨names₂, at₂⟩ => ?_
      rw [List.length_append, List.length_append, ← Nat.add_assoc, ← Nat.add_assoc, ← names₁, ← names₂]
      have format : o.op.fmt = .none := by rcases o with o | o <;> cases o <;> rfl
      have fits : (Instr.mk o.op 0 0).Fits := by rcases o with o | o <;> cases o <;> exact ⟨rfl, rfl⟩
      exact operator_follows _ valid format fits placed.right.right at₂ fun vm₃ h₃ => acts_binary o h₃ (by omega)
  | and l r ihl ihr =>
    cases holds with
    | @and _ _ bl br left right =>
      have roomL : temps.length + K.height + l.need ≤ stackMax :=
        Nat.le_trans (Nat.add_le_add_left (Nat.le_max_left _ _) _) room
      have roomR : temps.length + K.height + r.need ≤ stackMax :=
        Nat.le_trans (Nat.add_le_add_left (Nat.le_max_right _ _) _) room
      have same : (fun (a : Value ν) s => if a.isTruthy then eval r s else .ok a s) =
          fun a s => if a.isTruthy = false then .ok a s else eval r s := by
        funext a s
        cases a.isTruthy <;> rfl
      rw [eval, same]
      exact logical_follows valid false rfl (fun _ fits => ⟨fits, rfl⟩) (fun _ => rfl) placed
        (ihl left placed.left roomL h) fun names placed at_ => names ▸ ihr (names ▸ right) placed roomR at_
  | or l r ihl ihr =>
    cases holds with
    | @or _ _ bl br left right =>
      have roomL : temps.length + K.height + l.need ≤ stackMax :=
        Nat.le_trans (Nat.add_le_add_left (Nat.le_max_left _ _) _) room
      have roomR : temps.length + K.height + r.need ≤ stackMax :=
        Nat.le_trans (Nat.add_le_add_left (Nat.le_max_right _ _) _) room
      exact logical_follows valid true rfl (fun _ fits => ⟨fits, rfl⟩) (fun _ => rfl) placed
        (ihl left placed.left roomL h) fun names placed at_ => names ▸ ihr (names ▸ right) placed roomR at_
  | assign x e ih =>
    cases holds with
    | @assign _ _ bs st holds stores =>
      refine (ih holds placed.left room h).bind fun a s₁ vm₁ ⟨names₁, at₁⟩ => ?_
      have pos := e.need_pos
      rw [← names₁] at stores ⊢
      rw [List.length_append, ← Nat.add_assoc]
      refine store_follows valid stores placed.right ?_ at₁
      have need : (Expr.assign x e).need = e.need := rfl
      omega
  | update o x e ih =>
    cases holds with
    | @update _ _ _ ld bs st loads holds stores =>
      have need : (Expr.update o x e).need = 1 + e.need := rfl
      refine (load_follows valid loads placed.left (by omega) h).bind fun a s₁ vm₁ ⟨names₁, at₁⟩ => ?_
      rw [← names₁] at holds
      refine (ih holds placed.right.left (by rw [List.length_cons]; omega) at₁).bind fun b s₂ vm₂ ⟨names₂, at₂⟩ => ?_
      have format : o.operator.op.fmt = .none := by cases o <;> rfl
      have fits : (Instr.mk o.operator.op 0 0).Fits := by cases o <;> exact ⟨rfl, rfl⟩
      have operator : Follows E K fuel vm₂ _ _ := operator_follows _ valid format fits placed.right.right.left at₂
        fun vm₃ h₃ => acts_operator o.operator h₃ (by omega)
      refine operator.bind fun v s₃ vm₃ ⟨names₃, at₃⟩ => ?_
      rw [← names₁, ← names₂, ← names₃] at stores ⊢
      rw [List.length_append, List.length_append, List.length_append, ← Nat.add_assoc, ← Nat.add_assoc, ← Nat.add_assoc]
      exact store_follows valid stores placed.right.right.right (by omega) at₃
  | step up x =>
    cases holds with
    | @step _ _ ci ld st loads one stores =>
      have need : (Expr.step up x).need = 3 := rfl
      refine (load_follows valid loads placed.left (by omega) h).bind fun a s₁ vm₁ ⟨names₁, at₁⟩ => ?_
      -- The old value is the value of the expression; the new one is computed from a copy.
      have copied : Follows E K fuel vm₁ (Yields K (off + ld.length + (code .dup 0 0).length) (a :: temps) s₁.names)
          (.ok a s₁) := by
        refine push_follows valid ⟨rfl, rfl⟩ (fun vm' h' => ?_) placed.right.left (by rw [List.length_cons]; omega) at₁
        show opDup vm' = _
        rw [opDup, bind_apply, h'.peek, Outcome.bind_ok]
      refine copied.bind (f := fun a' s => (give ((Binary.plain (stepOperator up)).apply s.store a'
        (.number (F64.ofInt 1))) s).bind fun v s => (s.assign x v).bind fun _ s => .ok a s)
        fun a' s₂ vm₂ ⟨names₂, at₂⟩ => ?_
      have constant : Follows E K fuel vm₂ (Yields K
          (off + ld.length + (code .dup 0 0).length + (code .const ci 0).length) (a' :: a :: temps) s₂.names)
          (.ok (.number (F64.ofInt 1)) s₂) := by
        refine push_follows valid ⟨one.2, rfl⟩ (fun vm' h' => ?_) placed.right.right.left
          (by rw [List.length_cons, List.length_cons]; omega) at₂
        show opConst _ vm' = _
        rw [opConst, bind_apply, h'.constAt valid one, Outcome.bind_ok]
      refine constant.bind (f := fun c s => (give ((Binary.plain (stepOperator up)).apply s.store a' c) s).bind
        fun v s => (s.assign x v).bind fun _ s => .ok a s) fun c s₃ vm₃ ⟨names₃, at₃⟩ => ?_
      have operator : Follows E K fuel vm₃ (Yields K (off + ld.length + (code .dup 0 0).length +
          (code .const ci 0).length + (code (if up then .add else .sub) 0 0).length) (a :: temps) s₃.names)
          (give ((Binary.plain (stepOperator up)).apply s₃.store a' c) s₃) := by
        have room' : (a :: temps).length + K.height < stackMax := by
          rw [List.length_cons]
          omega
        cases up with
        | true =>
          exact operator_follows .add valid rfl ⟨rfl, rfl⟩ placed.right.right.right.left at₃
            fun vm₄ h₄ => acts_operator .add h₄ room'
        | false =>
          exact operator_follows .sub valid rfl ⟨rfl, rfl⟩ placed.right.right.right.left at₃
            fun vm₄ h₄ => acts_operator .sub h₄ room'
      refine operator.bind fun v s₄ vm₄ ⟨names₄, at₄⟩ => ?_
      have names : s.names = s₄.names := by rw [names₄, names₃, names₂, names₁]
      rw [names] at stores ⊢
      have stored : Follows E K fuel vm₄ _ _ := store_follows valid stores placed.right.right.right.right.left
        (by rw [List.length_cons]; omega) at₄
      refine stored.bind fun w s₅ vm₅ ⟨names₅, at₅⟩ => ?_
      have popPlaced := placed.right.right.right.right.right
      refine (pop_follows valid popPlaced at₅).bind (f := fun _ s => .ok a s) fun _ s₆ vm₆ ⟨same, at₆⟩ => ?_
      subst same
      refine .ok ⟨names₅, ?_⟩
      simp only [List.length_append, ← Nat.add_assoc]
      exact at₆

end Cando.Lang
