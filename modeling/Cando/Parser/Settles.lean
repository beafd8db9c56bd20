import Cando.Parser.Expression
import Cando.Vm.WellFormed

/-!
# What the compiler owes to the interpreter

A parse function settles when the instructions that it appends have the operands that they need. A distance ahead may
have to wait for the code that it leads over: it is owed by the parse function that knows its position, and paid when
that position is patched.
-/

namespace Cando

open Program

/-! ### Chunks -/

section Chunks

variable {ν : Type} [F64 ν]

/-- The instructions in the chunk have these opcodes and their operands, except that distances ahead at the positions in
`owed` are still to come. -/
def Chunk.Owes (owed : List (Nat × Opcode)) (ops : List Opcode) (c : Chunk ν) : Prop :=
  ∃ is, c.Emits is ∧ is.map Instr.op = ops ∧
    (∀ off i, Stands is off i → i.Placed (Boundary ops) c.constants c.localCount off) ∧
    ∀ off i, Stands is off i → i.op.aims → i.Aimed (Boundary ops) off ∨ (off + 1, i.op) ∈ owed ∨ i.Loose ops

variable {owed owed' : List (Nat × Opcode)} {ops : List Opcode} {c : Chunk ν}

omit [F64 ν] in
lemma Chunk.Emits.length {is : List Instr} (emits : c.Emits is) (same : is.map Instr.op = ops) :
    c.code.length = (ops.map Opcode.size).sum := by
  rw [emits.code, Instr.encodeAll_length, same]

lemma Chunk.Owes.length (h : c.Owes owed ops) : c.code.length = (ops.map Opcode.size).sum := by
  obtain ⟨is, emits, same, -⟩ := h
  exact emits.length same

lemma Chunk.Owes.emit (h : c.Owes owed ops) (debts : List (Nat × Opcode)) {i : Instr} (fits : i.Fits)
    (placed : i.Placed (Boundary ops) c.constants c.localCount c.code.length)
    (aims : i.op.aims → (c.code.length + 1, i.op) ∈ debts ∨ i.Loose ops) (sub : owed ⊆ debts) :
    (c.emit i).Owes debts (ops ++ [i.op]) := by
  obtain ⟨is, emits, same, placedAll, aimed⟩ := h
  have wider (t : Nat) (there : Boundary ops t) : Boundary (ops ++ [i.op]) t := there.mono (List.prefix_append _ _)
  refine ⟨is ++ [i], emits.emit fits, by rw [List.map_append, same]; rfl, fun off j stands => ?_,
    fun off j stands jumps => ?_⟩
  · obtain before | ⟨off', last, rfl⟩ := stands_append stands
    · exact (placedAll off j before).mono wider List.prefix_rfl (Nat.le_refl _)
    · obtain ⟨rfl, rfl⟩ := stands_singleton last
      rw [same, Nat.add_zero, ← emits.length same]
      exact placed.mono wider List.prefix_rfl (Nat.le_refl _)
  · obtain before | ⟨off', last, rfl⟩ := stands_append stands
    · obtain there | waits | ⟨jump, a, pipe⟩ := aimed off j before jumps
      · exact .inl (there.mono wider)
      · exact .inr (.inl (sub waits))
      · exact .inr (.inr ⟨jump, a, List.mem_append_left _ pipe⟩)
    · obtain ⟨rfl, rfl⟩ := stands_singleton last
      rw [same, Nat.add_zero, ← emits.length same]
      obtain waits | ⟨jump, a, pipe⟩ := aims jumps
      · exact .inr (.inl waits)
      · exact .inr (.inr ⟨jump, a, List.mem_append_left _ pipe⟩)

/-- When nothing is owed any more, the last instruction makes the chunk well-formed. -/
lemma Chunk.Owes.finish (h : c.Owes [] ops) {i : Instr} (fits : i.Fits) (plain : i.op.kind = .plain)
    (ends : i.op = .halt ∨ i.op = .return) : ∃ is, (c.emit i).WellFormed is := by
  obtain ⟨is, emits, rfl, placed, aimed⟩ := h
  have wider (t : Nat) (there : Boundary (is.map Instr.op) t) : Begins ((is ++ [i]).map Instr.op) t := by
    rw [List.map_append]
    exact there.begins i.op
  refine ⟨is ++ [i], emits.emit fits, fun off j stands => ?_, fun off j stands aims => ?_, is, i, rfl, ends⟩
  · obtain before | ⟨off', last, -⟩ := stands_append stands
    · exact (placed off j before).mono wider List.prefix_rfl (Nat.le_refl _)
    · obtain ⟨-, rfl⟩ := stands_singleton last
      simp only [Instr.Placed, plain]
  · obtain before | ⟨off', last, -⟩ := stands_append stands
    · obtain there | owed | ⟨jump, a, pipe⟩ := aimed off j before aims
      · exact .inl (there.mono wider)
      · exact absurd owed List.not_mem_nil
      · refine .inr ⟨jump, a, ?_⟩
        rw [List.map_append]
        exact List.mem_append_left _ pipe
    · obtain ⟨-, rfl⟩ := stands_singleton last
      rw [Opcode.aims, plain] at aims
      exact absurd aims (by decide)

end Chunks

namespace CandoParser

variable {ν α β : Type}

/-! ### States -/

/-- The first `k` exits of a pipe body are operands of jumps. -/
def Exits (k : Nat) (ops : List Opcode) (p : CandoParser ν) : Prop :=
  ∀ i < k, ∃ pos, p.pipeExits[i]? = some pos ∧ OperandOf ops pos .jump

variable [F64 ν]

/-- What holds of the chunk and of the fields that have a part in its operands, when the distances at the positions in
`owed` are still to come. -/
structure Tidy (owed : List (Nat × Opcode)) (ops : List Opcode) (p : CandoParser ν) : Prop where
  code : p.chunk.Owes owed ops
  owed : ∀ o ∈ owed, OperandOf ops o.1 o.2
  pool : p.chunk.constants.length ≤ 65535
  slots : p.locals.length ≤ p.chunk.localCount
  narrow : p.chunk.localCount ≤ localMax
  size : p.pipeExits.length = maxPipeExits
  exits : Exits p.pipeExitCount ops p
  pipe : p.inPipeBody = true → .pipeInit ∈ ops

omit [F64 ν] in
/-- From a state with these opcodes the parser has come to one with further opcodes, constants and slots. -/
structure Prolongs (ops : List Opcode) (p : CandoParser ν) (ops' : List Opcode) (q : CandoParser ν) : Prop where
  more : ops <+: ops'
  pool : p.chunk.constants <+: q.chunk.constants
  slots : p.chunk.localCount ≤ q.chunk.localCount
  exits : ∀ k, Exits k ops p → Exits k ops' q

variable {ops ops' ops'' : List Opcode} {owed owed' : List (Nat × Opcode)} {p q r : CandoParser ν}

omit [F64 ν] in
lemma Prolongs.refl (ops : List Opcode) (p : CandoParser ν) : Prolongs ops p ops p :=
  ⟨List.prefix_rfl, List.prefix_rfl, Nat.le_refl _, fun _ e => e⟩

omit [F64 ν] in
lemma Prolongs.trans (h : Prolongs ops p ops' q) (h' : Prolongs ops' q ops'' r) : Prolongs ops p ops'' r :=
  ⟨h.more.trans h'.more, h.pool.trans h'.pool, Nat.le_trans h.slots h'.slots, fun k e => h'.exits k (h.exits k e)⟩

omit [F64 ν] in
lemma Exits.mono {k : Nat} (h : Exits k ops p) (more : ops <+: ops') (same : q.pipeExits = p.pipeExits) :
    Exits k ops' q := by
  intro i lt
  obtain ⟨pos, e, operand⟩ := h i lt
  exact ⟨pos, same ▸ e, operand.mono more⟩

/-- What may be known of a state, and stays true: an instruction begins here, a constant is stored, a slot is there, so
many slots are there, an instruction has been emitted, the operand of a jump is here. -/
inductive Fact (ν : Type) where
  | bound (t : Nat)
  | const (ci : Nat) (v : Value ν)
  | slot (k : Nat)
  | slots (n : Nat)
  | emitted (op : Opcode)
  | jump (pos : Nat)

def Fact.Holds (ops : List Opcode) (p : CandoParser ν) : Fact ν → Prop
  | .bound t => Boundary ops t
  | .const ci v => Stored p.chunk.constants v ci
  | .slot k => k < p.chunk.localCount
  | .slots n => n ≤ p.chunk.localCount
  | .emitted op => op ∈ ops
  | .jump pos => OperandOf ops pos .jump

lemma Fact.Holds.mono {f : Fact ν} (h : f.Holds ops p) (goes : Prolongs ops p ops' q) : f.Holds ops' q := by
  cases f with
  | bound t => exact Boundary.mono h goes.more
  | const ci v => exact Stored.mono h goes.pool
  | slot k => exact Nat.lt_of_lt_of_le h goes.slots
  | slots n => exact Nat.le_trans h goes.slots
  | emitted op => exact goes.more.subset h
  | jump pos => exact OperandOf.mono h goes.more

omit [F64 ν] in
/-- What the turns of a loop keep, the loop keeps. -/
lemma loop_ends {α : Type} {J : CandoParser ν → Prop} {body : α → Parse ν (α × Bool)}
    (h : ∀ a q, J q → (body a q).Ends (fun _ => J) fun _ => True) (turns : Nat) (a : α) {p : CandoParser ν}
    (holds : J p) : (loop body turns a p).Ends (fun _ => J) fun _ => True := by
  induction turns generalizing a p with
  | zero => trivial
  | succ turns ih =>
    apply (h a p holds).bind
    rintro ⟨b, again⟩ q holds'
    cases again with
    | false => exact holds'
    | true => exact ih b holds'

/-! ### Parse functions that settle -/

/-- It ends, if it does, in a state that prolongs this one and owes no more than `owed`. -/
abbrev Brings (owed : List (Nat × Opcode)) (ops : List Opcode) (p : CandoParser ν)
    (o : Outcome (CandoParser ν) Empty Stop α) : Prop :=
  o.Ends (fun _ q => ∃ ops', Prolongs ops p ops' q ∧ Tidy owed ops' q) fun _ => True

/-- Knowing the facts, the parse function pays what is owed, and leaves other debts as they are. -/
def Settles (known : List (Fact ν)) (owed : List (Nat × Opcode)) (m : Parse ν α) : Prop :=
  ∀ rest ops p, Tidy (owed ++ rest) ops p → (∀ f ∈ known, f.Holds ops p) → Brings rest ops p (m p)

/-- What comes behind a state that prolongs this one. -/
lemma Prolongs.brings (h : Prolongs ops p ops' q) {o : Outcome (CandoParser ν) Empty Stop α}
    (rest : Brings owed ops' q o) : Brings owed ops p o :=
  Outcome.Ends.mono rest (fun _ _ ⟨ops'', h', tidy⟩ => ⟨ops'', h.trans h', tidy⟩) fun _ c => c

/-- Nothing but fields that have no part in this has changed, and locals may have ended. -/
lemma Tidy.same (h : Tidy owed ops p) (chunk : q.chunk = p.chunk) (exits : q.pipeExits = p.pipeExits)
    (count : q.pipeExitCount = p.pipeExitCount) (pipe : q.inPipeBody = p.inPipeBody)
    (locals : q.locals.length ≤ p.locals.length) : Prolongs ops p ops q ∧ Tidy owed ops q := by
  refine ⟨⟨List.prefix_rfl, ?_, ?_, fun k e => e.mono List.prefix_rfl exits⟩, ?_, h.owed, ?_, ?_, ?_, ?_, ?_, ?_⟩
  · rw [chunk]
  · rw [chunk]
  · rw [chunk]
    exact h.code
  · rw [chunk]
    exact h.pool
  · rw [chunk]
    exact Nat.le_trans locals h.slots
  · rw [chunk]
    exact h.narrow
  · rw [exits]
    exact h.size
  · rw [count]
    exact h.exits.mono List.prefix_rfl exits
  · rw [pipe]
    exact h.pipe

namespace Settles

variable {known : List (Fact ν)} {m : Parse ν α} {f : α → Parse ν β}

lemma weaken {less : List (Fact ν)} (h : Settles less owed m) (sub : less ⊆ known) : Settles known owed m :=
  fun rest ops p tidy holds => h rest ops p tidy fun f mem => holds f (sub mem)

lemma pure (a : α) : Settles known [] (pure a : Parse ν α) :=
  fun _ ops p tidy _ => ⟨ops, .refl ops p, tidy⟩

lemma crash (c : Stop) : Settles known owed (crash c : Parse ν α) := fun _ _ _ _ _ => trivial

lemma bind (hm : Settles known [] m) (hf : ∀ a, Settles known owed (f a)) : Settles known owed (m >>= f) := by
  intro rest ops p tidy holds
  apply (hm (owed ++ rest) ops p tidy holds).bind
  rintro a q ⟨ops', goes, tidy'⟩
  exact goes.brings (hf a rest ops' q tidy' fun f mem => (holds f mem).mono goes)

lemma seq {m : Parse ν Unit} {m' : Parse ν β} (hm : Settles known [] m) (hm' : Settles known owed m') :
    Settles known owed (do m; m') :=
  hm.bind fun _ => hm'

lemma get {f : CandoParser ν → Parse ν β} (h : ∀ p, Settles known owed (f p)) :
    Settles known owed (Program.get >>= f) :=
  fun rest ops p tidy holds => h p rest ops p tidy holds

lemma ite {c : Prop} [Decidable c] {m m' : Parse ν α} (h : Settles known owed m) (h' : Settles known owed m') :
    Settles known owed (if c then m else m') := by
  split
  · exact h
  · exact h'

lemma when {c : Prop} [Decidable c] {m : Parse ν Unit} (h : Settles known [] m) : Settles known [] (when c m) :=
  ite h (pure ())

/-- A change of fields that have no part in this. -/
lemma quiet {g : CandoParser ν → CandoParser ν}
    (h : ∀ p, (g p).chunk = p.chunk ∧ (g p).pipeExits = p.pipeExits ∧ (g p).pipeExitCount = p.pipeExitCount ∧
      (g p).inPipeBody = p.inPipeBody ∧ (g p).locals.length ≤ p.locals.length) : Settles known [] (modify g) := by
  intro rest ops p tidy _
  obtain ⟨chunk, exits, count, pipe, locals⟩ := h p
  exact ⟨ops, tidy.same chunk exits count pipe locals⟩

lemma store (size : Nat) (cells : List α) (a : α) : Settles known [] (store size cells a : Parse ν (List α)) :=
  ite (pure _) (crash _)

/-- A loop settles when its turns do. -/
lemma loop {body : α → Parse ν (α × Bool)} (h : ∀ a, Settles known [] (body a)) (turns : Nat) (a : α) :
    Settles known [] (loop body turns a) := by
  intro rest ops p tidy holds
  refine loop_ends (J := fun q => ∃ ops', Prolongs ops p ops' q ∧ Tidy rest ops' q) (fun b q ⟨ops', goes, tidy'⟩ => ?_)
    turns a ⟨ops, .refl ops p, tidy⟩
  exact goes.brings (h b rest ops' q tidy' fun f mem => (holds f mem).mono goes)

/-! ### Errors and tokens -/

lemma error (msg : String) : Settles known [] (error msg : Parse ν Unit) :=
  quiet fun p => by
    rw [errorAt]
    split <;> exact ⟨rfl, rfl, rfl, rfl, Nat.le_refl _⟩

lemma errorCurrent (msg : String) : Settles known [] (errorCurrent msg : Parse ν Unit) :=
  quiet fun p => by
    rw [errorAt]
    split <;> exact ⟨rfl, rfl, rfl, rfl, Nat.le_refl _⟩

lemma exceed : Settles known [] (exceed : Parse ν Unit) := quiet fun _ => ⟨rfl, rfl, rfl, rfl, Nat.le_refl _⟩

lemma tooMany (msg : String) : Settles known [] (tooMany msg : Parse ν Unit) :=
  seq (quiet fun _ => ⟨rfl, rfl, rfl, rfl, Nat.le_refl _⟩) (error msg)

lemma castU16 (n : Nat) : Settles known [] (castU16 n : Parse ν Nat) := seq (when exceed) (pure _)

end Settles

omit [F64 ν] in
/-- The fields that reading a token leaves as they are. -/
lemma nextToken_keeps (p : CandoParser ν) :
    (nextToken p).chunk = p.chunk ∧ (nextToken p).pipeExits = p.pipeExits ∧
      (nextToken p).pipeExitCount = p.pipeExitCount ∧ (nextToken p).inPipeBody = p.inPipeBody ∧
      (nextToken p).locals = p.locals ∧ (nextToken p).lastStmtWasExpr = p.lastStmtWasExpr := by
  fun_induction nextToken p with
  | case1 p p' error ih =>
    obtain ⟨chunk, exits, count, pipe, locals, expr⟩ := ih
    rw [chunk, exits, count, pipe, locals, expr, errorAt]
    split <;> exact ⟨rfl, rfl, rfl, rfl, rfl, rfl⟩
  | case2 p p' error => exact ⟨rfl, rfl, rfl, rfl, rfl, rfl⟩

namespace Settles

variable {known : List (Fact ν)} {body : α → Parse ν (α × Bool)}

lemma advance : Settles known [] (advance : Parse ν Unit) :=
  quiet fun p => by
    obtain ⟨chunk, exits, count, pipe, locals, -⟩ := nextToken_keeps { p with previous := p.current }
    exact ⟨chunk, exits, count, pipe, Nat.le_of_eq (congrArg List.length locals)⟩

lemma check (type : CandoTokenType) : Settles known [] (check type : Parse ν Bool) := get fun _ => pure _

lemma matchToken (type : CandoTokenType) : Settles known [] (matchToken type : Parse ν Bool) :=
  (check type).bind fun _ => ite (advance.seq (pure _)) (pure _)

lemma consume (type : CandoTokenType) (msg : String) : Settles known [] (consume type msg : Parse ν Unit) :=
  (check type).bind fun _ => ite advance (errorCurrent msg)

lemma previousText : Settles known [] (previousText : Parse ν Str) := get fun _ => pure _

lemma commaLoop (h : ∀ a, Settles known [] (body a)) (turns : Nat) (a : α) :
    Settles known [] (commaLoop body turns a) :=
  loop (fun b => (matchToken _).bind fun _ => ite (h b) (pure _)) turns a

lemma doCommaLoop (h : ∀ a, Settles known [] (body a)) (turns : Nat) (a : α) :
    Settles known [] (doCommaLoop body turns a) :=
  loop (fun b => (h b).bind fun _ => ite ((matchToken _).bind fun _ => pure _) (pure _)) turns a

end Settles

/-! ### Code -/

lemma Tidy.length (h : Tidy owed ops p) : p.chunk.code.length = (ops.map Opcode.size).sum := h.code.length

omit [F64 ν] in
/-- Appending an instruction changes nothing but the chunk and the capacity of its code. -/
lemma emit_appends (fmt : OpFmt) (i : Instr) (p : CandoParser ν) : (emit fmt i p).Ends
    (fun _ q => ∃ cap, q = { p with codeCap := cap, chunk := p.chunk.emit i }) fun _ => True := by
  rw [emit]
  split
  · simp only [bind_apply, ensureCode]
    split
    · exact ⟨p.codeCap, rfl⟩
    · split
      · exact ⟨_, rfl⟩
      · trivial
  · trivial

/-- An instruction is appended. If it has a distance ahead, that is owed, or it is a jump of a pipe body. -/
lemma Tidy.emit (h : Tidy owed ops p) (debts : List (Nat × Opcode)) (fmt : OpFmt) {i : Instr} (fits : i.Fits)
    (placed : i.Placed (Boundary ops) p.chunk.constants p.chunk.localCount p.chunk.code.length)
    (aims : i.op.aims → (p.chunk.code.length + 1, i.op) ∈ debts ∨ i.Loose ops) (sub : owed ⊆ debts)
    (new : ∀ o ∈ debts, o ∈ owed ∨ o = (p.chunk.code.length + 1, i.op)) :
    (emit fmt i p).Ends (fun _ q => q.chunk = p.chunk.emit i ∧ Prolongs ops p (ops ++ [i.op]) q ∧
      Tidy debts (ops ++ [i.op]) q) fun _ => True := by
  have more : ops <+: ops ++ [i.op] := List.prefix_append _ _
  refine (emit_appends fmt i p).mono (fun _ q ⟨cap, e⟩ => ?_) fun _ c => c
  subst e
  refine ⟨rfl, ⟨more, List.prefix_rfl, Nat.le_refl _, fun k e => e.mono more rfl⟩,
    h.code.emit debts fits placed aims sub, fun o mem => ?_, h.pool, h.slots, h.narrow, h.size, h.exits.mono more rfl,
    fun pipe => List.mem_append_left _ (h.pipe pipe)⟩
  obtain old | rfl := new o mem
  · exact (h.owed o old).mono more
  · exact ⟨ops, [], rfl, by rw [h.length]⟩

/-- An instruction without a distance ahead is appended. -/
lemma Tidy.emitFree (h : Tidy owed ops p) (fmt : OpFmt) {i : Instr} (fits : i.Fits) (free : i.op.aims = false)
    (placed : i.Placed (Boundary ops) p.chunk.constants p.chunk.localCount p.chunk.code.length) :
    (CandoParser.emit fmt i p).Ends (fun _ q => q.chunk = p.chunk.emit i ∧ Prolongs ops p (ops ++ [i.op]) q ∧
      Tidy owed (ops ++ [i.op]) q) fun _ => True := by
  refine h.emit owed fmt fits placed (fun aims => ?_) (List.Subset.refl _) fun _ mem => .inl mem
  rw [free] at aims
  cases aims

/-- The distance ahead of an instruction that is there is written: it leads to the end of the code. -/
lemma Tidy.patched (h : Tidy owed ops p) {pos : Nat} {op : Opcode} (stands : OperandOf ops pos op) (aims : op.aims)
    (sub : owed' ⊆ owed) (paid : ∀ o ∈ owed, o.1 ≠ pos → o ∈ owed') (a : Nat)
    (ahead : a = toU16 ((p.chunk.code.length : Int) - (pos + (op.size - 1) : Nat))) :
    Prolongs ops p ops { p with chunk := p.chunk.writeU16 pos a } ∧
      Tidy owed' ops { p with chunk := p.chunk.writeU16 pos a } := by
  refine ⟨⟨List.prefix_rfl, List.prefix_rfl, Nat.le_refl _, fun _ e => e⟩, ?_, fun o mem => h.owed o (sub mem), h.pool,
    h.slots, h.narrow, h.size, h.exits, h.pipe⟩
  have length := h.length
  have back := stands.le_end
  obtain ⟨is, emits, rfl, placedAll, aimed⟩ := h.code
  obtain ⟨front, tail, split, rfl⟩ := stands
  obtain ⟨is₁, rest, rfl, rfl, tail'⟩ := List.map_eq_append_iff.mp split
  obtain ⟨i, is₂, rfl, rfl, rfl⟩ := List.map_eq_cons_iff.mp tail'
  have patch := emits.patch a (Opcode.fmt_aims aims)
  rw [Instr.encodeAll_length] at patch
  have here : Stands (is₁ ++ i :: is₂) ((is₁.map Instr.op).map Opcode.size).sum i := ⟨is₁, is₂, rfl, rfl⟩
  have size : 0 < i.op.size := by cases i.op <;> decide
  refine ⟨_, patch, by simp, fun off j at' => ?_, fun off j at' jumps => ?_⟩
  · obtain ⟨rfl, rfl⟩ | ⟨-, old⟩ := stands_patched (j := i) (by rfl) at'
    · have old := placedAll _ i here
      unfold Instr.Placed at old ⊢
      have kind : i.op.kind = .ahead ∨ i.op.kind = .mark := by
        rw [Opcode.aims, Bool.or_eq_true, beq_iff_eq, beq_iff_eq] at aims
        exact aims
      obtain kind | kind := kind
      · simp only [kind]
      · simp only [kind] at old ⊢
        exact old
    · exact placedAll off j old
  · obtain ⟨rfl, rfl⟩ | ⟨ne, old⟩ := stands_patched (j := i) (by rfl) at'
    · refine .inl ⟨_, Boundary.end _, ?_, ?_⟩
      · show _ + i.op.size ≤ _
        rw [← length]
        omega
      · show a % 65536 = toU16 (_ - (_ + i.op.size : Nat))
        rw [← length, ahead, Nat.mod_eq_of_lt (toU16_lt _)]
        congr 3
        omega
    · obtain there | waits | loose := aimed off j old jumps
      · exact .inl there
      · refine .inr (.inl (paid _ waits fun e => ne ?_))
        exact Nat.succ_injective e
      · exact .inr (.inr loose)

/-- Debts in another order. -/
lemma Tidy.perm (h : Tidy owed ops p) (same : ∀ o, o ∈ owed ↔ o ∈ owed') : Tidy owed' ops p :=
  { h with
    code := by
      obtain ⟨is, emits, ops, placed, aimed⟩ := h.code
      refine ⟨is, emits, ops, placed, fun off i stands jumps => ?_⟩
      exact (aimed off i stands jumps).imp_right fun rest => rest.imp_left (same _).mp
    owed := fun o mem => h.owed o ((same o).mpr mem) }

/-- The chunk has the same code, and its pool and its slots may be more. -/
lemma Tidy.widen (h : Tidy owed ops p) {c : Chunk ν} (locals : List CandoLocal) (code : c.code = p.chunk.code)
    (more : p.chunk.constants <+: c.constants) (few : c.constants.length ≤ 65535)
    (room : p.chunk.localCount ≤ c.localCount) (narrow : c.localCount ≤ localMax)
    (slots : locals.length ≤ c.localCount) :
    Prolongs ops p ops { p with chunk := c, locals } ∧ Tidy owed ops { p with chunk := c, locals } := by
  refine ⟨⟨List.prefix_rfl, more, room, fun _ e => e⟩, ?_, h.owed, few, slots, narrow, h.size, h.exits, h.pipe⟩
  obtain ⟨is, emits, same, placed, aimed⟩ := h.code
  refine ⟨is, emits.keep code, same, fun off i stands => ?_, aimed⟩
  exact (placed off i stands).mono (fun _ there => there) more room

lemma Tidy.addConst (h : Tidy owed ops p) {v : Value ν} {r : Nat × Chunk ν} (e : p.chunk.addConst v = some r) :
    Prolongs ops p ops { p with chunk := r.2 } ∧ Tidy owed ops { p with chunk := r.2 } ∧
      Stored r.2.constants v r.1 := by
  have pool := h.pool
  rw [Chunk.addConst] at e
  split at e
  · next i search =>
    cases e
    obtain ⟨inside, same, -⟩ := List.findIdx?_eq_some_iff_getElem.mp search
    refine ⟨.refl ops p, h, p.chunk.constants[i], ?_, .inr same⟩
    show p.chunk.constants[i % 65536]? = _
    rw [Nat.mod_eq_of_lt (by omega), List.getElem?_eq_getElem inside]
  · split at e
    · next few =>
      cases e
      have wider := h.widen (c := { p.chunk with constants := p.chunk.constants ++ [v] }) p.locals rfl
        (List.prefix_append _ _) (by simp; omega) (Nat.le_refl _) h.narrow h.slots
      exact ⟨wider.1, wider.2, v, List.getElem?_concat_length, .inl rfl⟩
    · cases e

lemma Tidy.declare (h : Tidy owed ops p) (loc : CandoLocal) (room : p.locals.length < localMax) :
    let q := { p with
      locals := loc :: p.locals
      chunk := { p.chunk with localCount := max p.chunk.localCount (p.locals.length + 1) } }
    Prolongs ops p ops q ∧ Tidy owed ops q ∧ p.locals.length < q.chunk.localCount := by
  have wider := h.widen (c := { p.chunk with localCount := max p.chunk.localCount (p.locals.length + 1) })
    (loc :: p.locals) rfl List.prefix_rfl h.pool (Nat.le_max_left _ _) (Nat.max_le.mpr ⟨h.narrow, room⟩)
    (Nat.le_max_right _ _)
  exact ⟨wider.1, wider.2, Nat.le_max_right _ _⟩

namespace Settles

variable {known : List (Fact ν)} {f : Nat → Parse ν β} {op : Opcode} {m : Parse ν β}

/-- An instruction whose operands are as the facts say. -/
lemma emit {fmt : OpFmt} {i : Instr} (fits : i.Fits) (free : i.op.aims = false)
    (placed : ∀ ops (p : CandoParser ν), p.chunk.constants.length ≤ 65535 → p.chunk.localCount ≤ localMax →
      (∀ f ∈ known, f.Holds ops p) → i.Placed (Boundary ops) p.chunk.constants p.chunk.localCount p.chunk.code.length) :
    Settles known [] (emit fmt i : Parse ν Unit) := by
  intro rest ops p tidy holds
  have emitted := tidy.emitFree fmt fits free (placed ops p tidy.pool tidy.narrow holds)
  exact emitted.mono (fun _ _ h => ⟨_, h.2⟩) fun _ c => c

/-- A debt is paid by the first of two. -/
lemma pay {d : Nat × Opcode} {m : Parse ν Unit} {m' : Parse ν β} (hm : Settles known [d] m)
    (hm' : Settles known owed m') : Settles known (d :: owed) (do m; m') := by
  intro rest ops p tidy holds
  apply (hm (owed ++ rest) ops p tidy holds).bind
  rintro _ q ⟨ops', goes, tidy'⟩
  exact goes.brings (hm' rest ops' q tidy' fun f mem => (holds f mem).mono goes)

/-- The later of two debts is paid first. -/
lemma swap {d e : Nat × Opcode} (h : Settles known (e :: d :: owed) m) : Settles known (d :: e :: owed) m := by
  intro rest ops p tidy holds
  refine h rest ops p (tidy.perm fun o => ?_) holds
  simp only [List.cons_append, List.mem_cons]
  exact or_left_comm

lemma emitOpA_of (h : op.fmt = .a) (free : op.aims = false) {a : Nat}
    (placed : ∀ ops (p : CandoParser ν), p.chunk.constants.length ≤ 65535 → p.chunk.localCount ≤ localMax →
      (∀ f ∈ known, f.Holds ops p) →
        Instr.Placed (Boundary ops) p.chunk.constants p.chunk.localCount p.chunk.code.length ⟨op, a % 65536, 0⟩) :
    Settles known [] (emitOpA op a : Parse ν Unit) :=
  emit (by simp [Instr.Fits, h, Nat.mod_lt]) free placed

lemma emitConst {v : Value ν} {ci : Nat} (mem : .const ci v ∈ known) :
    Settles known [] (emitOpA .const ci : Parse ν Unit) := by
  refine emitOpA_of rfl rfl fun ops p pool _ holds => ?_
  have stored : Stored p.chunk.constants v ci := holds _ mem
  have := stored.lt
  show ci % 65536 < _
  rwa [Nat.mod_eq_of_lt (by omega)]

lemma placed_name {s : Str} {ci b : Nat} (name : op.kind = .name) (mem : .const ci (.string s) ∈ known)
    (ops : List Opcode) (p : CandoParser ν) (pool : p.chunk.constants.length ≤ 65535)
    (holds : ∀ f ∈ known, f.Holds ops p) :
    Instr.Placed (Boundary ops) p.chunk.constants p.chunk.localCount p.chunk.code.length ⟨op, ci % 65536, b⟩ := by
  have stored : Stored p.chunk.constants (.string s) ci := holds _ mem
  have := stored.lt
  simp only [Instr.Placed, name]
  rw [Nat.mod_eq_of_lt (by omega)]
  exact ⟨s, stored.string⟩

lemma aims_name (name : op.kind = .name) : op.aims = false := by
  rw [Opcode.aims, name]
  rfl

lemma emitName {s : Str} {ci : Nat} (h : op.fmt = .a) (name : op.kind = .name) (mem : .const ci (.string s) ∈ known) :
    Settles known [] (emitOpA op ci : Parse ν Unit) :=
  emitOpA_of h (aims_name name) fun ops p pool _ holds => placed_name name mem ops p pool holds

lemma emitNameAb {s : Str} {ci : Nat} (h : op.fmt = .ab) (name : op.kind = .name)
    (mem : .const ci (.string s) ∈ known) (b : Nat) : Settles known [] (emitOpAb op ci b : Parse ν Unit) :=
  emit (by simp [Instr.Fits, h, Nat.mod_lt]) (aims_name name) fun ops p pool _ holds =>
    placed_name name mem ops p pool holds

lemma emitClosure {t ci : Nat} (mem : .const ci (.number (F64.ofInt (t : Nat))) ∈ known) (start : .bound t ∈ known) :
    Settles known [] (emitOpA .closure ci : Parse ν Unit) := by
  refine emitOpA_of rfl rfl fun ops p pool _ holds => ?_
  have stored : Stored p.chunk.constants _ ci := holds _ mem
  have := stored.lt
  refine ⟨t, holds _ start, ?_⟩
  show Stored _ _ (ci % 65536)
  rwa [Nat.mod_eq_of_lt (by omega)]

lemma emitSlot {k : Nat} (h : op.fmt = .a) (slot : op.kind = .slot) (mem : .slot k ∈ known) :
    Settles known [] (emitOpA op k : Parse ν Unit) := by
  refine emitOpA_of h (by rw [Opcode.aims, slot]; rfl) fun ops p _ narrow holds => ?_
  have inside : k < p.chunk.localCount := holds _ mem
  simp only [Instr.Placed, slot]
  rw [localMax] at narrow
  rwa [Nat.mod_eq_of_lt (by omega)]

/-- What follows knows that the instruction has been emitted. -/
lemma emitted {a : Nat} {m : Parse ν β} (h : op.fmt = .a) (plain : op.kind = .plain)
    (hm : Settles (.emitted op :: known) owed m) : Settles known owed (do emitOpA op a; m) := by
  intro rest ops p tidy holds
  have emitted := tidy.emitFree .a (i := ⟨op, a % 65536, 0⟩) (by simp [Instr.Fits, h, Nat.mod_lt])
    (by rw [Opcode.aims, plain]; rfl) (by simp only [Instr.Placed, plain])
  apply emitted.bind
  rintro _ q ⟨-, goes, tidy'⟩
  refine goes.brings (hm rest _ q tidy' fun g mem => ?_)
  obtain rfl | mem := List.mem_cons.mp mem
  · exact List.mem_append_right _ List.mem_cons_self
  · exact (holds g mem).mono goes

lemma emitOp (h : op.fmt = .none) : Settles known [] (emitOp op : Parse ν Unit) := by
  refine emit (by simp [Instr.Fits, h]) ?_ fun ops p _ _ _ => ?_
  · show (op.kind == .ahead || op.kind == .mark) = false
    rw [Opcode.kind_plain h]
    rfl
  · simp only [Instr.Placed, Opcode.kind_plain h]

/-- An operand that means nothing to the pool, the slots or the code. -/
lemma emitOpA (h : op.fmt = .a) (plain : op.kind = .plain) (a : Nat) :
    Settles known [] (emitOpA op a : Parse ν Unit) := by
  refine emit (by simp [Instr.Fits, h, Nat.mod_lt]) ?_ fun ops p _ _ _ => ?_
  · show (op.kind == .ahead || op.kind == .mark) = false
    rw [plain]
    rfl
  · simp only [Instr.Placed, plain]

lemma emitOpAb (h : op.fmt = .ab) (plain : op.kind = .plain) (a b : Nat) :
    Settles known [] (emitOpAb op a b : Parse ν Unit) := by
  refine emit (by simp [Instr.Fits, h, Nat.mod_lt]) ?_ fun ops p _ _ _ => ?_
  · show (op.kind == .ahead || op.kind == .mark) = false
    rw [plain]
    rfl
  · simp only [Instr.Placed, plain]

/-- What follows knows that an instruction begins where the code ends now. -/
lemma codeLen (h : ∀ start, Settles (.bound start :: known) owed (f start)) : Settles known owed (codeLen >>= f) := by
  intro rest ops p tidy holds
  refine h _ rest ops p tidy fun g mem => ?_
  obtain rfl | mem := List.mem_cons.mp mem
  · show Boundary ops p.chunk.code.length
    rw [tidy.length]
    exact Boundary.end ops
  · exact holds g mem

/-- What follows an instruction with a distance ahead owes the distance. -/
lemma owing {fmt : OpFmt} {i : Nat → Instr} (fits : ∀ len, (i len).Fits) (same : ∀ len, (i len).op = op)
    (placed : ∀ ops (p : CandoParser ν), p.chunk.code.length = (ops.map Opcode.size).sum →
      (∀ f ∈ known, f.Holds ops p) → Instr.Placed (Boundary ops) p.chunk.constants p.chunk.localCount
        p.chunk.code.length (i p.chunk.code.length))
    (hf : ∀ pos, Settles known ((pos, op) :: owed) (f pos)) : Settles known owed ((do
      let len ← CandoParser.codeLen
      CandoParser.emit fmt (i len)
      return len + 1) >>= f) := by
  simp only [bind_assoc, pure_bind]
  intro rest ops p tidy holds
  have emitted := tidy.emit ((p.chunk.code.length + 1, op) :: (owed ++ rest)) fmt
    (fits p.chunk.code.length) (placed ops p tidy.length holds) (fun _ => .inl (by rw [same]; exact List.mem_cons_self))
    (List.subset_cons_self _ _) fun o mem => by
      rw [same]
      exact (List.mem_cons.mp mem).symm
  apply emitted.bind
  rintro _ q ⟨-, goes, tidy'⟩
  exact goes.brings (hf _ rest _ q tidy' fun f mem => (holds f mem).mono goes)

lemma emitJump (h : op.fmt = .a) (ahead : op.kind = .ahead) (hf : ∀ pos, Settles known ((pos, op) :: owed) (f pos)) :
    Settles known owed (emitJump op >>= f) := by
  refine owing (i := fun _ => ⟨op, 0x7FFF % 65536, 0⟩) (fun _ => by simp [Instr.Fits, h]) (fun _ => rfl)
    (fun ops p _ _ => ?_) hf
  simp only [Instr.Placed, ahead]

lemma emitLoopMark {start loopType : Nat} (mem : .bound start ∈ known)
    (hf : ∀ pos, Settles known ((pos, .loopMark) :: owed) (f pos)) :
    Settles known owed (emitLoopMark start loopType >>= f) := by
  refine owing (i := fun len => ⟨.loopMark, 0 % 65536,
    (toU16 ((len : Int) + 5 - start) % 16384 + loopType * 16384) % 65536⟩)
    (fun _ => ⟨Nat.mod_lt _ (by decide), Nat.mod_lt _ (by decide)⟩) (fun _ => rfl) (fun ops p length holds => ?_) hf
  have there : Boundary ops start := holds _ mem
  refine ⟨start, there, ?_, ?_⟩
  · rw [length]
    exact there.le_end
  · show (_ % 16384 + _) % 65536 % 16384 = _
    omega

lemma emitLoop {start : Nat} (mem : .bound start ∈ known) : Settles known [] (emitLoop start : Parse ν Unit) := by
  intro rest ops p tidy holds
  have there : Boundary ops start := holds _ mem
  have back : start ≤ p.chunk.code.length := tidy.length ▸ there.le_end
  simp only [CandoParser.emitLoop, CandoParser.codeLen, bind_apply, get_apply, pure_apply, Outcome.bind_ok]
  split
  · have emitted := tidy.emitFree .a (i := ⟨.loop, toU16 ((p.chunk.code.length : Int) + 3 - start) % 65536, 0⟩)
      ⟨Nat.mod_lt _ (by decide), rfl⟩ rfl ⟨start, there, back, Nat.mod_eq_of_lt (toU16_lt _)⟩
    exact emitted.mono (fun _ _ h => ⟨_, h.2⟩) fun _ c => c
  · trivial

/-- A distance that is owed is written. -/
lemma writeU16 {pos : Nat} (aims : op.aims) (a : CandoParser ν → Nat)
    (ahead : ∀ p, a p = toU16 ((p.chunk.code.length : Int) - (pos + (op.size - 1) : Nat))) : Settles known [(pos, op)]
      (Program.modify fun p => { p with chunk := p.chunk.writeU16 pos (a p) } : Parse ν Unit) := by
  intro rest ops p tidy _
  refine ⟨ops, tidy.patched (tidy.owed _ List.mem_cons_self) aims (List.subset_cons_self _ _) (fun o mem ne => ?_) (a p)
    (ahead p)⟩
  obtain rfl | mem := List.mem_cons.mp mem
  · exact absurd rfl ne
  · exact mem

lemma patchJump {pos : Nat} (h : op.fmt = .a) (ahead : op.kind = .ahead) :
    Settles known [(pos, op)] (patchJump pos : Parse ν Unit) := by
  refine get fun _ => ite (writeU16 (by rw [Opcode.aims, ahead]; rfl) _ fun p => ?_) (crash _)
  rw [Opcode.size, h]
  rfl

lemma patchLoopMarkBreak {pos : Nat} : Settles known [(pos, .loopMark)] (patchLoopMarkBreak pos : Parse ν Unit) :=
  get fun _ => ite (writeU16 (by decide) _ fun p => rfl) (crash _)

/-- The exit of a pipe body is written, whose distance nobody owes. -/
lemma patchExit {pos : Nat} (mem : .jump pos ∈ known) :
    Settles known [] (CandoParser.patchJump pos : Parse ν Unit) := by
  refine get fun _ => ite (fun rest ops p tidy holds => ⟨ops, ?_⟩) (crash _)
  have stands : OperandOf ops pos .jump := holds _ mem
  exact tidy.patched stands rfl (List.Subset.refl _) (fun _ mem _ => mem) _ rfl

/-! ### Constants and slots -/

/-- What follows knows that the constant is stored. -/
lemma addConst {v : Value ν} (hf : ∀ ci, Settles (.const ci v :: known) owed (f ci)) :
    Settles known owed (addConst v >>= f) := by
  intro rest ops p tidy holds
  simp only [CandoParser.addConst, bind_apply, get_apply, Outcome.bind_ok]
  cases e : p.chunk.addConst v with
  | none => trivial
  | some r =>
    obtain ⟨goes, tidy', stored⟩ := tidy.addConst e
    refine goes.brings (hf r.1 rest ops _ tidy' fun g mem => ?_)
    obtain rfl | mem := List.mem_cons.mp mem
    · exact stored
    · exact (holds g mem).mono goes

lemma strConst {s : Str} (hf : ∀ ci, Settles (.const ci (.string s) :: known) owed (f ci)) :
    Settles known owed (strConst s >>= f) :=
  addConst hf

lemma prevNameConst (hf : ∀ ci s, Settles (.const ci (.string s) :: known) owed (f ci)) :
    Settles known owed (prevNameConst >>= f) := by
  rw [CandoParser.prevNameConst, bind_assoc]
  exact previousText.bind fun s => strConst fun ci => hf ci s

lemma resolveLocal {name : Str} {f : Option Nat → Parse ν β} (none : Settles known owed (f none))
    (some : ∀ k, Settles (.slot k :: known) owed (f (some k))) : Settles known owed (resolveLocal name >>= f) := by
  intro rest ops p tidy holds
  simp only [CandoParser.resolveLocal, bind_apply, get_apply, pure_apply, Outcome.bind_ok]
  cases e : p.locals.findIdx? (·.name == name) with
  | none => exact none rest ops p tidy holds
  | some i =>
    refine some _ rest ops p tidy fun g mem => ?_
    obtain rfl | mem := List.mem_cons.mp mem
    · have inside := (List.findIdx?_eq_some_iff_getElem.mp e).1
      have := tidy.slots
      show p.locals.length - 1 - i < p.chunk.localCount
      omega
    · exact holds g mem

/-- What follows knows that the slot is there. -/
lemma declareLocal {name : Str} {isConst : Bool} (hf : ∀ k, Settles (.slot k :: known) owed (f k)) :
    Settles known owed (declareLocal name isConst >>= f) := by
  intro rest ops p tidy holds
  simp only [CandoParser.declareLocal, bind_apply, get_apply, Outcome.bind_ok]
  split
  · next full =>
    rw [bind_apply, Outcome.bind_assoc]
    apply (tooMany _ (owed ++ rest) ops p tidy holds).bind
    rintro _ q ⟨ops', goes, tidy'⟩
    refine goes.brings (hf 0 rest ops' q tidy' fun g mem => ?_)
    obtain rfl | mem := List.mem_cons.mp mem
    · have := tidy.slots
      have := goes.slots
      show 0 < q.chunk.localCount
      rw [localMax] at full
      omega
    · exact (holds g mem).mono goes
  · next room =>
    obtain ⟨goes, tidy', inside⟩ := tidy.declare ⟨name, p.scopeDepth, isConst⟩ (Nat.lt_of_not_le room)
    refine goes.brings (hf _ rest ops _ tidy' fun g mem => ?_)
    obtain rfl | mem := List.mem_cons.mp mem
    · exact inside
    · exact (holds g mem).mono goes

/-! ### Scopes -/

lemma scopeBegin : Settles known [] (scopeBegin : Parse ν Unit) := quiet fun _ => ⟨rfl, rfl, rfl, rfl, Nat.le_refl _⟩

lemma scopeEnd : Settles known [] (scopeEnd : Parse ν Unit) :=
  quiet fun _ => ⟨rfl, rfl, rfl, rfl, (List.dropWhile_sublist _).length_le⟩

end Settles

end CandoParser

end Cando
