import Cando.Vm.Disasm
import Mathlib.Algebra.Ring.Nat

/-!
# Well-formed chunks

What the interpreter takes for granted about the operands in a chunk: a jump leads to where an instruction begins, a
constant is in the pool and of the kind that its instruction needs, a slot is one of the chunk's. The compiler has to
see to it, since `vm_run` checks none of this.
-/

namespace Cando

lemma Instr.encodeAll_length (is : List Instr) : (encodeAll is).length = ((is.map Instr.op).map Opcode.size).sum := by
  induction is with
  | nil => rfl
  | cons i is ih =>
    rw [encodeAll_cons, List.length_append, encode_length, ih, List.map_cons, List.map_cons, List.sum_cons]

/-! ### Kinds of operands -/

/-- What the operands of an instruction are: the first one a constant, a name in the pool, the position of a function
in the pool, a local slot, the distance of a jump ahead or back, or the two distances of a loop mark. -/
inductive OperandKind where
  | plain | value | name | position | slot | ahead | back | mark | upvalue
  deriving DecidableEq, Repr

def Opcode.kind : Opcode → OperandKind
  | .const => .value
  | .loadGlobal | .storeGlobal | .defGlobal | .defConstGlobal | .getField | .setField | .newClass | .bindMethod
  | .methodCall | .fluentCall => .name
  | .closure => .position
  | .loadLocal | .storeLocal | .defLocal | .defConstLocal => .slot
  | .jump | .jumpIfFalse | .jumpIfTrue | .andJump | .orJump | .forNext | .forOverNext | .pipeNext | .filterNext
  | .tryBegin | .finallyBegin => .ahead
  | .loop => .back
  | .loopMark => .mark
  | .loadUpval | .storeUpval | .closeUpval => .upvalue
  | _ => .plain

/-- The first operand is a distance ahead, which is not known before the code behind it. -/
def Opcode.aims (op : Opcode) : Bool := op.kind == .ahead || op.kind == .mark

lemma Opcode.kind_plain {op : Opcode} (h : op.fmt = .none) : op.kind = .plain := by
  cases op <;> first | rfl | cases h

lemma Opcode.fmt_aims {op : Opcode} (h : op.aims) : op.fmt ≠ .none := by
  cases op <;> first | exact absurd h (by decide) | decide

/-! ### Positions -/

/-- Where an instruction of the sequence begins, or the end. -/
def Boundary (ops : List Opcode) (t : Nat) : Prop := ∃ front, front <+: ops ∧ t = (front.map Opcode.size).sum

/-- Where an instruction of the sequence begins. -/
def Begins (ops : List Opcode) (t : Nat) : Prop :=
  ∃ front op back, ops = front ++ op :: back ∧ t = (front.map Opcode.size).sum

/-- The operand of an instruction with this opcode stands at the position. -/
def OperandOf (ops : List Opcode) (pos : Nat) (op : Opcode) : Prop :=
  ∃ front back, ops = front ++ op :: back ∧ pos = (front.map Opcode.size).sum + 1

/-- The instruction begins at the offset. -/
def Stands (is : List Instr) (off : Nat) (i : Instr) : Prop :=
  ∃ front back, is = front ++ i :: back ∧ off = ((front.map Instr.op).map Opcode.size).sum

section Positions

variable {ops ops' : List Opcode} {is : List Instr} {i j : Instr} {off t pos : Nat} {op : Opcode}

lemma Boundary.mono (h : Boundary ops t) (more : ops <+: ops') : Boundary ops' t := by
  obtain ⟨front, le, rfl⟩ := h
  exact ⟨front, le.trans more, rfl⟩

lemma Boundary.end (ops : List Opcode) : Boundary ops (ops.map Opcode.size).sum := ⟨ops, List.prefix_rfl, rfl⟩

lemma Boundary.le_end (h : Boundary ops t) : t ≤ (ops.map Opcode.size).sum := by
  obtain ⟨front, ⟨back, rfl⟩, rfl⟩ := h
  rw [List.map_append, List.sum_append]
  exact Nat.le_add_right _ _

/-- What comes behind the end makes it a place where an instruction begins. -/
lemma Boundary.begins (h : Boundary ops t) (op : Opcode) : Begins (ops ++ [op]) t := by
  obtain ⟨front, ⟨back, rfl⟩, rfl⟩ := h
  cases back with
  | nil => exact ⟨front, op, [], by rw [List.append_nil], rfl⟩
  | cons j back => exact ⟨front, j, back ++ [op], by rw [List.append_assoc, List.cons_append], rfl⟩

lemma Begins.le_end (h : Begins ops t) : t ≤ (ops.map Opcode.size).sum := by
  obtain ⟨front, op, back, rfl, rfl⟩ := h
  exact Boundary.le_end ⟨front, List.prefix_append _ _, rfl⟩

lemma Begins.stands (h : Begins (is.map Instr.op) t) : ∃ i, Stands is t i := by
  obtain ⟨front, op, back, split, rfl⟩ := h
  obtain ⟨is₁, rest, rfl, rfl, tail⟩ := List.map_eq_append_iff.mp split
  obtain ⟨i, is₂, rfl, -, -⟩ := List.map_eq_cons_iff.mp tail
  exact ⟨i, is₁, is₂, rfl, rfl⟩

lemma OperandOf.mono (h : OperandOf ops pos op) (more : ops <+: ops') : OperandOf ops' pos op := by
  obtain ⟨front, back, rfl, rfl⟩ := h
  obtain ⟨rest, rfl⟩ := more
  exact ⟨front, back ++ rest, by rw [List.append_assoc, List.cons_append], rfl⟩

lemma OperandOf.le_end (h : OperandOf ops pos op) : pos + op.size ≤ (ops.map Opcode.size).sum + 1 := by
  obtain ⟨front, back, rfl, rfl⟩ := h
  simp only [List.map_append, List.map_cons, List.sum_append, List.sum_cons]
  omega

/-- Behind further instructions those before stand where they stood. -/
lemma stands_append {is₂ : List Instr} (h : Stands (is ++ is₂) off i) :
    Stands is off i ∨ ∃ off₂, Stands is₂ off₂ i ∧ off = ((is.map Instr.op).map Opcode.size).sum + off₂ := by
  obtain ⟨front, back, whole, rfl⟩ := h
  obtain ⟨mid, here, there⟩ | ⟨mid, here, there⟩ := List.append_eq_append_iff.mp whole
  · refine .inr ⟨_, ⟨mid, back, there, rfl⟩, ?_⟩
    rw [here, List.map_append, List.map_append, List.sum_append]
  · cases mid with
    | nil =>
      rw [List.append_nil] at here
      exact .inr ⟨0, ⟨[], back, there.symm, rfl⟩, by rw [here, Nat.add_zero]⟩
    | cons k mid =>
      obtain ⟨rfl, -⟩ := List.cons.inj there
      exact .inl ⟨front, mid, here, rfl⟩

lemma stands_singleton (h : Stands [j] off i) : off = 0 ∧ i = j := by
  obtain ⟨front, back, e, rfl⟩ := h
  cases front with
  | nil => exact ⟨rfl, (List.cons.inj e).1.symm⟩
  | cons k front => cases front <;> cases e

/-- With another operand, the instruction that changed stands where it stood, and so do the others. -/
lemma stands_patched {front back : List Instr} {j' : Instr} (same : j'.op = j.op)
    (h : Stands (front ++ j' :: back) off i) :
    (off = ((front.map Instr.op).map Opcode.size).sum ∧ i = j') ∨
      (off ≠ ((front.map Instr.op).map Opcode.size).sum ∧ Stands (front ++ j :: back) off i) := by
  have pos (op : Opcode) : 0 < op.size := by cases op <;> decide
  obtain ⟨front₂, back₂, whole, rfl⟩ := h
  obtain ⟨mid, here, there⟩ | ⟨mid, here, there⟩ := List.append_eq_append_iff.mp whole
  · cases mid with
    | nil =>
      rw [List.append_nil] at here
      exact .inl ⟨by rw [here], (List.cons.inj there).1.symm⟩
    | cons k mid =>
      obtain ⟨rfl, rfl⟩ := List.cons.inj there
      refine .inr ⟨?_, ⟨front ++ j :: mid, back₂, by simp, ?_⟩⟩
      · rw [here]
        simp only [List.map_append, List.map_cons, List.sum_append, List.sum_cons]
        have := pos j'.op
        omega
      · rw [here]
        simp only [List.map_append, List.map_cons, same]
  · cases mid with
    | nil =>
      rw [List.append_nil] at here
      exact .inl ⟨by rw [here], (List.cons.inj there).1⟩
    | cons k mid =>
      obtain ⟨rfl, e⟩ := List.cons.inj there
      refine .inr ⟨?_, ⟨front₂, mid ++ j :: back, by rw [here]; simp, rfl⟩⟩
      rw [here]
      simp only [List.map_append, List.map_cons, List.sum_append, List.sum_cons]
      have := pos i.op
      omega

lemma Stands.operand (h : Stands is off i) : OperandOf (is.map Instr.op) (off + 1) i.op := by
  obtain ⟨front, back, rfl, rfl⟩ := h
  exact ⟨front.map Instr.op, back.map Instr.op, by rw [List.map_append, List.map_cons], rfl⟩

end Positions

/-! ### Operands -/

section Operands

variable {ν : Type} [F64 ν]

/-- The constant stands under this number in the pool, or one that `cando_chunk_add_const` takes for it. -/
def Stored (pool : List (Value ν)) (v : Value ν) (ci : Nat) : Prop :=
  ∃ w, pool[ci]? = some w ∧ (w = v ∨ Chunk.sameConst w v)

/-- The operands of the instruction at the offset are what it needs, but for the distance ahead. `B` is where
instructions begin. -/
def Instr.Placed (B : Nat → Prop) (pool : List (Value ν)) (slots off : Nat) (i : Instr) : Prop :=
  match i.op.kind with
  | .value => i.a < pool.length
  | .name => ∃ s, pool[i.a]? = some (.string s)
  | .position => ∃ t, B t ∧ Stored pool (.number (F64.ofInt (t : Nat))) i.a
  | .slot => i.a < slots
  | .back => ∃ t, B t ∧ t ≤ off ∧ i.a = toU16 ((off : Int) + 3 - t)
  | .mark => ∃ t, B t ∧ t ≤ off ∧ i.b % 16384 = toU16 ((off : Int) + 5 - t) % 16384
  | .upvalue => False
  | .plain | .ahead => True

/-- The distance ahead leads from behind the instruction to where one begins. -/
def Instr.Aimed (B : Nat → Prop) (off : Nat) (i : Instr) : Prop :=
  ∃ t, B t ∧ off + i.op.size ≤ t ∧ i.a = toU16 ((t : Int) - (off + i.op.size : Nat))

/-- The jump of a `RETURN` in a pipe body, which is written with a distance that means nothing. -/
def Instr.Loose (ops : List Opcode) (i : Instr) : Prop := i.op = .jump ∧ i.a = 0x7FFF ∧ .pipeInit ∈ ops

variable {B B' : Nat → Prop} {pool pool' : List (Value ν)} {v : Value ν} {slots slots' off ci : Nat} {i : Instr}

lemma Stored.mono (h : Stored pool v ci) (more : pool <+: pool') : Stored pool' v ci := by
  obtain ⟨w, found, same⟩ := h
  obtain ⟨rest, rfl⟩ := more
  exact ⟨w, List.getElem?_append_left (List.getElem?_eq_some_iff.mp found).1 ▸ found, same⟩

lemma Stored.lt (h : Stored pool v ci) : ci < pool.length := by
  obtain ⟨w, found, -⟩ := h
  exact (List.getElem?_eq_some_iff.mp found).1

lemma Stored.string {s : Str} (h : Stored pool (.string s) ci) : pool[ci]? = some (.string s) := by
  obtain ⟨w, found, rfl | same⟩ := h
  · exact found
  · cases w with
    | string t =>
      rw [Chunk.sameConst, beq_iff_eq] at same
      rw [found, same]
    | _ => exact absurd same (by simp [Chunk.sameConst])

lemma Instr.Placed.mono (h : i.Placed B pool slots off) (wider : ∀ t, B t → B' t) (more : pool <+: pool')
    (room : slots ≤ slots') : i.Placed B' pool' slots' off := by
  unfold Instr.Placed at h ⊢
  split at h
  · exact Nat.lt_of_lt_of_le h more.length_le
  · obtain ⟨s, found⟩ := h
    obtain ⟨rest, rfl⟩ := more
    exact ⟨s, List.getElem?_append_left (List.getElem?_eq_some_iff.mp found).1 ▸ found⟩
  · obtain ⟨t, there, stored⟩ := h
    exact ⟨t, wider t there, stored.mono more⟩
  · exact Nat.lt_of_lt_of_le h room
  · obtain ⟨t, there, rest⟩ := h
    exact ⟨t, wider t there, rest⟩
  · obtain ⟨t, there, rest⟩ := h
    exact ⟨t, wider t there, rest⟩
  · exact h
  · trivial
  · trivial

omit [F64 ν] in
lemma Instr.Aimed.mono (h : i.Aimed B off) (wider : ∀ t, B t → B' t) : i.Aimed B' off := by
  obtain ⟨t, there, rest⟩ := h
  exact ⟨t, wider t there, rest⟩

end Operands

/-! ### Chunks -/

/-- Where the interpreter may go on from an instruction at the offset, besides behind it. -/
def Instr.targets (off : Nat) (i : Instr) : List Int :=
  match i.op.kind with
  | .ahead => [(off + i.op.size : Nat) + toI16 i.a]
  | .back => [(off + i.op.size : Nat) - i.a]
  | .mark => [(off + i.op.size : Nat) + i.a, (off + i.op.size : Nat) - (i.b % 16384 : Nat)]
  | _ => []

section Chunks

variable {ν : Type} [F64 ν]

/-- The chunk holds the instructions, their operands are what the interpreter takes them for, and the last one ends the
run or the call. -/
structure Chunk.WellFormed (c : Chunk ν) (is : List Instr) : Prop where
  emits : c.Emits is
  placed : ∀ off i, Stands is off i → i.Placed (Begins (is.map Instr.op)) c.constants c.localCount off
  aimed : ∀ off i, Stands is off i → i.op.aims →
    i.Aimed (Begins (is.map Instr.op)) off ∨ i.Loose (is.map Instr.op)
  ends : ∃ front i, is = front ++ [i] ∧ (i.op = .halt ∨ i.op = .return)

lemma toU16_small {x : Nat} (small : x < 65536) : toU16 x = x := by
  rw [toU16]
  omega

variable {c : Chunk ν} {is : List Instr} {off : Nat} {i : Instr}

/-- A run begins with an instruction. -/
lemma Chunk.WellFormed.begins (wf : c.WellFormed is) : Begins (is.map Instr.op) 0 := by
  obtain ⟨front, i, rfl, -⟩ := wf.ends
  rw [List.map_append]
  exact Boundary.begins ⟨[], List.nil_prefix, rfl⟩ i.op

/-- In a short chunk no distance is cut, and each leads to where an instruction begins. -/
lemma Chunk.WellFormed.lands (wf : c.WellFormed is) (short : ((is.map Instr.op).map Opcode.size).sum < 16384)
    (stands : Stands is off i) {t : Int} (mem : t ∈ i.targets off) :
    (∃ n : Nat, t = n ∧ Begins (is.map Instr.op) n) ∨ i.Loose (is.map Instr.op) := by
  have inside : off + i.op.size ≤ ((is.map Instr.op).map Opcode.size).sum := by
    have := stands.operand.le_end
    omega
  have placed := wf.placed off i stands
  rw [Instr.targets] at mem
  rw [Instr.Placed] at placed
  -- the distance of an instruction that aims
  have forth (aims : i.op.aims) : i.Loose (is.map Instr.op) ∨ ∃ n, Begins (is.map Instr.op) n ∧
      off + i.op.size ≤ n ∧ n - (off + i.op.size) < 32768 ∧ i.a = n - (off + i.op.size) := by
    refine (wf.aimed off i stands aims).symm.imp_right fun ⟨n, there, le, a⟩ => ⟨n, there, le, ?_, ?_⟩
    · have := there.le_end
      omega
    · have := there.le_end
      rw [a, ← Int.ofNat_sub le, toU16_small (by omega)]
  split at mem
  · next kind =>
    rw [List.mem_singleton] at mem
    refine (forth (by rw [Opcode.aims, kind]; rfl)).symm.imp_left fun ⟨n, there, le, small, a⟩ => ⟨n, ?_, there⟩
    rw [mem, a, toI16, if_pos small, Int.ofNat_sub le]
    omega
  · next kind =>
    rw [List.mem_singleton] at mem
    simp only [kind] at placed
    obtain ⟨n, there, le, a⟩ := placed
    have size : i.op.size = 3 := by
      rw [Opcode.size]
      revert kind
      cases i.op <;> simp [Opcode.kind, Opcode.fmt]
    refine .inl ⟨n, ?_, there⟩
    have e : (off : Int) + 3 - n = (off + 3 - n : Nat) := by omega
    rw [mem, a, e, toU16_small (by omega), size]
    omega
  · next kind =>
    simp only [kind] at placed
    obtain ⟨n, there, le, b⟩ := placed
    have size : i.op.size = 5 := by
      rw [Opcode.size]
      revert kind
      cases i.op <;> simp [Opcode.kind, Opcode.fmt]
    have e : (off : Int) + 5 - n = (off + 5 - n : Nat) := by omega
    simp only [List.mem_cons, List.not_mem_nil, or_false] at mem
    obtain rfl | rfl := mem
    · refine (forth (by rw [Opcode.aims, kind]; rfl)).symm.imp_left fun ⟨n, there, le, small, a⟩ => ⟨n, ?_, there⟩
      rw [a, Int.ofNat_sub le]
      omega
    · refine .inl ⟨n, ?_, there⟩
      rw [b, e, toU16_small (by omega), Nat.mod_eq_of_lt (by omega), size]
      omega
  · cases mem

end Chunks

end Cando
