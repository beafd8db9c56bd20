import Cando.Core.Value
import Cando.Vm.Opcode

/-!
# Bytecode chunks

`CandoChunk` (`vm/chunk.h`) with the emitting and patching functions of `vm/chunk.c`: the code as a byte
list, the constant pool and the number of local slots. The line table and the capacities of the growing
arrays are left out; `decode` is how the dispatch loop reads an instruction back.
-/

namespace Cando

/-- A `CandoChunk`. -/
structure Chunk (ν : Type) where
  name : Str := []
  code : List UInt8 := []
  constants : List (Value ν) := []
  arity : Nat := 0
  localCount : Nat := 0
  hasVararg : Bool := false
  deriving DecidableEq, Repr

/-- An instruction as the dispatch loop reads it: the opcode, its operands (zero when the format has
none) and its size in bytes. -/
structure Instr where
  op : Opcode
  a : Nat := 0
  b : Nat := 0
  deriving DecidableEq, Repr

namespace Instr

/-- The bytes of an instruction, as `cando_chunk_emit_op`, `_op_a` and `_op_ab` write them. -/
def encode (i : Instr) : List UInt8 :=
  match i.op.fmt with
  | .none => [i.op.toByte]
  | .a => i.op.toByte :: u16Bytes i.a
  | .ab => i.op.toByte :: (u16Bytes i.a ++ u16Bytes i.b)

/-- The operands of an instruction fit their `u16` fields, and absent ones are zero. -/
def Fits (i : Instr) : Prop :=
  match i.op.fmt with
  | .none => i.a = 0 ∧ i.b = 0
  | .a => i.a < 65536 ∧ i.b = 0
  | .ab => i.a < 65536 ∧ i.b < 65536

instance (i : Instr) : Decidable i.Fits := by
  unfold Fits
  split <;> infer_instance

@[simp] lemma encode_length (i : Instr) : i.encode.length = i.op.size := by
  cases e : i.op.fmt <;> simp [encode, Opcode.size, e]

end Instr

/-- Reading one instruction off the front of the code (`READ_BYTE`, `READ_U16`). -/
def decodeFront : List UInt8 → Option Instr
  | [] => none
  | b :: rest =>
    (Opcode.ofByte b).bind fun op =>
      match op.fmt, rest with
      | .none, _ => some { op }
      | .a, lo :: hi :: _ => some { op, a := readU16 lo hi }
      | .ab, lo :: hi :: lo' :: hi' :: _ => some { op, a := readU16 lo hi, b := readU16 lo' hi' }
      | _, _ => none

/-- The instruction at byte offset `ip`; `none` past the end of the code. -/
def decode (code : List UInt8) (ip : Nat) : Option Instr := decodeFront (code.drop ip)

/-- What is emitted is read back. -/
lemma decodeFront_encode {i : Instr} (h : i.Fits) (rest : List UInt8) :
    decodeFront (i.encode ++ rest) = some i := by
  obtain ⟨op, a, b⟩ := i
  simp only [Instr.Fits] at h
  simp only [Instr.encode]
  split at h <;> rename_i e <;>
    simp only [e, decodeFront, List.cons_append, u16Bytes, Opcode.ofByte_toByte, Option.bind_some,
      List.nil_append, readU16_u16Bytes] <;>
    simp only [Option.some.injEq, Instr.mk.injEq, true_and] <;> omega

/-- What stands at an offset is read back there. -/
lemma decode_placed {i : Instr} {code : List UInt8} {ip : Nat} (h : i.Fits) (placed : i.encode <+: code.drop ip) :
    decode code ip = some i := by
  obtain ⟨rest, e⟩ := placed
  rw [decode, ← e, decodeFront_encode h]

namespace Chunk

variable {ν : Type}

/-- `cando_chunk_emit_op`, `cando_chunk_emit_op_a` and `cando_chunk_emit_op_ab`. -/
def emit (c : Chunk ν) (i : Instr) : Chunk ν := { c with code := c.code ++ i.encode }

/-- `cando_write_u16` into the code at `pos`. -/
def writeU16 (c : Chunk ν) (pos a : Nat) : Chunk ν :=
  { c with code := (c.code.set pos (UInt8.ofNat a)).set (pos + 1) (UInt8.ofNat (a / 256)) }

/-- `cando_chunk_emit_jump`: the jump with its placeholder, and where to patch it. -/
def emitJump (c : Chunk ν) (op : Opcode) : Nat × Chunk ν :=
  (c.code.length + 1, c.emit { op, a := 0x7FFF })

/-- `cando_chunk_patch_jump`: aim the jump whose operand sits at `pos` at the end of the code. -/
def patchJump (c : Chunk ν) (pos : Nat) : Chunk ν :=
  c.writeU16 pos (toU16 ((c.code.length : Int) - (pos + 2)))

/-- `cando_chunk_emit_loop`: an `OP_LOOP` back to `start`. -/
def emitLoop (c : Chunk ν) (start : Nat) : Chunk ν :=
  c.emit { op := .loop, a := toU16 ((c.code.length : Int) + 3 - start) }

variable [F64 ν]

/-- The pool entry that `cando_chunk_add_const` shares with a number or string constant. -/
def sameConst : Value ν → Value ν → Bool
  | .number x, .number y => F64.eq x y
  | .string s, .string t => s == t
  | _, _ => false

/-- `cando_chunk_add_const`; `none` when its assertion on the pool size fails. -/
def addConst (c : Chunk ν) (v : Value ν) : Option (Nat × Chunk ν) :=
  match c.constants.findIdx? (sameConst · v) with
  | some i => some (i % 65536, c)
  | none =>
    if c.constants.length < 65535 then
      some (c.constants.length, { c with constants := c.constants ++ [v] })
    else none

end Chunk

end Cando
