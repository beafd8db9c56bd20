import Cando.Vm.Chunk

/-!
# The disassembler

The offsets that `cando_chunk_disasm` (`vm/debug.c`) visits in the code of a chunk, beside the operand formats of
`vm/opcodes.c` and the operands that the handlers of `vm/vm.c` read. What the disassembler prints is left out.
-/

namespace Cando

namespace Opcode

/-! ### Three descriptions of an instruction's size -/

/-- `cando_instr_disasm`: how far behind an instruction's offset the one that it returns is. The opcodes stand by the
printer that its switch calls, each of which goes on behind the operands that it prints. -/
def disasmSize : Opcode → Nat
  -- disasm_simple
  | .null | .true | .false | .pop | .dup | .add | .sub | .mul | .div | .mod | .pow | .neg | .pos | .incr | .decr
  | .eq | .neq | .lt | .gt | .leq | .geq | .bitAnd | .bitOr | .bitXor | .bitNot | .lshift | .rshift | .not
  | .newObject | .getIndex | .setIndex | .len | .keysOf | .valsOf | .loopEnd | .varargLen | .unpack | .rangeAsc
  | .rangeDesc | .tryEnd | .throw | .reraise | .async | .await | .yield | .inherit | .maskPass | .maskSkip | .pipeEnd
  | .pipeCollect | .filterCollect | .spreadRet | .nop | .halt => 1
  -- disasm_const
  | .const | .loadGlobal | .storeGlobal | .defGlobal | .defConstGlobal | .getField | .setField | .closure | .newClass
  | .bindMethod => 3
  -- disasm_u16
  | .loadLocal | .storeLocal | .defLocal | .defConstLocal | .loadUpval | .storeUpval | .closeUpval | .popN | .newArray
  | .return | .call | .tailCall | .loadVararg | .forInit | .forOverInit | .pipeInit | .catchBegin | .eqStack | .neqStack
  | .ltStack | .gtStack | .leqStack | .geqStack | .rangeCheck | .break | .continue => 3
  -- disasm_jump
  | .jump | .jumpIfFalse | .jumpIfTrue | .loop | .andJump | .orJump | .tryBegin | .finallyBegin | .forNext
  | .forOverNext | .pipeNext | .filterNext => 3
  -- disasm_u16_u16
  | .maskApply | .loopMark | .methodCall | .fluentCall => 5
  -- the default
  | .thread | .arraySpread | .truncateRet | .eqSpread | .neqSpread | .ltSpread | .gtSpread | .leqSpread
  | .geqSpread => 1

/-- How many operands the handler of the opcode in `vm/vm.c` reads (`READ_U16`, `READ_I16`, `READ_CONST`). -/
def operandsRead : Opcode → Nat
  | .const | .popN | .loadLocal | .storeLocal | .defLocal | .defConstLocal | .loadGlobal | .storeGlobal
  | .defGlobal | .defConstGlobal | .loadUpval | .storeUpval | .closeUpval | .eqStack | .neqStack | .ltStack
  | .gtStack | .leqStack | .geqStack | .rangeCheck | .andJump | .orJump | .newArray | .getField | .setField | .jump
  | .jumpIfFalse | .jumpIfTrue | .loop | .break | .continue | .closure | .call | .return | .tailCall | .loadVararg
  | .forInit | .forNext | .forOverNext | .pipeInit | .pipeNext | .filterNext | .tryBegin | .catchBegin
  | .finallyBegin | .throw | .newClass | .bindMethod => 1
  | .loopMark | .methodCall | .fluentCall | .forOverInit | .maskApply => 2
  | _ => 0

lemma operandsRead_size (op : Opcode) : 1 + 2 * op.operandsRead = op.size := by
  cases op <;> rfl

/-- The disassembler is wrong about two opcodes. -/
lemma disasmSize_eq_size (op : Opcode) : op.disasmSize = op.size ↔ op ≠ .throw ∧ op ≠ .forOverInit := by
  cases op <;> decide

end Opcode

/-! ### Walks -/

/-- The size that a description of the opcodes gives to the instruction that begins with a byte; one that is no opcode
takes one byte. -/
def byteSize (size : Opcode → Nat) (b : UInt8) : Nat := ((Opcode.ofByte b).map size).getD 1

@[simp] lemma byteSize_toByte (size : Opcode → Nat) (op : Opcode) : byteSize size op.toByte = size op := by
  rw [byteSize, Opcode.ofByte_toByte, Option.map_some, Option.getD_some]

/-- The loop of `cando_chunk_disasm`, from an offset with this code behind it: the offsets of its turns, and the one at
which it ends. -/
def walk (size : UInt8 → Nat) (code : List UInt8) (offset : Nat) : List Nat × Nat :=
  match code with
  | [] => ([], offset)
  | b :: rest =>
    let turns := walk size (rest.drop (size b - 1)) (offset + size b)
    (offset :: turns.1, turns.2)
termination_by code.length
decreasing_by
  rw [List.length_drop, List.length_cons]
  omega

/-- The offsets at which instructions begin, the first at `offset`. -/
def boundaries : List Instr → (offset : Nat) → List Nat
  | [], _ => []
  | i :: is, offset => offset :: boundaries is (offset + i.op.size)

namespace Instr

/-- The code of a sequence of instructions. -/
def encodeAll (is : List Instr) : List UInt8 := is.flatMap encode

@[simp] lemma encodeAll_nil : encodeAll [] = [] := rfl

lemma encodeAll_cons (i : Instr) (is : List Instr) : encodeAll (i :: is) = i.encode ++ encodeAll is := rfl

lemma encodeAll_append (is js : List Instr) : encodeAll (is ++ js) = encodeAll is ++ encodeAll js := List.flatMap_append

/-- The opcode stands before the operands. -/
lemma encode_cons (i : Instr) : ∃ operands, i.encode = i.op.toByte :: operands ∧ operands.length + 1 = i.op.size := by
  have len := i.encode_length
  rw [encode] at len ⊢
  split at len
  all_goals exact ⟨_, rfl, len⟩

/-- A walk comes by the boundaries and ends with the code just if it has the size of each instruction right. -/
lemma walk_encodeAll_iff (size : UInt8 → Nat) (is : List Instr) (offset : Nat) :
    walk size (encodeAll is) offset = (boundaries is offset, offset + (encodeAll is).length) ↔
      ∀ i ∈ is, size i.op.toByte = i.op.size := by
  induction is generalizing offset with
  | nil => simp [walk, boundaries]
  | cons i is ih =>
    obtain ⟨operands, code, len⟩ := i.encode_cons
    have total : (encodeAll (i :: is)).length = i.op.size + (encodeAll is).length := by
      rw [encodeAll_cons, List.length_append, encode_length]
    rw [total, encodeAll_cons, code, List.cons_append, walk, boundaries, List.forall_mem_cons]
    constructor
    · intro h
      rw [Prod.mk.injEq, List.cons.injEq] at h
      obtain ⟨⟨-, visits⟩, ends⟩ := h
      -- the next offset is the next boundary, or the end
      have right : size i.op.toByte = i.op.size := by
        cases is with
        | nil =>
          cases behind : (operands ++ encodeAll []).drop (size i.op.toByte - 1) with
          | nil =>
            rw [behind, walk] at ends
            simp only [encodeAll_nil, List.length_nil] at ends
            omega
          | cons b rest =>
            rw [behind, walk] at visits
            cases visits
        | cons j is =>
          cases behind : (operands ++ encodeAll (j :: is)).drop (size i.op.toByte - 1) with
          | nil =>
            rw [behind, walk] at visits
            cases visits
          | cons b rest =>
            rw [behind, walk, boundaries, List.cons.injEq] at visits
            omega
      refine ⟨right, (ih (offset + i.op.size)).mp ?_⟩
      rw [right, List.drop_left' (by omega)] at visits ends
      rw [Nat.add_assoc, ← ends, ← visits]
    · rintro ⟨right, others⟩
      have rest := (ih (offset + i.op.size)).mpr others
      rw [right, List.drop_left' (by omega), rest, Nat.add_assoc]

/-- Writing the first operand of an instruction in the code changes that operand. -/
lemma encodeAll_patch (front back : List Instr) {i : Instr} (operand : i.op.fmt ≠ .none) (a : Nat) :
    ((encodeAll (front ++ i :: back)).set ((encodeAll front).length + 1) (UInt8.ofNat a)).set
        ((encodeAll front).length + 1 + 1) (UInt8.ofNat (a / 256)) =
      encodeAll (front ++ { i with a := a % 65536 } :: back) := by
  have low : UInt8.ofNat (a % 65536) = UInt8.ofNat a := by
    apply UInt8.toNat_inj.mp
    simp only [UInt8.toNat_ofNat']
    omega
  have high : UInt8.ofNat (a % 65536 / 256) = UInt8.ofNat (a / 256) := by
    apply UInt8.toNat_inj.mp
    simp only [UInt8.toNat_ofNat']
    omega
  have second : (encodeAll front).length + 1 + 1 - (encodeAll front).length = 2 := by omega
  rw [encodeAll_append, encodeAll_cons, List.set_append_right _ _ (by omega), List.set_append_right _ _ (by omega),
    Nat.add_sub_cancel_left, second, encodeAll_append, encodeAll_cons, encode, encode]
  cases fmt : i.op.fmt with
  | none => exact absurd fmt operand
  | a => simp [u16Bytes, low, high]
  | ab => simp [u16Bytes, low, high]

end Instr

/-! ### Emitted chunks -/

namespace Chunk

variable {ν : Type}

/-- The chunks that come about by `vm/chunk.c`, with the instructions in them: emitting, patching an instruction that is
there, dropping a last `OP_POP` (the end of `cando_parse`), and what leaves the code as it is. -/
inductive Emits : Chunk ν → List Instr → Prop where
  | new {c : Chunk ν} : c.code = [] → Emits c []
  | emit {c : Chunk ν} {is : List Instr} {i : Instr} : Emits c is → i.Fits → Emits (c.emit i) (is ++ [i])
  | patch {c : Chunk ν} {front back : List Instr} {i : Instr} (a : Nat) :
    Emits c (front ++ i :: back) → i.op.fmt ≠ .none →
    Emits (c.writeU16 ((Instr.encodeAll front).length + 1) a) (front ++ { i with a := a % 65536 } :: back)
  | unpop {c : Chunk ν} {is : List Instr} {i : Instr} : Emits c (is ++ [i]) → i.op = .pop →
    Emits { c with code := c.code.dropLast } is
  | keep {c c' : Chunk ν} {is : List Instr} : Emits c is → c'.code = c.code → Emits c' is

/-- The code of an emitted chunk is that of its instructions. -/
lemma Emits.code {c : Chunk ν} {is : List Instr} (h : c.Emits is) : c.code = Instr.encodeAll is := by
  induction h with
  | new empty => exact empty
  | @emit c is i _ _ ih =>
    rw [Chunk.emit, ih, Instr.encodeAll_append]
    simp [Instr.encodeAll]
  | patch a _ operand ih => rw [writeU16, ih, Instr.encodeAll_patch _ _ operand]
  | @unpop c is i _ pop ih =>
    have byte : Instr.encodeAll [i] = [i.op.toByte] := by simp [Instr.encodeAll, Instr.encode, pop, Opcode.fmt]
    rw [ih, Instr.encodeAll_append, byte]
    exact List.dropLast_concat
  | keep _ same ih => rw [same, ih]

/-- The walk with the disassembler, the one with `cando_opcode_size` and the one with what the handlers read come by the
boundaries of the instructions and end with the code. -/
structure WalksAgree (c : Chunk ν) (is : List Instr) : Prop where
  disasm : walk (byteSize Opcode.disasmSize) c.code 0 = (boundaries is 0, c.code.length)
  format : walk (byteSize Opcode.size) c.code 0 = (boundaries is 0, c.code.length)
  handlers : walk (byteSize fun op => 1 + 2 * op.operandsRead) c.code 0 = (boundaries is 0, c.code.length)

variable {c : Chunk ν} {is : List Instr}

lemma Emits.walk_iff (h : c.Emits is) (size : Opcode → Nat) :
    walk (byteSize size) c.code 0 = (boundaries is 0, c.code.length) ↔ ∀ i ∈ is, size i.op = i.op.size := by
  have bytes := Instr.walk_encodeAll_iff (byteSize size) is 0
  rw [h.code, ← Nat.zero_add (Instr.encodeAll is).length, bytes]
  simp only [byteSize_toByte]

/-- The disassembler takes one byte for `OP_THROW` and three for `OP_FOR_OVER_INIT`, and loses the boundaries behind the
first of them. -/
lemma Emits.walksAgree_iff (h : c.Emits is) : c.WalksAgree is ↔ ∀ i ∈ is, i.op ≠ .throw ∧ i.op ≠ .forOverInit := by
  constructor
  · intro agree i mem
    have right := (h.walk_iff _).mp agree.disasm i mem
    exact (Opcode.disasmSize_eq_size i.op).mp right
  · intro without
    constructor
    case disasm => exact (h.walk_iff _).mpr fun i mem => (Opcode.disasmSize_eq_size i.op).mpr (without i mem)
    case format => exact (h.walk_iff _).mpr fun i _ => rfl
    case handlers => exact (h.walk_iff _).mpr fun i _ => i.op.operandsRead_size

end Chunk

end Cando
