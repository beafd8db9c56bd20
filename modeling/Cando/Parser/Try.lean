import Cando.Vm.Chunk

/-!
# TRY statements

`parse_try` (`parser/parser.c`): the code of the TRY block between `OP_TRY_BEGIN` and `OP_TRY_END`, the CATCH block
behind `OP_CATCH_BEGIN`, and the code of the FINALY block behind both. Of a block only its code matters here.
-/

namespace Cando

/-- A TRY statement, its blocks compiled: the slots are those of the catch parameters. -/
structure TryStmt where
  body : List UInt8
  slots : List Nat
  handler : List UInt8
  finaly : Option (List UInt8)
  deriving DecidableEq, Repr

namespace TryStmt

variable {ν : Type}

/-- `parse_block`: the code of a block goes behind what has been emitted. -/
def parseBlock (block : List UInt8) (c : Chunk ν) : Chunk ν := { c with code := c.code ++ block }

/-- The binding of the catch parameters. -/
def bindParams (slots : List Nat) (c : Chunk ν) : Chunk ν :=
  slots.foldl (fun c slot => c.emit { op := .defLocal, a := slot }) (c.emit { op := .catchBegin, a := slots.length })

/-- `parse_try`. -/
def parseTry (t : TryStmt) (c : Chunk ν) : Chunk ν :=
  let (handlerJump, c) := c.emitJump .tryBegin
  let c := parseBlock t.body c
  let c := c.emit { op := .tryEnd }
  let (skipCatch, c) := c.emitJump .jump
  let c := c.patchJump handlerJump
  let c := bindParams t.slots c
  let c := parseBlock t.handler c
  let c := c.patchJump skipCatch
  match t.finaly with
  | some block => parseBlock block c
  | none => c

/-- The code of the CATCH part. -/
def catchCode (t : TryStmt) : List UInt8 :=
  (Instr.mk .catchBegin t.slots.length 0).encode ++ t.slots.flatMap (fun slot => (Instr.mk .defLocal slot 0).encode) ++
    t.handler

/-- The code of the statement. -/
def code (t : TryStmt) : List UInt8 :=
  (Instr.mk .tryBegin (toU16 (t.body.length + 4)) 0).encode ++ t.body ++ (Instr.mk .tryEnd 0 0).encode ++
    (Instr.mk .jump (toU16 t.catchCode.length) 0).encode ++ t.catchCode ++ t.finaly.getD []

/-- Patching the operand behind a prefix. -/
lemma writeU16_behind {c : Chunk ν} {pre rest : List UInt8} {b x y : UInt8} (a : Nat)
    (code : c.code = pre ++ b :: x :: y :: rest) :
    (c.writeU16 (pre.length + 1) a).code = pre ++ b :: (u16Bytes a ++ rest) := by
  rw [Chunk.writeU16, code]
  simp only [List.set_append_right _ _ (Nat.le_add_right pre.length _), Nat.add_sub_cancel_left, List.set_cons_succ,
    List.set_cons_zero, Nat.add_assoc]
  rfl

/-- A jump that is patched over some code lands behind it. -/
lemma patchJump_behind {c : Chunk ν} {pre rest : List UInt8} {op : Opcode} (jump : op.fmt = .a)
    (code : c.code = pre ++ (Instr.mk op 0x7FFF 0).encode ++ rest) :
    (c.patchJump (pre.length + 1)).code = pre ++ (Instr.mk op (toU16 rest.length) 0).encode ++ rest := by
  have size : ((c.code.length : Int) - ((pre.length + 1 : Nat) + 2)) = rest.length := by
    have sized : op.size = 3 := by rw [Opcode.size, jump]
    rw [code, List.length_append, List.length_append, Instr.encode_length, sized]
    omega
  have encoded (a : Nat) : (Instr.mk op a 0).encode = op.toByte :: u16Bytes a := by
    rw [Instr.encode]
    simp only [jump]
  rw [encoded, List.append_assoc, u16Bytes] at code
  rw [Chunk.patchJump, size, writeU16_behind _ code, encoded, List.append_assoc]
  rfl

lemma bindParams_code (slots : List Nat) (c : Chunk ν) :
    (bindParams slots c).code = c.code ++ (Instr.mk .catchBegin slots.length 0).encode ++
      slots.flatMap fun slot => (Instr.mk .defLocal slot 0).encode := by
  have emits (slots : List Nat) (c : Chunk ν) :
      (slots.foldl (fun c slot => c.emit { op := .defLocal, a := slot }) c).code =
        c.code ++ slots.flatMap fun slot => (Instr.mk .defLocal slot 0).encode := by
    induction slots generalizing c with
    | nil => exact (List.append_nil _).symm
    | cons slot slots ih =>
      rw [List.foldl_cons, ih, List.flatMap_cons, Chunk.emit, List.append_assoc]
  rw [bindParams, emits]
  rfl

/-- What `parse_try` emits. -/
theorem parseTry_code (t : TryStmt) (c : Chunk ν) : (t.parseTry c).code = c.code ++ t.code := by
  obtain ⟨c₁, e₁⟩ : ∃ c₁, (parseBlock t.body (c.emitJump .tryBegin).2).emit { op := .tryEnd } = c₁ := ⟨_, rfl⟩
  have code₁ : c₁.code = c.code ++ (Instr.mk .tryBegin 0x7FFF 0).encode ++ t.body ++ (Instr.mk .tryEnd 0 0).encode := by
    rw [← e₁]
    rfl
  obtain ⟨c₂, e₂⟩ : ∃ c₂, (c₁.emitJump .jump).2.patchJump (c.code.length + 1) = c₂ := ⟨_, rfl⟩
  have code₂ : c₂.code = c.code ++ (Instr.mk .tryBegin (toU16 (t.body.length + 4)) 0).encode ++
      (t.body ++ (Instr.mk .tryEnd 0 0).encode ++ (Instr.mk .jump 0x7FFF 0).encode) := by
    have placed : (c₁.emitJump .jump).2.code = c.code ++ (Instr.mk .tryBegin 0x7FFF 0).encode ++
        (t.body ++ (Instr.mk .tryEnd 0 0).encode ++ (Instr.mk .jump 0x7FFF 0).encode) := by
      rw [Chunk.emitJump, Chunk.emit, code₁]
      simp only [List.append_assoc]
    rw [← e₂, patchJump_behind rfl placed]
    simp only [List.length_append, Instr.encode_length]
    rfl
  have skip : (c₁.emitJump .jump).1 = c₁.code.length + 1 := rfl
  have code₃ : (parseBlock t.handler (bindParams t.slots c₂)).code =
      (c.code ++ (Instr.mk .tryBegin (toU16 (t.body.length + 4)) 0).encode ++ t.body ++
        (Instr.mk .tryEnd 0 0).encode) ++ (Instr.mk .jump 0x7FFF 0).encode ++ t.catchCode := by
    rw [parseBlock, bindParams_code, code₂, catchCode]
    simp only [List.append_assoc]
  have there : c₁.code.length =
      (c.code ++ (Instr.mk .tryBegin (toU16 (t.body.length + 4)) 0).encode ++ t.body ++
        (Instr.mk .tryEnd 0 0).encode).length := by
    rw [code₁]
    simp only [List.length_append, Instr.encode_length]
  have patched := patchJump_behind rfl code₃
  rw [← there, ← skip] at patched
  have blocks : (t.parseTry c) = match t.finaly with
      | some block => parseBlock block
          ((parseBlock t.handler (bindParams t.slots c₂)).patchJump (c₁.emitJump .jump).1)
      | none => (parseBlock t.handler (bindParams t.slots c₂)).patchJump (c₁.emitJump .jump).1 := by
    rw [← e₂, ← e₁]
    rfl
  rw [blocks, code]
  cases t.finaly with
  | none =>
    show ((parseBlock t.handler (bindParams t.slots c₂)).patchJump (c₁.emitJump .jump).1).code = _
    rw [patched]
    simp only [List.append_assoc, Option.getD_none, List.append_nil]
  | some block =>
    show ((parseBlock t.handler (bindParams t.slots c₂)).patchJump (c₁.emitJump .jump).1).code ++ block = _
    rw [patched]
    simp only [List.append_assoc, Option.getD_some]

end TryStmt

end Cando
