import Mathlib.Tactic.Common

/-!
# Opcodes

The instruction set of `vm/opcodes.h`: the enumeration in its order (an opcode's byte is its position),
the operand formats of `cando_opcode_fmt` and the little-endian `u16` operands.
-/

namespace Cando

/-- `CandoOpcode`, in the order of the enumeration. -/
inductive Opcode where
  -- Literal constants
  | const | null | true | false
  -- Stack manipulation
  | pop | popN | dup
  -- Local variables
  | loadLocal | storeLocal | defLocal | defConstLocal
  -- Global variables
  | loadGlobal | storeGlobal | defGlobal | defConstGlobal
  -- Upvalues (closures)
  | loadUpval | storeUpval | closeUpval
  -- Arithmetic
  | add | sub | mul | div | mod | pow | neg | pos | incr | decr
  -- Comparison
  | eq | neq | lt | gt | leq | geq | eqStack | neqStack | ltStack | gtStack | leqStack
  | geqStack | rangeCheck
  -- Bitwise
  | bitAnd | bitOr | bitXor | bitNot | lshift | rshift
  -- Logical
  | not | andJump | orJump
  -- Objects and arrays
  | newObject | newArray | getField | setField | getIndex | setIndex | len | keysOf | valsOf
  -- Control flow
  | jump | jumpIfFalse | jumpIfTrue | loop | break | continue | loopMark | loopEnd
  -- Functions and calls
  | closure | call | methodCall | fluentCall | return | tailCall
  -- Variable arguments
  | loadVararg | varargLen | unpack
  -- Iteration
  | rangeAsc | rangeDesc | forInit | forNext | forOverInit | forOverNext | pipeInit | pipeNext
  | filterNext | pipeEnd | pipeCollect | filterCollect
  -- Error handling
  | tryBegin | tryEnd | catchBegin | finallyBegin | throw | reraise
  -- Async / threads
  | async | await | yield | thread
  -- Class sugar
  | newClass | bindMethod | inherit
  -- Mask / selector operators
  | maskPass | maskSkip | maskApply
  -- Multi-return spreading
  | spreadRet | arraySpread
  -- Call-result comparison
  | truncateRet | eqSpread | neqSpread | ltSpread | gtSpread | leqSpread | geqSpread
  -- Sentinels
  | nop | halt
  deriving DecidableEq, Repr

/-- `CandoOpFmt`: how many `u16` operands follow the opcode byte. -/
inductive OpFmt where
  | none | a | ab
  deriving DecidableEq, Repr

namespace Opcode

/-- Every opcode, in the order of the enumeration. -/
def all : List Opcode :=
  [.const, .null, .true, .false, .pop, .popN, .dup, .loadLocal, .storeLocal, .defLocal,
    .defConstLocal, .loadGlobal, .storeGlobal, .defGlobal, .defConstGlobal, .loadUpval,
    .storeUpval, .closeUpval, .add, .sub, .mul, .div, .mod, .pow, .neg, .pos, .incr, .decr, .eq,
    .neq, .lt, .gt, .leq, .geq, .eqStack, .neqStack, .ltStack, .gtStack, .leqStack, .geqStack,
    .rangeCheck, .bitAnd, .bitOr, .bitXor, .bitNot, .lshift, .rshift, .not, .andJump, .orJump,
    .newObject, .newArray, .getField, .setField, .getIndex, .setIndex, .len, .keysOf, .valsOf,
    .jump, .jumpIfFalse, .jumpIfTrue, .loop, .break, .continue, .loopMark, .loopEnd, .closure,
    .call, .methodCall, .fluentCall, .return, .tailCall, .loadVararg, .varargLen, .unpack,
    .rangeAsc, .rangeDesc, .forInit, .forNext, .forOverInit, .forOverNext, .pipeInit, .pipeNext,
    .filterNext, .pipeEnd, .pipeCollect, .filterCollect, .tryBegin, .tryEnd, .catchBegin,
    .finallyBegin, .throw, .reraise, .async, .await, .yield, .thread, .newClass, .bindMethod,
    .inherit, .maskPass, .maskSkip, .maskApply, .spreadRet, .arraySpread, .truncateRet, .eqSpread,
    .neqSpread, .ltSpread, .gtSpread, .leqSpread, .geqSpread, .nop, .halt]

/-- The opcode byte `(u8)op`. -/
def toByte (op : Opcode) : UInt8 := UInt8.ofNat op.ctorIdx

/-- The opcode of a byte; `none` from `OP_COUNT` on. -/
def ofByte (b : UInt8) : Option Opcode := all[b.toNat]?

/-- `cando_opcode_fmt`. -/
def fmt : Opcode → OpFmt
  | .const | .popN | .loadLocal | .storeLocal | .defLocal | .defConstLocal
  | .loadGlobal | .storeGlobal | .defGlobal | .defConstGlobal | .loadUpval
  | .storeUpval | .closeUpval | .eqStack | .neqStack | .ltStack | .gtStack
  | .leqStack | .geqStack | .rangeCheck | .andJump | .orJump | .newArray
  | .getField | .setField | .jump | .jumpIfFalse | .jumpIfTrue | .loop | .break
  | .continue | .closure | .call | .return | .tailCall | .loadVararg | .forInit
  | .forNext | .forOverNext | .pipeInit | .pipeNext | .filterNext | .tryBegin
  | .catchBegin | .finallyBegin | .throw | .newClass | .bindMethod => .a
  | .loopMark | .methodCall | .fluentCall | .forOverInit | .maskApply => .ab
  | _ => .none

/-- `cando_opcode_size`. -/
def size (op : Opcode) : Nat :=
  match op.fmt with
  | .none => 1
  | .a => 3
  | .ab => 5

@[simp] lemma ofByte_toByte (op : Opcode) : ofByte op.toByte = some op := by
  cases op <;> rfl

end Opcode

/-- `cando_write_u16`: the two bytes of a `u16` operand, low byte first. -/
def u16Bytes (a : Nat) : List UInt8 := [UInt8.ofNat a, UInt8.ofNat (a / 256)]

/-- `cando_read_u16`. -/
def readU16 (lo hi : UInt8) : Nat := lo.toNat + 256 * hi.toNat

/-- The cast `(i16)a` of a `u16` operand, by which jumps read their offset. -/
def toI16 (a : Nat) : Int := if a < 32768 then a else (a : Int) - 65536

/-- The cast `(u16)x` of an integer. -/
def toU16 (x : Int) : Nat := (x % 65536).toNat

@[simp] lemma u16Bytes_length (a : Nat) : (u16Bytes a).length = 2 := rfl

/-- What `cando_write_u16` writes, `cando_read_u16` reads back, up to the cast to `u16`. -/
@[simp] lemma readU16_u16Bytes (a : Nat) :
    readU16 (UInt8.ofNat a) (UInt8.ofNat (a / 256)) = a % 65536 := by
  simp only [readU16, UInt8.toNat_ofNat']
  omega

lemma toU16_lt (x : Int) : toU16 x < 65536 := by
  simp only [toU16]
  omega

/-- A forward distance of at most 15 bits survives the round trip through an operand. -/
lemma toI16_mod {n : Nat} (h : n < 32768) : toI16 (n % 65536) = n := by
  simp only [toI16]
  omega

end Cando
