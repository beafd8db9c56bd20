import Cando.Lib.Program
import Cando.Parser.Lexer
import Cando.Vm.Chunk

/-!
# The parser's state

`CandoParser` (`parser/parser.h`) and what the parse functions have in common: the helpers at the beginning of
`parser/parser.c`, with `chunk_ensure_code` (`vm/chunk.c`) below them. A parse function is a program over the parser.
The parse functions call each other; how deep they may do so, and how often a loop may turn, is counted, and a program
that has used up its count stops with `Stop.fuel`.
-/

namespace Cando

open Program

/-- `CANDO_LOCAL_MAX`. -/
def localMax : Nat := 256
/-- `MAX_MULTI_VARS`. -/
def maxMultiVars : Nat := 16
/-- `MAX_FOR_VARS`. -/
def maxForVars : Nat := 16
/-- `MAX_CATCH_PARAMS`. -/
def maxCatchParams : Nat := 8
/-- `MAX_PARAMS` and `MAX_METH_PARAMS`. -/
def maxParams : Nat := 64
/-- The length of `bits` in `parse_grouping`. -/
def maxMaskBits : Nat := 32
/-- The length of `pipe_exits`. -/
def maxPipeExits : Nat := 16

/-- A `CandoLocal`. -/
structure CandoLocal where
  name : Str
  depth : Int
  isConst : Bool
  deriving DecidableEq, Repr

/-- A `CandoParser`, with the `code_cap` of its chunk. The locals stand with the innermost first. The last two fields
are not in the source and nothing reads them: a limit has been exceeded, and that was where no error is reported. -/
structure CandoParser (ν : Type) where
  lexer : CandoLexer
  current : CandoToken
  previous : CandoToken
  hadError : Bool := false
  panicMode : Bool := false
  chunk : Chunk ν
  codeCap : Nat := 0
  errorMsg : Str := []
  locals : List CandoLocal := []
  scopeDepth : Int := 0
  lastExprWasCall : Bool := false
  lastExprWasUnpack : Bool := false
  callDepth : Nat := 0
  evalMode : Bool := false
  lastStmtWasExpr : Bool := false
  inPipeBody : Bool := false
  pipeExits : List Nat := List.replicate maxPipeExits 0
  pipeExitCount : Nat := 0
  lastMultiPush : Nat := 1
  exceeded : Bool := false
  silent : Bool := false
  deriving DecidableEq, Repr

/-- How a parse function stops short: at a failed assertion, that of `cando_chunk_add_const` or another one; at a write
past the end of an array; in the loop of `chunk_ensure_code`, which never ends when a capacity of zero is doubled; or
with the model's count used up. -/
inductive Stop where
  | assertion
  | poolFull
  | bounds
  | codeFull (need : Nat)
  | fuel
  deriving DecidableEq, Repr

/-- A parse function. -/
abbrev Parse (ν : Type) : Type → Type := Program (CandoParser ν) Empty Stop

/-- The parse functions that the others call again, and how often a loop may turn. -/
structure Knot (ν : Type) where
  turns : Nat
  parsePrecedence : Nat → Parse ν Unit
  parseStatement : Parse ν Unit
  parseIf : Parse ν Unit

namespace CandoParser

variable {ν α : Type}

/-! ### Loops and arrays -/

/-- A loop, whose body says whether there is another turn. -/
def loop (body : α → Parse ν (α × Bool)) : (turns : Nat) → α → Parse ν α
  | 0, _ => crash .fuel
  | turns + 1, a => do
    let (a, again) ← body a
    if again then loop body turns a else return a

/-- Writing the next cell of an array of `size` cells. -/
def store (size : Nat) (cells : List α) (a : α) : Parse ν (List α) :=
  if cells.length < size then pure (cells ++ [a]) else crash .bounds

/-! ### Errors -/

/-- What `%.*s` prints of a token. -/
def shown (p : CandoParser ν) (tok : CandoToken) : Str :=
  let text := p.lexer.source.drop tok.start
  (if tok.length < 2147483648 then text.take tok.length else text).takeWhile (· ≠ 0)

/-- `error_at`: nothing in panic mode. -/
def errorAt (p : CandoParser ν) (tok : CandoToken) (msg : Str) : CandoParser ν :=
  let line := tok.line
  if p.panicMode then p
  else { p with
    panicMode := true
    hadError := true
    errorMsg := (bytes s!"[line {line}] Error at '" ++ p.shown tok ++ bytes "': " ++ msg).take 511 }

/-- `error`. -/
def error (msg : String) : Parse ν Unit := modify fun p => p.errorAt p.previous (bytes msg)

/-- `error_current`. -/
def errorCurrent (msg : String) : Parse ν Unit := modify fun p => p.errorAt p.current (bytes msg)

/-- An error that reports an exceeded limit. -/
def tooMany (msg : String) : Parse ν Unit := do
  modify fun p => { p with exceeded := true }
  error msg

/-- A limit is exceeded without an error. -/
def exceed : Parse ν Unit := modify fun p => { p with exceeded := true, silent := true }

/-- The cast `(u16)n`. -/
def castU16 (n : Nat) : Parse ν Nat := do
  when (65536 ≤ n) exceed
  return n % 65536

/-! ### Tokens -/

lemma errorAt_lexer (p : CandoParser ν) (tok : CandoToken) (msg : Str) : (p.errorAt tok msg).lexer = p.lexer := by
  rw [errorAt]
  split <;> rfl

/-- The loop of `advance`: error tokens are reported and skipped. -/
def nextToken (p : CandoParser ν) : CandoParser ν :=
  let p' := { p with current := p.lexer.next.1, lexer := p.lexer.next.2 }
  if _error : p.lexer.next.1.type = .tokError then nextToken (p'.errorAt p'.current p'.lexer.errorMsg) else p'
termination_by p.lexer.left
decreasing_by
  rw [errorAt_lexer]
  exact (CandoLexer.left_next p.lexer).2 (by rw [_error]; decide)

/-- `advance`. -/
def advance : Parse ν Unit := modify fun p => nextToken { p with previous := p.current }

/-- `check`. -/
def check (type : CandoTokenType) : Parse ν Bool := do
  let p ← get
  return p.current.type == type

/-- `match`. -/
def matchToken (type : CandoTokenType) : Parse ν Bool := do
  if ← check type then
    advance
    return true
  else return false

/-- `consume`. -/
def consume (type : CandoTokenType) (msg : String) : Parse ν Unit := do
  if ← check type then advance else errorCurrent msg

/-- The text of the previous token. -/
def previousText : Parse ν Str := do
  let p ← get
  return (p.lexer.source.drop p.previous.start).take p.previous.length

/-- `while (match(p, TOK_COMMA))`, with a body that may leave the loop. -/
def commaLoop (body : α → Parse ν (α × Bool)) : (turns : Nat) → α → Parse ν α :=
  loop fun a => do
    if ← matchToken .tokComma then body a else return (a, false)

/-- `do … while (match(p, TOK_COMMA))`, with a body that may leave the loop. -/
def doCommaLoop (body : α → Parse ν (α × Bool)) : (turns : Nat) → α → Parse ν α :=
  loop fun a => do
    let (a, again) ← body a
    if again then return (a, ← matchToken .tokComma) else return (a, false)

/-! ### Code -/

/-- `CHUNK_GROW`. -/
def chunkGrow (cap : Nat) : Nat := if cap < 8 then 8 else cap * 2 % 4294967296

/-- The loop of `chunk_ensure_code`. After 32 doublings `new_cap` is zero, and stays so. -/
def growTo (need : Nat) : (doublings : Nat) → (newCap : Nat) → Option Nat
  | 0, newCap => if need ≤ newCap then some newCap else none
  | n + 1, newCap => if need ≤ newCap then some newCap else growTo need n (newCap * 2 % 4294967296)

/-- `chunk_ensure_code`. -/
def ensureCode (extra : Nat) : Parse ν Unit := fun p =>
  let need := (p.chunk.code.length + extra) % 4294967296
  if need ≤ p.codeCap then .ok () p
  else match growTo need 32 (chunkGrow p.codeCap) with
    | some cap => .ok () { p with codeCap := cap }
    | none => .crash (.codeFull need)

/-- `cando_chunk_emit_op`, `cando_chunk_emit_op_a` and `cando_chunk_emit_op_ab`, which assert the format. -/
def emit (fmt : OpFmt) (i : Instr) : Parse ν Unit :=
  if i.op.fmt = fmt then do
    ensureCode i.op.size
    modify fun p => { p with chunk := p.chunk.emit i }
  else crash .assertion

/-- `emit_op`. -/
def emitOp (op : Opcode) : Parse ν Unit := emit .none { op }

/-- `emit_op_a`. -/
def emitOpA (op : Opcode) (a : Nat) : Parse ν Unit := emit .a { op, a := a % 65536 }

/-- `emit_op_ab`. -/
def emitOpAb (op : Opcode) (a b : Nat) : Parse ν Unit := emit .ab { op, a := a % 65536, b := b % 65536 }

/-- `cur(p)->code_len`. -/
def codeLen : Parse ν Nat := do
  let p ← get
  return p.chunk.code.length

/-- `emit_jump`: the position of the operand. -/
def emitJump (op : Opcode) : Parse ν Nat := do
  let len ← codeLen
  emitOpA op 0x7FFF
  return len + 1

/-- `patch_jump`. -/
def patchJump (pos : Nat) : Parse ν Unit := do
  let len ← codeLen
  if pos + 2 ≤ len then modify fun p => { p with chunk := p.chunk.patchJump pos } else crash .assertion

/-- `emit_loop`. -/
def emitLoop (start : Nat) : Parse ν Unit := do
  let len ← codeLen
  if start < len + 3 then emitOpA .loop (toU16 ((len : Int) + 3 - start)) else crash .assertion

/-- `emit_loop_mark`: the position of `break_fwd`; `cont_back` has 14 bits. -/
def emitLoopMark (start loopType : Nat) : Parse ν Nat := do
  let len ← codeLen
  emitOpAb .loopMark 0 (toU16 ((len : Int) + 5 - start) % 16384 + loopType * 16384)
  return len + 1

/-- `patch_loop_mark_break`. -/
def patchLoopMarkBreak (pos : Nat) : Parse ν Unit := do
  let len ← codeLen
  if pos + 2 ≤ len then
    modify fun p => { p with chunk := p.chunk.writeU16 pos (toU16 ((p.chunk.code.length : Int) - (pos + 4))) }
  else crash .bounds

/-- `cando_chunk_add_const`. -/
def addConst [F64 ν] (v : Value ν) : Parse ν Nat := do
  let p ← get
  match p.chunk.addConst v with
  | some (i, chunk) =>
    modify fun p => { p with chunk }
    return i
  | none => crash .poolFull

/-- `str_const`. -/
def strConst [F64 ν] (s : Str) : Parse ν Nat := addConst (.string s)

/-- `prev_name_const`. -/
def prevNameConst [F64 ν] : Parse ν Nat := do strConst (← previousText)

/-! ### Scopes -/

/-- `scope_begin`. -/
def scopeBegin : Parse ν Unit := modify fun p => { p with scopeDepth := p.scopeDepth + 1 }

/-- `scope_end`. -/
def scopeEnd : Parse ν Unit := modify fun p =>
  let depth := p.scopeDepth - 1
  { p with scopeDepth := depth, locals := p.locals.dropWhile fun loc => depth < loc.depth }

/-- `resolve_local`: the slot of the innermost local of the name. -/
def resolveLocal (name : Str) : Parse ν (Option Nat) := do
  let p ← get
  return (p.locals.findIdx? (·.name == name)).map fun i => p.locals.length - 1 - i

/-- `declare_local`: the slot of the new local. -/
def declareLocal (name : Str) (isConst : Bool) : Parse ν Nat := do
  let p ← get
  if localMax ≤ p.locals.length then
    tooMany "too many local variables in scope"
    return 0
  else
    modify fun p => { p with
      locals := ⟨name, p.scopeDepth, isConst⟩ :: p.locals
      chunk := { p.chunk with localCount := max p.chunk.localCount (p.locals.length + 1) } }
    return p.locals.length

end CandoParser

end Cando
