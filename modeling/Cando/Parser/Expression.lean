import Cando.Parser.Mask
import Cando.Parser.State

/-!
# Expressions

The prefix and infix functions of `parser/parser.c`, the table `RULES` and `parse_precedence`. `parse_block` stands here
as well, since pipes, threads and function expressions have blocks.
-/

namespace Cando

open Program

/-! ### Precedences -/

/-- `PREC_ASSIGN`, and so on in the order of the enumeration. -/
def precAssign : Nat := 1
def precOr : Nat := 2
def precAnd : Nat := 3
def precBitor : Nat := 4
def precBitxor : Nat := 5
def precBitand : Nat := 6
def precEquality : Nat := 7
def precComparison : Nat := 8
def precRange : Nat := 9
def precShift : Nat := 10
def precTerm : Nat := 11
def precFactor : Nat := 12
def precPower : Nat := 13
def precPipe : Nat := 14
def precUnary : Nat := 15
def precCall : Nat := 16

/-- `get_rule(t)->precedence`; zero is `PREC_NONE`. -/
def CandoTokenType.precedence : CandoTokenType → Nat
  | .tokLparen | .tokLbracket | .tokDot | .tokFluent | .tokColon => precCall
  | .tokMinus | .tokPlus => precTerm
  | .tokStar | .tokSlash | .tokPercent => precFactor
  | .tokCaret => precPower
  | .tokAmp => precBitand
  | .tokBitor => precBitor
  | .tokBitxor => precBitxor
  | .tokLshift | .tokRshift => precShift
  | .tokEq | .tokNeq => precEquality
  | .tokLt | .tokGt | .tokLeq | .tokGeq => precComparison
  | .tokRangeAsc | .tokRangeDesc => precRange
  | .tokAnd => precAnd
  | .tokOr => precOr
  | .tokPipeOp | .tokFilterOp => precPipe
  | _ => 0

namespace CandoParser

variable {ν : Type} [F64 ν] (self : Knot ν)

/-- `parse_expression`. -/
def parseExpression : Parse ν Unit := self.parsePrecedence precAssign

/-- The flags that an element of a list begins with. -/
def freshFlags : Parse ν Unit := modify fun p => { p with
  lastMultiPush := 1, lastExprWasCall := false, lastExprWasUnpack := false }

def setCall (b : Bool) : Parse ν Unit := modify fun p => { p with lastExprWasCall := b }

def setUnpack (b : Bool) : Parse ν Unit := modify fun p => { p with lastExprWasUnpack := b }

def setMultiPush (n : Nat) : Parse ν Unit := modify fun p => { p with lastMultiPush := n }

def setCallDepth (n : Nat) : Parse ν Unit := modify fun p => { p with callDepth := n }

/-- `p->call_depth++`. -/
def deeper : Parse ν Unit := modify fun p => { p with callDepth := p.callDepth + 1 }

/-- `p->call_depth--`. -/
def shallower : Parse ν Unit := modify fun p => { p with callDepth := p.callDepth - 1 }

/-! ### Prefix functions -/

/-- `parse_number`: the numeral goes through a buffer of 64 bytes. -/
def parseNumber : Parse ν Unit := do
  let text ← previousText
  emitOpA .const (← addConst (.number (F64.strtod (text.take 63))))

/-- The previous token without its quotes. -/
def quotedText : Parse ν Str := do
  let p ← get
  return (p.lexer.source.drop (p.previous.start + 1)).take (p.previous.length - 2)

/-- `parse_string_literal`. -/
def parseStringLiteral : Parse ν Unit := do
  emitOpA .const (← strConst (← quotedText))

/-- `parse_literal`. -/
def parseLiteral : Parse ν Unit := do
  let p ← get
  match p.previous.type with
  | .tokNullKw => emitOp .null
  | .tokTrueKw => emitOp .true
  | .tokFalseKw => emitOp .false
  | _ => crash .assertion

/-- `OP_MASK_PASS` or `OP_MASK_SKIP`, and the new `pass_count`. -/
def emitMask (keep : Bool) (passCount : Nat) : Parse ν Nat := do
  emitOp (if keep then .maskPass else .maskSkip)
  return passCount + keep.toNat

/-- The comma list of a mask: an expression for each further bit. -/
def maskBits : List Bool → Nat → Parse ν Nat
  | [], passCount => return passCount
  | keep :: bits, passCount => do
    if ← matchToken .tokComma then
      self.parsePrecedence precAssign
      maskBits bits (← emitMask keep passCount)
    else
      error "expected ',' between mask values"
      return passCount

/-- The expressions behind a pure mask. -/
def maskExtras (keep : Bool) (passCount : Nat) : Parse ν Nat :=
  commaLoop (fun passCount => do
    self.parsePrecedence precAssign
    return (← emitMask keep passCount, true)) self.turns passCount

/-- The branch of `parse_mask_emit` for a comma list. -/
def maskList (first : Bool) (bits : List Bool) : Parse ν Nat := do
  let passCount ← emitMask first 0
  let passCount ← maskBits self bits passCount
  if bits.all (· == first) then maskExtras self (!first) passCount else return passCount

/-- `parse_mask_emit`, behind the first expression. -/
def maskValues (bits : List Bool) (outerDepth : Nat) : Parse ν Nat := do
  let p ← get
  let comma := p.current.type == .tokComma
  let first := bits.headD false
  if p.lastExprWasCall && (outerDepth > 0 || !comma) then
    when ((bits.drop 16).any id) exceed
    emitOpAb .maskApply bits.length (bitmaskFrom 0 bits)
    setUnpack false
    return bits.count true
  else if !comma then
    let passCount ← emitMask first 0
    setCall false
    setUnpack false
    return passCount
  else
    let passCount ← maskList self first bits.tail
    setCall false
    setUnpack false
    return passCount

/-- `parse_mask_emit`. -/
def parseMaskEmit (bits : List Bool) : Parse ν Unit := do
  let p ← get
  deeper
  setCall false
  self.parsePrecedence precAssign
  let passCount ← maskValues self bits p.callDepth
  shallower
  setMultiPush passCount

/-- The token is part of a mask. -/
def inMask (type : CandoTokenType) : Bool := type == .tokTilde || type == .tokDot || type == .tokVararg

/-- Three skips for `...`, up to the end of `bits`. -/
def addSkips : Nat → List Bool → Parse ν (List Bool)
  | 0, bits => return bits
  | k + 1, bits => do
    if bits.length < maxMaskBits then addSkips k (← store maxMaskBits bits false)
    else
      exceed
      return bits

/-- The loop of `parse_grouping` over the tokens of a mask. -/
def maskPattern : Parse ν (List Bool) :=
  loop (fun bits => do
    let p ← get
    if bits.length < maxMaskBits && inMask p.current.type then
      advance
      if p.current.type = .tokVararg then return (← addSkips 3 bits, true)
      else return (← store maxMaskBits bits (p.current.type == .tokTilde), true)
    else return (bits, false)) self.turns []

/-- The end of a mask. A token that found no room in `bits` is an error here. -/
def closeMask : Parse ν Unit := do
  let p ← get
  consume .tokRparen "expected ')' after mask pattern"
  when (inMask p.current.type) (modify fun p => { p with exceeded := true })

/-- `parse_grouping`. -/
def parseGrouping : Parse ν Unit := do
  let p ← get
  if inMask p.current.type then
    let bits ← maskPattern self
    closeMask
    parseMaskEmit self bits
  else
    setCallDepth 0
    parseExpression self
    setCallDepth p.callDepth
    consume .tokRparen "expected ')' after expression"

/-- The operators of `parse_unary`. -/
def emitUnary : CandoTokenType → Parse ν Unit
  | .tokMinus => emitOp .neg
  | .tokBang => emitOp .not
  | .tokHash => emitOp .len
  | _ => return ()

/-- `parse_unary`. -/
def parseUnary : Parse ν Unit := do
  let p ← get
  self.parsePrecedence precUnary
  emitUnary p.previous.type
  setCall false

/-- `emit_load`. -/
def emitLoad (name : Str) : Parse ν Unit := do
  match ← resolveLocal name with
  | some slot => emitOpA .loadLocal slot
  | none => emitOpA .loadGlobal (← strConst name)

/-- `emit_store`. -/
def emitStore (name : Str) : Parse ν Unit := do
  match ← resolveLocal name with
  | some slot => emitOpA .storeLocal slot
  | none => emitOpA .storeGlobal (← strConst name)

/-- The compound assignment operators. -/
def compoundOp : CandoTokenType → Option Opcode
  | .tokPlusAssign => some .add
  | .tokMinusAssign => some .sub
  | .tokStarAssign => some .mul
  | .tokSlashAssign => some .div
  | .tokPercentAssign => some .mod
  | .tokCaretAssign => some .pow
  | _ => none

/-- `++` and `--` behind a name. -/
def parsePostfix (name : Str) (op : Opcode) : Parse ν Unit := do
  emitLoad name
  emitOp .dup
  emitOpA .const (← addConst (.number (F64.ofInt 1)))
  emitOp op
  emitStore name
  emitOp .pop

/-- `parse_variable_expr`. -/
def parseVariableExpr (canAssign : Bool) : Parse ν Unit := do
  let name ← previousText
  let p ← get
  if canAssign then
    match compoundOp p.current.type with
    | some op =>
      advance
      emitLoad name
      parseExpression self
      emitOp op
      emitStore name
    | none =>
      if ← matchToken .tokAssign then
        parseExpression self
        emitStore name
      else if ← matchToken .tokIncr then parsePostfix name .add
      else if ← matchToken .tokDecr then parsePostfix name .sub
      else emitLoad name
  else emitLoad name

/-- The comma list between brackets: nothing when it is empty. -/
def listItems {α : Type} (close : CandoTokenType) (item : α → Parse ν (α × Bool)) (a : α) : Parse ν α := do
  if ← check close then return a
  else
    deeper
    let a ← doCommaLoop item self.turns a
    shallower
    return a

/-- `argc++` and the like, with the check that comes before. -/
def countOne (msg : String) (count : Nat) : Parse ν (Nat × Bool) := do
  if count = 65535 then
    tooMany msg
    return (count, false)
  else return (count + 1, true)

/-- Adding what an expression has pushed. -/
def countPushed (msg : String) (count : Nat) : Parse ν (Nat × Bool) := do
  let p ← get
  let add ← castU16 p.lastMultiPush
  if count + add > 65535 then
    tooMany msg
    return (count, false)
  else return (count + add, true)

/-- An element of an array literal. -/
def arrayElement (count : Nat) : Parse ν (Nat × Bool) := do
  if ← check .tokRbracket then return (count, false)
  else
    freshFlags
    parseExpression self
    let p ← get
    if p.lastExprWasUnpack then
      emitOp .unpack
      emitOp .arraySpread
      countOne "too many array elements" count
    else countPushed "too many array elements" count

/-- `parse_array_literal`. -/
def parseArrayLiteral : Parse ν Unit := do
  let count ← listItems self .tokRbracket (arrayElement self) 0
  consume .tokRbracket "expected ']' after array elements"
  emitOpA .newArray count

/-- The key of a property: an identifier or a string. -/
def objectKey : Parse ν (Option Nat) := do
  let p ← get
  match p.current.type with
  | .tokIdent =>
    advance
    return some (← prevNameConst)
  | .tokStringDq | .tokStringSq =>
    advance
    return some (← strConst (← quotedText))
  | _ =>
    errorCurrent "expected property key"
    return none

/-- A property of an object literal. -/
def objectField (_ : Unit) : Parse ν (Unit × Bool) := do
  if ← check .tokRbrace then return ((), false)
  else
    match ← objectKey with
    | none => return ((), false)
    | some key =>
      consume .tokColon "expected ':' after object key"
      parseExpression self
      emitOpA .setField key
      return ((), true)

/-- `parse_object_literal`. -/
def parseObjectLiteral : Parse ν Unit := do
  emitOp .newObject
  listItems self .tokRbrace (objectField self) ()
  consume .tokRbrace "expected '\x7d' after object literal"

/-- `parse_unpack`. -/
def parseUnpack : Parse ν Unit := do
  self.parsePrecedence precUnary
  setUnpack true

/-! ### Infix functions -/

/-- A further value of a comparison with a list. -/
def comparedValue (next n : Nat) : Parse ν (Nat × Bool) := do
  freshFlags
  self.parsePrecedence next
  let p ← get
  when (p.lastExprWasCall ∧ !p.lastExprWasUnpack) (emitOp .truncateRet)
  return (← castU16 (n + p.lastMultiPush), true)

/-- A comparison with a list that is written out. -/
def compareList (next : Nat) (stackOp : Opcode) (wasCall : Bool) (multiPush : Nat) : Parse ν Unit := do
  let n ← castU16 (max multiPush 1)
  when (n = 1 ∧ wasCall) (emitOp .truncateRet)
  let n ← commaLoop (comparedValue self next) self.turns n
  emitOpA stackOp n

/-- `MULTI_CMP`. -/
def multiCmp (next : Nat) (plainOp stackOp spreadOp : Opcode) : Parse ν Unit := do
  let p ← get
  setUnpack false
  let list := p.callDepth == 0 && p.current.type == .tokComma
  if p.lastExprWasUnpack then emitOp spreadOp
  else if p.lastMultiPush > 1 ∧ !list then emitOpA stackOp (← castU16 p.lastMultiPush)
  else if list then compareList self next stackOp p.lastExprWasCall p.lastMultiPush
  else
    when p.lastExprWasCall (emitOp .truncateRet)
    emitOp plainOp

/-- The end of a range check `min > val < max`. -/
def rangeCheck (leftInc rightInc : Bool) : Parse ν Unit := do
  advance
  freshFlags
  self.parsePrecedence (precComparison + 1)
  let p ← get
  when (p.lastExprWasCall ∧ !p.lastExprWasUnpack) (emitOp .truncateRet)
  emitOpA .rangeCheck (leftInc.toNat + 2 * rightInc.toNat)

/-- The cases of `>` and `>=` in `parse_binary`. -/
def greaterCmp (next : Nat) (leftInc : Bool) (plainOp stackOp spreadOp : Opcode) : Parse ν Unit := do
  let p ← get
  setUnpack false
  let right := p.current.type
  let list := p.callDepth == 0 && right == .tokComma
  if right = .tokLt ∨ right = .tokLeq then
    when (p.lastExprWasCall ∧ !p.lastExprWasUnpack) (emitOp .truncateRet)
    rangeCheck self leftInc (right == .tokLeq)
  else if p.lastExprWasUnpack then emitOp spreadOp
  else if p.lastMultiPush > 1 ∧ !list then emitOpA stackOp (← castU16 p.lastMultiPush)
  else if list then compareList self next stackOp p.lastExprWasCall p.lastMultiPush
  else
    when p.lastExprWasCall (emitOp .truncateRet)
    emitOp plainOp
    when (right = .tokLt ∨ right = .tokGt ∨ right = .tokLeq ∨ right = .tokGeq)
      (errorCurrent "cannot chain comparison operators; use && to combine")

/-- The switch of `parse_binary`. -/
def emitBinary (next : Nat) : CandoTokenType → Parse ν Unit
  | .tokPlus => emitOp .add
  | .tokMinus => emitOp .sub
  | .tokStar => emitOp .mul
  | .tokSlash => emitOp .div
  | .tokPercent => emitOp .mod
  | .tokCaret => emitOp .pow
  | .tokAmp => emitOp .bitAnd
  | .tokBitor => emitOp .bitOr
  | .tokBitxor => emitOp .bitXor
  | .tokLshift => emitOp .lshift
  | .tokRshift => emitOp .rshift
  | .tokEq => multiCmp self next .eq .eqStack .eqSpread
  | .tokNeq => multiCmp self next .neq .neqStack .neqSpread
  | .tokLt => multiCmp self next .lt .ltStack .ltSpread
  | .tokLeq => multiCmp self next .leq .leqStack .leqSpread
  | .tokGt => greaterCmp self next false .gt .gtStack .gtSpread
  | .tokGeq => greaterCmp self next true .geq .geqStack .geqSpread
  | .tokRangeAsc => emitOp .rangeAsc
  | .tokRangeDesc => emitOp .rangeDesc
  | _ => return ()

/-- `parse_binary`; only `^` is right-associative. -/
def parseBinary : Parse ν Unit := do
  let p ← get
  let op := p.previous.type
  let next := if op = .tokCaret then op.precedence else op.precedence + 1
  setMultiPush 1
  setUnpack false
  self.parsePrecedence next
  emitBinary self next op
  setCall false
  setUnpack false

/-- `parse_and` and `parse_or`. -/
def parseLogical (jumpOp : Opcode) (prec : Nat) : Parse ν Unit := do
  let done ← emitJump jumpOp
  emitOp .pop
  self.parsePrecedence prec
  patchJump done

/-- `parse_and`. -/
def parseAnd : Parse ν Unit := parseLogical self .andJump precAnd

/-- `parse_or`. -/
def parseOr : Parse ν Unit := parseLogical self .orJump precOr

/-- The token is a keyword: one between `TOK_IF` and `TOK_PIPE_KW`. -/
def isKeyword (type : CandoTokenType) : Bool :=
  CandoTokenType.tokIf.ctorIdx ≤ type.ctorIdx && type.ctorIdx ≤ CandoTokenType.tokPipeKw.ctorIdx

/-- `parse_dot`. -/
def parseDot (canAssign : Bool) : Parse ν Unit := do
  let p ← get
  if p.current.type ≠ .tokIdent ∧ !isKeyword p.current.type then errorCurrent "expected property name after '.'"
  else
    advance
    let name ← prevNameConst
    if canAssign then
      if ← matchToken .tokAssign then
        parseExpression self
        emitOpA .setField name
      else emitOpA .getField name
    else emitOpA .getField name

/-- `parse_subscript`. -/
def parseSubscript (canAssign : Bool) : Parse ν Unit := do
  parseExpression self
  consume .tokRbracket "expected ']' after index"
  if canAssign then
    if ← matchToken .tokAssign then
      parseExpression self
      emitOp .setIndex
    else emitOp .getIndex
  else emitOp .getIndex

/-- An argument of a call. -/
def callArgument (argc : Nat) : Parse ν (Nat × Bool) := do
  if ← check .tokRparen then return (argc, false)
  else
    freshFlags
    parseExpression self
    let p ← get
    if p.lastExprWasCall then
      emitOp .spreadRet
      countOne "too many arguments" argc
    else countPushed "too many arguments" argc

/-- `parse_call`. -/
def parseCall : Parse ν Unit := do
  let argc ← listItems self .tokRparen (callArgument self) 0
  consume .tokRparen "expected ')' after arguments"
  emitOpA .call argc
  setCall true

/-- An argument of a method: it counts as one, whatever it has pushed. -/
def methodArgument (argc : Nat) : Parse ν (Nat × Bool) := do
  if ← check .tokRparen then return (argc, false)
  else
    setCall false
    setUnpack false
    parseExpression self
    let p ← get
    when p.lastExprWasCall (emitOp .spreadRet)
    countOne "too many arguments" argc

/-- `parse_fluent` and `parse_method_call`. -/
def parseMethod (nameMsg parenMsg endMsg : String) (op : Opcode) : Parse ν Unit := do
  consume .tokIdent nameMsg
  let name ← prevNameConst
  consume .tokLparen parenMsg
  let argc ← listItems self .tokRparen (methodArgument self) 0
  consume .tokRparen endMsg
  emitOpAb op name argc
  setCall true

/-- `parse_fluent`. -/
def parseFluent : Parse ν Unit :=
  parseMethod self "expected method name after '::'" "expected '(' after fluent method name"
    "expected ')' after fluent arguments" .fluentCall

/-- `parse_method_call`. -/
def parseMethodCall : Parse ν Unit :=
  parseMethod self "expected method name after ':'" "expected '(' after method name"
    "expected ')' after method arguments" .methodCall

/-! ### Blocks -/

/-- The statements of a block. -/
def blockStatements : Parse ν Unit :=
  loop (fun _ => do
    let p ← get
    if p.current.type = .tokRbrace ∨ p.current.type = .tokEof then return ((), false)
    else
      self.parseStatement
      return ((), true)) self.turns ()

/-- `parse_block`. -/
def parseBlock : Parse ν Unit := do
  blockStatements self
  consume .tokRbrace "expected '\x7d' to close block"

/-- A block in a scope of its own. -/
def scopedBlock : Parse ν Unit := do
  scopeBegin
  parseBlock self
  scopeEnd

/-- The jumps of the `RETURN`s of a pipe body end behind it. -/
def patchExits : List Nat → Parse ν Unit
  | [] => return ()
  | pos :: exits => do
    patchJump pos
    patchExits exits

/-- The body of a pipe: a block, in which `RETURN` yields a value, or an expression. -/
def pipeBody : Parse ν Unit := do
  if ← matchToken .tokLbrace then
    let saved ← get
    modify fun p => { p with inPipeBody := true, pipeExitCount := 0 }
    parseBlock self
    emitOp .null
    let p ← get
    patchExits (p.pipeExits.take p.pipeExitCount)
    modify fun p => { p with inPipeBody := saved.inPipeBody, pipeExitCount := saved.pipeExitCount }
  else parseExpression self

/-- `parse_pipe_op` and `parse_filter_op`. -/
def parsePipe (nextOp collectOp : Opcode) : Parse ν Unit := do
  emitOpA .pipeInit 1
  scopeBegin
  emitOp .null
  let slot ← declareLocal (bytes "pipe") false
  emitOpA .defLocal slot
  let start ← codeLen
  let done ← emitJump nextOp
  emitOpA .defLocal slot
  pipeBody self
  emitOp collectOp
  emitLoop start
  patchJump done
  scopeEnd
  emitOp .pipeEnd

/-- `parse_pipe_op`. -/
def parsePipeOp : Parse ν Unit := parsePipe self .pipeNext .pipeCollect

/-- `parse_filter_op`. -/
def parseFilterOp : Parse ν Unit := parsePipe self .filterNext .filterCollect

/-- The body of a thread, up to its `OP_RETURN`: a block returns `NULL`. -/
def threadBody : Parse ν Unit := do
  scopeBegin
  let _ ← declareLocal [] false
  if ← matchToken .tokLbrace then
    parseBlock self
    scopeEnd
    emitOp .null
  else
    parseExpression self
    scopeEnd

/-- A constant that holds a position in the code. -/
def positionConst (pos : Nat) : Parse ν Nat := addConst (.number (F64.ofInt pos))

/-- `parse_thread_expr`. -/
def parseThreadExpr : Parse ν Unit := do
  let p ← get
  if p.current.type = .tokDot ∨ p.current.type = .tokLbracket ∨ p.current.type = .tokLparen then
    emitOpA .loadGlobal (← strConst (bytes "thread"))
  else
    let skip ← emitJump .jump
    let start ← codeLen
    threadBody self
    emitOpA .return 1
    patchJump skip
    emitOpA .closure (← positionConst start)
    emitOp .thread
    setCall true

/-- `parse_await_expr`. -/
def parseAwaitExpr : Parse ν Unit := do
  self.parsePrecedence precUnary
  emitOp .await
  setCall true

/-! ### Functions -/

/-- A parameter of a function. -/
def parameter (names : List Str) : Parse ν (List Str × Bool) := do
  if ← check .tokRparen then return (names, false)
  else if ← matchToken .tokVararg then return (names, false)
  else
    consume .tokIdent "expected parameter name"
    if maxParams ≤ names.length then
      tooMany "too many parameters"
      return (names, false)
    else return (← store maxParams names (← previousText), true)

/-- The parameters of a function. -/
def parseParams (param : List Str → Parse ν (List Str × Bool)) : Parse ν (List Str) := do
  if ← check .tokRparen then return [] else doCommaLoop param self.turns []

/-- Declaring the parameters, the first in slot 1. -/
def declareParams : List Str → Parse ν Unit
  | [] => return ()
  | name :: names => do
    let _ ← declareLocal name false
    declareParams names

/-- The scope of a function body. The locals around it and their depth are handed back. -/
def enterFunction (names : List Str) : Parse ν (List CandoLocal × Int) := do
  let p ← get
  modify fun p => { p with locals := [], scopeDepth := 1 }
  let _ ← declareLocal [] false
  declareParams names
  return (p.locals, p.scopeDepth)

/-- The scope around a function body. -/
def leaveFunction (saved : List CandoLocal × Int) : Parse ν Unit :=
  modify fun p => { p with locals := saved.1, scopeDepth := saved.2 }

/-- What `parse_function_expr` and `parse_function` share: the body and its closure. -/
def functionBody (names : List Str) : Parse ν Unit := do
  consume .tokRparen "expected ')' after parameters"
  consume .tokLbrace "expected '\x7b' before function body"
  let skip ← emitJump .jump
  let start ← codeLen
  let saved ← enterFunction names
  parseBlock self
  emitOp .null
  emitOpA .return 1
  leaveFunction saved
  patchJump skip
  emitOpA .closure (← positionConst start)

/-- `parse_function_expr`. -/
def parseFunctionExpr : Parse ν Unit := do
  consume .tokLparen "expected '(' after 'function'"
  let names ← parseParams self parameter
  functionBody self names
  freshFlags

/-! ### The rules -/

/-- `get_rule(t)->prefix`. -/
def prefixRule (canAssign : Bool) : CandoTokenType → Option (Parse ν Unit)
  | .tokNumber => some parseNumber
  | .tokStringDq | .tokStringSq | .tokStringBt => some parseStringLiteral
  | .tokIdent | .tokPipeKw => some (parseVariableExpr self canAssign)
  | .tokNullKw | .tokTrueKw | .tokFalseKw => some parseLiteral
  | .tokLparen => some (parseGrouping self)
  | .tokLbracket => some (parseArrayLiteral self)
  | .tokLbrace => some (parseObjectLiteral self)
  | .tokFunction => some (parseFunctionExpr self)
  | .tokThread => some (parseThreadExpr self)
  | .tokAwait => some (parseAwaitExpr self)
  | .tokMinus | .tokBang | .tokHash => some (parseUnary self)
  | .tokVararg => some (parseUnpack self)
  | _ => none

/-- `get_rule(t)->infix`. -/
def infixRule (canAssign : Bool) : CandoTokenType → Option (Parse ν Unit)
  | .tokLparen => some (parseCall self)
  | .tokLbracket => some (parseSubscript self canAssign)
  | .tokMinus | .tokPlus | .tokStar | .tokSlash | .tokPercent | .tokCaret | .tokAmp | .tokBitor | .tokBitxor
  | .tokLshift | .tokRshift | .tokEq | .tokNeq | .tokLt | .tokGt | .tokLeq | .tokGeq | .tokRangeAsc
  | .tokRangeDesc => some (parseBinary self)
  | .tokAnd => some (parseAnd self)
  | .tokOr => some (parseOr self)
  | .tokDot => some (parseDot self canAssign)
  | .tokFluent => some (parseFluent self)
  | .tokColon => some (parseMethodCall self)
  | .tokPipeOp => some (parsePipeOp self)
  | .tokFilterOp => some (parseFilterOp self)
  | _ => none

/-- A turn of the loop in `parse_precedence`: an infix operator that binds tightly enough. -/
def infixTurn (minPrec : Nat) (canAssign : Bool) (_ : Unit) : Parse ν (Unit × Bool) := do
  let p ← get
  if p.current.type = .tokEof ∨ p.current.type.precedence < minPrec then return ((), false)
  else
    advance
    match infixRule self canAssign p.current.type with
    | some operation =>
      operation
      return ((), true)
    | none => return ((), false)

/-- The infix operators behind an operand. -/
def infixOperators (minPrec : Nat) (canAssign : Bool) : Parse ν Unit := do
  loop (infixTurn self minPrec canAssign) self.turns ()
  if canAssign then
    if ← matchToken .tokAssign then error "invalid assignment target"

/-- `parse_precedence`. -/
def parsePrecedence (minPrec : Nat) : Parse ν Unit := do
  setCall false
  let p ← get
  advance
  let canAssign := minPrec ≤ precAssign
  match prefixRule self canAssign p.current.type with
  | some operand =>
    operand
    infixOperators self minPrec canAssign
  | none => error "expected expression"

end CandoParser

end Cando
