import Cando.Parser.Expression

/-!
# Statements

The statements of `parser/parser.c`, error recovery, and `cando_parse`.
-/

namespace Cando

open Program

namespace CandoParser

variable {ν : Type} [F64 ν] (self : Knot ν)

/-! ### Error recovery -/

/-- The tokens at which `synchronise` stops. -/
def startsStatement : CandoTokenType → Bool
  | .tokIf | .tokWhile | .tokFor | .tokFunction | .tokClass | .tokVar | .tokConst | .tokReturn | .tokThrow | .tokTry
  | .tokThread => true
  | _ => false

/-- `synchronise`. -/
def synchronise : Parse ν Unit := do
  modify fun p => { p with panicMode := false }
  loop (fun _ => do
    let p ← get
    if p.current.type = .tokEof ∨ p.previous.type = .tokSemi ∨ startsStatement p.current.type then return ((), false)
    else
      advance
      return ((), true)) self.turns ()

/-! ### Declarations -/

/-- A name of a declaration. -/
def declaredName (names : List Str) : Parse ν (List Str × Bool) := do
  consume .tokIdent "expected variable name"
  if maxMultiVars ≤ names.length then
    tooMany "too many variables in declaration"
    return (names, false)
  else return (← store maxMultiVars names (← previousText), true)

/-- An initialiser, and the number of values so far. -/
def initialiser (count : Nat) : Parse ν (Nat × Bool) := do
  setCall false
  setMultiPush 1
  parseExpression self
  let p ← get
  when p.lastExprWasCall (emitOp .spreadRet)
  return (count + p.lastMultiPush, true)

/-- `OP_NULL` for each variable without a value. -/
def emitNulls : Nat → Parse ν Unit
  | 0 => return ()
  | n + 1 => do
    emitOp .null
    emitNulls n

/-- The values of the variables of a declaration. -/
def initialisers (varCount : Nat) : Parse ν Unit := do
  if ← matchToken .tokAssign then
    deeper
    let count ← doCommaLoop (initialiser self) self.turns 0
    shallower
    let p ← get
    when (!p.lastExprWasCall) (emitNulls (varCount - count))
  else emitNulls varCount

/-- Defining the variables, the last one first. -/
def defineAll (isConst : Bool) : List Str → Parse ν Unit
  | [] => return ()
  | name :: names => do
    let p ← get
    if 0 < p.scopeDepth then
      emitOpA (if isConst then .defConstLocal else .defLocal) (← declareLocal name isConst)
      defineAll isConst names
    else
      emitOpA (if isConst then .defConstGlobal else .defGlobal) (← strConst name)
      defineAll isConst names

/-- `parse_var_decl`. -/
def parseVarDecl (isConst : Bool) : Parse ν Unit := do
  let names ← doCommaLoop declaredName self.turns []
  initialisers self names.length
  consume .tokSemi "expected ';' after variable declaration"
  defineAll isConst names.reverse

/-! ### Conditionals and loops -/

/-- The `ELSE` of `parse_if`. -/
def parseElse : Parse ν Unit := do
  if ← matchToken .tokElse then
    if ← matchToken .tokIf then self.parseIf
    else
      consume .tokLbrace "expected '\x7b' after ELSE"
      scopedBlock self
  else return ()

/-- `parse_if`. -/
def parseIf : Parse ν Unit := do
  parseExpression self
  consume .tokLbrace "expected '\x7b' after IF condition"
  let toElse ← emitJump .jumpIfFalse
  emitOp .pop
  scopedBlock self
  let toEnd ← emitJump .jump
  patchJump toElse
  emitOp .pop
  parseElse self
  patchJump toEnd

/-- `parse_while`. -/
def parseWhile : Parse ν Unit := do
  let start ← codeLen
  parseExpression self
  consume .tokLbrace "expected '\x7b' after WHILE condition"
  let toEnd ← emitJump .jumpIfFalse
  emitOp .pop
  let mark ← emitLoopMark start loopWhile
  scopedBlock self
  emitOp .loopEnd
  emitLoop start
  patchJump toEnd
  emitOp .pop
  patchLoopMarkBreak mark

/-- A loop variable: the first sixteen are kept. -/
def loopVariable (names : List Str) : Parse ν (List Str × Bool) := do
  consume .tokIdent "expected loop variable name"
  if names.length < maxForVars then return (← store maxForVars names (← previousText), true)
  else
    tooMany "too many loop variables"
    return (names, true)

/-- An expression of a `FOR … OVER` list: their number is what counts up to three. -/
def overExpression (count : Nat) : Parse ν (Nat × Bool) := do
  setCall false
  setMultiPush 1
  parseExpression self
  let p ← get
  when p.lastExprWasCall (emitOp .spreadRet)
  return (count + p.lastMultiPush, count + p.lastMultiPush < 3)

/-- The list of a `FOR … OVER` loop: how many values, and whether the last expression is a call. -/
def overList : Parse ν (Nat × Bool) := do
  deeper
  let count ← doCommaLoop (overExpression self) self.turns 0
  shallower
  let p ← get
  return (count, p.lastExprWasCall)

/-- Locals that are popped off the stack one by one. -/
def defineLocals : List Str → Parse ν Unit
  | [] => return ()
  | name :: names => do
    emitOpA .defLocal (← declareLocal name false)
    defineLocals names

/-- A loop from `OP_FOR_NEXT` or `OP_FOR_OVER_NEXT` on. -/
def loopBody (nextOp : Opcode) (mark : Nat) (names : List Str) : Parse ν Unit := do
  let start ← codeLen
  let toEnd ← emitJump nextOp
  scopeBegin
  defineLocals names
  let markPos ← emitLoopMark start mark
  parseBlock self
  scopeEnd
  emitOp .loopEnd
  emitLoop start
  patchJump toEnd
  patchLoopMarkBreak markPos

/-- The mode of `OP_FOR_INIT`: the values when the code ends in a range opcode. -/
def forMode (keysMode : Bool) : Parse ν Nat := do
  let p ← get
  let last := p.chunk.code.getLast?
  if last = some Opcode.rangeAsc.toByte ∨ last = some Opcode.rangeDesc.toByte then return 0
  else return keysMode.toNat

/-- `IN` and `OF` loops. -/
def forEach (keysMode : Bool) (names : List Str) : Parse ν Unit := do
  when (1 < names.length) (error "only 'over' loops support multiple loop variables")
  parseExpression self
  consume .tokLbrace "expected '\x7b' after FOR iterable"
  emitOpA .forInit (← forMode keysMode)
  loopBody self .forNext loopFor [names.headD []]

/-- `OVER` loops. -/
def forOver (names : List Str) : Parse ν Unit := do
  let (count, wasCall) ← overList self
  consume .tokLbrace "expected '\x7b' after FOR iterable"
  when (32768 ≤ count) exceed
  emitOpAb .forOverInit names.length (count % 32768 + 32768 * wasCall.toNat)
  loopBody self .forOverNext loopForOver names.reverse

/-- `parse_for`. -/
def parseFor : Parse ν Unit := do
  let names ← doCommaLoop loopVariable self.turns []
  if ← matchToken .tokIn then forEach self true names
  else if ← matchToken .tokOf then forEach self false names
  else if ← matchToken .tokOver then forOver self names
  else errorCurrent "expected IN, OF, or OVER after loop variable(s)"

/-! ### TRY -/

/-- A parameter of a CATCH. -/
def catchParam (names : List Str) : Parse ν (List Str) := do
  consume .tokIdent "expected catch variable name"
  store maxCatchParams names (← previousText)

/-- A further parameter of a CATCH. -/
def nextCatchParam (names : List Str) : Parse ν (List Str × Bool) := do
  if maxCatchParams ≤ names.length then
    tooMany "too many catch parameters"
    return (names, false)
  else return (← catchParam names, true)

/-- `CATCH`, its parameters and its block. -/
def catchClause : Parse ν Unit := do
  consume .tokCatch "expected CATCH after TRY block"
  consume .tokLparen "expected '(' after CATCH"
  let names ← catchParam []
  let names ← commaLoop nextCatchParam self.turns names
  consume .tokRparen "expected ')' after catch parameter(s)"
  consume .tokLbrace "expected '\x7b' after CATCH(...)"
  scopeBegin
  emitOpA .catchBegin names.length
  defineLocals names
  parseBlock self
  scopeEnd

/-- `parse_try`. -/
def parseTry : Parse ν Unit := do
  consume .tokLbrace "expected '\x7b' after TRY"
  let handler ← emitJump .tryBegin
  scopedBlock self
  emitOp .tryEnd
  let skip ← emitJump .jump
  patchJump handler
  catchClause self
  patchJump skip
  if ← matchToken .tokFinaly then
    consume .tokLbrace "expected '\x7b' after FINALY"
    scopedBlock self

/-! ### Functions and classes -/

/-- `parse_function`. -/
def parseFunction : Parse ν Unit := do
  consume .tokIdent "expected function name"
  let name ← previousText
  consume .tokLparen "expected '(' after function name"
  let names ← parseParams self parameter
  functionBody self names
  emitOpA .defGlobal (← strConst name)

/-- A turn of the loop over what stands in parentheses behind the name of a class. -/
def parenTurn (depth : Nat) : Parse ν (Nat × Bool) := do
  let p ← get
  if p.current.type = .tokEof ∨ depth = 0 then return (depth, false)
  else if ← matchToken .tokLparen then return (depth + 1, true)
  else if ← matchToken .tokRparen then return (depth - 1, true)
  else
    advance
    return (depth, true)

/-- A parameter of a method: those that find no room are dropped. -/
def methodParameter (names : List Str) : Parse ν (List Str × Bool) := do
  if ← check .tokRparen then return (names, false)
  else if ← matchToken .tokVararg then return (names, false)
  else
    consume .tokIdent "expected parameter name"
    if names.length < maxParams then return (← store maxParams names (← previousText), true)
    else
      exceed
      return (names, true)

/-- A method. -/
def parseClassMethod : Parse ν Unit := do
  consume .tokIdent "expected method name"
  let name ← prevNameConst
  consume .tokLparen "expected '(' after method name"
  let names ← parseParams self methodParameter
  consume .tokRparen "expected ')' after method parameters"
  consume .tokLbrace "expected '\x7b' before method body"
  let skip ← emitJump .jump
  let start ← codeLen
  let saved ← enterFunction names
  parseBlock self
  leaveFunction saved
  emitOp .null
  emitOpA .return 1
  patchJump skip
  emitOpA .const (← positionConst start)
  emitOpA .bindMethod name

/-- A turn of the loop over the body of a class. -/
def memberTurn (_ : Unit) : Parse ν (Unit × Bool) := do
  let p ← get
  if p.current.type = .tokRbrace ∨ p.current.type = .tokEof then return ((), false)
  else
    let _ ← matchToken .tokStatic
    let _ ← matchToken .tokPrivate
    if ← matchToken .tokFunction then
      parseClassMethod self
      return ((), true)
    else
      advance
      return ((), true)

/-- The superclass or the parameters of a class, which are skipped. -/
def classParens : Parse ν Unit := do
  if ← matchToken .tokLparen then
    let _ ← loop parenTurn self.turns 1

/-- `parse_class`. -/
def parseClass : Parse ν Unit := do
  consume .tokIdent "expected class name"
  let name ← prevNameConst
  classParens self
  consume .tokLbrace "expected '\x7b' before class body"
  emitOpA .newClass name
  loop (memberTurn self) self.turns ()
  consume .tokRbrace "expected '\x7d' after class body"
  emitOpA .defGlobal name

/-! ### Leaving -/

/-- The statement has no value. -/
def endsHere : Parse ν Bool := do
  let p ← get
  return p.current.type == .tokSemi || p.current.type == .tokRbrace || p.current.type == .tokEof

/-- `match(p, TOK_SEMI)`, whose result nobody reads. -/
def skipSemi : Parse ν Unit := do
  let _ ← matchToken .tokSemi

/-- The jump of a `RETURN` out of a pipe body. -/
def pipeExit : Parse ν Unit := do
  let p ← get
  if p.pipeExitCount < maxPipeExits then
    let pos ← emitJump .jump
    modify fun p' => { p' with pipeExits := p'.pipeExits.set p.pipeExitCount pos, pipeExitCount := p.pipeExitCount + 1 }
  else tooMany "too many return statements in pipe body (max 16)"

/-- `RETURN` in a pipe body. -/
def pipeReturn : Parse ν Unit := do
  if ← endsHere then
    emitOp .null
    skipSemi
    pipeExit
  else
    parseExpression self
    skipSemi
    pipeExit

/-- An expression of a `RETURN` or a `THROW`; the count has 16 bits. -/
def countedExpression (count : Nat) : Parse ν (Nat × Bool) := do
  parseExpression self
  return (← castU16 (count + 1), true)

/-- `parse_return`. -/
def parseReturn : Parse ν Unit := do
  let p ← get
  if p.inPipeBody then pipeReturn self
  else if ← endsHere then
    emitOp .null
    skipSemi
    emitOpA .return 1
  else
    deeper
    let count ← doCommaLoop (countedExpression self) self.turns 0
    shallower
    skipSemi
    emitOpA .return count

/-- `parse_throw`. -/
def parseThrow : Parse ν Unit := do
  deeper
  parseExpression self
  let count ← commaLoop (countedExpression self) self.turns 1
  shallower
  consume .tokSemi "expected ';' after THROW"
  emitOpA .throw count

/-- `parse_break`. -/
def parseBreak : Parse ν Unit := do
  skipSemi
  emitOpA .break 0

/-- `parse_continue`. -/
def parseContinue : Parse ν Unit := do
  skipSemi
  emitOpA .continue 0

/-! ### Statements -/

/-- The `;` behind an expression, which eval mode does not ask for at the end. -/
def expressionEnd : Parse ν Unit := do
  let p ← get
  if p.evalMode ∧ p.current.type = .tokEof then return ()
  else consume .tokSemi "expected ';' after expression"

/-- `parse_expr_stmt`. -/
def parseExprStmt : Parse ν Unit := do
  parseExpression self
  expressionEnd
  emitOp .pop

/-- A statement that begins with `FUNCTION`: whether it is an expression. -/
def functionStatement : Parse ν Bool := do
  if ← check .tokLparen then
    parseFunctionExpr self
    expressionEnd
    emitOp .pop
    return true
  else
    parseFunction self
    return false

/-- The statement behind its first token, unless that is an expression's. -/
def statementRule : CandoTokenType → Option (Parse ν Unit)
  | .tokVar => some (parseVarDecl self false)
  | .tokConst => some (parseVarDecl self true)
  | .tokIf => some (parseIf self)
  | .tokWhile => some (parseWhile self)
  | .tokFor => some (parseFor self)
  | .tokTry => some (parseTry self)
  | .tokClass => some (parseClass self)
  | .tokReturn => some (parseReturn self)
  | .tokThrow => some (parseThrow self)
  | .tokBreak => some parseBreak
  | .tokContinue => some parseContinue
  | .tokLbrace => some (scopedBlock self)
  | .tokSemi => some (return ())
  | _ => none

/-- The dispatch of `parse_statement`: whether the statement is an expression. -/
def dispatch : Parse ν Bool := do
  let p ← get
  if p.current.type = .tokFunction then
    advance
    functionStatement self
  else match statementRule self p.current.type with
    | some statement =>
      advance
      statement
      return false
    | none =>
      parseExprStmt self
      return true

/-- `parse_statement`. -/
def parseStatement : Parse ν Unit := do
  modify fun p => { p with lastStmtWasExpr := false }
  let wasExpr ← dispatch self
  modify fun p => { p with lastStmtWasExpr := wasExpr }
  let p ← get
  if p.panicMode then synchronise self

/-! ### Sources -/

/-- The parse functions with a count of calls. -/
def knot : (fuel : Nat) → Knot ν
  | 0 => ⟨0, fun _ => crash .fuel, crash .fuel, crash .fuel⟩
  | fuel + 1 => ⟨fuel, parsePrecedence (knot fuel), parseStatement (knot fuel), parseIf (knot fuel)⟩

/-- `cando_parser_init`. -/
def init (source : Str) (chunk : Chunk ν) (evalMode : Bool) : CandoParser ν :=
  let eof : CandoToken := ⟨.tokEof, 0, 0, 0, 0⟩
  nextToken { lexer := { source }, current := eof, previous := eof, chunk, evalMode }

/-- The end of `cando_parse`: the last expression is the value of a text in eval mode. -/
def parseEnd : Parse ν Unit := do
  let p ← get
  if p.evalMode then
    if p.lastStmtWasExpr ∧ p.chunk.code.getLast? = some Opcode.pop.toByte then
      modify fun p => { p with chunk := { p.chunk with code := p.chunk.code.dropLast } }
      emitOpA .return 1
    else emitOpA .return 0
  else emitOp .halt

/-- `cando_parse`, up to the result. -/
def candoParse : Parse ν Unit := do
  loop (fun _ => do
    let p ← get
    if p.current.type = .tokEof then return ((), false)
    else
      self.parseStatement
      return ((), true)) self.turns ()
  parseEnd

/-- A call of `cando_parse` on a new parser and a new chunk. -/
def parse (fuel : Nat) (source : Str) (evalMode : Bool) : Outcome (CandoParser ν) Empty Stop Unit :=
  candoParse (knot fuel) (init source {} evalMode)

/-- So many calls are enough for a source. -/
def callsFor (source : Str) : Nat := 4 * source.length + 2

end CandoParser

end Cando
