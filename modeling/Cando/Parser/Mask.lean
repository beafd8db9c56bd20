import Cando.Vm.Run

/-!
# Masks

`parse_mask_emit` (`parser/parser.c`). A mask in front of a comma list is compiled away: every expression is followed by
an instruction that keeps or drops its value. A mask in front of a call is packed into the operands of one
`OP_MASK_APPLY`, which filters whatever the call returned.

Of the parser only what a mask sees is kept here: the token stream is the list of the expressions that follow, each but
the first behind a comma, and an expression is the code that it compiles to.
-/

namespace Cando

/-- An expression of a list: the code it compiles to, and whether the parser takes it for a call. -/
structure Operand where
  code : List UInt8
  isCall : Bool := false
  deriving DecidableEq, Repr

/-- A mask as `parse_grouping` collects it: at most 32 positions, at least one; `true` stands for `~`. -/
structure Mask where
  first : Bool
  others : List Bool
  short : others.length < 32

namespace Mask

/-- The positions of a mask. -/
def bits (m : Mask) : List Bool := m.first :: m.others

/-- The mask is all `~` or all `.`. -/
def isPure (m : Mask) : Bool := m.others.all (· == m.first)

end Mask

/-- What a mask sees of a `CandoParser`. -/
structure MaskParser where
  operands : List Operand
  code : List UInt8 := []
  callDepth : Nat := 0
  lastExprWasCall : Bool := false
  lastExprWasUnpack : Bool := false
  lastMultiPush : Nat := 1
  error : Option Str := none
  deriving DecidableEq, Repr

namespace MaskParser

/-- `error`: only the first one counts. -/
def fail (msg : Str) (p : MaskParser) : MaskParser := { p with error := p.error <|> some msg }

/-- `emit_op` and `emit_op_ab`. -/
def emit (i : Instr) (p : MaskParser) : MaskParser := { p with code := p.code ++ i.encode }

/-- `parse_precedence` on the next expression. -/
def parseOperand (p : MaskParser) : MaskParser :=
  match p.operands with
  | [] => p.fail (bytes "expected expression")
  | o :: os => { p with operands := os, code := p.code ++ o.code, lastExprWasCall := o.isCall }

/-- What follows the expression of a position. -/
def emitMask (keep : Bool) (p : MaskParser) : MaskParser := p.emit { op := if keep then .maskPass else .maskSkip }

/-- The positions after the first, in front of a comma list; with the number of values passed. -/
def parseMaskValues : List Bool → MaskParser × Nat → MaskParser × Nat
  | [], st => st
  | keep :: bits, (p, passCount) =>
    if p.operands = [] then (p.fail (bytes "expected ',' between mask values"), passCount)
    else parseMaskValues bits (p.parseOperand.emitMask keep, passCount + keep.toNat)

/-- The expressions behind those of a pure mask, one round for each. -/
def parseMaskExtras (keep : Bool) : List Operand → MaskParser × Nat → MaskParser × Nat
  | [], st => st
  | _ :: os, (p, passCount) => parseMaskExtras keep os (p.parseOperand.emitMask keep, passCount + keep.toNat)

end MaskParser

/-- The bit mask of the positions from `i` on: `bitmask |= (u16)(1u << i)`. -/
def bitmaskFrom (i : Nat) : List Bool → Nat
  | [] => 0
  | keep :: bits => (if keep then (1 <<< i) % 65536 else 0) ||| bitmaskFrom (i + 1) bits

namespace MaskParser

/-- The parser takes the mask to stand in front of a single call. -/
def singleCall (outerDepth : Nat) (p : MaskParser) : Bool :=
  p.lastExprWasCall && (outerDepth > 0 || p.operands.isEmpty)

/-- The branches of `parse_mask_emit` for a single expression and for a comma list. -/
def parseMaskList (m : Mask) (p : MaskParser) : MaskParser × Nat :=
  if p.operands = [] then (p.emitMask m.first, m.first.toNat)
  else
    let st := parseMaskValues m.others (p.emitMask m.first, m.first.toNat)
    if m.isPure then parseMaskExtras (!m.first) st.1.operands st else st

/-- `parse_mask_emit` after the first expression. -/
def parseMaskRest (m : Mask) (outerDepth : Nat) (p : MaskParser) : MaskParser × Nat :=
  if p.singleCall outerDepth then
    ({ p.emit { op := .maskApply, a := m.bits.length % 65536, b := bitmaskFrom 0 m.bits } with
      lastExprWasUnpack := false }, m.bits.count true)
  else
    let (p, passCount) := parseMaskList m p
    ({ p with lastExprWasCall := false, lastExprWasUnpack := false }, passCount)

/-- `parse_mask_emit`. -/
def parseMaskEmit (m : Mask) (p : MaskParser) : MaskParser :=
  let outerDepth := p.callDepth
  let p := ({ p with callDepth := p.callDepth + 1, lastExprWasCall := false } : MaskParser).parseOperand
  let (p, passCount) := parseMaskRest m outerDepth p
  { p with callDepth := p.callDepth - 1, lastMultiPush := passCount }

end MaskParser

end Cando
