import Cando.Parser.Numeral
import Cando.Vm.Bitwise
import Cando.Vm.Operators

/-!
# The core of the language: syntax

Programs without calls, objects and functions: declarations, assignments, blocks, conditionals, loops and errors over
the operators on values. A program is a tree that keeps the parentheses of its text; `lexemes` is the row of tokens that
it stands for, and `Fits` says that this row needs no further parentheses.
-/

namespace Cando.Lang

/-- The type of a token, and its text. -/
structure Lexeme where
  type : CandoTokenType
  text : Str
  deriving DecidableEq, Repr

/-- How a token is spelled that has only one spelling. -/
def spelling : CandoTokenType → String
  | .tokIf => "IF" | .tokElse => "ELSE" | .tokWhile => "WHILE" | .tokThrow => "THROW" | .tokTry => "TRY"
  | .tokCatch => "CATCH" | .tokVar => "VAR" | .tokNullKw => "NULL" | .tokTrueKw => "TRUE" | .tokFalseKw => "FALSE"
  | .tokContinue => "CONTINUE" | .tokBreak => "BREAK"
  | .tokAnd => "&&" | .tokOr => "||" | .tokEq => "==" | .tokNeq => "!=" | .tokLeq => "<=" | .tokGeq => ">="
  | .tokLshift => "<<" | .tokRshift => ">>" | .tokBitxor => "|&"
  | .tokPlusAssign => "+=" | .tokMinusAssign => "-=" | .tokStarAssign => "*=" | .tokSlashAssign => "/="
  | .tokPercentAssign => "%=" | .tokCaretAssign => "^=" | .tokIncr => "++" | .tokDecr => "--"
  | .tokPlus => "+" | .tokMinus => "-" | .tokStar => "*" | .tokSlash => "/" | .tokPercent => "%" | .tokCaret => "^"
  | .tokAmp => "&" | .tokBitor => "|" | .tokLt => "<" | .tokGt => ">" | .tokAssign => "=" | .tokBang => "!"
  | .tokLparen => "(" | .tokRparen => ")" | .tokLbrace => "\x7b" | .tokRbrace => "\x7d" | .tokSemi => ";"
  | _ => ""

/-- A token that has only one spelling. -/
def fixed (type : CandoTokenType) : Lexeme := ⟨type, bytes (spelling type)⟩

/-- A name. -/
def ident (x : Str) : Lexeme := ⟨.tokIdent, x⟩

/-! ### Expressions -/

/-- The operators between two operands that are always evaluated. -/
inductive Binary where
  | plain (o : Operator)
  | bits (o : Bitwise)
  deriving DecidableEq, Repr

namespace Binary

def type : Binary → CandoTokenType
  | .plain .add => .tokPlus
  | .plain .sub => .tokMinus
  | .plain .mul => .tokStar
  | .plain .div => .tokSlash
  | .plain .mod => .tokPercent
  | .plain .pow => .tokCaret
  | .plain .eq => .tokEq
  | .plain .neq => .tokNeq
  | .plain .lt => .tokLt
  | .plain .gt => .tokGt
  | .plain .leq => .tokLeq
  | .plain .geq => .tokGeq
  | .bits .and => .tokAmp
  | .bits .or => .tokBitor
  | .bits .xor => .tokBitxor
  | .bits .lshift => .tokLshift
  | .bits .rshift => .tokRshift

def op : Binary → Opcode
  | .plain o => o.op
  | .bits o => o.op

/-- How tightly the operator binds. -/
def level (o : Binary) : Nat := o.type.precedence

/-- Where its left operand may begin: relations do not chain, and `^` groups to the right. -/
def left (o : Binary) : Nat :=
  if o.level = precComparison ∨ o.level = precPower then o.level + 1 else o.level

/-- Where its right operand may begin. -/
def right (o : Binary) : Nat := if o.level = precPower then o.level else o.level + 1

end Binary

/-- The operators that assign what they compute. -/
inductive Compound where
  | add | sub | mul | div | mod | pow
  deriving DecidableEq, Repr

namespace Compound

def type : Compound → CandoTokenType
  | .add => .tokPlusAssign
  | .sub => .tokMinusAssign
  | .mul => .tokStarAssign
  | .div => .tokSlashAssign
  | .mod => .tokPercentAssign
  | .pow => .tokCaretAssign

def operator : Compound → Operator
  | .add => .add
  | .sub => .sub
  | .mul => .mul
  | .div => .div
  | .mod => .mod
  | .pow => .pow

end Compound

/-- The delimiters of a string. -/
inductive Quote where
  | dq | sq | bt
  deriving DecidableEq, Repr

namespace Quote

def type : Quote → CandoTokenType
  | .dq => .tokStringDq
  | .sq => .tokStringSq
  | .bt => .tokStringBt

def char : Quote → UInt8
  | .dq => 34
  | .sq => 39
  | .bt => 96

end Quote

/-- An expression. -/
inductive Expr where
  | number (text : Str)
  | string (q : Quote) (content : Str)
  | null
  | bool (b : Bool)
  | name (x : Str)
  | paren (e : Expr)
  | neg (e : Expr)
  | not (e : Expr)
  | binary (o : Binary) (l r : Expr)
  | and (l r : Expr)
  | or (l r : Expr)
  | assign (x : Str) (e : Expr)
  | update (o : Compound) (x : Str) (e : Expr)
  | step (up : Bool) (x : Str)
  deriving DecidableEq, Repr

namespace Expr

/-- The tokens of an expression. -/
def lexemes : Expr → List Lexeme
  | number text => [⟨.tokNumber, text⟩]
  | string q content => [⟨q.type, q.char :: (content ++ [q.char])⟩]
  | null => [fixed .tokNullKw]
  | bool b => [fixed (if b then .tokTrueKw else .tokFalseKw)]
  | name x => [ident x]
  | paren e => fixed .tokLparen :: (e.lexemes ++ [fixed .tokRparen])
  | neg e => fixed .tokMinus :: e.lexemes
  | not e => fixed .tokBang :: e.lexemes
  | binary o l r => l.lexemes ++ fixed o.type :: r.lexemes
  | and l r => l.lexemes ++ fixed .tokAnd :: r.lexemes
  | or l r => l.lexemes ++ fixed .tokOr :: r.lexemes
  | assign x e => ident x :: fixed .tokAssign :: e.lexemes
  | update o x e => ident x :: fixed o.type :: e.lexemes
  | step up x => [ident x, fixed (if up then .tokIncr else .tokDecr)]

/-- How tightly the expression binds from outside. -/
def level : Expr → Nat
  | binary o _ _ => o.level
  | and _ _ => precAnd
  | or _ _ => precOr
  | neg _ | not _ => precUnary
  | assign _ _ | update _ _ _ | step _ _ => precAssign
  | _ => precCall

/-- A numeral as the lexer reads it whole, which fits the buffer of `parse_number`. -/
def IsNumeral (text : Str) : Prop := text.head?.any isDecimal ∧ numberSpan text = text ∧ text.length ≤ 63

/-- The expression may stand where everything has to bind at least as tightly as `min`. -/
def Fits : (min : Nat) → Expr → Prop
  | _, number text => IsNumeral text
  | _, string _ _ | _, null | _, bool _ | _, name _ => True
  | _, paren e => e.Fits precAssign
  | min, neg e | min, not e => min ≤ precUnary ∧ e.Fits precUnary
  | min, binary o l r => min ≤ o.level ∧ l.Fits o.left ∧ r.Fits o.right
  | min, and l r => min ≤ precAnd ∧ l.Fits (precAnd + 1) ∧ r.Fits precAnd
  | min, or l r => min ≤ precOr ∧ l.Fits (precOr + 1) ∧ r.Fits precOr
  | min, assign _ e | min, update _ _ e => min ≤ precAssign ∧ e.Fits precAssign
  | min, step _ _ => min ≤ precAssign

/-- A token behind the expression that binds less tightly than this belongs to what is around it. -/
def edge : Expr → Nat
  | binary o _ _ => if o.level = precComparison then o.level else o.right
  | and _ _ => precAnd
  | or _ _ => precOr
  | neg _ | not _ => precUnary
  | assign _ _ | update _ _ _ => precAssign
  | _ => precCall + 1

lemma Fits.level {min : Nat} {e : Expr} (h : e.Fits min) (low : min ≤ precCall) : min ≤ e.level := by
  cases e with
  | binary | and | or | neg | not | assign | update => exact h.1
  | step => exact h
  | _ => exact low

lemma level_le_edge (e : Expr) : e.level ≤ e.edge := by
  cases e with
  | binary o l r =>
    simp only [level, edge, Binary.right]
    split
    · exact Nat.le_refl _
    · split <;> omega
  | and | or | neg | not | assign | update => exact Nat.le_refl _
  | step => exact Nat.le_of_ble_eq_true rfl
  | _ => exact Nat.le_succ _

lemma Binary.level_pos (o : Binary) : 0 < o.level ∧ o.level < precUnary := by
  rcases o with o | o <;> cases o <;> decide

/-- What stands on the left of an operator ends there. -/
lemma Fits.edge_left {o : Binary} {l : Expr} (h : l.Fits o.left) : o.level < l.edge := by
  have bound := Binary.level_pos o
  have low : o.left ≤ precCall := by
    have unary : precUnary = 15 := rfl
    have call : precCall = 16 := rfl
    rw [Binary.left]
    split <;> omega
  have inside := h.level low
  have outside := l.level_le_edge
  rw [Binary.left] at inside
  split at inside
  · omega
  · rename_i chains
    obtain lt | eq := Nat.lt_or_eq_of_le inside
    · omega
    -- An expression of the same level is one of these operators, and groups to the left as well.
    cases l with
    | binary o' l' r' =>
      simp only [Expr.level] at eq
      simp only [edge, Binary.right]
      rw [← eq, if_neg (not_or.mp chains).1, if_neg (not_or.mp chains).2]
      exact Nat.lt_succ_self _
    | and | or =>
      simp only [Expr.level] at eq
      rw [eq]
      rcases o with o | o <;> cases o <;> cases eq
    | neg | not =>
      simp only [Expr.level] at eq
      exact absurd bound.2 (by omega)
    | assign | update | step =>
      simp only [Expr.level] at eq
      rcases o with o | o <;> cases o <;> cases eq
    | _ =>
      simp only [edge]
      have call : precUnary < precCall + 1 := by decide
      omega

end Expr

namespace Expr

/-- How many values the code of an expression has on the stack at the same time. -/
def need : Expr → Nat
  | paren e | neg e | not e | assign _ e => e.need
  | binary _ l r => max l.need (1 + r.need)
  | and l r | or l r => max l.need r.need
  | update _ _ e => 1 + e.need
  | step _ _ => 3
  | _ => 1

lemma need_pos (e : Expr) : 0 < e.need := by
  induction e with
  | paren e ih | neg e ih | not e ih | assign x e ih => exact ih
  | binary o l r ihl ihr | and l r ihl ihr | or l r ihl ihr => exact Nat.lt_of_lt_of_le ihl (Nat.le_max_left _ _)
  | update o x e ih => exact Nat.lt_add_right _ Nat.one_pos
  | step up x => exact Nat.succ_pos 2
  | _ => exact Nat.one_pos

end Expr

/-! ### Statements -/

/-- A row of statements. -/
inductive Stmt where
  | nil
  | seq (s t : Stmt)
  | empty
  | expr (e : Expr)
  | declare (x : Str) (e : Expr)
  | block (s : Stmt)
  | ifElse (c : Expr) (s t : Stmt)
  | whileLoop (c : Expr) (s : Stmt)
  | breakLoop
  | continueLoop
  | tryCatch (s : Stmt) (x : Str) (h : Stmt)
  | throwValue (e : Expr)
  deriving DecidableEq, Repr

namespace Stmt

/-- The tokens of a row of statements. In an `ifElse` the second branch is nothing, a block or another `ifElse`. -/
def lexemes : Stmt → List Lexeme
  | nil => []
  | seq s t => s.lexemes ++ t.lexemes
  | empty => [fixed .tokSemi]
  | expr e => e.lexemes ++ [fixed .tokSemi]
  | declare x e => fixed .tokVar :: ident x :: fixed .tokAssign :: (e.lexemes ++ [fixed .tokSemi])
  | block s => fixed .tokLbrace :: (s.lexemes ++ [fixed .tokRbrace])
  | ifElse c s t =>
    fixed .tokIf :: (c.lexemes ++ fixed .tokLbrace :: (s.lexemes ++ fixed .tokRbrace ::
      (if t = nil then [] else fixed .tokElse :: t.lexemes)))
  | whileLoop c s =>
    fixed .tokWhile :: (c.lexemes ++ fixed .tokLbrace :: (s.lexemes ++ [fixed .tokRbrace]))
  | breakLoop => [fixed .tokBreak, fixed .tokSemi]
  | continueLoop => [fixed .tokContinue, fixed .tokSemi]
  | tryCatch s x h =>
    fixed .tokTry :: fixed .tokLbrace :: (s.lexemes ++ fixed .tokRbrace :: fixed .tokCatch :: fixed .tokLparen ::
      ident x :: fixed .tokRparen :: fixed .tokLbrace :: (h.lexemes ++ [fixed .tokRbrace]))
  | throwValue e => fixed .tokThrow :: (e.lexemes ++ [fixed .tokSemi])

/-- What may stand behind an `ELSE`, or nothing. -/
def Alternative : Stmt → Prop
  | nil | block _ | ifElse _ _ _ => True
  | _ => False

/-- The statements make up a program of the core: `inLoop` says that a loop is there to be left. None is left out of
the middle of a TRY. -/
def Fits : (inLoop : Bool) → Stmt → Prop
  | _, nil | _, empty => True
  | inLoop, seq s t => s.Fits inLoop ∧ t.Fits inLoop
  | _, expr e | _, declare _ e | _, throwValue e => e.Fits precAssign
  | inLoop, block s => s.Fits inLoop
  | inLoop, ifElse c s t => c.Fits precAssign ∧ s.Fits inLoop ∧ t.Fits inLoop ∧ t.Alternative
  | _, whileLoop c s => c.Fits precAssign ∧ s.Fits true
  | inLoop, breakLoop | inLoop, continueLoop => inLoop = true
  | inLoop, tryCatch s _ h => s.Fits false ∧ h.Fits inLoop

/-- The variables that a row of statements leaves behind, the last one first. -/
def declares (top : Bool) : Stmt → List Str
  | seq s t => t.declares top ++ s.declares top
  | declare x _ => if top then [] else [x]
  | _ => []

/-- Outside of all blocks the variables are global. -/
lemma declares_top (s : Stmt) : s.declares true = [] := by
  induction s with
  | seq s t ihs iht => rw [declares, ihs, iht]; rfl
  | _ => rfl

/-- How many variables more there may be at the same time. -/
def slots (top : Bool) : Stmt → Nat
  | seq s t => max (s.slots top) ((s.declares top).length + t.slots top)
  | declare _ _ => if top then 0 else 1
  | block s | whileLoop _ s => s.slots false
  | ifElse _ s t => max (s.slots false) (t.slots false)
  | tryCatch s _ h => max (s.slots false) (1 + h.slots false)
  | _ => 0

/-- How many values the code of the statements has on the stack at the same time. -/
def need : Stmt → Nat
  | seq s t => max s.need t.need
  | expr e | declare _ e | throwValue e => e.need
  | block s => s.need
  | ifElse c s t => max c.need (max s.need t.need)
  | whileLoop c s => max c.need s.need
  | tryCatch s _ h => max s.need (max 1 h.need)
  | _ => 0

/-- How deep loops are nested. -/
def loops : Stmt → Nat
  | seq s t | ifElse _ s t | tryCatch s _ t => max s.loops t.loops
  | block s => s.loops
  | whileLoop _ s => s.loops + 1
  | _ => 0

/-- How deep TRYs are nested. -/
def tries : Stmt → Nat
  | seq s t | ifElse _ s t => max s.tries t.tries
  | block s | whileLoop _ s => s.tries
  | tryCatch s _ h => max (s.tries + 1) h.tries
  | _ => 0

/-- The last statement of the row is an expression. -/
def lastIsExpr : (before : Bool) → Stmt → Bool
  | before, nil => before
  | before, seq s t => t.lastIsExpr (s.lastIsExpr before)
  | _, expr _ => true
  | _, _ => false

end Stmt

end Cando.Lang
