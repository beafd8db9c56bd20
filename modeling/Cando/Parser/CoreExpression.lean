import Cando.Parser.View

/-!
# Compiling the expressions of the core

`parse_precedence` on the tokens of an expression of the core: it takes these tokens and no others, and appends code of
that expression. The prefix function of the first token reads the leftmost operand only; the operators around it are the
turns of a loop. So the induction over the expression goes down its left spine with what is still to be done (`Stage`),
and operands on the right go through the parse functions that are called again (`Parses`).
-/

namespace Cando.Lang

open Program CandoParser

variable {ν : Type} [F64 ν]

/-- The token would go on with the expression before it, and not as an operator with a precedence. -/
def prolongs : CandoTokenType → Bool
  | .tokComma | .tokAssign | .tokPlusAssign | .tokMinusAssign | .tokStarAssign | .tokSlashAssign | .tokPercentAssign
  | .tokCaretAssign | .tokIncr | .tokDecr => true
  | _ => false

/-- These parse functions compile the expressions of the core. -/
def Parses (self : Knot ν) : Prop :=
  ∀ {e : Expr} {min : Nat} {v : View ν} {rest : List Lexeme} {last : Lexeme} {bs : List UInt8} {pool : List (Value ν)},
    0 < min → min ≤ precCall → e.Fits min → prolongs (headType rest) = false → (headType rest).precedence < min →
    Leads (self.parsePrecedence min) (v.moved (e.lexemes ++ rest) last bs pool) fun _ =>
      Appends v rest bs pool fun pool => e.Code pool v.names

/-- The whole of an expression, where `parse_precedence` has read its first token: with the prefix function of that
token, and what the loop over infix operators makes of the rest, it comes to where that loop stands behind it. -/
def Stage (self : Knot ν) (min : Nat) (e : Expr) : Prop :=
  ∃ t ts operand, e.lexemes = t :: ts ∧ inMask t.type = false ∧
    prefixRule self (min ≤ precAssign) t.type = some operand ∧
    ∀ {v : View ν} {rest : List Lexeme} {bs : List UInt8} {pool : List (Value ν)} {n : Nat} {k : Parse ν Unit}
      {Q : Unit → View ν → Prop},
      prolongs (headType rest) = false → (headType rest).precedence < e.edge →
      (∀ n last bs' pool', pool <+: pool' → e.Code pool' v.names bs' →
        Leads (CandoParser.loop (infixTurn self min (min ≤ precAssign)) n () >>= fun _ => k)
          (v.moved rest last (bs ++ bs') pool') Q) →
      Leads (operand >>= fun _ => CandoParser.loop (infixTurn self min (min ≤ precAssign)) n () >>= fun _ => k)
        (v.moved (ts ++ rest) t bs pool) Q

/-! ### Variables -/

section Variables

variable {v : View ν} {ahead : List Lexeme} {last : Lexeme} {bs : List UInt8} {pool : List (Value ν)}

/-- Where the name has been looked up. -/
lemma leads_onVariable (exact : ExactNumerals ν) {x : Str} {onLocal onGlobal : Opcode} (formatLocal : onLocal.fmt = .a)
    (formatGlobal : onGlobal.fmt = .a) {m : Parse ν Unit}
    (slot : ∀ k, slotOf (v.moved ahead last bs pool).names x = some k → m = emitOpA onLocal k)
    (global : slotOf (v.moved ahead last bs pool).names x = none → m = strConst x >>= emitOpA onGlobal) :
    Leads m (v.moved ahead last bs pool) fun _ =>
      Appends v ahead bs pool fun pool => OnVariable pool v.names x onLocal onGlobal := by
  cases found : slotOf v.names x with
  | some k =>
    rw [slot k found]
    exact (does_emitOpA formatLocal k).mono fun _ _ ⟨_, e⟩ => ⟨_, pool, last, e, List.prefix_refl _, .slot found⟩
  | none =>
    rw [global found]
    refine (leads_strConst exact x).bind fun ci w ⟨pool', e, more, holds⟩ => ?_
    rw [e]
    exact (does_emitFitting formatGlobal holds.2).mono fun _ _ ⟨_, e⟩ =>
      ⟨_, pool', last, e, more, .global found holds⟩

lemma leads_emitLoad (exact : ExactNumerals ν) (x : Str) :
    Leads (emitLoad x : Parse ν Unit) (v.moved ahead last bs pool) fun _ =>
      Appends v ahead bs pool fun pool => Loads pool v.names x :=
  (does_resolveLocal x).after
    (leads_onVariable exact rfl rfl (fun k found => by rw [found]) fun missing => by rw [missing])

lemma leads_emitStore (exact : ExactNumerals ν) (x : Str) :
    Leads (emitStore x : Parse ν Unit) (v.moved ahead last bs pool) fun _ =>
      Appends v ahead bs pool fun pool => Stores pool v.names x :=
  (does_resolveLocal x).after
    (leads_onVariable exact rfl rfl (fun k found => by rw [found]) fun missing => by rw [missing])

lemma leads_emitConst (exact : ExactNumerals ν) {x : Value ν} (core : CoreConst x) :
    Leads (addConst x >>= emitOpA .const : Parse ν Unit) (v.moved ahead last bs pool) fun _ =>
      Appends v ahead bs pool fun pool bs => ∃ ci, bs = code .const ci 0 ∧ Holds pool x ci := by
  refine (leads_addConst exact core).bind fun ci w ⟨pool', e, more, holds⟩ => ?_
  rw [e]
  exact (does_emitFitting rfl holds.2).mono fun _ _ ⟨_, e⟩ => ⟨_, pool', last, e, more, ci, rfl, holds⟩

lemma leads_parsePostfix (exact : ExactNumerals ν) (up : Bool) (x : Str) :
    Leads (parsePostfix x (if up then .add else .sub) : Parse ν Unit) (v.moved ahead last bs pool) fun _ =>
      Appends v ahead bs pool fun pool => (Expr.step up x).Code pool v.names := by
  refine (leads_emitLoad exact x).append fun _ ld pool₁ more₁ loads => ?_
  refine (does_emitOp rfl).after ?_
  rw [← bind_assoc]
  refine (leads_emitConst exact (.inl ⟨_, rfl, .inr rfl⟩)).append ?_
  rintro _ _ pool₂ more₂ ⟨ci, rfl, holds⟩
  have format : (if up then Opcode.add else .sub).fmt = .none := by cases up <;> rfl
  refine (does_emitOp format).after ?_
  refine (leads_emitStore exact x).append fun _ st pool₃ more₃ stores => ?_
  refine .appended (does_emitOp rfl) ?_ (more₁.trans (more₂.trans more₃))
    (.step (loads.mono (more₂.trans more₃)) (holds.mono more₃) stores)
  simp only [List.append_assoc]

end Variables

/-! ### Operators -/

section Operators

variable {self : Knot ν} {v : View ν} {ahead : List Lexeme} {last : Lexeme} {bs : List UInt8} {pool : List (Value ν)}

lemma does_multiCmp {plain stack spread : Opcode} (format : plain.fmt = .none) (next : Nat)
    (stops : prolongs (headType ahead) = false) :
    Does (multiCmp self next plain stack spread) (v.moved ahead last bs pool) ()
      (v.moved ahead last (bs ++ code plain 0 0) pool) := by
  refine Leads.get fun p s => does_setUnpack.after ?_
  have current : p.current.type = headType ahead := s.ahead.current
  have alone : (headType ahead == .tokComma) = false :=
    beq_eq_false_iff_ne.mpr fun comma => by rw [comma] at stops; cases stops
  simp only [current, alone, Bool.and_false, s.noUnpack, s.single, s.noCall, Bool.false_eq_true, if_false, gt_iff_lt,
    Nat.lt_irrefl, false_and, when]
  exact (does_emitOp format).mono fun _ _ h => ⟨trivial, h.2⟩

lemma does_greaterCmp {plain stack spread : Opcode} (format : plain.fmt = .none) (next : Nat) (leftInc : Bool)
    (stops : prolongs (headType ahead) = false) (below : (headType ahead).precedence < precComparison) :
    Does (greaterCmp self next leftInc plain stack spread) (v.moved ahead last bs pool) ()
      (v.moved ahead last (bs ++ code plain 0 0) pool) := by
  refine Leads.get fun p s => does_setUnpack.after ?_
  have current : p.current.type = headType ahead := s.ahead.current
  have alone : (headType ahead == .tokComma) = false :=
    beq_eq_false_iff_ne.mpr fun comma => by rw [comma] at stops; cases stops
  have unrelated (type : CandoTokenType) (relation : type.precedence = precComparison) : headType ahead ≠ type := by
    rintro e
    rw [e, relation] at below
    exact Nat.lt_irrefl _ below
  simp only [current, alone, Bool.and_false, s.noUnpack, s.single, s.noCall, Bool.false_eq_true, if_false, gt_iff_lt,
    Nat.lt_irrefl, false_and, when, unrelated .tokLt rfl, unrelated .tokLeq rfl,
    unrelated .tokGt rfl, unrelated .tokGeq rfl, or_self]
  exact (does_emitOp format).after (Leads.pure ⟨trivial, rfl⟩)

/-- An operator between two operands yields its instruction, since no further comparison and no list follows. -/
lemma does_emitBinary (o : Binary) (next : Nat) (stops : prolongs (headType ahead) = false)
    (apart : o.level = precComparison → (headType ahead).precedence < precComparison) :
    Does (emitBinary self next o.type) (v.moved ahead last bs pool) ()
      (v.moved ahead last (bs ++ code o.op 0 0) pool) := by
  rcases o with o | o
  · cases o with
    | add | sub | mul | div | mod | pow => exact does_emitOp rfl
    | eq | neq | lt | leq => exact does_multiCmp rfl next stops
    | gt | geq => exact does_greaterCmp rfl next _ stops (apart rfl)
  · cases o <;> exact does_emitOp rfl

end Operators

/-! ### The loop over operators -/

section Stages

variable {self : Knot ν} {min : Nat} {l e : Expr} {t : Lexeme} {ts : List Lexeme}

/-- An expression that begins with a prefix function which reads it to its end. -/
lemma Stage.operand {operand : Parse ν Unit} (tokens : e.lexemes = t :: ts) (mask : inMask t.type = false)
    (rule : prefixRule self (min ≤ precAssign) t.type = some operand)
    (whole : ∀ {v : View ν} {rest : List Lexeme} {bs : List UInt8} {pool : List (Value ν)},
      prolongs (headType rest) = false → (headType rest).precedence < e.edge →
      Leads operand (v.moved (ts ++ rest) t bs pool) fun _ => Appends v rest bs pool fun pool => e.Code pool v.names) :
    Stage self min e :=
  ⟨t, ts, operand, tokens, mask, rule, fun stops inside next =>
    (whole stops inside).append fun last bs' pool' more holds => next _ last bs' pool' more holds⟩

/-- An expression that goes on with an infix function behind its left operand. -/
lemma Stage.operator {operation : Parse ν Unit} (tokens : e.lexemes = l.lexemes ++ t :: ts) (left : Stage self min l)
    (rule : infixRule self (min ≤ precAssign) t.type = some operation) (low : 0 < min)
    (stops : prolongs t.type = false) (tight : min ≤ t.type.precedence) (binds : t.type.precedence < l.edge)
    (whole : ∀ {v : View ν} {rest : List Lexeme} {bs bl : List UInt8} {pool : List (Value ν)},
      prolongs (headType rest) = false → (headType rest).precedence < e.edge → l.Code pool v.names bl →
      Leads operation (v.moved (ts ++ rest) t (bs ++ bl) pool) fun _ =>
        Appends v rest bs pool fun pool => e.Code pool v.names) : Stage self min e := by
  obtain ⟨t₀, ts₀, operand, tokens₀, mask, rule₀, run⟩ := left
  refine ⟨t₀, ts₀ ++ t :: ts, operand, by rw [tokens, tokens₀]; rfl, mask, rule₀, ?_⟩
  intro v rest bs pool n k Q stops' inside next
  rw [List.append_assoc, List.cons_append]
  refine run stops binds fun n last bl pool' more left => ?_
  cases n with
  | zero => exact (Leads.crash (Q := fun _ _ => False) _).bind fun _ _ h => h.elim
  | succ n =>
    rw [CandoParser.loop, bind_assoc, infixTurn, bind_assoc]
    refine Leads.get fun p s => ?_
    have current : p.current.type = t.type := s.ahead.current
    have goes : ¬ (t.type = .tokEof ∨ t.type.precedence < min) := by
      rintro (eof | loose)
      · rw [eof] at tight
        exact absurd low (Nat.not_lt.mpr tight)
      · exact absurd tight (Nat.not_le.mpr loose)
    rw [current, if_neg goes, rule, bind_assoc]
    refine (does_advance t (ts ++ rest)).after ?_
    dsimp only
    rw [bind_assoc]
    refine (whole stops' inside left).append fun last bs' pool'' more' holds => ?_
    rw [pure_bind, if_pos rfl]
    exact next n last bs' pool'' (more.trans more') holds

/-- The loop ends behind the expression. -/
lemma Stage.parsePrecedence (stage : Stage self min e) (fits : e.Fits min) (low : min ≤ precCall) {v : View ν}
    {rest : List Lexeme} {last : Lexeme} {bs : List UInt8} {pool : List (Value ν)}
    (stops : prolongs (headType rest) = false) (below : (headType rest).precedence < min) :
    Leads (CandoParser.parsePrecedence self min) (v.moved (e.lexemes ++ rest) last bs pool) fun _ =>
      Appends v rest bs pool fun pool => e.Code pool v.names := by
  obtain ⟨t, ts, operand, tokens, -, rule, run⟩ := stage
  rw [tokens, List.cons_append]
  refine does_setCall.after (Leads.get fun p s => (does_advance t (ts ++ rest)).after ?_)
  have current : p.current.type = t.type := s.ahead.current
  dsimp only
  rw [current, rule]
  have outside := Nat.le_trans (fits.level low) e.level_le_edge
  refine run stops (Nat.lt_of_lt_of_le below outside) fun n last bs' pool' more holds => ?_
  have there : Appends v rest bs pool (fun pool => e.Code pool v.names) (v.moved rest last (bs ++ bs') pool') :=
    ⟨bs', pool', last, rfl, more, holds⟩
  cases n with
  | zero => exact (Leads.crash (Q := fun _ _ => False) _).bind fun _ _ h => h.elim
  | succ n =>
    rw [CandoParser.loop, bind_assoc, infixTurn, bind_assoc]
    refine Leads.get fun p s => ?_
    have current : p.current.type = headType rest := s.ahead.current
    rw [current, if_pos (.inr below), pure_bind]
    dsimp only
    rw [if_neg Bool.false_ne_true, pure_bind]
    refine Leads.ite (fun _ => ?_) fun _ => Leads.pure there
    have other : headType (v.moved rest last (bs ++ bs') pool').ahead ≠ .tokAssign := by
      intro assign
      rw [show headType rest = .tokAssign from assign] at stops
      cases stops
    refine (does_matchOther other).after ?_
    rw [if_neg Bool.false_ne_true]
    exact Leads.pure there

end Stages

/-! ### The functions of the table -/

section Functions

variable {self : Knot ν} {v : View ν} {rest : List Lexeme} {t : Lexeme} {bs : List UInt8} {pool : List (Value ν)}

lemma leads_parseNumber (exact : ExactNumerals ν) {text : Str} (numeral : Expr.IsNumeral text) :
    Leads (parseNumber : Parse ν Unit) (v.moved rest ⟨.tokNumber, text⟩ bs pool) fun _ =>
      Appends v rest bs pool fun pool => (Expr.number text).Code pool v.names := by
  refine does_previousText.after ?_
  have whole : text.take 63 = text := List.take_of_length_le numeral.2.2
  show Leads (addConst (.number (F64.strtod (text.take 63))) >>= emitOpA .const) _ _
  rw [whole]
  refine (leads_emitConst exact (.inl ⟨_, rfl, .inl ⟨text, numeral, rfl⟩⟩)).mono ?_
  rintro _ _ ⟨_, pool', last, view, more, ci, rfl, holds⟩
  exact ⟨_, pool', last, view, more, .number holds⟩

lemma leads_parseStringLiteral (exact : ExactNumerals ν) (q : Quote) (content : Str) :
    Leads (parseStringLiteral : Parse ν Unit) (v.moved rest ⟨q.type, q.char :: (content ++ [q.char])⟩ bs pool)
      fun _ => Appends v rest bs pool fun pool => (Expr.string q content).Code pool v.names := by
  refine (does_quotedText (q := q) rfl).after ?_
  refine Leads.mono (leads_emitConst exact (.inr ⟨content, rfl⟩)) ?_
  rintro _ _ ⟨_, pool', last, view, more, ci, rfl, holds⟩
  exact ⟨_, pool', last, view, more, .string holds⟩

lemma leads_parseLiteral {e : Expr} {type : CandoTokenType} {op : Opcode}
    (rule : (type, op) ∈ [(.tokNullKw, .null), (.tokTrueKw, .true), (.tokFalseKw, .false)])
    (means : ∀ pool : List (Value ν), e.Code pool v.names (code op 0 0)) :
    Leads (parseLiteral : Parse ν Unit) (v.moved rest (fixed type) bs pool) fun _ =>
      Appends v rest bs pool fun pool => e.Code pool v.names := by
  refine Leads.get fun p s => ?_
  rw [show p.previous.type = type from s.last.type]
  simp only [List.mem_cons, Prod.mk.injEq, List.not_mem_nil, or_false] at rule
  obtain ⟨rfl, rfl⟩ | ⟨rfl, rfl⟩ | ⟨rfl, rfl⟩ := rule <;>
    exact .appended (does_emitOp rfl) rfl (List.prefix_refl _) (means pool)

lemma leads_parseUnary (parses : Parses self) {e e' : Expr} {op : Opcode} (format : op.fmt = .none)
    (rule : emitUnary (ν := ν) t.type = emitOp op)
    (means : ∀ (pool : List (Value ν)) bs, e.Code pool v.names bs → e'.Code pool v.names (bs ++ code op 0 0))
    (fits : e.Fits precUnary) (stops : prolongs (headType rest) = false)
    (below : (headType rest).precedence < precUnary) :
    Leads (parseUnary self) (v.moved (e.lexemes ++ rest) t bs pool) fun _ =>
      Appends v rest bs pool fun pool => e'.Code pool v.names := by
  refine Leads.get fun p s => ?_
  rw [show p.previous.type = t.type from s.last.type, rule]
  refine (parses (by decide) (by decide) fits stops below).append fun last bs' pool' more holds => ?_
  refine (does_emitOp format).after ?_
  refine .appended does_setCall ?_ more (means pool' bs' holds)
  exact List.append_assoc _ _ _

lemma leads_parseGrouping (parses : Parses self) {e : Expr} (fits : e.Fits precAssign) {t' : Lexeme}
    {ts : List Lexeme} (tokens : e.lexemes = t' :: ts) (mask : inMask t'.type = false) :
    Leads (parseGrouping self) (v.moved (e.lexemes ++ fixed .tokRparen :: rest) t bs pool) fun _ =>
      Appends v rest bs pool fun pool => (Expr.paren e).Code pool v.names := by
  refine Leads.get fun p s => ?_
  have current : p.current.type = t'.type := by
    rw [s.ahead.current]
    show headType (e.lexemes ++ _) = _
    rw [tokens]
    rfl
  rw [current, mask, if_neg Bool.false_ne_true]
  refine (does_setCallDepth 0).after ?_
  have stops : prolongs (headType (fixed .tokRparen :: rest)) = false := rfl
  refine (parses (by decide) (by decide) fits stops Nat.one_pos).append
    fun last bs' pool' more holds => ?_
  rw [show p.callDepth = v.calls from s.calls]
  refine (does_setCallDepth v.calls).after ?_
  exact .appended (does_consume rfl _ rest) rfl more (.paren holds)

lemma leads_parseBinary (parses : Parses self) (o : Binary) {l r : Expr} {bl : List UInt8} (fits : r.Fits o.right)
    (stops : prolongs (headType rest) = false) (below : (headType rest).precedence < (Expr.binary o l r).edge)
    (left : l.Code pool v.names bl) :
    Leads (parseBinary self) (v.moved (r.lexemes ++ rest) (fixed o.type) (bs ++ bl) pool) fun _ =>
      Appends v rest bs pool fun pool => (Expr.binary o l r).Code pool v.names := by
  refine Leads.get fun p s => ?_
  have previous : p.previous.type = o.type := s.last.type
  have right : (if o.type = .tokCaret then o.type.precedence else o.type.precedence + 1) = o.right := by
    rcases o with o | o <;> cases o <;> rfl
  have low : 0 < o.right ∧ o.right ≤ precCall := by
    rcases o with o | o <;> cases o <;> decide
  rw [previous]
  dsimp only
  rw [right]
  refine does_setMultiPush.after (does_setUnpack.after ?_)
  have edge : (Expr.binary o l r).edge ≤ o.right := by
    rw [Expr.edge]
    split
    · rename_i relation
      rw [Binary.right, relation]
      decide
    · exact Nat.le_refl _
  refine (parses low.1 low.2 fits stops (Nat.lt_of_lt_of_le below edge)).append fun last br pool' more right => ?_
  refine (does_emitBinary o o.right stops fun relation => ?_).after ?_
  · rw [Expr.edge, if_pos relation] at below
    exact relation ▸ below
  · refine does_setCall.after ?_
    refine .appended does_setUnpack ?_ more (.binary (left.mono more) right)
    simp only [List.append_assoc]

lemma leads_parseLogical (parses : Parses self) {l r e : Expr} {bl : List UInt8} {op : Opcode} {prec : Nat}
    (format : op.fmt = .a) (low : 0 < prec) (high : prec ≤ precCall) (fits : r.Fits prec)
    (stops : prolongs (headType rest) = false) (below : (headType rest).precedence < prec)
    (left : l.Code pool v.names bl)
    (means : ∀ (pool : List (Value ν)) bl br, l.Code pool v.names bl → r.Code pool v.names br →
      e.Code pool v.names (bl ++ (code op (toU16 (1 + br.length)) 0 ++ (code .pop 0 0 ++ br)))) :
    Leads (parseLogical self op prec) (v.moved (r.lexemes ++ rest) t (bs ++ bl) pool) fun _ =>
      Appends v rest bs pool fun pool => e.Code pool v.names := by
  refine (does_emitJump format).after ((does_emitOp rfl).after ?_)
  refine (parses low high fits stops below).append fun last br pool' more right => ?_
  have placed : bs ++ bl ++ code op 0x7FFF 0 ++ code .pop 0 0 ++ br =
      (bs ++ bl) ++ (code op 0x7FFF 0 ++ (code .pop 0 0 ++ br)) := by simp only [List.append_assoc]
  have distance : (code .pop 0 0 ++ br).length = (1 : Int) + br.length := by
    rw [List.length_append, code_length, Nat.cast_add]
    rfl
  exact .appended (does_patchJump _ _ _ format placed rfl distance) (List.append_assoc _ _ _) more
    (means pool' bl br (left.mono more) right)

end Functions

/-! ### Variables that are assigned -/

section Assignments

variable {self : Knot ν} {v : View ν} {rest : List Lexeme} {bs : List UInt8} {pool : List (Value ν)} {x : Str}
  {e : Expr}

lemma leads_parseVariableExpr_name (exact : ExactNumerals ν) (x : Str) (canAssign : Bool)
    (stops : prolongs (headType rest) = false) :
    Leads (parseVariableExpr self canAssign) (v.moved rest (ident x) bs pool) fun _ =>
      Appends v rest bs pool fun pool => (Expr.name x).Code pool v.names := by
  have loads : Leads (emitLoad x : Parse ν Unit) (v.moved rest (ident x) bs pool) fun _ =>
      Appends v rest bs pool fun pool => (Expr.name x).Code pool v.names :=
    (leads_emitLoad exact x).mono fun _ _ ⟨_, pool', last, view, more, holds⟩ =>
      ⟨_, pool', last, view, more, .name holds⟩
  refine does_previousText.after (Leads.get fun p s => Leads.ite (fun _ => ?_) fun _ => loads)
  have current : p.current.type = headType rest := s.ahead.current
  have plain : compoundOp (headType rest) = none := by
    cases type : headType rest <;> first | rfl | (rw [type] at stops; cases stops)
  have other (type : CandoTokenType) (prolonging : prolongs type = true) : headType rest ≠ type := by
    rintro e
    rw [e, prolonging] at stops
    cases stops
  rw [current, plain]
  dsimp only
  refine (does_matchOther (other .tokAssign rfl)).after ?_
  rw [if_neg Bool.false_ne_true]
  refine (does_matchOther (other .tokIncr rfl)).after ?_
  rw [if_neg Bool.false_ne_true]
  refine (does_matchOther (other .tokDecr rfl)).after ?_
  rw [if_neg Bool.false_ne_true]
  exact loads

lemma leads_parseVariableExpr_assign (exact : ExactNumerals ν) (parses : Parses self) (fits : e.Fits precAssign)
    (stops : prolongs (headType rest) = false) (below : (headType rest).precedence < precAssign) :
    Leads (parseVariableExpr self true) (v.moved (fixed .tokAssign :: (e.lexemes ++ rest)) (ident x) bs pool) fun _ =>
      Appends v rest bs pool fun pool => (Expr.assign x e).Code pool v.names := by
  refine does_previousText.after (Leads.get fun p s => ?_)
  rw [if_pos rfl, show p.current.type = .tokAssign from s.ahead.current]
  dsimp only [compoundOp]
  refine (does_matchToken rfl _).after ?_
  rw [if_pos rfl]
  refine (parses Nat.one_pos (by decide) fits stops below).append fun last bs' pool₁ more₁ holds => ?_
  refine Leads.mono (leads_emitStore exact x) ?_
  rintro _ _ ⟨st, pool₂, last, view, more₂, stores⟩
  exact ⟨_, pool₂, last, view.trans (congrArg (v.moved rest last · pool₂) (List.append_assoc _ _ _)),
    more₁.trans more₂, .assign (holds.mono more₂) stores⟩

lemma leads_parseVariableExpr_update (exact : ExactNumerals ν) (parses : Parses self) (o : Compound)
    (fits : e.Fits precAssign) (stops : prolongs (headType rest) = false)
    (below : (headType rest).precedence < precAssign) :
    Leads (parseVariableExpr self true) (v.moved (fixed o.type :: (e.lexemes ++ rest)) (ident x) bs pool) fun _ =>
      Appends v rest bs pool fun pool => (Expr.update o x e).Code pool v.names := by
  refine does_previousText.after (Leads.get fun p s => ?_)
  have compound : compoundOp o.type = some o.operator.op := by cases o <;> rfl
  have format : o.operator.op.fmt = .none := by cases o <;> rfl
  rw [if_pos rfl, show p.current.type = o.type from s.ahead.current, compound]
  dsimp only
  refine (does_advance _ _).after ?_
  refine (leads_emitLoad exact x).append fun _ ld pool₁ more₁ loads => ?_
  refine (parses Nat.one_pos (by decide) fits stops below).append fun _ bs' pool₂ more₂ holds => ?_
  refine (does_emitOp format).after ?_
  refine Leads.mono (leads_emitStore exact x) ?_
  rintro _ _ ⟨st, pool₃, last, view, more₃, stores⟩
  refine ⟨_, pool₃, last, view.trans (congrArg (v.moved rest last · pool₃) ?_), more₁.trans (more₂.trans more₃),
    .update (loads.mono (more₂.trans more₃)) (holds.mono more₃) stores⟩
  simp only [List.append_assoc]

lemma leads_parseVariableExpr_step (exact : ExactNumerals ν) (up : Bool) :
    Leads (parseVariableExpr self true)
      (v.moved (fixed (if up then .tokIncr else .tokDecr) :: rest) (ident x) bs pool) fun _ =>
      Appends v rest bs pool fun pool => (Expr.step up x).Code pool v.names := by
  refine does_previousText.after (Leads.get fun p s => ?_)
  have current : p.current.type = (if up then .tokIncr else .tokDecr) := s.ahead.current
  rw [if_pos rfl, current]
  cases up with
  | true =>
    dsimp only [compoundOp, if_true]
    refine (does_matchOther (by nofun)).after ?_
    rw [if_neg Bool.false_ne_true]
    refine (does_matchToken rfl _).after ?_
    rw [if_pos rfl]
    exact leads_parsePostfix exact true x
  | false =>
    dsimp only [compoundOp, Bool.false_eq_true, if_false]
    refine (does_matchOther (by nofun)).after ?_
    rw [if_neg Bool.false_ne_true]
    refine (does_matchOther (by nofun)).after ?_
    rw [if_neg Bool.false_ne_true]
    refine (does_matchToken rfl _).after ?_
    rw [if_pos rfl]
    exact leads_parsePostfix exact false x

end Assignments

/-! ### Expressions -/

section Expressions

variable {self : Knot ν} {min : Nat} {e : Expr}

lemma Expr.Fits.mono {min min' : Nat} {e : Expr} (h : e.Fits min') (le : min ≤ min') : e.Fits min := by
  cases e with
  | neg | not | binary | and | or | assign | update => exact ⟨le.trans h.1, h.2⟩
  | step => exact le.trans h
  | _ => exact h

/-- A name at the beginning may be assigned only where everything may stand. -/
lemma canAssign {min : Nat} (h : min ≤ precAssign) : decide (min ≤ precAssign) = true := decide_eq_true h

/-- Down the left spine of an expression. -/
lemma stage (exact : ExactNumerals ν) (parses : Parses self) {min : Nat} (low : 0 < min) {e : Expr}
    (fits : e.Fits min) :
    Stage self min e := by
  induction e generalizing min with
  | number text => exact .operand rfl rfl rfl fun _ _ => leads_parseNumber exact fits
  | string q content =>
    cases q <;> exact .operand rfl rfl rfl fun _ _ => leads_parseStringLiteral exact _ content
  | null => exact .operand rfl rfl rfl fun _ _ => leads_parseLiteral (by decide) fun _ => .null
  | bool b =>
    cases b with
    | true => exact .operand rfl rfl rfl fun _ _ => leads_parseLiteral (by decide) fun _ => .bool
    | false => exact .operand rfl rfl rfl fun _ _ => leads_parseLiteral (by decide) fun _ => .bool
  | name x => exact .operand rfl rfl rfl fun stops _ => leads_parseVariableExpr_name exact x _ stops
  | paren e ih =>
    obtain ⟨t, ts, operand, tokens, mask, -⟩ := ih Nat.one_pos fits
    refine .operand rfl rfl rfl fun _ _ => ?_
    rw [List.append_assoc]
    exact leads_parseGrouping parses fits tokens mask
  | neg e _ =>
    exact .operand rfl rfl rfl fun stops below => leads_parseUnary parses rfl rfl (fun _ _ => .neg) fits.2 stops below
  | not e _ =>
    exact .operand rfl rfl rfl fun stops below => leads_parseUnary parses rfl rfl (fun _ _ => .not) fits.2 stops below
  | binary o l r ihl _ =>
    obtain ⟨tight, left, right⟩ := fits
    have grows : o.level ≤ o.left := by
      rw [Binary.left]
      split <;> omega
    have rule : infixRule self (min ≤ precAssign) o.type = some (parseBinary self) := by
      rcases o with o | o <;> cases o <;> rfl
    have stops : prolongs o.type = false := by rcases o with o | o <;> cases o <;> rfl
    exact .operator rfl (ihl low (left.mono (tight.trans grows))) rule low stops tight left.edge_left
      fun stops below holds => leads_parseBinary parses o right stops below holds
  | and l r ihl _ =>
    obtain ⟨tight, left, right⟩ := fits
    have binds : precAnd < l.edge := Nat.lt_of_lt_of_le (left.level (by decide)) l.level_le_edge
    exact .operator rfl (ihl low (left.mono (tight.trans (Nat.le_succ _)))) rfl low rfl tight binds
      fun stops below holds => leads_parseLogical parses rfl (by decide) (by decide) right stops below holds
        fun _ _ _ => .and
  | or l r ihl _ =>
    obtain ⟨tight, left, right⟩ := fits
    have binds : precOr < l.edge := Nat.lt_of_lt_of_le (left.level (by decide)) l.level_le_edge
    exact .operator rfl (ihl low (left.mono (tight.trans (Nat.le_succ _)))) rfl low rfl tight binds
      fun stops below holds => leads_parseLogical parses rfl (by decide) (by decide) right stops below holds
        fun _ _ _ => .or
  | assign x e _ =>
    refine .operand rfl rfl rfl fun stops below => ?_
    rw [canAssign fits.1]
    exact leads_parseVariableExpr_assign exact parses fits.2 stops below
  | update o x e _ =>
    refine .operand rfl rfl rfl fun stops below => ?_
    rw [canAssign fits.1]
    exact leads_parseVariableExpr_update exact parses o fits.2 stops below
  | step up x =>
    refine .operand rfl rfl rfl fun stops below => ?_
    rw [canAssign fits]
    exact leads_parseVariableExpr_step exact up

/-- With any count of calls. -/
lemma parses_knot (exact : ExactNumerals ν) (fuel : Nat) : Parses (knot fuel : Knot ν) := by
  induction fuel with
  | zero => exact fun _ _ _ _ _ => Leads.crash _
  | succ fuel ih =>
    exact fun low high fits stops below => (stage exact ih low fits).parsePrecedence fits high stops below

end Expressions

end Cando.Lang
