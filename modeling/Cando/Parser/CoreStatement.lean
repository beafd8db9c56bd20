import Cando.Parser.CoreExpression

/-!
# Compiling the statements of the core

The parse functions of statements on the tokens of a program of the core: they take these tokens, append code of the
program and report no error, as long as no block has more variables than there is room for. A row of statements is
parsed by a loop that does not know where the row ends; so here, too, the induction over a row carries what the loop
does behind it.
-/

namespace Cando.Lang

open Program CandoParser

variable {ν : Type} [F64 ν]

/-- The statements stand outside of all blocks. -/
def View.top (v : View ν) : Bool := v.depth = 0

/-- Up to the tokens `rest`, the variables `xs` have been declared and code with the property `P` has been appended. -/
def Adds (v : View ν) (rest : List Lexeme) (bs : List UInt8) (pool : List (Value ν)) (xs : List Str)
    (P : Nat → List (Value ν) → List UInt8 → Prop) (wasExpr : Bool) (w : View ν) : Prop :=
  ∃ bs' pool' last width, w = (v.grown width xs wasExpr).moved rest last (bs ++ bs') pool' ∧ pool <+: pool' ∧
    v.width ≤ width ∧ P width pool' bs'

/-- Behind such a token a statement has ended, if it can. -/
def separates (type : CandoTokenType) : Prop := type ≠ .tokElse ∧ type ≠ .tokFinaly

/-- One statement. -/
def Stmt.Single : Stmt → Prop
  | .nil | .seq _ _ => False
  | _ => True

/-- These parse functions compile the programs of the core. -/
structure Translates (fs : Knot ν) : Prop where
  expression : Parses fs
  statement {s : Stmt} {inLoop : Bool} {v : View ν} {rest : List Lexeme} {last : Lexeme} {bs : List UInt8}
    {pool : List (Value ν)} : s.Fits inLoop → s.Single → v.Nested → v.names.length + s.slots v.top ≤ localMax →
    separates (headType rest) → Leads fs.parseStatement (v.moved (s.lexemes ++ rest) last bs pool) fun _ =>
      Adds v rest bs pool (s.declares v.top) (fun width pool => s.Code pool width v.top v.names)
        (s.lastIsExpr v.wasExpr)
  conditional {c : Expr} {s t : Stmt} {inLoop : Bool} {v : View ν} {rest : List Lexeme} {last : Lexeme}
    {bs : List UInt8} {pool : List (Value ν)} : (Stmt.ifElse c s t).Fits inLoop → v.Nested →
    v.names.length + (Stmt.ifElse c s t).slots v.top ≤ localMax → separates (headType rest) →
    Leads fs.parseIf (v.moved ((Stmt.ifElse c s t).lexemes.tail ++ rest) last bs pool) fun _ w =>
      ∃ b, Adds v rest bs pool [] (fun width pool => (Stmt.ifElse c s t).Code pool width v.top v.names) b w

/-! ### Tokens at the beginning -/

/-- The tokens with which an expression of the core begins. -/
def startsExpr : CandoTokenType → Bool
  | .tokNumber | .tokStringDq | .tokStringSq | .tokStringBt | .tokNullKw | .tokTrueKw | .tokFalseKw | .tokIdent
  | .tokLparen | .tokMinus | .tokBang => true
  | _ => false

lemma Expr.starts (e : Expr) : ∃ t ts, e.lexemes = t :: ts ∧ startsExpr t.type = true := by
  induction e with
  | number | null | name | paren | neg | not | assign | update | step => exact ⟨_, _, rfl, rfl⟩
  | string q content => cases q <;> exact ⟨_, _, rfl, rfl⟩
  | bool b => cases b <;> exact ⟨_, _, rfl, rfl⟩
  | binary _ _ _ ih | and _ _ ih | or _ _ ih =>
    obtain ⟨t, ts, tokens, starts⟩ := ih
    exact ⟨t, ts ++ _, by rw [Expr.lexemes, tokens]; rfl, starts⟩

/-- The tokens with which a statement of the core begins. -/
def startsStmt (type : CandoTokenType) : Bool :=
  startsExpr type || [.tokSemi, .tokVar, .tokLbrace, .tokIf, .tokWhile, .tokBreak, .tokContinue, .tokTry,
    .tokThrow].contains type

lemma startsStmt_ne {type other : CandoTokenType} (h : startsStmt type = true) (not : startsStmt other = false) :
    type ≠ other := by
  rintro rfl
  rw [h] at not
  cases not

lemma Stmt.Single.starts {s : Stmt} (single : s.Single) (rest : List Lexeme) :
    startsStmt (headType (s.lexemes ++ rest)) = true := by
  cases s with
  | nil | seq => exact single.elim
  | expr e =>
    obtain ⟨t, ts, tokens, starts⟩ := e.starts
    rw [lexemes, tokens]
    exact (congrArg (· || _) starts).trans rfl
  | _ => rfl

lemma Stmt.Single.separates {s : Stmt} (single : s.Single) (rest : List Lexeme) :
    separates (headType (s.lexemes ++ rest)) :=
  ⟨startsStmt_ne (single.starts rest) rfl, startsStmt_ne (single.starts rest) rfl⟩

lemma Stmt.separates_append (s : Stmt) {rest : List Lexeme} (h : separates (headType rest)) :
    separates (headType (s.lexemes ++ rest)) := by
  induction s generalizing rest with
  | nil => exact h
  | seq s t ihs iht =>
    rw [lexemes, List.append_assoc]
    exact ihs (iht h)
  | _ =>
    refine Stmt.Single.separates ?_ rest
    trivial

/-! ### Rows of statements -/

section Rows

variable {self : Knot ν} {v : View ν} {rest : List Lexeme} {last : Lexeme} {bs : List UInt8} {pool : List (Value ν)}

/-- What has been appended is code with the property. -/
lemma Leads.adds {m : Parse ν Unit} {xs : List Str} {P : Nat → List (Value ν) → List UInt8 → Prop} {w : View ν}
    {width : Nat} {wasExpr : Bool} {bs' bs'' : List UInt8} {pool' : List (Value ν)}
    (h : Does m w () ((v.grown width xs wasExpr).moved rest last bs'' pool')) (all : bs'' = bs ++ bs')
    (more : pool <+: pool') (wider : v.width ≤ width) (holds : P width pool' bs') :
    Leads m w fun _ w => ∃ b, Adds v rest bs pool xs P b w :=
  h.mono fun _ _ ⟨_, view⟩ => ⟨wasExpr, bs', pool', last, width, all ▸ view, more, wider, holds⟩

lemma Leads.keeps {m : Parse ν Unit} {P : Nat → List (Value ν) → List UInt8 → Prop} {w : View ν}
    {bs' bs'' : List UInt8} {pool' : List (Value ν)} (h : Does m w () (v.moved rest last bs'' pool'))
    (all : bs'' = bs ++ bs') (more : pool <+: pool') (holds : P v.width pool' bs') :
    Leads m w fun _ w => ∃ b, Adds v rest bs pool [] P b w :=
  (show Does m w () ((v.grown v.width [] v.wasExpr).moved rest last bs'' pool') from h).adds all more (Nat.le_refl _)
    holds

lemma Adds.refl : Adds v rest bs pool [] (fun width pool => Stmt.nil.Code pool width v.top v.names) v.wasExpr
    (v.moved rest last bs pool) :=
  ⟨[], pool, last, v.width, by rw [List.append_nil]; rfl, List.prefix_refl _, Nat.le_refl _, .nil⟩

/-- A loop over statements whose turns parse the next one before a token with which a statement may begin. -/
def Turns (self : Knot ν) (body : Unit → Parse ν (Unit × Bool)) : Prop :=
  ∀ {v : View ν} {Q : Unit → View ν → Prop}, startsStmt (headType v.ahead) = true → Leads self.parseStatement v Q →
    Leads (body ()) v fun a w => a = ((), true) ∧ Q () w

/-- The loop comes to the end of the row, where it stands before what follows. -/
lemma leads_row (translates : Translates self) {body : Unit → Parse ν (Unit × Bool)} (turns : Turns self body)
    {s : Stmt} {inLoop : Bool} (fits : s.Fits inLoop) (nested : v.Nested)
    (room : v.names.length + s.slots v.top ≤ localMax) (apart : separates (headType rest)) {n : Nat} {k : Parse ν Unit}
    {Q : Unit → View ν → Prop}
    (next : ∀ n w, Adds v rest bs pool (s.declares v.top) (fun width pool => s.Code pool width v.top v.names)
      (s.lastIsExpr v.wasExpr) w → Leads (CandoParser.loop body n () >>= fun _ => k) w Q) :
    Leads (CandoParser.loop body n () >>= fun _ => k) (v.moved (s.lexemes ++ rest) last bs pool) Q := by
  induction s generalizing v rest last bs pool n with
  | nil => exact next n _ Adds.refl
  | seq s t ihs iht =>
    rw [Stmt.lexemes, List.append_assoc]
    have first : v.names.length + s.slots v.top ≤ localMax :=
      Nat.le_trans (Nat.add_le_add_left (Nat.le_max_left _ _) _) room
    refine ihs fits.1 nested first (t.separates_append apart) fun n w added => ?_
    obtain ⟨bs₁, pool₁, last₁, width₁, rfl, more₁, wider₁, code₁⟩ := added
    refine iht fits.2 (nested.grown _ _ _) ?_ apart fun n w added => ?_
    · rw [grown_names, List.length_append, Nat.add_comm (s.declares v.top).length, Nat.add_assoc]
      exact Nat.le_trans (Nat.add_le_add_left (Nat.le_max_right _ _) _) room
    obtain ⟨bs₂, pool₂, last₂, width₂, rfl, more₂, wider₂, code₂⟩ := added
    refine next n _ ⟨bs₁ ++ bs₂, pool₂, last₂, width₂, ?_, more₁.trans more₂, wider₁.trans wider₂,
      .seq (code₁.mono more₂ wider₂) (grown_names (v := v) ▸ code₂)⟩
    rw [grown_grown, List.append_assoc]
    rfl
  | _ =>
    cases n with
    | zero => exact (Leads.crash (Q := fun _ _ => False) _).bind fun _ _ h => h.elim
    | succ n =>
      rw [CandoParser.loop, bind_assoc]
      refine (turns (Stmt.Single.starts ?_ rest)
        (translates.statement fits ?_ nested room apart)).bind fun a w turned => ?_
      · trivial
      · trivial
      obtain ⟨again, added⟩ := turned
      rw [again]
      exact next n w added

lemma turns_blockStatements : Turns self (fun _ => do
    let p ← get
    if p.current.type = .tokRbrace ∨ p.current.type = .tokEof then return ((), false)
    else
      self.parseStatement
      return ((), true)) := by
  intro v Q starts leads
  refine Leads.get fun p s => ?_
  rw [s.ahead.current]
  refine Leads.ite (fun ends => ?_) fun _ => leads.bind fun _ w holds => Leads.pure ⟨rfl, holds⟩
  obtain e | e := ends
  · exact absurd e (startsStmt_ne starts rfl)
  · exact absurd e (startsStmt_ne starts rfl)

/-- A block, whose variables are gone behind it. -/
lemma leads_parseBlock (translates : Translates self) {s : Stmt} {inLoop : Bool} (fits : s.Fits inLoop)
    (nested : v.Nested) (room : v.names.length + s.slots v.top ≤ localMax) :
    Leads (parseBlock self) (v.moved (s.lexemes ++ fixed .tokRbrace :: rest) last bs pool) fun _ =>
      Adds v rest bs pool (s.declares v.top) (fun width pool => s.Code pool width v.top v.names)
        (s.lastIsExpr v.wasExpr) := by
  have apart : separates (headType (fixed .tokRbrace :: rest)) := ⟨by rintro ⟨⟩, by rintro ⟨⟩⟩
  refine leads_row translates turns_blockStatements fits nested room apart fun n w added => ?_
  obtain ⟨bs', pool', last', width, rfl, more, wider, code⟩ := added
  cases n with
  | zero => exact (Leads.crash (Q := fun _ _ => False) _).bind fun _ _ h => h.elim
  | succ n =>
    rw [CandoParser.loop, bind_assoc, bind_assoc]
    refine Leads.get fun p s => ?_
    rw [if_pos (.inl s.ahead.current), pure_bind]
    dsimp only
    rw [if_neg Bool.false_ne_true, pure_bind]
    exact (does_consume rfl _ rest).mono fun _ _ view => ⟨bs', pool', _, width, view.2, more, wider, code⟩

lemma leads_scopedBlock (translates : Translates self) {s : Stmt} {inLoop : Bool} (fits : s.Fits inLoop)
    (nested : v.Nested) (room : v.names.length + s.slots false ≤ localMax) :
    Leads (scopedBlock self) (v.moved (s.lexemes ++ fixed .tokRbrace :: rest) last bs pool) fun _ w =>
      ∃ b, Adds v rest bs pool [] (fun width pool => s.Code pool width false v.names) b w := by
  have inside : v.inner.top = false := decide_eq_false (by have := nested.depth; show ¬ v.depth + 1 = 0; omega)
  refine does_scopeBegin.after ?_
  refine (leads_parseBlock translates fits nested.inner (inside.symm ▸ room)).bind fun _ w added => ?_
  obtain ⟨bs', pool', last', width, rfl, more, wider, code⟩ := added
  rw [inside] at code
  exact (does_scopeEnd nested _ _ _).mono fun _ _ ⟨_, view⟩ => ⟨_, bs', pool', last', width, view, more, wider, code⟩

end Rows

/-! ### Lists of one -/

section Lists

variable {self : Knot ν} {α : Type} {v w : View ν} {rest : List Lexeme} {last : Lexeme} {bs : List UInt8}
  {pool : List (Value ν)}

lemma leads_doCommaLoop_once {f : α → Parse ν (α × Bool)} {a a' : α} {Q : View ν → Prop} (turns : Nat)
    (h : Leads (f a) v fun r w => r = (a', true) ∧ headType w.ahead ≠ .tokComma ∧ Q w) :
    Leads (doCommaLoop f turns a) v fun r w => r = a' ∧ Q w := by
  cases turns with
  | zero => exact Leads.crash _
  | succ turns =>
    rw [doCommaLoop, CandoParser.loop, bind_assoc]
    refine h.bind fun r w comes => ?_
    obtain ⟨value, other, holds⟩ := comes
    rw [value]
    dsimp only
    rw [if_pos rfl, bind_assoc]
    refine (does_matchOther other).after ?_
    rw [pure_bind]
    dsimp only
    rw [if_neg Bool.false_ne_true]
    exact Leads.pure ⟨rfl, holds⟩

lemma leads_commaLoop_none {f : α → Parse ν (α × Bool)} {a : α} (turns : Nat) (other : headType v.ahead ≠ .tokComma) :
    Does (commaLoop f turns a) v a v := by
  cases turns with
  | zero => exact Leads.crash _
  | succ turns =>
    rw [commaLoop, CandoParser.loop, bind_assoc]
    refine (does_matchOther other).after ?_
    rw [if_neg Bool.false_ne_true, pure_bind]
    exact Leads.pure ⟨rfl, rfl⟩

lemma leads_declaredName (x : Str) :
    Leads (declaredName [] : Parse ν (List Str × Bool)) (v.moved (ident x :: fixed .tokAssign :: rest) last bs pool)
      fun r w => r = ([x], true) ∧ headType w.ahead ≠ .tokComma ∧
        w = v.moved (fixed .tokAssign :: rest) (ident x) bs pool := by
  refine (does_consume rfl _ _).after (Leads.ite (fun full => absurd full (by decide)) fun _ => ?_)
  refine does_previousText.after ?_
  show Leads (store maxMultiVars [] x >>= fun names => pure (names, true)) _ _
  rw [store, if_pos (by decide), pure_bind]
  exact Leads.pure ⟨rfl, by rintro ⟨⟩, rfl⟩

/-- An expression in a list that ends behind it. -/
lemma leads_initialiser (parses : Parses self) {e : Expr} (fits : e.Fits precAssign) :
    Leads (initialiser self 0) (v.moved (e.lexemes ++ fixed .tokSemi :: rest) last bs pool) fun r w =>
      r = (1, true) ∧ headType w.ahead ≠ .tokComma ∧
        Appends v (fixed .tokSemi :: rest) bs pool (fun pool => e.Code pool v.names) w := by
  refine does_setCall.after (does_setMultiPush.after ?_)
  have stops : prolongs (headType (fixed .tokSemi :: rest)) = false := rfl
  refine (parses Nat.one_pos (by decide) fits stops Nat.one_pos).append
    fun last bs' pool' more holds => ?_
  refine Leads.get fun p s => ?_
  rw [s.noCall, s.single]
  exact Leads.pure ⟨rfl, nofun, bs', pool', last, rfl, more, holds⟩

lemma leads_initialisers (parses : Parses self) {e : Expr} (fits : e.Fits precAssign) :
    Leads (initialisers self 1) (v.moved (fixed .tokAssign :: (e.lexemes ++ fixed .tokSemi :: rest)) last bs pool)
      fun _ => Appends v (fixed .tokSemi :: rest) bs pool fun pool => e.Code pool v.names := by
  refine (does_matchToken rfl _).after ?_
  rw [if_pos rfl]
  refine does_deeper.after ?_
  refine (leads_doCommaLoop_once _ (leads_initialiser parses fits)).bind fun count w ⟨one, added⟩ => ?_
  obtain ⟨bs', pool', last', rfl, more, holds⟩ := added
  refine does_shallower.after (Leads.get fun p s => ?_)
  rw [s.noCall, one]
  exact Leads.pure ⟨bs', pool', last', rfl, more, holds⟩

lemma leads_defineAll (exact : ExactNumerals ν) {x : Str} {e : Expr} (nested : v.Nested) {bs' : List UInt8}
    (room : v.names.length + (Stmt.declare x e).slots v.top ≤ localMax) {first : List (Value ν)}
    (more : first <+: pool) (holds : e.Code pool v.names bs') :
    Leads (defineAll false [x]) (v.moved rest last (bs ++ bs') pool) fun _ w =>
      ∃ b, Adds v rest bs first ((Stmt.declare x e).declares v.top)
        (fun width pool => (Stmt.declare x e).Code pool width v.top v.names) b w := by
  refine Leads.get fun p s => ?_
  rw [show p.scopeDepth = v.depth from s.depth]
  refine Leads.ite (fun inside => ?_) fun outside => ?_
  · have block : v.top = false := decide_eq_false (by omega)
    have length : v.names.length = v.locals.length := List.length_map _
    rw [block] at room ⊢
    refine (does_declareLocal x (length ▸ room)).after ?_
    refine (does_emitOpA rfl v.names.length).after (Leads.pure ?_)
    refine ⟨v.wasExpr, _, pool, last, _, congrArg (View.moved _ rest last · pool) (List.append_assoc _ _ _), more,
      Nat.le_max_left _ _, .local holds (Nat.le_max_right _ _)⟩
  · have global : v.top = true := decide_eq_true (by have := nested.depth; omega)
    rw [global]
    refine (leads_strConst exact x).bind fun ci w ⟨pool', view, more', name⟩ => ?_
    rw [view]
    refine (does_emitFitting rfl name.2).after (Leads.pure ?_)
    exact ⟨v.wasExpr, _, pool', last, v.width, congrArg (v.moved rest last · pool') (List.append_assoc _ _ _),
      more.trans more', Nat.le_refl _, .global (holds.mono more') name⟩

lemma leads_parseVarDecl (exact : ExactNumerals ν) (parses : Parses self) {x : Str} {e : Expr}
    (fits : e.Fits precAssign) (nested : v.Nested)
    (room : v.names.length + (Stmt.declare x e).slots v.top ≤ localMax) :
    Leads (parseVarDecl self false)
      (v.moved (ident x :: fixed .tokAssign :: (e.lexemes ++ fixed .tokSemi :: rest)) last bs pool) fun _ w =>
      ∃ b, Adds v rest bs pool ((Stmt.declare x e).declares v.top)
        (fun width pool => (Stmt.declare x e).Code pool width v.top v.names) b w := by
  refine (leads_doCommaLoop_once _ (leads_declaredName x)).bind fun names w ⟨one, view⟩ => ?_
  rw [one, view]
  refine (leads_initialisers parses fits).append fun last bs' pool' more holds => ?_
  refine (does_consume rfl _ rest).after ?_
  exact leads_defineAll exact nested room more holds

end Lists

/-! ### Conditionals and loops -/

section Control

variable {self : Knot ν} {v : View ν} {rest : List Lexeme} {last : Lexeme} {bs : List UInt8} {pool : List (Value ν)}
  {c : Expr} {s t : Stmt} {inLoop : Bool}

/-- The code of a conditional is the same outside of all blocks. -/
lemma Stmt.Code.ofIf {width : Nat} {top top' : Bool} {names : List Str}
    (h : (Stmt.ifElse c s t).Code pool width top names bs) : (Stmt.ifElse c s t).Code pool width top' names bs := by
  cases h with
  | ifElse hc hs ht => exact .ifElse hc hs ht

/-- The tokens behind the first branch of a conditional. -/
def elseLexemes (t : Stmt) : List Lexeme := if t = .nil then [] else fixed .tokElse :: t.lexemes

lemma leads_parseElse (translates : Translates self) (fits : t.Fits inLoop) (alternative : t.Alternative)
    (nested : v.Nested) (room : v.names.length + t.slots false ≤ localMax) (apart : separates (headType rest)) :
    Leads (parseElse self) (v.moved (elseLexemes t ++ rest) last bs pool) fun _ w =>
      ∃ b, Adds v rest bs pool [] (fun width pool => t.Code pool width false v.names) b w := by
  cases t with
  | nil =>
    refine (does_matchOther apart.1).after ?_
    rw [if_neg Bool.false_ne_true]
    refine Leads.pure ⟨v.wasExpr, [], pool, last, v.width, ?_, List.prefix_refl _, Nat.le_refl _, .nil⟩
    rw [List.append_nil]
    rfl
  | block b =>
    have tokens : elseLexemes (.block b) ++ rest =
        fixed .tokElse :: fixed .tokLbrace :: (b.lexemes ++ fixed .tokRbrace :: rest) := by
      show _ :: _ :: ((b.lexemes ++ [_]) ++ rest) = _
      rw [List.append_assoc]
      rfl
    rw [tokens]
    refine (does_matchToken rfl _).after ?_
    rw [if_pos rfl]
    refine (does_matchOther (by nofun)).after ?_
    rw [if_neg Bool.false_ne_true]
    refine (does_consume rfl _ _).after ?_
    refine (leads_scopedBlock translates (s := b) fits nested room).mono ?_
    rintro _ _ ⟨b', bs', pool', last', width, view, more, wider, code⟩
    exact ⟨b', bs', pool', last', width, view, more, wider, .block code⟩
  | ifElse c s t =>
    refine (does_matchToken rfl _).after ?_
    rw [if_pos rfl]
    refine (does_matchToken rfl _).after ?_
    rw [if_pos rfl]
    refine (translates.conditional fits nested ?_ apart).mono ?_
    · exact room
    · rintro _ _ ⟨b', bs', pool', last', width, view, more, wider, code⟩
      exact ⟨b', bs', pool', last', width, view, more, wider, code.ofIf⟩
  | _ => exact alternative.elim

lemma leads_parseIf (translates : Translates self) (fits : (Stmt.ifElse c s t).Fits inLoop) (nested : v.Nested)
    (room : v.names.length + (Stmt.ifElse c s t).slots v.top ≤ localMax) (apart : separates (headType rest)) :
    Leads (parseIf self) (v.moved ((Stmt.ifElse c s t).lexemes.tail ++ rest) last bs pool) fun _ w =>
      ∃ b, Adds v rest bs pool [] (fun width pool => (Stmt.ifElse c s t).Code pool width v.top v.names) b w := by
  obtain ⟨fitsC, fitsS, fitsT, alternative⟩ := fits
  have roomS : v.names.length + s.slots false ≤ localMax :=
    Nat.le_trans (Nat.add_le_add_left (Nat.le_max_left _ _) _) room
  have roomT : v.names.length + t.slots false ≤ localMax :=
    Nat.le_trans (Nat.add_le_add_left (Nat.le_max_right _ _) _) room
  have tokens : (Stmt.ifElse c s t).lexemes.tail ++ rest =
      c.lexemes ++ fixed .tokLbrace :: (s.lexemes ++ fixed .tokRbrace :: (elseLexemes t ++ rest)) := by
    simp only [Stmt.lexemes, List.tail_cons, List.append_assoc, List.cons_append, elseLexemes]
  rw [tokens]
  have stops (rest : List Lexeme) : prolongs (headType (fixed .tokLbrace :: rest)) = false := rfl
  refine (translates.expression Nat.one_pos (by decide) fitsC (stops _) Nat.one_pos).append
    fun _ bc pool₁ more₁ codeC => ?_
  refine (does_consume rfl _ _).after ?_
  refine (does_emitJump rfl).after ((does_emitOp rfl).after ?_)
  refine (leads_scopedBlock translates fitsS nested roomS).bind fun _ w added => ?_
  obtain ⟨b₁, b1, pool₂, last₂, width₁, rfl, more₂, wider₁, codeS⟩ := added
  refine (does_emitJump rfl).after ?_
  have toElse : (code .pop 0 0 ++ (b1 ++ code .jump 0x7FFF 0)).length = (1 : Int) + (b1.length + 3) := by
    simp only [List.length_append, code_length, Nat.cast_add]
    rfl
  refine (does_patchJump .jumpIfFalse 0x7FFF (bs ++ bc) rfl ?_ rfl toElse).after ?_
  · simp only [List.append_assoc]
  refine (does_emitOp rfl).after ?_
  have nested₁ := nested.grown width₁ [] b₁
  refine (leads_parseElse translates fitsT alternative nested₁ roomT apart).bind fun _ w added => ?_
  obtain ⟨b₂, b2, pool₃, last₃, width₂, rfl, more₃, wider₂, codeT⟩ := added
  have toEnd : (code .pop 0 0 ++ b2).length = (1 : Int) + b2.length := by
    simp only [List.length_append, code_length, Nat.cast_add]
    rfl
  refine .adds (does_patchJump .jump 0x7FFF (bs ++ (bc ++
    (code .jumpIfFalse (toU16 (1 + (b1.length + 3))) 0 ++ (code .pop 0 0 ++ b1)))) rfl ?_ ?_ toEnd) ?_
    (more₁.trans (more₂.trans more₃)) (wider₁.trans wider₂)
    (.ifElse (codeC.mono (more₂.trans more₃)) (codeS.mono more₃ wider₂) codeT)
  · simp only [List.append_assoc]
  · simp only [List.length_append, code_length, Nat.add_assoc]
    rfl
  · simp only [List.append_assoc]

lemma leads_parseWhile (translates : Translates self) (fits : (Stmt.whileLoop c s).Fits inLoop) (nested : v.Nested)
    (room : v.names.length + (Stmt.whileLoop c s).slots v.top ≤ localMax) :
    Leads (parseWhile self) (v.moved ((Stmt.whileLoop c s).lexemes.tail ++ rest) last bs pool) fun _ w =>
      ∃ b, Adds v rest bs pool [] (fun width pool => (Stmt.whileLoop c s).Code pool width v.top v.names) b w := by
  obtain ⟨fitsC, fitsS⟩ := fits
  have tokens : (Stmt.whileLoop c s).lexemes.tail ++ rest =
      c.lexemes ++ fixed .tokLbrace :: (s.lexemes ++ fixed .tokRbrace :: rest) := by
    simp only [Stmt.lexemes, List.tail_cons, List.append_assoc, List.cons_append, List.nil_append]
  rw [tokens]
  refine does_codeLen.after ?_
  have start (ts : List Lexeme) : (v.moved ts last bs pool).code.length = v.code.length + bs.length :=
    List.length_append
  rw [start]
  have stops (rest : List Lexeme) : prolongs (headType (fixed .tokLbrace :: rest)) = false := rfl
  refine (translates.expression Nat.one_pos (by decide) fitsC (stops _) Nat.one_pos).append
    fun _ bc pool₁ more₁ codeC => ?_
  refine (does_consume rfl _ _).after ?_
  refine (does_emitJump rfl).after ((does_emitOp rfl).after ?_)
  have back : (bc ++ (code .jumpIfFalse 0x7FFF 0 ++ code .pop 0 0)).length + (5 : Int) = bc.length + (3 + (1 + 5)) := by
    simp only [List.length_append, code_length, Nat.cast_add, add_assoc]
    rfl
  refine (does_emitLoopMark bs (bc ++ (code .jumpIfFalse 0x7FFF 0 ++ code .pop 0 0)) ?_ rfl
    back).after ?_
  · simp only [List.append_assoc]
  refine (leads_scopedBlock translates fitsS nested room).bind fun _ w added => ?_
  obtain ⟨b, bb, pool₂, last₂, width, rfl, more₂, wider, codeS⟩ := added
  refine (does_emitOp rfl).after ?_
  let mark := toU16 (bc.length + (3 + (1 + 5))) % 16384
  have turn : (bc ++ (code .jumpIfFalse 0x7FFF 0 ++ (code .pop 0 0 ++ (code .loopMark 0 mark ++
      (bb ++ code .loopEnd 0 0))))).length + (3 : Int) = bc.length + (3 + (1 + (5 + (bb.length + (1 + 3))))) := by
    simp only [List.length_append, code_length, Nat.cast_add, add_assoc]
    rfl
  refine (does_emitLoop bs (bc ++ (code .jumpIfFalse 0x7FFF 0 ++ (code .pop 0 0 ++
    (code .loopMark 0 mark ++ (bb ++ code .loopEnd 0 0))))) ?_ rfl turn).after ?_
  · simp only [List.append_assoc, mark]
  let jump := code .loop (toU16 (bc.length + (3 + (1 + (5 + (bb.length + (1 + 3))))))) 0
  have toEnd : (code .pop 0 0 ++ (code .loopMark 0 mark ++ (bb ++ (code .loopEnd 0 0 ++ jump)))).length =
      (1 : Int) + (5 + (bb.length + (1 + 3))) := by
    simp only [List.length_append, code_length, Nat.cast_add, jump]
    rfl
  refine (does_patchJump .jumpIfFalse 0x7FFF (bs ++ bc) rfl ?_ rfl toEnd).after ?_
  · simp only [List.append_assoc, mark, jump]
  refine (does_emitOp rfl).after ?_
  have behind : (bb ++ (code .loopEnd 0 0 ++ (jump ++ code .pop 0 0))).length = (bb.length : Int) + (1 + (3 + 1)) := by
    simp only [List.length_append, code_length, Nat.cast_add, jump]
    rfl
  refine .adds (does_patchLoopMarkBreak mark
    (bs ++ (bc ++ (code .jumpIfFalse (toU16 (1 + (5 + (bb.length + (1 + 3))))) 0 ++ code .pop 0 0)))
    ?_ ?_ behind) ?_ (more₁.trans more₂) wider (.whileLoop (codeC.mono more₂) codeS)
  · simp only [List.append_assoc]
  · simp only [List.length_append, code_length, Nat.add_assoc]
    rfl
  · simp only [List.append_assoc, mark, jump]

end Control

/-! ### Errors -/

section Errors

variable {self : Knot ν} {v : View ν} {rest : List Lexeme} {last : Lexeme} {bs : List UInt8} {pool : List (Value ν)}
  {e : Expr} {x : Str} {s h : Stmt} {inLoop : Bool}

/-- The parameter of a CATCH is the first variable of its block. -/
lemma leads_catchClause (translates : Translates self) (fits : h.Fits inLoop) (nested : v.Nested)
    (room : v.names.length + (1 + h.slots false) ≤ localMax) :
    Leads (catchClause self) (v.moved (fixed .tokCatch :: fixed .tokLparen :: ident x :: fixed .tokRparen ::
      fixed .tokLbrace :: (h.lexemes ++ fixed .tokRbrace :: rest)) last bs pool) fun _ w =>
      ∃ b, Adds v rest bs pool [] (fun width pool code' => v.names.length < width ∧ ∃ bh,
        code' = code .catchBegin 1 0 ++ (code .defLocal (v.names.length % 65536) 0 ++ bh) ∧
          h.Code pool width false (x :: v.names) bh) b w := by
  have inside : v.inner.top = false := decide_eq_false (by have := nested.depth; show ¬ v.depth + 1 = 0; omega)
  refine (does_consume rfl _ _).after ((does_consume rfl _ _).after ?_)
  have param : Does (catchParam [] : Parse ν (List Str)) (v.moved (ident x :: fixed .tokRparen ::
      fixed .tokLbrace :: (h.lexemes ++ fixed .tokRbrace :: rest)) (fixed .tokLparen) bs pool) [x]
      (v.moved (fixed .tokRparen :: fixed .tokLbrace :: (h.lexemes ++ fixed .tokRbrace :: rest)) (ident x) bs
        pool) := by
    refine (does_consume rfl _ _).after (does_previousText.after ?_)
    rw [store, if_pos (by decide)]
    exact Leads.pure ⟨rfl, rfl⟩
  refine param.after ((leads_commaLoop_none _ (by rintro ⟨⟩)).after ?_)
  refine (does_consume rfl _ _).after ((does_consume rfl _ _).after ?_)
  refine does_scopeBegin.after ((does_emitFitting rfl (show 1 < 65536 by decide)).after ?_)
  have length : v.names.length = v.locals.length := List.length_map _
  have declared : Does (defineLocals [x] : Parse ν Unit) (v.inner.moved (h.lexemes ++ fixed .tokRbrace :: rest)
      (fixed .tokLbrace) (bs ++ code .catchBegin 1 0) pool) ()
      ((v.inner.grown (max v.width (v.names.length + 1)) [x] v.wasExpr).moved (h.lexemes ++ fixed .tokRbrace :: rest)
        (fixed .tokLbrace) (bs ++ code .catchBegin 1 0 ++ code .defLocal (v.names.length % 65536) 0) pool) := by
    refine (does_declareLocal x ?_).after ((does_emitOpA rfl v.names.length).after (Leads.pure ⟨rfl, rfl⟩))
    show v.locals.length < localMax
    rw [← length]
    exact Nat.lt_of_lt_of_le (Nat.lt_add_of_pos_right (Nat.lt_of_lt_of_le Nat.one_pos (Nat.le_add_right 1 _))) room
  refine declared.after ?_
  have nested' := nested.inner.grown (max v.width (v.names.length + 1)) [x] v.wasExpr
  refine (leads_parseBlock translates fits nested' ?_).bind fun _ w added => ?_
  · rw [grown_names]
    show (v.names.length + 1) + h.slots v.inner.top ≤ localMax
    rw [inside, Nat.add_assoc]
    exact room
  obtain ⟨bh, pool', last', width, rfl, more, wider, code'⟩ := added
  rw [grown_names] at code'
  rw [grown_grown]
  refine .adds (does_scopeEnd nested width _ _) ?_ more ((Nat.le_max_left _ _).trans wider)
    ⟨Nat.lt_of_lt_of_le (Nat.lt_succ_self _) ((Nat.le_max_right _ _).trans wider), bh, rfl, ?_⟩
  · simp only [List.append_assoc]
  · exact inside ▸ code'

lemma leads_parseTry (translates : Translates self) (fits : (Stmt.tryCatch s x h).Fits inLoop) (nested : v.Nested)
    (room : v.names.length + (Stmt.tryCatch s x h).slots v.top ≤ localMax) (apart : separates (headType rest)) :
    Leads (parseTry self) (v.moved ((Stmt.tryCatch s x h).lexemes.tail ++ rest) last bs pool) fun _ w =>
      ∃ b, Adds v rest bs pool [] (fun width pool => (Stmt.tryCatch s x h).Code pool width v.top v.names) b w := by
  obtain ⟨fitsS, fitsH⟩ := fits
  have roomS : v.names.length + s.slots false ≤ localMax :=
    Nat.le_trans (Nat.add_le_add_left (Nat.le_max_left _ _) _) room
  have roomH : v.names.length + (1 + h.slots false) ≤ localMax :=
    Nat.le_trans (Nat.add_le_add_left (Nat.le_max_right _ _) _) room
  have tokens : (Stmt.tryCatch s x h).lexemes.tail ++ rest =
      fixed .tokLbrace :: (s.lexemes ++ fixed .tokRbrace :: fixed .tokCatch :: fixed .tokLparen :: ident x ::
        fixed .tokRparen :: fixed .tokLbrace :: (h.lexemes ++ fixed .tokRbrace :: rest)) := by
    simp only [Stmt.lexemes, List.tail_cons, List.append_assoc, List.cons_append, List.nil_append]
  rw [tokens]
  refine (does_consume rfl _ _).after ((does_emitJump rfl).after ?_)
  refine (leads_scopedBlock translates fitsS nested roomS).bind fun _ w added => ?_
  obtain ⟨b₁, b1, pool₁, last₁, width₁, rfl, more₁, wider₁, codeS⟩ := added
  refine (does_emitOp rfl).after ((does_emitJump rfl).after ?_)
  have handler : (b1 ++ (code .tryEnd 0 0 ++ code .jump 0x7FFF 0)).length = (b1.length : Int) + (1 + 3) := by
    simp only [List.length_append, code_length, Nat.cast_add]
    rfl
  refine (does_patchJump .tryBegin 0x7FFF bs rfl ?_ rfl handler).after ?_
  · simp only [List.append_assoc]
  have nested₁ := nested.grown width₁ [] b₁
  refine (leads_catchClause translates fitsH nested₁ roomH).bind fun _ w added => ?_
  obtain ⟨b₂, _, pool₂, last₂, width₂, rfl, more₂, wider₂, slot, bh, rfl, codeH⟩ := added
  have skip : (code .catchBegin 1 0 ++ (code .defLocal ((v.grown width₁ [] b₁).names.length % 65536) 0 ++ bh)).length =
      (3 : Int) + (3 + bh.length) := by
    simp only [List.length_append, code_length, Nat.cast_add]
    rfl
  refine (does_patchJump .jump 0x7FFF
    (bs ++ (code .tryBegin (toU16 (b1.length + (1 + 3))) 0 ++ (b1 ++ code .tryEnd 0 0))) rfl ?_ ?_ skip).after ?_
  · simp only [List.append_assoc]
  · simp only [List.length_append, code_length, Nat.add_assoc]
    rfl
  refine (does_matchOther apart.2).after ?_
  rw [if_neg Bool.false_ne_true]
  refine .adds (Leads.pure ⟨rfl, rfl⟩ : Does _ _ () ((v.grown width₂ [] b₂).moved _ _ _ _)) ?_ (more₁.trans more₂)
    (wider₁.trans wider₂)
    (.tryCatch (codeS.mono more₂ wider₂) codeH slot)
  simp only [List.append_assoc]
  rfl

lemma leads_parseThrow (parses : Parses self) (fits : e.Fits precAssign) :
    Leads (CandoParser.parseThrow self) (v.moved (e.lexemes ++ fixed .tokSemi :: rest) last bs pool) fun _ w =>
      ∃ b, Adds v rest bs pool [] (fun width pool => (Stmt.throwValue e).Code pool width v.top v.names) b w := by
  refine does_deeper.after ?_
  have stops : prolongs (headType (fixed .tokSemi :: rest)) = false := rfl
  refine (parses Nat.one_pos (by decide) fits stops Nat.one_pos).append
    fun last bs' pool' more holds => ?_
  refine (leads_commaLoop_none _ (by nofun)).after (does_shallower.after ?_)
  refine (does_consume rfl _ rest).after ?_
  exact .keeps (does_emitFitting rfl (show 1 < 65536 by decide)) (List.append_assoc _ _ _) more (.throwValue holds)

end Errors

/-! ### Statements -/

section Statements

variable {self : Knot ν} {v : View ν} {rest ts : List Lexeme} {last t : Lexeme} {bs : List UInt8}
  {pool : List (Value ν)} {s : Stmt}

lemma leads_skipSemi : Leads (skipSemi : Parse ν Unit) (v.moved (fixed .tokSemi :: rest) last bs pool) fun _ w =>
    w = v.moved rest (fixed .tokSemi) bs pool :=
  (does_matchToken rfl rest).after (Leads.pure rfl)

/-- What parsing a statement behind its first token comes to. -/
def Statement (m : Parse ν Unit) (v w : View ν) (rest : List Lexeme) (bs : List UInt8) (pool : List (Value ν))
    (s : Stmt) : Prop :=
  Leads m w fun _ w => ∃ b, Adds v rest bs pool (s.declares v.top)
    (fun width pool => s.Code pool width v.top v.names) b w

/-- An expression, and what stands behind it up to `rest`. -/
structure EndsExpr (v : View ν) (semi rest : List Lexeme) : Prop where
  stops : prolongs (headType (semi ++ rest)) = false
  below : (headType (semi ++ rest)).precedence < precAssign
  done {last : Lexeme} {bs : List UInt8} {pool : List (Value ν)} :
    Leads (expressionEnd : Parse ν Unit) (v.moved (semi ++ rest) last bs pool) fun _ w =>
      ∃ last, w = v.moved rest last bs pool

lemma endsExpr_semi : EndsExpr v [fixed .tokSemi] rest := by
  refine ⟨rfl, Nat.one_pos, fun {last bs pool} => ?_⟩
  refine Leads.get fun p s => Leads.ite (fun atEnd => ?_) fun _ => ?_
  · have current : p.current.type = .tokSemi := s.ahead.current
    rw [current] at atEnd
    exact absurd atEnd.2 (by decide)
  · exact (does_consume rfl _ rest).mono fun _ _ ⟨_, view⟩ => ⟨_, view⟩

/-- The end of the text, in eval mode. -/
lemma endsExpr_eval (eval : v.eval = true) : EndsExpr v [] [] := by
  refine ⟨rfl, Nat.one_pos, fun {last bs pool} => ?_⟩
  refine Leads.get fun p s => Leads.ite (fun _ => Leads.pure ⟨last, rfl⟩) fun goes => ?_
  exact absurd ⟨(s.eval : p.evalMode = v.eval).trans eval, s.ahead.current⟩ goes

lemma leads_exprStmt (parses : Parses self) {e : Expr} {semi : List Lexeme} (fits : e.Fits precAssign)
    (ends : EndsExpr v semi rest) :
    Statement (parseExprStmt self) v (v.moved (e.lexemes ++ (semi ++ rest)) last bs pool) rest bs pool (.expr e) := by
  refine (parses Nat.one_pos (by decide) fits ends.stops ends.below).append fun last bs' pool' more holds => ?_
  refine ends.done.bind fun _ w ⟨last', view⟩ => ?_
  rw [view]
  exact .keeps (does_emitOp rfl) (List.append_assoc _ _ _) more (.expr holds)

/-- The code of a statement has been appended, and the flag says whether it is an expression. -/
def Dispatched (v : View ν) (rest : List Lexeme) (bs : List UInt8) (pool : List (Value ν)) (s : Stmt) (isExpr : Bool)
    (w : View ν) : Prop :=
  isExpr = s.lastIsExpr false ∧ ∃ b, Adds v rest bs pool (s.declares v.top)
    (fun width pool => s.Code pool width v.top v.names) b w

/-- A statement that begins with a token of its own. -/
lemma leads_dispatch_rule {statement : Parse ν Unit} (tokens : s.lexemes = t :: ts)
    (rule : statementRule self t.type = some statement) (other : t.type ≠ .tokFunction)
    (value : s.lastIsExpr false = false)
    (parsed : Statement statement v (v.moved (ts ++ rest) t bs pool) rest bs pool s) :
    Leads (dispatch self) (v.moved (s.lexemes ++ rest) last bs pool) (Dispatched v rest bs pool s) := by
  rw [tokens]
  refine Leads.get fun p s => ?_
  rw [show p.current.type = t.type from s.ahead.current, if_neg other, rule]
  refine (does_advance t (ts ++ rest)).after ?_
  exact parsed.bind fun _ w added => Leads.pure ⟨value.symm, added⟩

lemma leads_dispatch_expr (parses : Parses self) {e : Expr} {semi : List Lexeme} (fits : e.Fits precAssign)
    (ends : EndsExpr v semi rest) :
    Leads (dispatch self) (v.moved (e.lexemes ++ (semi ++ rest)) last bs pool)
      (Dispatched v rest bs pool (.expr e)) := by
  obtain ⟨t, ts, tokens, starts⟩ := e.starts
  have none : statementRule self t.type = none := by
    cases type : t.type <;> first | rfl | (rw [type] at starts; cases starts)
  have other : t.type ≠ .tokFunction := by
    intro type
    rw [type] at starts
    cases starts
  have parsed : Statement (parseExprStmt self) v (v.moved (e.lexemes ++ (semi ++ rest)) last bs pool) rest bs pool
      (.expr e) := leads_exprStmt parses fits ends
  rw [tokens] at parsed ⊢
  refine Leads.get fun p s => ?_
  rw [show p.current.type = t.type from s.ahead.current, if_neg other, none]
  exact Leads.bind parsed fun _ w added => Leads.pure ⟨rfl, added⟩

lemma leads_dispatch (exact : ExactNumerals ν) (translates : Translates self) {inLoop : Bool} (fits : s.Fits inLoop)
    (single : s.Single) (nested : v.Nested) (room : v.names.length + s.slots v.top ≤ localMax)
    (apart : separates (headType rest)) :
    Leads (dispatch self) (v.moved (s.lexemes ++ rest) last bs pool) (Dispatched v rest bs pool s) := by
  have parses : Parses self := translates.expression
  cases s with
  | nil | seq => exact single.elim
  | empty =>
    refine leads_dispatch_rule rfl rfl nofun rfl ?_
    exact .keeps (Leads.pure ⟨rfl, rfl⟩) (List.append_nil _).symm (List.prefix_refl _) .empty
  | expr e =>
    rw [Stmt.lexemes, List.append_assoc]
    exact leads_dispatch_expr parses fits endsExpr_semi
  | declare x e =>
    refine leads_dispatch_rule rfl rfl nofun rfl ?_
    rw [Statement, List.cons_append, List.cons_append, List.append_assoc]
    exact leads_parseVarDecl exact parses fits nested room
  | block b =>
    refine leads_dispatch_rule rfl rfl nofun rfl ?_
    rw [Statement, List.append_assoc]
    refine (leads_scopedBlock translates (s := b) fits nested room).mono ?_
    rintro _ _ ⟨b', bs', pool', last', width, view, more, wider, code⟩
    exact ⟨b', bs', pool', last', width, view, more, wider, .block code⟩
  | ifElse c s t =>
    exact leads_dispatch_rule rfl rfl nofun rfl (leads_parseIf translates fits nested room apart)
  | whileLoop c s =>
    exact leads_dispatch_rule rfl rfl nofun rfl (leads_parseWhile translates fits nested room)
  | breakLoop =>
    refine leads_dispatch_rule rfl rfl nofun rfl (leads_skipSemi.bind fun _ w view => ?_)
    rw [view]
    exact .keeps (does_emitFitting rfl (by decide)) rfl (List.prefix_refl _) .breakLoop
  | continueLoop =>
    refine leads_dispatch_rule rfl rfl nofun rfl (leads_skipSemi.bind fun _ w view => ?_)
    rw [view]
    exact .keeps (does_emitFitting rfl (by decide)) rfl (List.prefix_refl _) .continueLoop
  | tryCatch s x h =>
    exact leads_dispatch_rule rfl rfl nofun rfl (leads_parseTry translates fits nested room apart)
  | throwValue e =>
    refine leads_dispatch_rule rfl rfl nofun rfl ?_
    rw [Statement, List.append_assoc]
    exact leads_parseThrow parses fits

omit [F64 ν] in
lemma Stmt.Single.lastIsExpr (single : s.Single) (before : Bool) : s.lastIsExpr before = s.lastIsExpr false := by
  cases s with
  | nil | seq => exact single.elim
  | _ => rfl

lemma leads_parseStatement {ts : List Lexeme} (single : s.Single)
    (dispatched : Leads (dispatch self) ({ v with wasExpr := false }.moved ts last bs pool)
      (Dispatched { v with wasExpr := false } rest bs pool s)) :
    Leads (parseStatement self) (v.moved ts last bs pool) fun _ =>
      Adds v rest bs pool (s.declares v.top) (fun width pool => s.Code pool width v.top v.names)
        (s.lastIsExpr v.wasExpr) := by
  have mark {w : View ν} (b : Bool) : Does (Program.modify fun p => { p with lastStmtWasExpr := b } : Parse ν Unit)
      w () { w with wasExpr := b } := Leads.modify fun _ s => { s with wasExpr := rfl }
  refine (mark false).after (dispatched.bind fun isExpr w ⟨value, _, added⟩ => ?_)
  obtain ⟨bs', pool', last', width, rfl, more, wider, code⟩ := added
  refine (mark isExpr).after (Leads.get fun p s => ?_)
  rw [s.noPanic]
  refine Leads.pure ⟨bs', pool', last', width, ?_, more, wider, code⟩
  rw [single.lastIsExpr, ← value]
  rfl

end Statements

/-- With any count of calls. -/
lemma translates_knot (exact : ExactNumerals ν) (fuel : Nat) : Translates (knot fuel : Knot ν) := by
  induction fuel with
  | zero => exact ⟨fun _ _ _ _ _ => Leads.crash _, fun _ _ _ _ _ => Leads.crash _, fun _ _ _ _ => Leads.crash _⟩
  | succ fuel ih =>
    refine ⟨parses_knot exact (fuel + 1), fun fits single nested room apart => ?_, leads_parseIf ih⟩
    exact leads_parseStatement single
      (leads_dispatch exact ih fits single ⟨nested.depth, nested.locals⟩ room apart)

/-! ### Programs -/

section Programs

variable {source : Str} {evalMode : Bool} {ts : List Lexeme} {s : Stmt}

/-- What the parser begins with. -/
def View.start (evalMode : Bool) (ts : List Lexeme) : View ν :=
  ⟨ts, ⟨.tokEof, []⟩, [], [], 0, [], 0, 0, evalMode, false⟩

omit [F64 ν] in
lemma Ahead.ofUpcoming {p : CandoParser ν} (h : Upcoming ts p.lexer) :
    Ahead (nextToken p) ts ∧ nextToken p = { p with current := p.lexer.next.1, lexer := p.lexer.next.2 } := by
  cases ts with
  | nil =>
    have error : p.lexer.next.1.type ≠ .tokError := by
      rw [h.1]
      decide
    rw [nextToken_eq error]
    exact ⟨h.1, rfl⟩
  | cons t ts =>
    obtain ⟨next, proper, source, upcoming⟩ := h
    have error : p.lexer.next.1.type ≠ .tokError := by
      rw [next.type]
      exact proper.1
    rw [nextToken_eq error]
    exact ⟨⟨⟨next.type, next.length, source ▸ next.text⟩, proper, upcoming⟩, rfl⟩

lemma shows_init (h : Upcoming ts { source }) (evalMode : Bool) :
    Shows (init source {} evalMode : CandoParser ν) (View.start evalMode ts) := by
  let eof : CandoToken := ⟨.tokEof, 0, 0, 0, 0⟩
  obtain ⟨ahead, after⟩ := Ahead.ofUpcoming
    (p := ({ lexer := { source }, current := eof, previous := eof, chunk := {}, evalMode } : CandoParser ν)) h
  have start : (init source {} evalMode : CandoParser ν) = _ := after
  rw [← show (init source {} evalMode : CandoParser ν) = nextToken _ from rfl] at ahead
  rw [start] at ahead ⊢
  exact {
    ahead, last := ⟨rfl, rfl, rfl⟩, code := rfl, pool := rfl, width := rfl, locals := rfl, depth := rfl, calls := rfl
    eval := rfl, wasExpr := rfl, noError := rfl, noPanic := rfl, noCall := rfl, noUnpack := rfl, single := rfl
    noPipe := rfl, arity := rfl, narrow := Nat.zero_le _, sound := ⟨Nat.zero_le _, nofun⟩ }

/-- A turn of the loop of `cando_parse`. -/
def programTurn (self : Knot ν) (_ : Unit) : Parse ν (Unit × Bool) := do
  let p ← get
  if p.current.type = .tokEof then return ((), false)
  else
    self.parseStatement
    return ((), true)

lemma turns_program (self : Knot ν) : Turns self (programTurn self) := by
  intro v Q starts leads
  refine Leads.get fun p s => ?_
  rw [s.ahead.current]
  exact Leads.ite (fun e => absurd e (startsStmt_ne starts rfl)) fun _ =>
    leads.bind fun _ w holds => Leads.pure ⟨rfl, holds⟩

/-- The loop ends with the text. -/
lemma leads_programEnd {self : Knot ν} {v : View ν} {last : Lexeme} {bs : List UInt8} {pool : List (Value ν)} (n : Nat)
    {Q : Unit → View ν → Prop} (ends : Leads parseEnd (v.moved [] last bs pool) Q) :
    Leads (CandoParser.loop (programTurn self) n () >>= fun _ => parseEnd) (v.moved [] last bs pool) Q := by
  cases n with
  | zero => exact (Leads.crash (Q := fun _ _ => False) _).bind fun _ _ h => h.elim
  | succ n =>
    rw [CandoParser.loop, bind_assoc, programTurn, bind_assoc]
    refine Leads.get fun p shows => ?_
    have atEnd : p.current.type = .tokEof := shows.ahead.current
    rw [if_pos atEnd, pure_bind]
    dsimp only
    rw [if_neg Bool.false_ne_true, pure_bind]
    exact ends

/-- The statements of a program in the loop of `cando_parse`. -/
lemma leads_candoParse (exact : ExactNumerals ν) (fits : s.Fits false) (room : s.slots true ≤ localMax) (fuel : Nat)
    (apart : separates (headType ts)) {Q : Unit → View ν → Prop}
    (next : ∀ n bs pool last width, s.Code pool width true [] bs →
      Leads (CandoParser.loop (programTurn (knot fuel)) n () >>= fun _ => parseEnd)
        (((View.start evalMode []).grown width [] (s.lastIsExpr false)).moved ts last bs pool) Q) :
    Leads (candoParse (knot fuel)) (View.start evalMode (s.lexemes ++ ts) : View ν) Q := by
  have nested : (View.start evalMode [] : View ν).Nested := ⟨Int.le_refl 0, nofun⟩
  have top : (View.start evalMode [] : View ν).top = true := rfl
  refine leads_row (v := View.start evalMode []) (translates_knot exact fuel) (turns_program _) fits nested
    (Nat.zero_add _ ▸ room) apart fun n w added => ?_
  obtain ⟨bs, pool, last, width, rfl, more, wider, code⟩ := added
  rw [top, Stmt.declares_top]
  exact next n bs pool last width code

/-- What a parse leaves is what it leads to, and it stops short only where every parse may. -/
lemma parse_leads {Q : Unit → View ν → Prop} (h : Upcoming ts { source }) (more : Nat)
    (leads : Leads (candoParse (knot (callsFor source + more))) (View.start evalMode ts : View ν) Q) :
    (parse (callsFor source + more) source evalMode : Outcome (CandoParser ν) Empty Stop Unit).Ends
      (fun a p => ∃ w, Shows p w ∧ Q a w) Allowed := by
  have known := leads _ (shows_init h evalMode)
  have allowed := parse_ends (ν := ν) source evalMode (Nat.le_add_right (callsFor source) more)
  rw [parse] at allowed ⊢
  cases e : candoParse (knot (callsFor source + more)) (init source {} evalMode : CandoParser ν) with
  | ok a p =>
    rw [e] at known
    exact known
  | crash c =>
    rw [e] at allowed
    exact allowed
  | error | exit | enter =>
    rw [e] at known
    exact known.elim

/-- A text whose tokens are those of a program is compiled without an error, unless the constant pool or the code grows
too large. -/
lemma parse_program (exact : ExactNumerals ν) (fits : s.Fits false) (room : s.slots true ≤ localMax)
    (h : Upcoming s.lexemes { source }) (more : Nat) :
    (parse (callsFor source + more) source false : Outcome (CandoParser ν) Empty Stop Unit).Ends
      (fun _ p => p.hadError = false ∧ ScriptOf p.chunk s) Allowed := by
  have leads : Leads (candoParse (knot (callsFor source + more))) (View.start false s.lexemes : View ν) fun _ w =>
      ∃ bs, s.Code w.pool w.width true [] bs ∧ w.code = bs ++ code .halt 0 0 := by
    rw [← List.append_nil s.lexemes]
    refine leads_candoParse exact fits room _ ⟨by decide, by decide⟩ fun n bs pool last width holds => ?_
    refine leads_programEnd n (Leads.get fun p shows => ?_)
    rw [show p.evalMode = false from shows.eval, if_neg Bool.false_ne_true]
    refine (does_emitOp rfl).mono fun _ _ ⟨_, view⟩ => ?_
    rw [view]
    exact ⟨bs, holds, rfl⟩
  refine (parse_leads h more leads).mono ?_ fun _ c => c
  rintro _ p ⟨w, shows, bs, holds, code⟩
  exact ⟨shows.noError, shows.arity, shows.width ▸ shows.narrow, bs, shows.pool ▸ shows.width ▸ holds,
    shows.code.trans code⟩

/-- The end of a text in eval mode whose last statement is an expression. -/
lemma leads_parseEnd_eval {v : View ν} {last : Lexeme} {bs : List UInt8} {pool : List (Value ν)} (eval : v.eval = true)
    (wasExpr : v.wasExpr = true) :
    Does parseEnd (v.moved [] last (bs ++ code .pop 0 0) pool) () (v.moved [] last (bs ++ code .return 1 0) pool) := by
  refine Leads.get fun p shows => ?_
  have pop : code .pop 0 0 = [Opcode.pop.toByte] := rfl
  have atPop : p.chunk.code = v.code ++ bs ++ [Opcode.pop.toByte] := by
    rw [List.append_assoc, ← pop]
    exact shows.code
  have value : p.lastStmtWasExpr ∧ p.chunk.code.getLast? = some Opcode.pop.toByte := by
    refine ⟨(shows.wasExpr : p.lastStmtWasExpr = v.wasExpr).trans wasExpr, ?_⟩
    rw [atPop, List.getLast?_concat]
  have evalMode : p.evalMode = true := (shows.eval : p.evalMode = v.eval).trans eval
  rw [evalMode, if_pos rfl, if_pos value]
  have dropped : Does (Program.modify fun p => { p with chunk := { p.chunk with code := p.chunk.code.dropLast } } :
      Parse ν Unit) (v.moved [] last (bs ++ code .pop 0 0) pool) () (v.moved [] last bs pool) := by
    refine Leads.modify fun q s => { s with code := ?_ }
    show q.chunk.code.dropLast = v.code ++ bs
    rw [show q.chunk.code = v.code ++ (bs ++ code .pop 0 0) from s.code, ← List.append_assoc, pop,
      List.dropLast_concat]
  exact dropped.after (does_emitFitting rfl (show 1 < 65536 by decide))

/-- The last expression of a text in eval mode. -/
lemma leads_evalStatement (exact : ExactNumerals ν) (fuel : Nat) (v : View ν) (last' : Lexeme) (bs : List UInt8)
    (pool : List (Value ν)) (eval : v.eval = true) {e : Expr} (fits : e.Fits precAssign) {semi : List Lexeme}
    (optional : semi = [] ∨ semi = [fixed .tokSemi]) :
    Leads (knot fuel).parseStatement (v.moved (e.lexemes ++ semi) last' bs pool) fun _ =>
      Adds v [] bs pool [] (fun width pool => (Stmt.expr e).Code pool width v.top v.names) true := by
  cases fuel with
  | zero => exact Leads.crash _
  | succ fuel =>
    refine leads_parseStatement (s := .expr e) trivial ?_
    have ends : EndsExpr { v with wasExpr := false } semi [] := by
      obtain rfl | rfl := optional
      · exact endsExpr_eval eval
      · exact endsExpr_semi
    have dispatched : Leads (dispatch (knot fuel)) (View.moved _ (e.lexemes ++ (semi ++ [])) last' bs pool) _ :=
      leads_dispatch_expr (parses_knot exact fuel) fits ends
    rw [List.append_nil] at dispatched
    exact dispatched

/-- In eval mode the value of the last expression is what the chunk returns. The `;` at the end of the text may be
missing. -/
lemma parse_eval (exact : ExactNumerals ν) (fits : s.Fits false) (room : s.slots true ≤ localMax) {e : Expr}
    (last : e.Fits precAssign) {semi : List Lexeme} (optional : semi = [] ∨ semi = [fixed .tokSemi])
    (h : Upcoming (s.lexemes ++ (e.lexemes ++ semi)) { source }) (more : Nat) :
    (parse (callsFor source + more) source true : Outcome (CandoParser ν) Empty Stop Unit).Ends
      (fun _ p => p.hadError = false ∧ EvalOf p.chunk s e) Allowed := by
  have leads : Leads (candoParse (knot (callsFor source + more)))
      (View.start true (s.lexemes ++ (e.lexemes ++ semi)) : View ν) fun _ w =>
      ∃ bs be, s.Code w.pool w.width true [] bs ∧ e.Code w.pool [] be ∧ w.code = bs ++ (be ++ code .return 1 0) := by
    obtain ⟨t, ts, tokens, starts⟩ := e.starts
    have begins : startsStmt (headType (e.lexemes ++ semi)) = true := by
      rw [tokens]
      exact (congrArg (· || _) starts).trans rfl
    refine leads_candoParse exact fits room _ ⟨startsStmt_ne begins rfl, startsStmt_ne begins rfl⟩
      fun n bs pool last' width holds => ?_
    cases n with
    | zero => exact (Leads.crash (Q := fun _ _ => False) _).bind fun _ _ h => h.elim
    | succ n =>
      have statement := leads_evalStatement exact (callsFor source + more)
        ((View.start true []).grown width [] (s.lastIsExpr false)) last' bs pool rfl last optional
      rw [CandoParser.loop, bind_assoc]
      refine (turns_program _ begins statement).bind fun a w turned => ?_
      obtain ⟨again, _, pool', last'', width', rfl, more', wider, code⟩ := turned
      rw [again]
      dsimp only
      rw [if_pos rfl]
      cases code with
      | @expr _ _ _ be value =>
        rw [← List.append_assoc]
        refine leads_programEnd n ((leads_parseEnd_eval rfl rfl).mono fun _ _ ended => ?_)
        rw [ended.2]
        exact ⟨bs, be, holds.mono more' wider, value, List.append_assoc _ _ _⟩
  refine (parse_leads h more leads).mono ?_ fun _ c => c
  rintro _ p ⟨w, shows, bs, be, holds, value, code⟩
  exact ⟨shows.noError, shows.arity, shows.width ▸ shows.narrow, bs, be, shows.pool ▸ shows.width ▸ holds,
    shows.pool ▸ value, shows.code.trans code⟩

end Programs

end Cando.Lang
