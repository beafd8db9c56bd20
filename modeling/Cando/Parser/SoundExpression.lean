import Cando.Parser.Expression
import Cando.Parser.Sound

/-!
# Expressions are sound

The prefix and infix functions, blocks and functions keep what every parse function keeps, provided that the functions
which they call again do. `parse_precedence` reads a token first, so that for it a little less is enough.
-/

namespace Cando

open Program

namespace CandoParser

variable {ν : Type}

/-- The parse functions that are called again are sound with at most `A` left to read, and loops may turn often
enough. -/
structure Ready (A : Nat) (calls : Knot ν) : Prop where
  turns : A < calls.turns
  precedence : ∀ prec, Sound A 0 (calls.parsePrecedence prec)
  eats : ∀ prec, Eats A 0 (calls.parsePrecedence prec)
  statement : Eats A 0 calls.parseStatement

lemma Ready.mono {A A' : Nat} {self : Knot ν} (ready : Ready A self) (h : A' ≤ A) : Ready A' self where
  turns := Nat.lt_of_le_of_lt h ready.turns
  precedence prec := (ready.precedence prec).weaken h (Nat.le_refl _)
  eats prec := (ready.eats prec).weaken h (Nat.le_refl _)
  statement := ready.statement.weaken h (Nat.le_refl _)

section

variable {A n : Nat} {self : Knot ν} (ready : Ready A self)

include ready

lemma Ready.operand (prec : Nat) : Sound A n (self.parsePrecedence prec) :=
  (ready.precedence prec).weaken (Nat.le_refl _) (Nat.zero_le _)

lemma Ready.expression : Sound A n (parseExpression self) := ready.operand precAssign

end

variable {A n : Nat} {self : Knot ν}

/-! ### Flags -/

lemma sound_freshFlags : Sound A n (freshFlags : Parse ν Unit) := .quiet fun _ => rfl

lemma sound_setCall (b : Bool) : Sound A n (setCall b : Parse ν Unit) := .quiet fun _ => rfl

lemma sound_setUnpack (b : Bool) : Sound A n (setUnpack b : Parse ν Unit) := .quiet fun _ => rfl

lemma sound_setMultiPush (k : Nat) : Sound A n (setMultiPush k : Parse ν Unit) := .quiet fun _ => rfl

lemma sound_setCallDepth (k : Nat) : Sound A n (setCallDepth k : Parse ν Unit) := .quiet fun _ => rfl

lemma sound_deeper : Sound A n (deeper : Parse ν Unit) := .quiet fun _ => rfl

lemma sound_shallower : Sound A n (shallower : Parse ν Unit) := .quiet fun _ => rfl

/-! ### Literals -/

lemma sound_parseNumber [F64 ν] : Sound A n (parseNumber : Parse ν Unit) :=
  Sound.previousText.bind fun _ => (Sound.addConst _).bind fun _ => .emitOpA rfl _

lemma sound_quotedText : Sound A n (quotedText : Parse ν Str) := .get fun _ _ => .pure _

lemma sound_parseStringLiteral [F64 ν] : Sound A n (parseStringLiteral : Parse ν Unit) :=
  sound_quotedText.bind fun _ => (Sound.strConst _).bind fun _ => .emitOpA rfl _

/-- `parse_literal` is called behind a literal. -/
lemma parseLiteral_ends {p : CandoParser ν} (good : Good p)
    (literal : p.previous.type = .tokNullKw ∨ p.previous.type = .tokTrueKw ∨ p.previous.type = .tokFalseKw) :
    EndsWithin p.left p.len (parseLiteral p) := by
  simp only [parseLiteral, bind_apply, get_apply, Outcome.bind_ok]
  obtain h | h | h := literal
  all_goals
    rw [h]
    exact Sound.emitOp rfl p good.within

/-! ### Masks -/

lemma sound_emitMask (keep : Bool) (passCount : Nat) : Sound A n (emitMask keep passCount : Parse ν Nat) :=
  .seq (.emitOp (by cases keep <;> rfl)) (.pure _)

lemma sound_maskBits (ready : Ready A self) (bits : List Bool) (passCount : Nat) :
    Sound A n (maskBits self bits passCount) := by
  induction bits generalizing passCount with
  | nil => exact .pure _
  | cons keep bits ih =>
    apply (Sound.matchToken _).bind
    intro found
    refine .ite (fun _ => ?_) fun _ => .seq (.error _) (.pure _)
    exact .seq (ready.operand _) ((sound_emitMask keep passCount).bind fun _ => ih _)

lemma sound_maskExtras (ready : Ready A self) (keep : Bool) (passCount : Nat) :
    Sound A n (maskExtras self keep passCount) :=
  .commaLoop ready.turns (fun _ => .seq (ready.operand _) ((sound_emitMask keep _).bind fun _ => .pure _)) _

lemma sound_maskList (ready : Ready A self) (first : Bool) (bits : List Bool) :
    Sound A n (maskList self first bits) := by
  refine (sound_emitMask first 0).bind fun _ => (sound_maskBits ready bits _).bind fun _ => ?_
  exact .ite (fun _ => sound_maskExtras ready _ _) fun _ => .pure _

lemma sound_maskValues (ready : Ready A self) (bits : List Bool) (outerDepth : Nat) :
    Sound A n (maskValues self bits outerDepth) := by
  refine .get fun p _ => .ite (fun _ => ?_) fun _ => .ite (fun _ => ?_) fun _ => ?_
  · exact .seq (.when .exceed) (.seq (.emitOpAb rfl _ _) (.seq (sound_setUnpack _) (.pure _)))
  · refine (sound_emitMask _ 0).bind fun _ => ?_
    exact .seq (sound_setCall _) (.seq (sound_setUnpack _) (.pure _))
  · refine (sound_maskList ready _ _).bind fun _ => ?_
    exact .seq (sound_setCall _) (.seq (sound_setUnpack _) (.pure _))

lemma sound_parseMaskEmit (ready : Ready A self) (bits : List Bool) : Sound A n (parseMaskEmit self bits) := by
  refine .get fun p _ => .seq sound_deeper (.seq (sound_setCall _) (.seq (ready.operand _) ?_))
  exact (sound_maskValues ready bits _).bind fun _ => .seq sound_shallower (sound_setMultiPush _)

lemma sound_addSkips (k : Nat) (bits : List Bool) : Sound A n (addSkips k bits : Parse ν (List Bool)) := by
  induction k generalizing bits with
  | zero => exact .pure _
  | succ k ih => exact .ite (fun room => (Sound.store room _).bind fun _ => ih _) fun _ => .seq .exceed (.pure _)

lemma sound_maskPattern (ready : Ready A self) : Sound A n (maskPattern self) := by
  refine .loop (.ofGo (fun _ p go => ?_) fun bits p _ go => ?_) ready.turns _
  · intro atEof
    simp [inMask, atEof] at go
  · simp only [Bool.and_eq_true, decide_eq_true_eq] at go
    refine Eats.advance.seq (.ite (fun _ => (sound_addSkips 3 bits).bind fun _ => .pure _) fun _ => ?_)
    exact (Sound.store go.1 _).bind fun _ => .pure _

/-- A token of a mask that is left over is an error. -/
lemma sound_closeMask : Sound A n (closeMask : Parse ν Unit) := by
  intro p w
  by_cases close : p.current.type = .tokRparen
  · have inside : ¬ inMask p.current.type := by
      rw [close]
      decide
    have whole : closeMask p = (do consume .tokRparen "expected ')' after mask pattern"; pure () : Parse ν Unit) p := by
      simp only [closeMask, bind_apply, get_apply, Outcome.bind_ok, Program.when, if_neg inside]
    rw [whole]
    exact (Sound.consume _ _).seq (.pure ()) p w
  · simp only [closeMask, bind_apply, get_apply, Outcome.bind_ok, consume_other close]
    have within := within_errorAt w.good.within p.current (bytes "expected ')' after mask pattern")
    have error := (good_errorAt w.good p.current (bytes "expected ')' after mask pattern")).2
    rw [Program.when]
    split
    · exact ⟨within.good.exceed error, within.left, within.len⟩
    · exact within

lemma sound_parseGrouping (ready : Ready A self) : Sound A n (parseGrouping self) := by
  refine .get fun p _ => .ite (fun _ => ?_) fun _ => ?_
  · exact (sound_maskPattern ready).bind fun _ => .seq sound_closeMask (sound_parseMaskEmit ready _)
  · exact .seq (sound_setCallDepth _) (.seq ready.expression (.seq (sound_setCallDepth _) (.consume _ _)))

lemma sound_emitUnary (type : CandoTokenType) : Sound A n (emitUnary type : Parse ν Unit) := by
  unfold emitUnary
  split
  all_goals first | exact .emitOp rfl | exact .pure _

lemma sound_parseUnary (ready : Ready A self) : Sound A n (parseUnary self) :=
  .get fun _ _ => .seq (ready.operand _) (.seq (sound_emitUnary _) (sound_setCall _))

/-! ### Variables -/

section

variable [F64 ν]

lemma sound_emitLoad (name : Str) : Sound A n (emitLoad name : Parse ν Unit) := by
  apply (Sound.resolveLocal name).bind
  rintro (_ | slot)
  · exact (Sound.strConst name).bind fun _ => .emitOpA rfl _
  · exact .emitOpA rfl slot

lemma sound_emitStore (name : Str) : Sound A n (emitStore name : Parse ν Unit) := by
  apply (Sound.resolveLocal name).bind
  rintro (_ | slot)
  · exact (Sound.strConst name).bind fun _ => .emitOpA rfl _
  · exact .emitOpA rfl slot

lemma sound_parsePostfix (name : Str) {op : Opcode} (fmt : op.fmt = .none) :
    Sound A n (parsePostfix name op : Parse ν Unit) := by
  refine .seq (sound_emitLoad name) (.seq (.emitOp rfl) ((Sound.addConst _).bind fun _ => .seq (.emitOpA rfl _) ?_))
  exact .seq (.emitOp fmt) (.seq (sound_emitStore name) (.emitOp rfl))

lemma compoundOp_fmt {type : CandoTokenType} {op : Opcode} (h : compoundOp type = some op) : op.fmt = .none := by
  unfold compoundOp at h
  split at h
  all_goals cases h
  all_goals rfl

lemma sound_parseVariableExpr (ready : Ready A self) (canAssign : Bool) :
    Sound A n (parseVariableExpr self canAssign) := by
  refine Sound.previousText.bind fun name => .get fun p _ => .ite (fun _ => ?_) fun _ => sound_emitLoad name
  cases e : compoundOp p.current.type with
  | some op =>
    refine .seq .advance (.seq (sound_emitLoad name) (.seq ready.expression ?_))
    exact .seq (.emitOp (compoundOp_fmt e)) (sound_emitStore name)
  | none =>
    refine (Sound.matchToken _).bind fun _ => .ite (fun _ => .seq ready.expression (sound_emitStore name)) fun _ => ?_
    refine (Sound.matchToken _).bind fun _ => .ite (fun _ => sound_parsePostfix name rfl) fun _ => ?_
    exact (Sound.matchToken _).bind fun _ => .ite (fun _ => sound_parsePostfix name rfl) fun _ => sound_emitLoad name

end

/-! ### Lists -/

lemma sound_listItems {α : Type} (ready : Ready A self) {item : α → Parse ν (α × Bool)} (h : ∀ a, Sound A n (item a))
    (close : CandoTokenType) (a : α) : Sound A n (listItems self close item a) := by
  refine (Sound.check close).bind fun _ => .ite (fun _ => .pure _) fun _ => .seq sound_deeper ?_
  exact (Sound.doCommaLoop ready.turns h a).bind fun _ => .seq sound_shallower (.pure _)

lemma sound_countOne (msg : String) (count : Nat) : Sound A n (countOne msg count : Parse ν (Nat × Bool)) :=
  .ite (fun _ => .seq (.tooMany msg) (.pure _)) fun _ => .pure _

lemma sound_countPushed (msg : String) (count : Nat) : Sound A n (countPushed msg count : Parse ν (Nat × Bool)) :=
  .get fun _ _ => (Sound.castU16 _).bind fun _ => .ite (fun _ => .seq (.tooMany msg) (.pure _)) fun _ => .pure _

lemma sound_arrayElement (ready : Ready A self) (count : Nat) : Sound A n (arrayElement self count) := by
  refine (Sound.check _).bind fun _ => .ite (fun _ => .pure _) fun _ => ?_
  refine .seq sound_freshFlags
    (.seq ready.expression (.get fun _ _ => .ite (fun _ => ?_) fun _ => sound_countPushed _ _))
  exact .seq (.emitOp rfl) (.seq (.emitOp rfl) (sound_countOne _ _))

lemma sound_parseArrayLiteral (ready : Ready A self) : Sound A n (parseArrayLiteral self) :=
  (sound_listItems ready (sound_arrayElement ready) _ _).bind fun _ => .seq (.consume _ _) (.emitOpA rfl _)

lemma sound_objectKey [F64 ν] : Sound A n (objectKey : Parse ν (Option Nat)) := by
  refine .get fun p _ => ?_
  split
  · exact .seq .advance (Sound.prevNameConst.bind fun _ => .pure _)
  · exact .seq .advance (sound_quotedText.bind fun _ => (Sound.strConst _).bind fun _ => .pure _)
  · exact .seq .advance (sound_quotedText.bind fun _ => (Sound.strConst _).bind fun _ => .pure _)
  · exact .seq (.errorCurrent _) (.pure _)

lemma sound_objectField [F64 ν] (ready : Ready A self) (u : Unit) : Sound A n (objectField self u) := by
  refine (Sound.check _).bind fun _ => .ite (fun _ => .pure _) fun _ => sound_objectKey.bind fun key => ?_
  cases key with
  | none => exact .pure _
  | some key => exact .seq (.consume _ _) (.seq ready.expression (.seq (.emitOpA rfl _) (.pure _)))

lemma sound_parseObjectLiteral [F64 ν] (ready : Ready A self) : Sound A n (parseObjectLiteral self) :=
  .seq (.emitOp rfl) (.seq (sound_listItems ready (sound_objectField ready) _ _) (.consume _ _))

lemma sound_parseUnpack (ready : Ready A self) : Sound A n (parseUnpack self) :=
  .seq (ready.operand _) (sound_setUnpack _)

/-! ### Comparisons -/

lemma sound_comparedValue (ready : Ready A self) (next k : Nat) : Sound A n (comparedValue self next k) := by
  refine .seq sound_freshFlags (.seq (ready.operand _) (.get fun _ _ => .seq (.when (.emitOp rfl)) ?_))
  exact (Sound.castU16 _).bind fun _ => .pure _

lemma sound_compareList (ready : Ready A self) (next : Nat) {stackOp : Opcode} (fmt : stackOp.fmt = .a) (wasCall : Bool)
    (multiPush : Nat) : Sound A n (compareList self next stackOp wasCall multiPush) := by
  refine (Sound.castU16 _).bind fun _ => .seq (.when (.emitOp rfl)) ?_
  exact (Sound.commaLoop ready.turns (sound_comparedValue ready next) _).bind fun _ => .emitOpA fmt _

lemma sound_multiCmp (ready : Ready A self) (next : Nat) {plainOp stackOp spreadOp : Opcode}
    (plain : plainOp.fmt = .none) (stack : stackOp.fmt = .a) (spread : spreadOp.fmt = .none) :
    Sound A n (multiCmp self next plainOp stackOp spreadOp) := by
  refine .get fun p _ => .seq (sound_setUnpack _)
    (.ite (fun _ => .emitOp spread) fun _ => .ite (fun _ => ?_) fun _ => ?_)
  · exact (Sound.castU16 _).bind fun _ => .emitOpA stack _
  · refine .ite (fun _ => sound_compareList ready next stack _ _) fun _ => ?_
    exact .seq (.when (.emitOp rfl)) (.emitOp plain)

lemma sound_rangeCheck (ready : Ready A self) (leftInc rightInc : Bool) :
    Sound A n (rangeCheck self leftInc rightInc) := by
  refine .seq .advance (.seq sound_freshFlags (.seq (ready.operand _) ?_))
  exact .get fun _ _ => .seq (.when (.emitOp rfl)) (.emitOpA rfl _)

lemma sound_greaterCmp (ready : Ready A self) (next : Nat) (leftInc : Bool) {plainOp stackOp spreadOp : Opcode}
    (plain : plainOp.fmt = .none) (stack : stackOp.fmt = .a) (spread : spreadOp.fmt = .none) :
    Sound A n (greaterCmp self next leftInc plainOp stackOp spreadOp) := by
  refine .get fun p _ => .seq (sound_setUnpack _)
    (.ite (fun _ => ?_) fun _ => .ite (fun _ => .emitOp spread) fun _ => ?_)
  · exact .seq (.when (.emitOp rfl)) (sound_rangeCheck ready _ _)
  · refine .ite (fun _ => (Sound.castU16 _).bind fun _ => .emitOpA stack _) fun _ => ?_
    refine .ite (fun _ => sound_compareList ready next stack _ _) fun _ => ?_
    exact .seq (.when (.emitOp rfl)) (.seq (.emitOp plain) (.when (.errorCurrent _)))

lemma sound_emitBinary (ready : Ready A self) (next : Nat) (type : CandoTokenType) :
    Sound A n (emitBinary self next type) := by
  unfold emitBinary
  split
  all_goals first
    | exact .emitOp rfl
    | exact sound_multiCmp ready next rfl rfl rfl
    | exact sound_greaterCmp ready next _ rfl rfl rfl
    | exact .pure _

lemma sound_parseBinary (ready : Ready A self) : Sound A n (parseBinary self) := by
  refine .get fun p _ => .seq (sound_setMultiPush _) (.seq (sound_setUnpack _) (.seq (ready.operand _) ?_))
  exact .seq (sound_emitBinary ready _ _) (.seq (sound_setCall _) (sound_setUnpack _))

lemma sound_parseLogical (ready : Ready A self) {jumpOp : Opcode} (fmt : jumpOp.fmt = .a) (prec : Nat) :
    Sound A n (parseLogical self jumpOp prec) :=
  .emitJump fmt fun _ _ => .seq (.emitOp rfl) (.seq (ready.operand _) (.patchJump (Nat.le_refl _)))

lemma sound_parseAnd (ready : Ready A self) : Sound A n (parseAnd self) := sound_parseLogical ready rfl _

lemma sound_parseOr (ready : Ready A self) : Sound A n (parseOr self) := sound_parseLogical ready rfl _

/-! ### Members and calls -/

lemma sound_parseDot [F64 ν] (ready : Ready A self) (canAssign : Bool) : Sound A n (parseDot self canAssign) := by
  refine .get fun p _ => .ite (fun _ => .errorCurrent _) fun _ => .seq .advance
    (Sound.prevNameConst.bind fun name => ?_)
  refine .ite (fun _ => (Sound.matchToken _).bind fun _ => .ite (fun _ => ?_) fun _ => ?_) fun _ => .emitOpA rfl _
  · exact .seq ready.expression (.emitOpA rfl _)
  · exact .emitOpA rfl _

lemma sound_parseSubscript (ready : Ready A self) (canAssign : Bool) : Sound A n (parseSubscript self canAssign) := by
  refine .seq ready.expression (.seq (.consume _ _) (.ite (fun _ => ?_) fun _ => .emitOp rfl))
  refine (Sound.matchToken _).bind fun _ => .ite (fun _ => ?_) fun _ => .emitOp rfl
  exact .seq ready.expression (.emitOp rfl)

lemma sound_callArgument (ready : Ready A self) (argc : Nat) : Sound A n (callArgument self argc) := by
  refine (Sound.check _).bind fun _ => .ite (fun _ => .pure _) fun _ => .seq sound_freshFlags (.seq ready.expression ?_)
  exact .get fun _ _ => .ite (fun _ => .seq (.emitOp rfl) (sound_countOne _ _)) fun _ => sound_countPushed _ _

lemma sound_parseCall (ready : Ready A self) : Sound A n (parseCall self) :=
  (sound_listItems ready (sound_callArgument ready) _ _).bind fun _ =>
    .seq (.consume _ _) (.seq (.emitOpA rfl _) (sound_setCall _))

lemma sound_methodArgument (ready : Ready A self) (argc : Nat) : Sound A n (methodArgument self argc) := by
  refine (Sound.check _).bind fun _ => .ite (fun _ => .pure _) fun _ => .seq (sound_setCall _)
    (.seq (sound_setUnpack _) ?_)
  exact .seq ready.expression (.get fun _ _ => .seq (.when (.emitOp rfl)) (sound_countOne _ _))

lemma sound_parseMethod [F64 ν] (ready : Ready A self) (nameMsg parenMsg endMsg : String) {op : Opcode}
    (fmt : op.fmt = .ab) : Sound A n (parseMethod self nameMsg parenMsg endMsg op) := by
  refine .seq (.consume _ _) (Sound.prevNameConst.bind fun name => .seq (.consume _ _) ?_)
  refine (sound_listItems ready (sound_methodArgument ready) _ _).bind fun argc => .seq (.consume _ _) ?_
  exact .seq (.emitOpAb fmt _ _) (sound_setCall _)

lemma sound_parseFluent [F64 ν] (ready : Ready A self) : Sound A n (parseFluent self) :=
  sound_parseMethod ready _ _ _ rfl

lemma sound_parseMethodCall [F64 ν] (ready : Ready A self) : Sound A n (parseMethodCall self) :=
  sound_parseMethod ready _ _ _ rfl

/-! ### Blocks -/

lemma sound_blockStatements (ready : Ready A self) : Sound A n (blockStatements self) := by
  refine .loop (.ofStop (fun _ p go atEof => go (.inr atEof)) fun _ p _ _ => ?_) ready.turns _
  exact (ready.statement.weaken (Nat.le_refl _) (Nat.zero_le _)).seq (.pure _)

lemma sound_parseBlock (ready : Ready A self) : Sound A n (parseBlock self) :=
  .seq (sound_blockStatements ready) (.consume _ _)

lemma sound_scopedBlock (ready : Ready A self) : Sound A n (scopedBlock self) :=
  .seq .scopeBegin (.seq (sound_parseBlock ready) .scopeEnd)

lemma sound_patchExits {exits : List Nat} (h : ∀ pos ∈ exits, pos + 2 ≤ n) :
    Sound A n (patchExits exits : Parse ν Unit) := by
  induction exits with
  | nil => exact .pure _
  | cons pos exits ih =>
    exact .seq (.patchJump (h pos List.mem_cons_self)) (ih fun q hq => h q (List.mem_cons_of_mem _ hq))

/-- The exits of a pipe body are those of this body or of an earlier one, and so stand in the code. -/
lemma sound_pipeBody (ready : Ready A self) (some : 2 ≤ n) : Sound A n (pipeBody self) := by
  refine (Sound.matchToken _).bind fun _ => .ite (fun _ => ?_) fun _ => ready.expression
  refine .get fun saved good => .seq ?_
    (.seq (sound_parseBlock ready) (.seq (.emitOp rfl) (.getCode fun p good' le => ?_)))
  · exact .modify fun _ good => ⟨{ good with exitCount := Nat.zero_le _ }, Nat.le_refl _, Nat.le_refl _⟩
  · refine .seq (sound_patchExits fun pos hpos => ?_) (.modify fun _ last => ?_)
    · obtain rfl | inside := good'.exit pos (List.mem_of_mem_take hpos)
      · exact some.trans le
      · exact inside
    · exact ⟨{ last with exitCount := good.exitCount }, Nat.le_refl _, Nat.le_refl _⟩

lemma sound_parsePipe (ready : Ready A self) {nextOp collectOp : Opcode} (next : nextOp.fmt = .a)
    (collect : collectOp.fmt = .none) : Sound A n (parsePipe self nextOp collectOp) := by
  refine .seq (.emitOpA rfl _) (.seq .scopeBegin (.seq (.emitOp rfl) ((Sound.declareLocal _ _).bind fun slot => ?_)))
  refine .seq (.emitOpA rfl _) (.codeLen fun start _ => .emitJump next fun done le => .seq (.emitOpA rfl _) ?_)
  refine .seq (sound_pipeBody ready (Nat.le_add_left _ _)) (.seq (.emitOp collect) (.seq (.emitLoop (by omega)) ?_))
  exact .seq (.patchJump (Nat.le_refl _)) (.seq .scopeEnd (.emitOp rfl))

lemma sound_parsePipeOp (ready : Ready A self) : Sound A n (parsePipeOp self) := sound_parsePipe ready rfl rfl

lemma sound_parseFilterOp (ready : Ready A self) : Sound A n (parseFilterOp self) := sound_parsePipe ready rfl rfl

lemma sound_threadBody (ready : Ready A self) : Sound A n (threadBody self) := by
  refine .seq .scopeBegin ((Sound.declareLocal _ _).bind fun _ => (Sound.matchToken _).bind fun _ => .ite
    (fun _ => ?_) fun _ => ?_)
  · exact .seq (sound_parseBlock ready) (.seq .scopeEnd (.emitOp rfl))
  · exact .seq ready.expression .scopeEnd

lemma sound_positionConst [F64 ν] (pos : Nat) : Sound A n (positionConst pos : Parse ν Nat) := .addConst _

lemma sound_parseThreadExpr [F64 ν] (ready : Ready A self) : Sound A n (parseThreadExpr self) := by
  refine .get fun p _ => .ite (fun _ => (Sound.strConst _).bind fun _ => .emitOpA rfl _) fun _ => ?_
  refine .emitJump rfl fun skip _ => .codeLen fun start le => .seq (sound_threadBody ready) (.seq (.emitOpA rfl _) ?_)
  refine .seq (.patchJump le) ((sound_positionConst start).bind fun _ => .seq (.emitOpA rfl _) (.seq (.emitOp rfl) ?_))
  exact sound_setCall _

lemma sound_parseAwaitExpr (ready : Ready A self) : Sound A n (parseAwaitExpr self) :=
  .seq (ready.operand _) (.seq (.emitOp rfl) (sound_setCall _))

/-! ### Functions -/

lemma sound_parameter (names : List Str) : Sound A n (parameter names : Parse ν (List Str × Bool)) := by
  refine (Sound.check _).bind fun _ => .ite (fun _ => .pure _) fun _ => ?_
  refine (Sound.matchToken _).bind fun _ => .ite (fun _ => .pure _) fun _ => .seq (.consume _ _) ?_
  refine .ite (fun _ => .seq (.tooMany _) (.pure _)) fun room => Sound.previousText.bind fun name => ?_
  exact (Sound.store (Nat.lt_of_not_le room) name).bind fun _ => .pure _

lemma sound_parseParams (ready : Ready A self) {param : List Str → Parse ν (List Str × Bool)}
    (h : ∀ names, Sound A n (param names)) : Sound A n (parseParams self param) :=
  (Sound.check _).bind fun _ => .ite (fun _ => .pure _) fun _ => .doCommaLoop ready.turns h _

lemma sound_declareParams (names : List Str) : Sound A n (declareParams names : Parse ν Unit) := by
  induction names with
  | nil => exact .pure _
  | cons name names ih => exact (Sound.declareLocal name false).bind fun _ => ih

/-- What follows knows that the locals that are handed back fit. -/
lemma sound_enterFunction {β : Type} {names : List Str} {f : List CandoLocal × Int → Parse ν β}
    (h : ∀ saved, saved.1.length ≤ localMax → Sound A n (f saved)) : Sound A n (enterFunction names >>= f) := by
  simp only [enterFunction, bind_assoc, pure_bind]
  refine .get fun p good => .seq ?_ ?_
  · exact .modify fun _ good => ⟨{ good with locals := Nat.zero_le _ }, Nat.le_refl _, Nat.le_refl _⟩
  · exact (Sound.declareLocal [] false).bind fun _ => .seq (sound_declareParams names) (h _ good.locals)

lemma sound_leaveFunction {saved : List CandoLocal × Int} (few : saved.1.length ≤ localMax) :
    Sound A n (leaveFunction saved : Parse ν Unit) :=
  .modify fun _ good => ⟨{ good with locals := few }, Nat.le_refl _, Nat.le_refl _⟩

lemma sound_functionBody [F64 ν] (ready : Ready A self) (names : List Str) : Sound A n (functionBody self names) := by
  refine .seq (.consume _ _) (.seq (.consume _ _) (.emitJump rfl fun skip _ => .codeLen fun start le => ?_))
  refine sound_enterFunction fun saved few => .seq (sound_parseBlock ready) (.seq (.emitOp rfl) ?_)
  refine .seq (.emitOpA rfl _) (.seq (sound_leaveFunction few) (.seq (.patchJump le) ?_))
  exact (sound_positionConst start).bind fun _ => .emitOpA rfl _

lemma sound_parseFunctionExpr [F64 ν] (ready : Ready A self) : Sound A n (parseFunctionExpr self) := by
  refine .seq (.consume _ _) ((sound_parseParams ready sound_parameter).bind fun names => ?_)
  exact .seq (sound_functionBody ready names) sound_freshFlags

/-! ### The rules -/

/-- A prefix function is called behind a token that has it. -/
lemma prefixRule_ends [F64 ν] (ready : Ready A self) {canAssign : Bool} {type : CandoTokenType} {operand : Parse ν Unit}
    (h : prefixRule self canAssign type = some operand) {p : CandoParser ν} (w : Within A n p)
    (behind : p.previous.type = type) : EndsWithin p.left p.len (operand p) := by
  unfold prefixRule at h
  split at h
  all_goals cases h
  all_goals first
    | with_reducible exact sound_parseNumber.ends w
    | with_reducible exact sound_parseStringLiteral.ends w
    | with_reducible exact (sound_parseVariableExpr ready canAssign).ends w
    | with_reducible exact parseLiteral_ends w.good (.inl behind)
    | with_reducible exact parseLiteral_ends w.good (.inr (.inl behind))
    | with_reducible exact parseLiteral_ends w.good (.inr (.inr behind))
    | with_reducible exact (sound_parseGrouping ready).ends w
    | with_reducible exact (sound_parseArrayLiteral ready).ends w
    | with_reducible exact (sound_parseObjectLiteral ready).ends w
    | with_reducible exact (sound_parseFunctionExpr ready).ends w
    | with_reducible exact (sound_parseThreadExpr ready).ends w
    | with_reducible exact (sound_parseAwaitExpr ready).ends w
    | with_reducible exact (sound_parseUnary ready).ends w
    | with_reducible exact (sound_parseUnpack ready).ends w

lemma sound_infixRule [F64 ν] (ready : Ready A self) {canAssign : Bool} {type : CandoTokenType}
    {operation : Parse ν Unit}
    (h : infixRule self canAssign type = some operation) : Sound A n operation := by
  unfold infixRule at h
  split at h
  all_goals cases h
  all_goals first
    | with_reducible exact sound_parseCall ready
    | with_reducible exact sound_parseSubscript ready canAssign
    | with_reducible exact sound_parseBinary ready
    | with_reducible exact sound_parseAnd ready
    | with_reducible exact sound_parseOr ready
    | with_reducible exact sound_parseDot ready canAssign
    | with_reducible exact sound_parseFluent ready
    | with_reducible exact sound_parseMethodCall ready
    | with_reducible exact sound_parsePipeOp ready
    | with_reducible exact sound_parseFilterOp ready

lemma sound_infixTurns [F64 ν] (ready : Ready A self) (minPrec : Nat) (canAssign : Bool) :
    Turns A n (infixTurn self minPrec canAssign) := by
  refine .ofStop (fun _ p go atEof => go (.inl atEof)) fun _ p _ _ => ?_
  apply Eats.advance.seq
  cases e : infixRule self canAssign p.current.type with
  | none => exact .pure _
  | some operation => exact .seq (sound_infixRule (ready.mono (Nat.sub_le _ _)) e) (.pure _)

lemma sound_infixOperators [F64 ν] (ready : Ready A self) (minPrec : Nat) (canAssign : Bool) :
    Sound A n (infixOperators self minPrec canAssign) := by
  refine .seq (.loop (sound_infixTurns ready minPrec canAssign) ready.turns _) (.ite (fun _ => ?_) fun _ => .pure _)
  exact (Sound.matchToken _).bind fun _ => .ite (fun _ => .error _) fun _ => .pure _

/-- The first token is read; what comes then is called with less to read. -/
lemma parsePrecedence_ends [F64 ν] (ready : 0 < A → Ready (A - 1) self) (minPrec : Nat) {p : CandoParser ν}
    (w : Within A n p) : EndsWithin p.lexer.left p.len (parsePrecedence self minPrec p) := by
  obtain ⟨q, first⟩ : ∃ q, nextToken { p with lastExprWasCall := false, previous := p.current } = q := ⟨_, rfl⟩
  have read : Within p.lexer.left p.len q :=
    first ▸ within_nextToken { p with lastExprWasCall := false, previous := p.current } { w.good with }
  have behind : q.previous = p.current := first ▸ nextToken_previous _
  simp only [parsePrecedence, setCall, bind_apply, get_apply, modify_apply, Outcome.bind_ok, advance, first]
  cases e : prefixRule self (minPrec ≤ precAssign) p.current.type with
  | none => exact (Sound.error _ q read).mono read.left read.len
  | some operand =>
    have inside : p.current.type ≠ .tokEof := by
      intro atEof
      rw [atEof] at e
      cases e
    have some : p.left = p.lexer.left + 1 := by rw [left, if_neg inside]
    have less : p.lexer.left ≤ A - 1 ∧ 0 < A := by
      have := w.left
      omega
    have ready := ready less.2
    have ends := prefixRule_ends ready e (read.mono less.1 w.len) (behind ▸ rfl)
    apply (ends.mono read.left read.len).bind
    intro _ r within
    have rest := sound_infixOperators ready minPrec (minPrec ≤ precAssign) r (within.mono less.1 (Nat.le_refl _))
    exact rest.mono within.left within.len

lemma sound_parsePrecedence [F64 ν] (ready : 0 < A → Ready (A - 1) self) (minPrec : Nat) :
    Sound A n (parsePrecedence self minPrec) :=
  fun _ w => (parsePrecedence_ends ready minPrec w).mono (Nat.le_add_right _ _) (Nat.le_refl _)

lemma eats_parsePrecedence [F64 ν] (ready : 0 < A → Ready (A - 1) self) (minPrec : Nat) :
    Eats A n (parsePrecedence self minPrec) := by
  intro p w inside
  refine (parsePrecedence_ends ready minPrec w).mono ?_ (Nat.le_refl _)
  rw [left, if_neg inside]
  exact Nat.le_refl _

end CandoParser

end Cando
