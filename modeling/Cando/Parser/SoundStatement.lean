import Cando.Parser.SoundExpression
import Cando.Parser.Statement

/-!
# Statements are sound

The functions behind `parse_statement` keep what every parse function keeps; `parse_statement` itself eats. From this it
follows by induction on the count of calls that the parse functions need no more calls than four for each byte.
-/

namespace Cando

open Program

namespace CandoParser

variable {ν : Type} {A n : Nat} {self : Knot ν}

/-! ### Error recovery -/

lemma sound_synchronise (enough : A < self.turns) : Sound A n (synchronise self) := by
  refine .seq (.modify fun _ good => ?_)
    (.loop (.ofStop (fun _ p go atEof => go (.inl atEof)) fun _ p _ _ => ?_) enough _)
  · exact ⟨{ good with panic := nofun }, Nat.le_refl _, Nat.le_refl _⟩
  · exact Eats.advance.seq (.pure _)

/-! ### Declarations -/

lemma sound_declaredName (names : List Str) : Sound A n (declaredName names : Parse ν (List Str × Bool)) := by
  refine .seq (.consume _ _)
    (.ite (fun _ => .seq (.tooMany _) (.pure _)) fun room => Sound.previousText.bind fun name => ?_)
  exact (Sound.store (Nat.lt_of_not_le room) name).bind fun _ => .pure _

lemma sound_initialiser (ready : Ready A self) (count : Nat) : Sound A n (initialiser self count) := by
  refine .seq (sound_setCall _) (.seq (sound_setMultiPush _) (.seq ready.expression (.get fun _ _ => ?_)))
  exact .seq (.when (.emitOp rfl)) (.pure _)

lemma sound_emitNulls (k : Nat) : Sound A n (emitNulls k : Parse ν Unit) := by
  induction k with
  | zero => exact .pure _
  | succ k ih => exact .seq (.emitOp rfl) ih

lemma sound_initialisers (ready : Ready A self) (varCount : Nat) : Sound A n (initialisers self varCount) := by
  refine (Sound.matchToken _).bind fun _ => .ite (fun _ => .seq sound_deeper ?_) fun _ => sound_emitNulls varCount
  refine (Sound.doCommaLoop ready.turns (sound_initialiser ready) _).bind fun count => .seq sound_shallower ?_
  exact .get fun _ _ => .when (sound_emitNulls _)

lemma sound_defineAll [F64 ν] (isConst : Bool) (names : List Str) :
    Sound A n (defineAll isConst names : Parse ν Unit) := by
  induction names with
  | nil => exact .pure _
  | cons name names ih =>
    refine .get fun p _ => .ite (fun _ => ?_) fun _ => ?_
    · exact (Sound.declareLocal _ _).bind fun _ => .seq (.emitOpA (by cases isConst <;> rfl) _) ih
    · exact (Sound.strConst _).bind fun _ => .seq (.emitOpA (by cases isConst <;> rfl) _) ih

lemma sound_parseVarDecl [F64 ν] (ready : Ready A self) (isConst : Bool) : Sound A n (parseVarDecl self isConst) := by
  refine (Sound.doCommaLoop ready.turns sound_declaredName _).bind fun names => ?_
  exact .seq (sound_initialisers ready _) (.seq (.consume _ _) (sound_defineAll isConst _))

/-! ### Conditionals and loops -/

/-- The `IF` behind an `ELSE` is called with less to read. -/
lemma sound_parseElse (ready : Ready A self) (again : 0 < A → Sound (A - 1) 0 self.parseIf) :
    Sound A n (parseElse self) := by
  refine .matched (by decide) (fun some => ?_) (.pure _)
  refine (Sound.matchToken _).bind fun _ => .ite (fun _ => ?_) fun _ => ?_
  · exact (again some).weaken (Nat.le_refl _) (Nat.zero_le _)
  · exact .seq (.consume _ _) (sound_scopedBlock (ready.mono (Nat.sub_le _ _)))

lemma sound_parseIf (ready : Ready A self) (again : 0 < A → Sound (A - 1) 0 self.parseIf) :
    Sound A n (parseIf self) := by
  refine .seq ready.expression (.seq (.consume _ _) (.emitJump rfl fun toElse _ => .seq (.emitOp rfl) ?_))
  refine .seq (sound_scopedBlock ready) (.emitJump rfl fun toEnd le => .seq (.patchJump (by omega)) ?_)
  exact .seq (.emitOp rfl) (.seq (sound_parseElse ready again) (.patchJump (Nat.le_refl _)))

lemma sound_parseWhile (ready : Ready A self) : Sound A n (parseWhile self) := by
  refine .codeLen fun start _ => .seq ready.expression (.seq (.consume _ _) (.emitJump rfl fun toEnd le => ?_))
  refine .seq (.emitOp rfl) (.emitLoopMark fun mark le' => .seq (sound_scopedBlock ready) (.seq (.emitOp rfl) ?_))
  refine .seq (.emitLoop (by omega)) (.seq (.patchJump (by omega)) (.seq (.emitOp rfl) ?_))
  exact .patchLoopMarkBreak (Nat.le_refl _)

lemma sound_loopVariable (names : List Str) : Sound A n (loopVariable names : Parse ν (List Str × Bool)) := by
  refine .seq (.consume _ _) (.ite (fun room => Sound.previousText.bind fun name => ?_) fun _ => ?_)
  · exact (Sound.store room name).bind fun _ => .pure _
  · exact .seq (.tooMany _) (.pure _)

lemma sound_overExpression (ready : Ready A self) (count : Nat) : Sound A n (overExpression self count) := by
  refine .seq (sound_setCall _) (.seq (sound_setMultiPush _) (.seq ready.expression (.get fun _ _ => ?_)))
  exact .seq (.when (.emitOp rfl)) (.pure _)

lemma sound_overList (ready : Ready A self) : Sound A n (overList self) := by
  refine .seq sound_deeper ((Sound.doCommaLoop ready.turns (sound_overExpression ready) _).bind fun count => ?_)
  exact .seq sound_shallower (.get fun _ _ => .pure _)

lemma sound_defineLocals (names : List Str) : Sound A n (defineLocals names : Parse ν Unit) := by
  induction names with
  | nil => exact .pure _
  | cons name names ih => exact (Sound.declareLocal _ _).bind fun _ => .seq (.emitOpA rfl _) ih

lemma sound_loopBody (ready : Ready A self) {nextOp : Opcode} (fmt : nextOp.fmt = .a) (mark : Nat) (names : List Str) :
    Sound A n (loopBody self nextOp mark names) := by
  refine .codeLen fun start _ => .emitJump fmt fun toEnd le => .seq .scopeBegin (.seq (sound_defineLocals names) ?_)
  refine .emitLoopMark fun markPos le' => .seq (sound_parseBlock ready) (.seq .scopeEnd (.seq (.emitOp rfl) ?_))
  refine .seq (.emitLoop (by omega)) (.seq (.patchJump (by omega)) ?_)
  exact .patchLoopMarkBreak (Nat.le_refl _)

lemma sound_forMode (keysMode : Bool) : Sound A n (forMode keysMode : Parse ν Nat) :=
  .get fun _ _ => .ite (fun _ => .pure _) fun _ => .pure _

lemma sound_forEach (ready : Ready A self) (keysMode : Bool) (names : List Str) :
    Sound A n (forEach self keysMode names) := by
  refine .seq (.when (.error _))
    (.seq ready.expression (.seq (.consume _ _) ((sound_forMode keysMode).bind fun mode => ?_)))
  exact .seq (.emitOpA rfl _) (sound_loopBody ready rfl _ _)

lemma sound_forOver (ready : Ready A self) (names : List Str) : Sound A n (forOver self names) := by
  refine (sound_overList ready).bind fun (count, wasCall) => .seq (.consume _ _) (.seq (.when .exceed) ?_)
  exact .seq (.emitOpAb rfl _ _) (sound_loopBody ready rfl _ _)

lemma sound_parseFor (ready : Ready A self) : Sound A n (parseFor self) := by
  refine (Sound.doCommaLoop ready.turns sound_loopVariable _).bind fun names => ?_
  refine (Sound.matchToken _).bind fun _ => .ite (fun _ => sound_forEach ready _ _) fun _ => ?_
  refine (Sound.matchToken _).bind fun _ => .ite (fun _ => sound_forEach ready _ _) fun _ => ?_
  exact (Sound.matchToken _).bind fun _ => .ite (fun _ => sound_forOver ready _) fun _ => .errorCurrent _

/-! ### TRY -/

lemma sound_catchParam {names : List Str} (room : names.length < maxCatchParams) :
    Sound A n (catchParam names : Parse ν (List Str)) :=
  .seq (.consume _ _) (Sound.previousText.bind fun name => .store room name)

lemma sound_nextCatchParam (names : List Str) : Sound A n (nextCatchParam names : Parse ν (List Str × Bool)) := by
  refine .ite (fun _ => .seq (.tooMany _) (.pure _)) fun room => ?_
  exact (sound_catchParam (Nat.lt_of_not_le room)).bind fun _ => .pure _

lemma sound_catchClause (ready : Ready A self) : Sound A n (catchClause self) := by
  refine .seq (.consume _ _) (.seq (.consume _ _) ((sound_catchParam (by decide)).bind fun names => ?_))
  refine (Sound.commaLoop ready.turns sound_nextCatchParam names).bind fun names => .seq (.consume _ _) ?_
  refine .seq (.consume _ _) (.seq .scopeBegin (.seq (.emitOpA rfl _) (.seq (sound_defineLocals names) ?_)))
  exact .seq (sound_parseBlock ready) .scopeEnd

lemma sound_parseTry (ready : Ready A self) : Sound A n (parseTry self) := by
  refine .seq (.consume _ _) (.emitJump rfl fun handler _ => .seq (sound_scopedBlock ready) (.seq (.emitOp rfl) ?_))
  refine .emitJump rfl fun skip le => .seq (.patchJump (by omega)) (.seq (sound_catchClause ready) ?_)
  refine .seq (.patchJump (Nat.le_refl _)) ((Sound.matchToken _).bind fun _ => .ite (fun _ => ?_) fun _ => .pure _)
  exact .seq (.consume _ _) (sound_scopedBlock ready)

/-! ### Functions and classes -/

lemma sound_parseFunction [F64 ν] (ready : Ready A self) : Sound A n (parseFunction self) := by
  refine .seq (.consume _ _) (Sound.previousText.bind fun name => .seq (.consume _ _) ?_)
  refine (sound_parseParams ready sound_parameter).bind fun names => .seq (sound_functionBody ready names) ?_
  exact (Sound.strConst name).bind fun _ => .emitOpA rfl _

lemma parenTurns : Turns A n (parenTurn : Nat → Parse ν (Nat × Bool)) := by
  refine .ofStop (fun _ p go atEof => go (.inl atEof)) fun depth p _ _ => ?_
  refine .matchToken (.pure _) (.matchToken (.pure _) (Eats.advance.seq (.pure _)))

lemma sound_methodParameter (names : List Str) : Sound A n (methodParameter names : Parse ν (List Str × Bool)) := by
  refine (Sound.check _).bind fun _ => .ite (fun _ => .pure _) fun _ => ?_
  refine (Sound.matchToken _).bind fun _ => .ite (fun _ => .pure _) fun _ => .seq (.consume _ _) ?_
  refine .ite (fun room => Sound.previousText.bind fun name => ?_) fun _ => .seq .exceed (.pure _)
  exact (Sound.store room name).bind fun _ => .pure _

lemma sound_parseClassMethod [F64 ν] (ready : Ready A self) : Sound A n (parseClassMethod self) := by
  refine .seq (.consume _ _) (Sound.prevNameConst.bind fun name => .seq (.consume _ _) ?_)
  refine (sound_parseParams ready sound_methodParameter).bind fun names => .seq (.consume _ _) (.seq (.consume _ _) ?_)
  refine .emitJump rfl fun skip _ => .codeLen fun start le => sound_enterFunction fun saved few => ?_
  refine .seq (sound_parseBlock ready) (.seq (sound_leaveFunction few) (.seq (.emitOp rfl) (.seq (.emitOpA rfl _) ?_)))
  refine .seq (.patchJump le) ((sound_positionConst start).bind fun _ => .seq (.emitOpA rfl _) ?_)
  exact .emitOpA rfl _

lemma memberTurns [F64 ν] (ready : Ready A self) : Turns A n (memberTurn self) := by
  have less := ready.mono (Nat.sub_le A 1)
  have rest (A' : Nat) (ready : Ready A' self) : Sound A' n (do
      if ← matchToken .tokFunction then
        parseClassMethod self
        return ((), true)
      else
        advance
        return ((), true)) :=
    (Sound.matchToken _).bind fun _ => .ite (fun _ => .seq (sound_parseClassMethod ready) (.pure _)) fun _ =>
      .seq .advance (.pure _)
  refine .ofStop (fun _ p go atEof => go (.inr atEof)) fun _ p _ _ => .matchToken ?_
    (.matchToken ?_ (.matchToken ?_ ?_))
  · exact (Sound.matchToken _).bind fun _ => rest _ less
  · exact rest _ less
  · exact .seq (sound_parseClassMethod less) (.pure _)
  · exact Eats.advance.seq (.pure _)

lemma sound_classParens (enough : A < self.turns) : Sound A n (classParens self) :=
  (Sound.matchToken _).bind fun _ => .ite (fun _ => (Sound.loop parenTurns enough _).bind fun _ => .pure _)
    fun _ => .pure _

lemma sound_parseClass [F64 ν] (ready : Ready A self) : Sound A n (parseClass self) := by
  refine .seq (.consume _ _) (Sound.prevNameConst.bind fun name => .seq (sound_classParens ready.turns) ?_)
  refine .seq (.consume _ _) (.seq (.emitOpA rfl _) (.seq (.loop (memberTurns ready) ready.turns _) ?_))
  exact .seq (.consume _ _) (.emitOpA rfl _)

/-! ### Leaving -/

lemma sound_endsHere : Sound A n (endsHere : Parse ν Bool) := .get fun _ _ => .pure _

lemma sound_skipSemi : Sound A n (skipSemi : Parse ν Unit) := (Sound.matchToken _).bind fun _ => .pure _

/-- The exit is noted where the jump is, and there is room for it. -/
lemma sound_pipeExit : Sound A n (pipeExit : Parse ν Unit) := by
  refine .get fun p _ => .ite (fun room => .emitJump rfl fun pos _ => ?_) fun _ => .tooMany _
  intro q w
  refine ⟨{ w.good with exits := ?_, exit := ?_, exitCount := room }, Nat.le_refl _, Nat.le_refl _⟩
  · rw [List.length_set]
    exact w.good.exits
  · intro pos' mem
    obtain old | rfl := List.mem_or_eq_of_mem_set mem
    · exact w.good.exit pos' old
    · exact .inr w.len

lemma sound_pipeReturn (ready : Ready A self) : Sound A n (pipeReturn self) := by
  refine sound_endsHere.bind fun _ => .ite (fun _ => .seq (.emitOp rfl) ?_) fun _ => .seq ready.expression ?_
  · exact .seq sound_skipSemi sound_pipeExit
  · exact .seq sound_skipSemi sound_pipeExit

lemma sound_countedExpression (ready : Ready A self) (count : Nat) : Sound A n (countedExpression self count) :=
  .seq ready.expression ((Sound.castU16 _).bind fun _ => .pure _)

lemma sound_parseReturn (ready : Ready A self) : Sound A n (parseReturn self) := by
  refine .get fun p _ => .ite (fun _ => sound_pipeReturn ready) fun _ => sound_endsHere.bind fun _ => .ite
    (fun _ => ?_) fun _ => ?_
  · exact .seq (.emitOp rfl) (.seq sound_skipSemi (.emitOpA rfl _))
  · refine .seq sound_deeper ((Sound.doCommaLoop ready.turns (sound_countedExpression ready) _).bind fun count => ?_)
    exact .seq sound_shallower (.seq sound_skipSemi (.emitOpA rfl _))

lemma sound_parseThrow (ready : Ready A self) : Sound A n (parseThrow self) := by
  refine .seq sound_deeper (.seq ready.expression ?_)
  refine (Sound.commaLoop ready.turns (sound_countedExpression ready) _).bind fun count => .seq sound_shallower ?_
  exact .seq (.consume _ _) (.emitOpA rfl _)

lemma sound_parseBreak : Sound A n (parseBreak : Parse ν Unit) := .seq sound_skipSemi (.emitOpA rfl _)

lemma sound_parseContinue : Sound A n (parseContinue : Parse ν Unit) := .seq sound_skipSemi (.emitOpA rfl _)

/-! ### Statements -/

lemma sound_expressionEnd : Sound A n (expressionEnd : Parse ν Unit) :=
  .get fun _ _ => .ite (fun _ => .pure _) fun _ => .consume _ _

/-- An expression statement begins with an expression, which eats. -/
lemma eats_parseExprStmt (eats : ∀ prec, Eats A 0 (self.parsePrecedence prec)) : Eats A n (parseExprStmt self) :=
  ((eats precAssign).weaken (Nat.le_refl _) (Nat.zero_le _)).seq (.seq sound_expressionEnd (.emitOp rfl))

lemma sound_functionStatement [F64 ν] (ready : Ready A self) : Sound A n (functionStatement self) := by
  refine (Sound.check _).bind fun _ => .ite (fun _ => .seq (sound_parseFunctionExpr ready) ?_) fun _ => ?_
  · exact .seq sound_expressionEnd (.seq (.emitOp rfl) (.pure _))
  · exact .seq (sound_parseFunction ready) (.pure _)

lemma sound_statementRule [F64 ν] (ready : Ready A self) (again : 0 < A → Sound (A - 1) 0 self.parseIf)
    {type : CandoTokenType} {statement : Parse ν Unit} (h : statementRule self type = some statement) :
    Sound A n statement := by
  unfold statementRule at h
  split at h
  all_goals cases h
  all_goals first
    | with_reducible exact sound_parseVarDecl ready _
    | with_reducible exact sound_parseIf ready again
    | with_reducible exact sound_parseWhile ready
    | with_reducible exact sound_parseFor ready
    | with_reducible exact sound_parseTry ready
    | with_reducible exact sound_parseClass ready
    | with_reducible exact sound_parseReturn ready
    | with_reducible exact sound_parseThrow ready
    | with_reducible exact sound_parseBreak
    | with_reducible exact sound_parseContinue
    | with_reducible exact sound_scopedBlock ready
    | with_reducible exact .pure _

lemma eats_nothing {α : Type} (m : Parse ν α) : Eats 0 n m :=
  fun _ w inside => absurd w.left (Nat.not_le.mpr (left_pos inside))

lemma eats_dispatch [F64 ν] (eats : ∀ prec, Eats A 0 (self.parsePrecedence prec)) (ready : Ready (A - 1) self)
    (again : 0 < A - 1 → Sound (A - 1 - 1) 0 self.parseIf) : Eats A n (dispatch self) := by
  refine .get fun p _ => ?_
  split
  · exact Eats.advance.seq (sound_functionStatement ready)
  · split
    · next statement e => exact Eats.advance.seq (.seq (sound_statementRule ready again e) (.pure _))
    · exact (eats_parseExprStmt eats).seq (.pure _)

lemma eats_parseStatement [F64 ν] (eats : ∀ prec, Eats A 0 (self.parsePrecedence prec)) (ready : Ready (A - 1) self)
    (again : 0 < A - 1 → Sound (A - 1 - 1) 0 self.parseIf) : Eats A n (parseStatement self) := by
  refine .afterQuiet (fun _ => rfl) ((eats_dispatch eats ready again).bind fun _ => .seq (.quiet fun _ => rfl) ?_)
  exact .get fun _ _ => .ite (fun _ => sound_synchronise ready.turns) fun _ => .pure _

/-! ### The knot -/

/-- The parse functions do not run out of calls, of which they need at most four for each byte that is left to read. -/
structure Fit (fuel : Nat) (calls : Knot ν) : Prop where
  turns : fuel ≤ calls.turns + 1
  precedence : ∀ a prec, 4 * a + 1 ≤ fuel → Sound a 0 (calls.parsePrecedence prec)
  eats : ∀ a prec, 4 * a + 1 ≤ fuel → Eats a 0 (calls.parsePrecedence prec)
  statement : ∀ a, 4 * a + 2 ≤ fuel → Eats a 0 calls.parseStatement
  parseIf : ∀ a, 4 * a + 3 ≤ fuel → Sound a 0 calls.parseIf

lemma Fit.ready {fuel : Nat} {calls : Knot ν} (fit : Fit fuel calls) {a : Nat} (h : 4 * a + 2 ≤ fuel) :
    Ready a calls where
  turns := by
    have := fit.turns
    omega
  precedence prec := fit.precedence a prec (by omega)
  eats prec := fit.eats a prec (by omega)
  statement := fit.statement a h

lemma fit_knot [F64 ν] (fuel : Nat) : Fit fuel (knot fuel : Knot ν) := by
  induction fuel with
  | zero => exact ⟨Nat.zero_le _, by omega, by omega, by omega, by omega⟩
  | succ fuel ih =>
    constructor
    case turns => exact Nat.le_refl _
    case precedence => exact fun a prec h => sound_parsePrecedence (fun some => ih.ready (by omega)) prec
    case eats => exact fun a prec h => eats_parsePrecedence (fun some => ih.ready (by omega)) prec
    case statement =>
      intro a h
      cases a with
      | zero => exact eats_nothing _
      | succ a =>
        have again (some : 0 < a) : Sound (a - 1) 0 (knot fuel : Knot ν).parseIf := ih.parseIf (a - 1) (by omega)
        exact eats_parseStatement (fun prec => ih.eats (a + 1) prec (by omega)) (ih.ready (by omega)) again
    case parseIf => exact fun a h => sound_parseIf (ih.ready (by omega)) fun some => ih.parseIf (a - 1) (by omega)

/-! ### Sources -/

lemma within_init (source : Str) (evalMode : Bool) :
    Within source.length 0 (init source {} evalMode : CandoParser ν) := by
  have start (tok : CandoToken) :
      Good ({ lexer := { source }, current := tok, previous := tok, chunk := {}, evalMode } : CandoParser ν) := by
    constructor
    case exit => exact fun pos mem => .inl (List.eq_of_mem_replicate mem)
    all_goals simp [capacities, len]
  exact within_nextToken _ (start _)

/-- The last instruction stands at the end of the code, or in the place of the last `OP_POP`. -/
lemma parseEnd_ends {p : CandoParser ν} (good : Good p) : (parseEnd p).Ends (fun _ => Good) Allowed := by
  have emitted {m : Parse ν Unit} (h : Sound p.left p.len m) : (m p).Ends (fun _ => Good) Allowed :=
    Outcome.Ends.mono (h p good.within) (fun _ _ w => w.good) fun _ c => c
  simp only [parseEnd, bind_apply, get_apply, Outcome.bind_ok]
  split
  · split
    · obtain ⟨q, popped⟩ : ∃ q, p.withCode p.codeCap p.chunk.code.dropLast = q := ⟨_, rfl⟩
      have shorter : q.len = p.len - 1 := by
        rw [← popped]
        exact List.length_dropLast
      have room := good.room
      have fits : q.len ≤ q.codeCap := by
        rw [shorter, ← popped]
        exact (Nat.sub_le _ _).trans room
      have ends : (emitOpA .return 1 q).Ends _ CodeFull := emit_ends (popped ▸ good.cap) fits rfl
      have again : (emitOpA .return 1 q).Ends (fun _ => Good) Allowed := by
        refine Outcome.Ends.mono ends ?_ fun _ c => .inr c
        rintro _ _ ⟨cap, mem, rfl, room⟩
        rw [← length_emitted] at room
        have more : p.len ≤ (q.chunk.code ++ ({ op := .return, a := 1 } : Instr).encode).length := by
          rw [length_emitted, shorter]
          show p.len ≤ p.len - 1 + 3
          omega
        have same (code : List UInt8) : q.withCode cap code = p.withCode cap code := by
          rw [← popped]
          rfl
        rw [same]
        exact (good_code good mem more room).good
      rw [← popped] at again
      exact again
    · exact emitted (.emitOpA rfl _)
  · exact emitted (.emitOp rfl)

/-- Every parse ends in a good state, or stops where it may. -/
lemma parse_ends [F64 ν] (source : Str) (evalMode : Bool) {fuel : Nat} (enough : callsFor source ≤ fuel) :
    (parse fuel source evalMode : Outcome (CandoParser ν) Empty Stop Unit).Ends (fun _ => Good) Allowed := by
  have ready : Ready source.length (knot fuel : Knot ν) := (fit_knot fuel).ready enough
  have statements : Sound source.length 0 (loop (fun _ => do
      let p ← get
      if p.current.type = .tokEof then return ((), false)
      else
        (knot fuel : Knot ν).parseStatement
        return ((), true)) (knot fuel : Knot ν).turns ()) :=
    .loop (.ofStop (fun _ p go atEof => go atEof) fun _ p _ _ => ready.statement.seq (.pure _)) ready.turns _
  apply (statements _ (within_init source evalMode)).bind
  exact fun _ _ w => parseEnd_ends w.good

end CandoParser

end Cando
