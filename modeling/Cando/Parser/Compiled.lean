import Cando.Parser.Settles
import Cando.Parser.Statement
import Cando.Vm.Operands

/-!
# Compiled chunks

The parse functions settle, provided that those which they call again do, and so the chunk of every source that
`cando_parse` gets through is well-formed: it holds whole instructions, with the operands that they need.
-/

namespace Cando

open Program

namespace CandoParser

variable {ν : Type}

section

variable {α : Type} [F64 ν]

/-- The parse functions that are called again build. -/
structure Calls (calls : Knot ν) : Prop where
  precedence : ∀ prec, Settles [] [] (calls.parsePrecedence prec)
  statement : Settles [] [] calls.parseStatement
  parseIf : Settles [] [] calls.parseIf

variable {known : List (Fact ν)} {owed : List (Nat × Opcode)} {self : Knot ν}

lemma Calls.operand (calls : Calls self) (prec : Nat) : Settles known [] (self.parsePrecedence prec) :=
  (calls.precedence prec).weaken (List.nil_subset _)

lemma Calls.expression (calls : Calls self) : Settles known [] (parseExpression self) := calls.operand precAssign

/-! ### Flags -/

lemma settles_freshFlags : Settles known [] (freshFlags : Parse ν Unit) :=
  .quiet fun _ => ⟨rfl, rfl, rfl, rfl, Nat.le_refl _⟩

lemma settles_setCall (b : Bool) : Settles known [] (setCall b : Parse ν Unit) :=
  .quiet fun _ => ⟨rfl, rfl, rfl, rfl, Nat.le_refl _⟩

lemma settles_setUnpack (b : Bool) : Settles known [] (setUnpack b : Parse ν Unit) :=
  .quiet fun _ => ⟨rfl, rfl, rfl, rfl, Nat.le_refl _⟩

lemma settles_setMultiPush (k : Nat) : Settles known [] (setMultiPush k : Parse ν Unit) :=
  .quiet fun _ => ⟨rfl, rfl, rfl, rfl, Nat.le_refl _⟩

lemma settles_setCallDepth (k : Nat) : Settles known [] (setCallDepth k : Parse ν Unit) :=
  .quiet fun _ => ⟨rfl, rfl, rfl, rfl, Nat.le_refl _⟩

lemma settles_deeper : Settles known [] (deeper : Parse ν Unit) :=
  .quiet fun _ => ⟨rfl, rfl, rfl, rfl, Nat.le_refl _⟩

lemma settles_shallower : Settles known [] (shallower : Parse ν Unit) :=
  .quiet fun _ => ⟨rfl, rfl, rfl, rfl, Nat.le_refl _⟩

/-! ### Literals -/

lemma settles_parseNumber : Settles known [] (parseNumber : Parse ν Unit) :=
  Settles.previousText.bind fun _ => .addConst fun _ => .emitConst List.mem_cons_self

lemma settles_quotedText : Settles known [] (quotedText : Parse ν Str) := .get fun _ => .pure _

lemma settles_parseStringLiteral : Settles known [] (parseStringLiteral : Parse ν Unit) :=
  settles_quotedText.bind fun _ => .strConst fun _ => .emitConst List.mem_cons_self

lemma settles_parseLiteral : Settles known [] (parseLiteral : Parse ν Unit) := by
  refine .get fun p => ?_
  split
  all_goals first | exact .emitOp rfl | exact .crash _

/-! ### Masks -/

lemma settles_emitMask (keep : Bool) (passCount : Nat) : Settles known [] (emitMask keep passCount : Parse ν Nat) :=
  .seq (.emitOp (by cases keep <;> rfl)) (.pure _)

lemma settles_maskBits (calls : Calls self) (bits : List Bool) (passCount : Nat) :
    Settles known [] (maskBits self bits passCount) := by
  induction bits generalizing passCount with
  | nil => exact .pure _
  | cons keep bits ih =>
    refine (Settles.matchToken _).bind fun _ => .ite ?_ (.seq (.error _) (.pure _))
    exact .seq (calls.operand _) ((settles_emitMask keep passCount).bind fun _ => ih _)

lemma settles_maskExtras (calls : Calls self) (keep : Bool) (passCount : Nat) :
    Settles known [] (maskExtras self keep passCount) :=
  .commaLoop (fun _ => .seq (calls.operand _) ((settles_emitMask keep _).bind fun _ => .pure _)) _ _

lemma settles_maskList (calls : Calls self) (first : Bool) (bits : List Bool) :
    Settles known [] (maskList self first bits) := by
  refine (settles_emitMask first 0).bind fun _ => (settles_maskBits calls bits _).bind fun _ => ?_
  exact .ite (settles_maskExtras calls _ _) (.pure _)

lemma settles_maskValues (calls : Calls self) (bits : List Bool) (outerDepth : Nat) :
    Settles known [] (maskValues self bits outerDepth) := by
  refine .get fun p => .ite ?_ (.ite ?_ ?_)
  · exact .seq (.when .exceed) (.seq (.emitOpAb rfl rfl _ _) (.seq (settles_setUnpack _) (.pure _)))
  · refine (settles_emitMask _ 0).bind fun _ => ?_
    exact .seq (settles_setCall _) (.seq (settles_setUnpack _) (.pure _))
  · refine (settles_maskList calls _ _).bind fun _ => ?_
    exact .seq (settles_setCall _) (.seq (settles_setUnpack _) (.pure _))

lemma settles_parseMaskEmit (calls : Calls self) (bits : List Bool) : Settles known [] (parseMaskEmit self bits) := by
  refine .get fun p => .seq settles_deeper (.seq (settles_setCall _) (.seq (calls.operand _) ?_))
  exact (settles_maskValues calls bits _).bind fun _ => .seq settles_shallower (settles_setMultiPush _)

lemma settles_addSkips (k : Nat) (bits : List Bool) : Settles known [] (addSkips k bits : Parse ν (List Bool)) := by
  induction k generalizing bits with
  | zero => exact .pure _
  | succ k ih => exact .ite ((Settles.store _ _ _).bind fun _ => ih _) (.seq .exceed (.pure _))

lemma settles_maskPattern : Settles known [] (maskPattern self) := by
  refine .loop (fun bits => .get fun p => .ite (.seq .advance (.ite ?_ ?_)) (.pure _)) _ _
  · exact (settles_addSkips 3 bits).bind fun _ => .pure _
  · exact (Settles.store _ _ _).bind fun _ => .pure _

lemma settles_closeMask : Settles known [] (closeMask : Parse ν Unit) :=
  .get fun _ => .seq (.consume _ _) (.when (.quiet fun _ => ⟨rfl, rfl, rfl, rfl, Nat.le_refl _⟩))

lemma settles_parseGrouping (calls : Calls self) : Settles known [] (parseGrouping self) := by
  refine .get fun p => .ite ?_ ?_
  · exact settles_maskPattern.bind fun _ => .seq settles_closeMask (settles_parseMaskEmit calls _)
  · exact .seq (settles_setCallDepth _) (.seq calls.expression (.seq (settles_setCallDepth _) (.consume _ _)))

lemma settles_emitUnary (type : CandoTokenType) : Settles known [] (emitUnary type : Parse ν Unit) := by
  unfold emitUnary
  split
  all_goals first | exact .emitOp rfl | exact .pure _

lemma settles_parseUnary (calls : Calls self) : Settles known [] (parseUnary self) :=
  .get fun _ => .seq (calls.operand _) (.seq (settles_emitUnary _) (settles_setCall _))

/-! ### Variables -/

lemma settles_emitLoad (name : Str) : Settles known [] (emitLoad name : Parse ν Unit) := by
  refine .resolveLocal (.strConst fun _ => ?_) fun _ => ?_
  · exact .emitName rfl rfl List.mem_cons_self
  · exact .emitSlot rfl rfl List.mem_cons_self

lemma settles_emitStore (name : Str) : Settles known [] (emitStore name : Parse ν Unit) := by
  refine .resolveLocal (.strConst fun _ => ?_) fun _ => ?_
  · exact .emitName rfl rfl List.mem_cons_self
  · exact .emitSlot rfl rfl List.mem_cons_self

lemma settles_parsePostfix (name : Str) {op : Opcode} (fmt : op.fmt = .none) :
    Settles known [] (parsePostfix name op : Parse ν Unit) := by
  refine .seq (settles_emitLoad name) (.seq (.emitOp rfl) (.addConst fun _ => .seq (.emitConst List.mem_cons_self) ?_))
  exact .seq (.emitOp fmt) (.seq (settles_emitStore name) (.emitOp rfl))

lemma fmt_compoundOp {type : CandoTokenType} {op : Opcode} (h : compoundOp type = some op) : op.fmt = .none := by
  cases type <;> cases h <;> rfl

lemma settles_parseVariableExpr (calls : Calls self) (canAssign : Bool) :
    Settles known [] (parseVariableExpr self canAssign) := by
  refine Settles.previousText.bind fun name => .get fun p => .ite ?_ (settles_emitLoad name)
  cases e : compoundOp p.current.type with
  | some op =>
    refine .seq .advance (.seq (settles_emitLoad name) (.seq calls.expression ?_))
    exact .seq (.emitOp (fmt_compoundOp e)) (settles_emitStore name)
  | none =>
    refine (Settles.matchToken _).bind fun _ => .ite (.seq calls.expression (settles_emitStore name)) ?_
    refine (Settles.matchToken _).bind fun _ => .ite (settles_parsePostfix name rfl) ?_
    exact (Settles.matchToken _).bind fun _ => .ite (settles_parsePostfix name rfl) (settles_emitLoad name)

/-! ### Lists -/

lemma settles_listItems {α : Type} {item : α → Parse ν (α × Bool)} (h : ∀ a, Settles known [] (item a))
    (close : CandoTokenType) (a : α) : Settles known [] (listItems self close item a) := by
  refine (Settles.check close).bind fun _ => .ite (.pure _) (.seq settles_deeper ?_)
  exact (Settles.doCommaLoop h _ a).bind fun _ => .seq settles_shallower (.pure _)

lemma settles_countOne (msg : String) (count : Nat) : Settles known [] (countOne msg count : Parse ν (Nat × Bool)) :=
  .ite (.seq (.tooMany msg) (.pure _)) (.pure _)

lemma settles_countPushed (msg : String) (count : Nat) :
    Settles known [] (countPushed msg count : Parse ν (Nat × Bool)) :=
  .get fun _ => (Settles.castU16 _).bind fun _ => .ite (.seq (.tooMany msg) (.pure _)) (.pure _)

lemma settles_arrayElement (calls : Calls self) (count : Nat) : Settles known [] (arrayElement self count) := by
  refine (Settles.check _).bind fun _ => .ite (.pure _) (.seq settles_freshFlags (.seq calls.expression ?_))
  refine .get fun _ => .ite ?_ (settles_countPushed _ _)
  exact .seq (.emitOp rfl) (.seq (.emitOp rfl) (settles_countOne _ _))

lemma settles_parseArrayLiteral (calls : Calls self) : Settles known [] (parseArrayLiteral self) :=
  (settles_listItems (settles_arrayElement calls) _ _).bind fun _ => .seq (.consume _ _) (.emitOpA rfl rfl _)

/-- What follows knows that the name of the key is stored. -/
lemma settles_objectKey {f : Option Nat → Parse ν α} (none : Settles known owed (f none))
    (some : ∀ key s, Settles (.const key (.string s) :: known) owed (f (some key))) :
    Settles known owed (objectKey >>= f) := by
  simp only [objectKey, bind_assoc]
  refine .get fun p => ?_
  split
  · simp only [bind_assoc, pure_bind]
    exact .seq .advance (.prevNameConst fun key s => some key s)
  · simp only [bind_assoc, pure_bind]
    exact .seq .advance (settles_quotedText.bind fun s => .strConst fun key => some key s)
  · simp only [bind_assoc, pure_bind]
    exact .seq .advance (settles_quotedText.bind fun s => .strConst fun key => some key s)
  · simp only [bind_assoc, pure_bind]
    exact .seq (.errorCurrent _) none

lemma settles_objectField (calls : Calls self) (u : Unit) : Settles known [] (objectField self u) := by
  refine (Settles.check _).bind fun _ => .ite (.pure _) (settles_objectKey (.pure _) fun key s => ?_)
  exact .seq (.consume _ _) (.seq calls.expression (.seq (.emitName rfl rfl List.mem_cons_self) (.pure _)))

lemma settles_parseObjectLiteral (calls : Calls self) : Settles known [] (parseObjectLiteral self) :=
  .seq (.emitOp rfl) (.seq (settles_listItems (settles_objectField calls) _ _) (.consume _ _))

lemma settles_parseUnpack (calls : Calls self) : Settles known [] (parseUnpack self) :=
  .seq (calls.operand _) (settles_setUnpack _)

/-! ### Comparisons -/

lemma settles_comparedValue (calls : Calls self) (next k : Nat) : Settles known [] (comparedValue self next k) := by
  refine .seq settles_freshFlags (.seq (calls.operand _) (.get fun _ => .seq (.when (.emitOp rfl)) ?_))
  exact (Settles.castU16 _).bind fun _ => .pure _

lemma settles_compareList (calls : Calls self) (next : Nat) {stackOp : Opcode} (fmt : stackOp.fmt = .a)
    (plain : stackOp.kind = .plain) (wasCall : Bool) (multiPush : Nat) :
    Settles known [] (compareList self next stackOp wasCall multiPush) := by
  refine (Settles.castU16 _).bind fun _ => .seq (.when (.emitOp rfl)) ?_
  exact (Settles.commaLoop (settles_comparedValue calls next) _ _).bind fun _ => .emitOpA fmt plain _

lemma settles_multiCmp (calls : Calls self) (next : Nat) {plainOp stackOp spreadOp : Opcode}
    (plain : plainOp.fmt = .none) (stack : stackOp.fmt = .a) (count : stackOp.kind = .plain)
    (spread : spreadOp.fmt = .none) :
    Settles known [] (multiCmp self next plainOp stackOp spreadOp) := by
  refine .get fun p => .seq (settles_setUnpack _) (.ite (.emitOp spread) (.ite ?_ (.ite ?_ ?_)))
  · exact (Settles.castU16 _).bind fun _ => .emitOpA stack count _
  · exact settles_compareList calls next stack count _ _
  · exact .seq (.when (.emitOp rfl)) (.emitOp plain)

lemma settles_rangeCheck (calls : Calls self) (leftInc rightInc : Bool) :
    Settles known [] (rangeCheck self leftInc rightInc) := by
  refine .seq .advance (.seq settles_freshFlags (.seq (calls.operand _) ?_))
  exact .get fun _ => .seq (.when (.emitOp rfl)) (.emitOpA rfl rfl _)

lemma settles_greaterCmp (calls : Calls self) (next : Nat) (leftInc : Bool) {plainOp stackOp spreadOp : Opcode}
    (plain : plainOp.fmt = .none) (stack : stackOp.fmt = .a) (count : stackOp.kind = .plain)
    (spread : spreadOp.fmt = .none) :
    Settles known [] (greaterCmp self next leftInc plainOp stackOp spreadOp) := by
  refine .get fun p => .seq (settles_setUnpack _) (.ite ?_ (.ite (.emitOp spread) (.ite ?_ (.ite ?_ ?_))))
  · exact .seq (.when (.emitOp rfl)) (settles_rangeCheck calls _ _)
  · exact (Settles.castU16 _).bind fun _ => .emitOpA stack count _
  · exact settles_compareList calls next stack count _ _
  · exact .seq (.when (.emitOp rfl)) (.seq (.emitOp plain) (.when (.errorCurrent _)))

lemma settles_emitBinary (calls : Calls self) (next : Nat) (type : CandoTokenType) :
    Settles known [] (emitBinary self next type) := by
  unfold emitBinary
  split
  all_goals first
    | exact .emitOp rfl
    | exact settles_multiCmp calls next rfl rfl rfl rfl
    | exact settles_greaterCmp calls next _ rfl rfl rfl rfl
    | exact .pure _

lemma settles_parseBinary (calls : Calls self) : Settles known [] (parseBinary self) := by
  refine .get fun p => .seq (settles_setMultiPush _) (.seq (settles_setUnpack _) (.seq (calls.operand _) ?_))
  exact .seq (settles_emitBinary calls _ _) (.seq (settles_setCall _) (settles_setUnpack _))

lemma settles_parseLogical (calls : Calls self) {jumpOp : Opcode} (fmt : jumpOp.fmt = .a)
    (ahead : jumpOp.kind = .ahead) (prec : Nat) :
    Settles known [] (parseLogical self jumpOp prec) :=
  .emitJump fmt ahead fun _ => .seq (.emitOp rfl) (.seq (calls.operand _) (.patchJump fmt ahead))

/-! ### Members and calls -/

lemma settles_parseDot (calls : Calls self) (canAssign : Bool) : Settles known [] (parseDot self canAssign) := by
  refine .get fun p => .ite (.errorCurrent _) (.seq .advance (.prevNameConst fun name s => ?_))
  refine .ite ((Settles.matchToken _).bind fun _ => .ite ?_ ?_) (.emitName rfl rfl List.mem_cons_self)
  · exact .seq calls.expression (.emitName rfl rfl List.mem_cons_self)
  · exact .emitName rfl rfl List.mem_cons_self

lemma settles_parseSubscript (calls : Calls self) (canAssign : Bool) :
    Settles known [] (parseSubscript self canAssign) := by
  refine .seq calls.expression (.seq (.consume _ _) (.ite ?_ (.emitOp rfl)))
  exact (Settles.matchToken _).bind fun _ => .ite (.seq calls.expression (.emitOp rfl)) (.emitOp rfl)

lemma settles_callArgument (calls : Calls self) (argc : Nat) : Settles known [] (callArgument self argc) := by
  refine (Settles.check _).bind fun _ => .ite (.pure _) (.seq settles_freshFlags (.seq calls.expression ?_))
  exact .get fun _ => .ite (.seq (.emitOp rfl) (settles_countOne _ _)) (settles_countPushed _ _)

lemma settles_parseCall (calls : Calls self) : Settles known [] (parseCall self) :=
  (settles_listItems (settles_callArgument calls) _ _).bind fun _ =>
    .seq (.consume _ _) (.seq (.emitOpA rfl rfl _) (settles_setCall _))

lemma settles_methodArgument (calls : Calls self) (argc : Nat) : Settles known [] (methodArgument self argc) := by
  refine (Settles.check _).bind fun _ => .ite (.pure _) (.seq (settles_setCall _) (.seq (settles_setUnpack _) ?_))
  exact .seq calls.expression (.get fun _ => .seq (.when (.emitOp rfl)) (settles_countOne _ _))

lemma settles_parseMethod (calls : Calls self) (nameMsg parenMsg endMsg : String) {op : Opcode}
    (fmt : op.fmt = .ab) (named : op.kind = .name) :
    Settles known [] (parseMethod self nameMsg parenMsg endMsg op) := by
  refine .seq (.consume _ _) (.prevNameConst fun name s => .seq (.consume _ _) ?_)
  refine (settles_listItems (settles_methodArgument calls) _ _).bind fun argc => .seq (.consume _ _) ?_
  exact .seq (.emitNameAb fmt named List.mem_cons_self _) (settles_setCall _)

/-! ### Blocks -/

lemma settles_blockStatements (calls : Calls self) : Settles known [] (blockStatements self) :=
  .loop (fun _ => .get fun _ => .ite (.pure _) (.seq (calls.statement.weaken (List.nil_subset _)) (.pure _))) _ _

lemma settles_parseBlock (calls : Calls self) : Settles known [] (parseBlock self) :=
  .seq (settles_blockStatements calls) (.consume _ _)

lemma settles_scopedBlock (calls : Calls self) : Settles known [] (scopedBlock self) :=
  .seq .scopeBegin (.seq (settles_parseBlock calls) .scopeEnd)

lemma settles_patchExits {exits : List Nat} (h : ∀ pos ∈ exits, .jump pos ∈ known) :
    Settles known [] (patchExits exits : Parse ν Unit) := by
  induction exits with
  | nil => exact .pure _
  | cons pos exits ih =>
    have others (pos' : Nat) (mem : pos' ∈ exits) := h pos' (List.mem_cons_of_mem _ mem)
    exact .seq (.patchExit (h pos List.mem_cons_self)) (ih others)

omit [F64 ν] in
lemma Exits.jump {ops : List Opcode} {p : CandoParser ν} (h : Exits p.pipeExitCount ops p) :
    ∀ pos ∈ p.pipeExits.take p.pipeExitCount, OperandOf ops pos .jump := by
  intro pos mem
  obtain ⟨i, lt, e⟩ := List.mem_iff_getElem.mp mem
  rw [List.length_take, Nat.lt_min] at lt
  obtain ⟨pos', e', stands⟩ := h i lt.1
  rw [List.getElem_take] at e
  rw [List.getElem?_eq_getElem lt.2, e] at e'
  exact Option.some.inj e' ▸ stands

/-- The body of a pipe in a block: its exits are patched, and those of the body around it are operands as before. -/
lemma settles_pipeBlock (calls : Calls self) (saved : CandoParser ν) {ops : List Opcode} {p : CandoParser ν}
    (tidy : Tidy owed ops p) (exits : Exits saved.pipeExitCount ops p) (pipe : .pipeInit ∈ ops) : Brings owed ops p ((do
      modify fun p => { p with inPipeBody := true, pipeExitCount := 0 }
      parseBlock self
      emitOp .null
      let p ← get
      patchExits (p.pipeExits.take p.pipeExitCount)
      modify fun p => { p with inPipeBody := saved.inPipeBody, pipeExitCount := saved.pipeExitCount }
      : Parse ν Unit) p) := by
  have fresh : Tidy owed ops { p with inPipeBody := true, pipeExitCount := 0 } :=
    { tidy with exits := fun i lt => absurd lt (Nat.not_lt_zero i), pipe := fun _ => pipe }
  have begins : Prolongs ops p ops { p with inPipeBody := true, pipeExitCount := 0 } :=
    ⟨List.prefix_rfl, List.prefix_rfl, Nat.le_refl _, fun _ e => e⟩
  have block : Settles [] [] (do parseBlock self; emitOp .null) := .seq (settles_parseBlock calls) (.emitOp rfl)
  have text : (do
      modify fun p => { p with inPipeBody := true, pipeExitCount := 0 }
      parseBlock self
      emitOp .null
      let p ← get
      patchExits (p.pipeExits.take p.pipeExitCount)
      modify fun p => { p with inPipeBody := saved.inPipeBody, pipeExitCount := saved.pipeExitCount }
      : Parse ν Unit) = (do
      modify fun p => { p with inPipeBody := true, pipeExitCount := 0 }
      (do parseBlock self; emitOp .null)
      let p ← get
      patchExits (p.pipeExits.take p.pipeExitCount)
      modify fun p => { p with inPipeBody := saved.inPipeBody, pipeExitCount := saved.pipeExitCount }) := by
    simp only [bind_assoc]
  rw [text]
  apply Outcome.Ends.bind (block owed ops _ fresh fun _ mem => absurd mem List.not_mem_nil)
  rintro _ q ⟨ops', through, tidy'⟩
  have patch : Settles ((q.pipeExits.take q.pipeExitCount).map .jump) []
      (patchExits (q.pipeExits.take q.pipeExitCount) : Parse ν Unit) :=
    settles_patchExits fun _ mem => List.mem_map_of_mem mem
  apply Outcome.Ends.bind (patch owed ops' q tidy' fun f mem => ?_)
  · rintro _ r ⟨ops'', patched, tidy''⟩
    have whole := (begins.trans through).trans patched
    refine ⟨ops'', ⟨whole.more, whole.pool, whole.slots, whole.exits⟩, { tidy'' with
      exits := whole.exits _ exits
      pipe := fun _ => whole.more.subset pipe }⟩
  · obtain ⟨pos, there, rfl⟩ := List.mem_map.mp mem
    exact tidy'.exits.jump pos there

lemma settles_pipeBody (calls : Calls self) (pipe : .emitted .pipeInit ∈ known) : Settles known [] (pipeBody self) := by
  refine (Settles.matchToken _).bind fun _ => .ite ?_ calls.expression
  exact fun rest ops p tidy holds => settles_pipeBlock calls p tidy tidy.exits (holds _ pipe)

lemma settles_parsePipe (calls : Calls self) {nextOp collectOp : Opcode} (next : nextOp.fmt = .a)
    (ahead : nextOp.kind = .ahead) (collect : collectOp.fmt = .none) :
    Settles known [] (parsePipe self nextOp collectOp) := by
  refine .emitted rfl rfl (.seq .scopeBegin (.seq (.emitOp rfl) (.declareLocal fun slot => ?_)))
  refine .seq (.emitSlot rfl rfl List.mem_cons_self) (.codeLen fun start => .emitJump next ahead fun done => ?_)
  refine .seq (.emitSlot rfl rfl (by simp)) (.seq (settles_pipeBody calls (by simp)) (.seq (.emitOp collect) ?_))
  exact .seq (.emitLoop List.mem_cons_self) (.pay (.patchJump next ahead) (.seq .scopeEnd (.emitOp rfl)))

lemma settles_threadBody (calls : Calls self) : Settles known [] (threadBody self) := by
  refine .seq .scopeBegin (.declareLocal fun _ => (Settles.matchToken _).bind fun _ => .ite ?_ ?_)
  · exact .seq (settles_parseBlock calls) (.seq .scopeEnd (.emitOp rfl))
  · exact .seq calls.expression .scopeEnd

lemma settles_parseThreadExpr (calls : Calls self) : Settles known [] (parseThreadExpr self) := by
  refine .get fun p => .ite (.strConst fun _ => .emitName rfl rfl List.mem_cons_self) ?_
  refine .emitJump rfl rfl fun skip => .codeLen fun start => .seq (settles_threadBody calls) ?_
  refine .seq (.emitOpA rfl rfl _) (.pay (.patchJump rfl rfl) (.addConst fun _ => ?_))
  exact .seq (.emitClosure List.mem_cons_self (by simp)) (.seq (.emitOp rfl) (settles_setCall _))

lemma settles_parseAwaitExpr (calls : Calls self) : Settles known [] (parseAwaitExpr self) :=
  .seq (calls.operand _) (.seq (.emitOp rfl) (settles_setCall _))

/-! ### Functions -/

lemma settles_parameter (names : List Str) : Settles known [] (parameter names : Parse ν (List Str × Bool)) := by
  refine (Settles.check _).bind fun _ => .ite (.pure _) ((Settles.matchToken _).bind fun _ => .ite (.pure _) ?_)
  refine .seq (.consume _ _) (.ite (.seq (.tooMany _) (.pure _)) (Settles.previousText.bind fun name => ?_))
  exact (Settles.store _ _ _).bind fun _ => .pure _

lemma settles_parseParams {param : List Str → Parse ν (List Str × Bool)} (h : ∀ names, Settles known [] (param names)) :
    Settles known [] (parseParams self param) :=
  (Settles.check _).bind fun _ => .ite (.pure _) (.doCommaLoop h _ _)

lemma settles_declareParams (names : List Str) : Settles known [] (declareParams names : Parse ν Unit) := by
  induction names with
  | nil => exact .pure _
  | cons name names ih => exact .declareLocal fun _ => ih.weaken (List.subset_cons_self _ _)

/-- What follows knows that there is a slot for each of the locals that are put aside. -/
lemma settles_enterFunction {names : List Str} {f : List CandoLocal × Int → Parse ν α}
    (h : ∀ saved, Settles (.slots saved.1.length :: known) owed (f saved)) :
    Settles known owed (enterFunction names >>= f) := by
  intro rest ops p tidy holds
  simp only [enterFunction, bind_assoc, pure_bind]
  have enter : Settles (.slots p.locals.length :: known) owed (do
      modify fun p => { p with locals := [], scopeDepth := 1 }
      let _ ← declareLocal [] false
      declareParams names
      f (p.locals, p.scopeDepth) : Parse ν α) := by
    refine .seq (.quiet fun _ => ⟨rfl, rfl, rfl, rfl, Nat.zero_le _⟩) (.declareLocal fun _ => ?_)
    exact .seq (settles_declareParams names) ((h _).weaken (List.subset_cons_self _ _))
  refine enter rest ops p tidy fun g mem => ?_
  obtain rfl | mem := List.mem_cons.mp mem
  · exact tidy.slots
  · exact holds g mem

lemma settles_leaveFunction {saved : List CandoLocal × Int} (mem : .slots saved.1.length ∈ known) :
    Settles known [] (leaveFunction saved : Parse ν Unit) := by
  intro rest ops p tidy holds
  have slots : saved.1.length ≤ p.chunk.localCount := holds _ mem
  exact ⟨ops, ⟨List.prefix_rfl, List.prefix_rfl, Nat.le_refl _, fun _ e => e⟩, { tidy with slots }⟩

lemma settles_functionBody (calls : Calls self) (names : List Str) : Settles known [] (functionBody self names) := by
  refine .seq (.consume _ _) (.seq (.consume _ _) (.emitJump rfl rfl fun skip => .codeLen fun start => ?_))
  refine settles_enterFunction fun saved => .seq (settles_parseBlock calls) (.seq (.emitOp rfl) ?_)
  refine .seq (.emitOpA rfl rfl _) (.seq (settles_leaveFunction List.mem_cons_self) (.pay (.patchJump rfl rfl) ?_))
  exact .addConst fun _ => .emitClosure List.mem_cons_self (by simp)

lemma settles_parseFunctionExpr (calls : Calls self) : Settles known [] (parseFunctionExpr self) := by
  refine .seq (.consume _ _) ((settles_parseParams settles_parameter).bind fun names => ?_)
  exact .seq (settles_functionBody calls names) settles_freshFlags

/-! ### The rules -/

lemma settles_prefixRule (calls : Calls self) {canAssign : Bool} {type : CandoTokenType} {operand : Parse ν Unit}
    (h : prefixRule self canAssign type = some operand) : Settles known [] operand := by
  unfold prefixRule at h
  split at h
  all_goals cases h
  all_goals first
    | with_reducible exact settles_parseNumber
    | with_reducible exact settles_parseStringLiteral
    | with_reducible exact settles_parseVariableExpr calls canAssign
    | with_reducible exact settles_parseLiteral
    | with_reducible exact settles_parseGrouping calls
    | with_reducible exact settles_parseArrayLiteral calls
    | with_reducible exact settles_parseObjectLiteral calls
    | with_reducible exact settles_parseFunctionExpr calls
    | with_reducible exact settles_parseThreadExpr calls
    | with_reducible exact settles_parseAwaitExpr calls
    | with_reducible exact settles_parseUnary calls
    | with_reducible exact settles_parseUnpack calls

lemma settles_infixRule (calls : Calls self) {canAssign : Bool} {type : CandoTokenType}
    {operation : Parse ν Unit} (h : infixRule self canAssign type = some operation) : Settles known [] operation := by
  unfold infixRule at h
  split at h
  all_goals cases h
  all_goals first
    | with_reducible exact settles_parseCall calls
    | with_reducible exact settles_parseSubscript calls canAssign
    | with_reducible exact settles_parseBinary calls
    | exact settles_parseLogical calls rfl rfl _
    | with_reducible exact settles_parseDot calls canAssign
    | exact settles_parseMethod calls _ _ _ rfl rfl
    | exact settles_parsePipe calls rfl rfl rfl

lemma settles_infixTurn (calls : Calls self) (minPrec : Nat) (canAssign : Bool) (u : Unit) :
    Settles known [] (infixTurn self minPrec canAssign u) := by
  refine .get fun p => .ite (.pure _) (.seq .advance ?_)
  cases e : infixRule self canAssign p.current.type with
  | none => exact .pure _
  | some operation => exact .seq (settles_infixRule calls e) (.pure _)

lemma settles_infixOperators (calls : Calls self) (minPrec : Nat) (canAssign : Bool) :
    Settles known [] (infixOperators self minPrec canAssign) := by
  refine .seq (.loop (settles_infixTurn calls minPrec canAssign) _ _) (.ite ?_ (.pure _))
  exact (Settles.matchToken _).bind fun _ => .ite (.error _) (.pure _)

lemma settles_parsePrecedence (calls : Calls self) (minPrec : Nat) :
    Settles known [] (parsePrecedence self minPrec) := by
  refine .seq (settles_setCall _) (.get fun p => .seq .advance ?_)
  simp only
  split
  · next operand e => exact .seq (settles_prefixRule calls e) (settles_infixOperators calls _ _)
  · exact .error _

/-! ### Declarations -/

lemma settles_declaredName (names : List Str) : Settles known [] (declaredName names : Parse ν (List Str × Bool)) := by
  refine .seq (.consume _ _) (.ite (.seq (.tooMany _) (.pure _)) (Settles.previousText.bind fun name => ?_))
  exact (Settles.store _ _ _).bind fun _ => .pure _

lemma settles_initialiser (calls : Calls self) (count : Nat) : Settles known [] (initialiser self count) := by
  refine .seq (settles_setCall _) (.seq (settles_setMultiPush _) (.seq calls.expression (.get fun _ => ?_)))
  exact .seq (.when (.emitOp rfl)) (.pure _)

lemma settles_emitNulls (k : Nat) : Settles known [] (emitNulls k : Parse ν Unit) := by
  induction k with
  | zero => exact .pure _
  | succ k ih => exact .seq (.emitOp rfl) ih

lemma settles_initialisers (calls : Calls self) (varCount : Nat) : Settles known [] (initialisers self varCount) := by
  refine (Settles.matchToken _).bind fun _ => .ite (.seq settles_deeper ?_) (settles_emitNulls varCount)
  refine (Settles.doCommaLoop (settles_initialiser calls) _ _).bind fun count => .seq settles_shallower ?_
  exact .get fun _ => .when (settles_emitNulls _)

lemma settles_defineAll (isConst : Bool) (names : List Str) :
    Settles known [] (defineAll isConst names : Parse ν Unit) := by
  induction names with
  | nil => exact .pure _
  | cons name names ih =>
    refine .get fun p => .ite ?_ ?_
    · refine .declareLocal fun _ => .seq ?_ (ih.weaken (List.subset_cons_self _ _))
      exact .emitSlot (by cases isConst <;> rfl) (by cases isConst <;> rfl) List.mem_cons_self
    · refine .strConst fun _ => .seq ?_ (ih.weaken (List.subset_cons_self _ _))
      exact .emitName (by cases isConst <;> rfl) (by cases isConst <;> rfl) List.mem_cons_self

lemma settles_parseVarDecl (calls : Calls self) (isConst : Bool) : Settles known [] (parseVarDecl self isConst) := by
  refine (Settles.doCommaLoop settles_declaredName _ _).bind fun names => .seq (settles_initialisers calls _) ?_
  exact .seq (.consume _ _) (settles_defineAll isConst _)

/-! ### Conditionals and loops -/

lemma settles_parseElse (calls : Calls self) : Settles known [] (parseElse self) := by
  refine (Settles.matchToken _).bind fun _ => .ite ((Settles.matchToken _).bind fun _ => .ite ?_ ?_) (.pure _)
  · exact calls.parseIf.weaken (List.nil_subset _)
  · exact .seq (.consume _ _) (settles_scopedBlock calls)

lemma settles_parseIf (calls : Calls self) : Settles known [] (parseIf self) := by
  refine .seq calls.expression (.seq (.consume _ _) (.emitJump rfl rfl fun toElse => .seq (.emitOp rfl) ?_))
  refine .seq (settles_scopedBlock calls) (.emitJump rfl rfl fun toEnd => .swap (.pay (.patchJump rfl rfl) ?_))
  exact .seq (.emitOp rfl) (.seq (settles_parseElse calls) (.patchJump rfl rfl))

lemma settles_parseWhile (calls : Calls self) : Settles known [] (parseWhile self) := by
  refine .codeLen fun start => .seq calls.expression (.seq (.consume _ _) (.emitJump rfl rfl fun toEnd => ?_))
  refine .seq (.emitOp rfl) (.emitLoopMark List.mem_cons_self fun mark => .seq (settles_scopedBlock calls) ?_)
  refine .seq (.emitOp rfl) (.seq (.emitLoop List.mem_cons_self) (.swap (.pay (.patchJump rfl rfl) ?_)))
  exact .seq (.emitOp rfl) .patchLoopMarkBreak

lemma settles_loopVariable (names : List Str) : Settles known [] (loopVariable names : Parse ν (List Str × Bool)) := by
  refine .seq (.consume _ _) (.ite (Settles.previousText.bind fun name => ?_) (.seq (.tooMany _) (.pure _)))
  exact (Settles.store _ _ _).bind fun _ => .pure _

lemma settles_overExpression (calls : Calls self) (count : Nat) : Settles known [] (overExpression self count) := by
  refine .seq (settles_setCall _) (.seq (settles_setMultiPush _) (.seq calls.expression (.get fun _ => ?_)))
  exact .seq (.when (.emitOp rfl)) (.pure _)

lemma settles_overList (calls : Calls self) : Settles known [] (overList self) := by
  refine .seq settles_deeper ((Settles.doCommaLoop (settles_overExpression calls) _ _).bind fun count => ?_)
  exact .seq settles_shallower (.get fun _ => .pure _)

lemma settles_defineLocals (names : List Str) : Settles known [] (defineLocals names : Parse ν Unit) := by
  induction names with
  | nil => exact .pure _
  | cons name names ih =>
    refine .declareLocal fun _ => .seq (.emitSlot rfl rfl List.mem_cons_self) ?_
    exact ih.weaken (List.subset_cons_self _ _)

lemma settles_loopBody (calls : Calls self) {nextOp : Opcode} (fmt : nextOp.fmt = .a) (ahead : nextOp.kind = .ahead)
    (mark : Nat) (names : List Str) : Settles known [] (loopBody self nextOp mark names) := by
  refine .codeLen fun start => .emitJump fmt ahead fun toEnd => .seq .scopeBegin (.seq (settles_defineLocals names) ?_)
  refine .emitLoopMark List.mem_cons_self fun markPos => .seq (settles_parseBlock calls) (.seq .scopeEnd ?_)
  refine .seq (.emitOp rfl) (.seq (.emitLoop List.mem_cons_self) (.swap (.pay (.patchJump fmt ahead) ?_)))
  exact .patchLoopMarkBreak

lemma settles_forMode (keysMode : Bool) : Settles known [] (forMode keysMode : Parse ν Nat) :=
  .get fun _ => .ite (.pure _) (.pure _)

lemma settles_forEach (calls : Calls self) (keysMode : Bool) (names : List Str) :
    Settles known [] (forEach self keysMode names) := by
  refine .seq (.when (.error _)) (.seq calls.expression (.seq (.consume _ _) ?_))
  exact (settles_forMode keysMode).bind fun mode => .seq (.emitOpA rfl rfl _) (settles_loopBody calls rfl rfl _ _)

lemma settles_forOver (calls : Calls self) (names : List Str) : Settles known [] (forOver self names) := by
  refine (settles_overList calls).bind fun (count, wasCall) => .seq (.consume _ _) (.seq (.when .exceed) ?_)
  exact .seq (.emitOpAb rfl rfl _ _) (settles_loopBody calls rfl rfl _ _)

lemma settles_parseFor (calls : Calls self) : Settles known [] (parseFor self) := by
  refine (Settles.doCommaLoop settles_loopVariable _ _).bind fun names => ?_
  refine (Settles.matchToken _).bind fun _ => .ite (settles_forEach calls _ _) ?_
  refine (Settles.matchToken _).bind fun _ => .ite (settles_forEach calls _ _) ?_
  exact (Settles.matchToken _).bind fun _ => .ite (settles_forOver calls _) (.errorCurrent _)

/-! ### TRY -/

lemma settles_catchParam (names : List Str) : Settles known [] (catchParam names : Parse ν (List Str)) :=
  .seq (.consume _ _) (Settles.previousText.bind fun _ => .store _ _ _)

lemma settles_nextCatchParam (names : List Str) : Settles known [] (nextCatchParam names : Parse ν (List Str × Bool)) :=
  .ite (.seq (.tooMany _) (.pure _)) ((settles_catchParam names).bind fun _ => .pure _)

lemma settles_catchClause (calls : Calls self) : Settles known [] (catchClause self) := by
  refine .seq (.consume _ _) (.seq (.consume _ _) ((settles_catchParam []).bind fun names => ?_))
  refine (Settles.commaLoop settles_nextCatchParam _ names).bind fun names => .seq (.consume _ _) ?_
  refine .seq (.consume _ _) (.seq .scopeBegin (.seq (.emitOpA rfl rfl _) (.seq (settles_defineLocals names) ?_)))
  exact .seq (settles_parseBlock calls) .scopeEnd

lemma settles_parseTry (calls : Calls self) : Settles known [] (parseTry self) := by
  refine .seq (.consume _ _) (.emitJump rfl rfl fun handler => .seq (settles_scopedBlock calls) (.seq (.emitOp rfl) ?_))
  refine .emitJump rfl rfl fun skip => .swap (.pay (.patchJump rfl rfl) (.seq (settles_catchClause calls) ?_))
  refine .pay (.patchJump rfl rfl) ((Settles.matchToken _).bind fun _ => .ite ?_ (.pure _))
  exact .seq (.consume _ _) (settles_scopedBlock calls)

/-! ### Functions and classes -/

lemma settles_parseFunction (calls : Calls self) : Settles known [] (parseFunction self) := by
  refine .seq (.consume _ _) (Settles.previousText.bind fun name => .seq (.consume _ _) ?_)
  refine (settles_parseParams settles_parameter).bind fun names => .seq (settles_functionBody calls names) ?_
  exact .strConst fun _ => .emitName rfl rfl List.mem_cons_self

lemma settles_parenTurn (depth : Nat) : Settles known [] (parenTurn depth : Parse ν (Nat × Bool)) := by
  refine .get fun p => .ite (.pure _) ((Settles.matchToken _).bind fun _ => .ite (.pure _) ?_)
  exact (Settles.matchToken _).bind fun _ => .ite (.pure _) (.seq .advance (.pure _))

lemma settles_methodParameter (names : List Str) :
    Settles known [] (methodParameter names : Parse ν (List Str × Bool)) := by
  refine (Settles.check _).bind fun _ => .ite (.pure _) ((Settles.matchToken _).bind fun _ => .ite (.pure _) ?_)
  refine .seq (.consume _ _) (.ite (Settles.previousText.bind fun name => ?_) (.seq .exceed (.pure _)))
  exact (Settles.store _ _ _).bind fun _ => .pure _

lemma settles_parseClassMethod (calls : Calls self) : Settles known [] (parseClassMethod self) := by
  refine .seq (.consume _ _) (.prevNameConst fun name s => .seq (.consume _ _) ?_)
  refine (settles_parseParams settles_methodParameter).bind fun names => .seq (.consume _ _) (.seq (.consume _ _) ?_)
  refine .emitJump rfl rfl fun skip => .codeLen fun start => settles_enterFunction fun saved => ?_
  refine .seq (settles_parseBlock calls) (.seq (settles_leaveFunction List.mem_cons_self) (.seq (.emitOp rfl) ?_))
  refine .seq (.emitOpA rfl rfl _) (.pay (.patchJump rfl rfl) (.addConst fun _ => ?_))
  exact .seq (.emitConst List.mem_cons_self) (.emitName rfl rfl (s := s) (by simp))

lemma settles_memberTurn (calls : Calls self) (u : Unit) : Settles known [] (memberTurn self u) := by
  refine .get fun p => .ite (.pure _) ((Settles.matchToken _).bind fun _ => (Settles.matchToken _).bind fun _ => ?_)
  refine (Settles.matchToken _).bind fun _ => .ite (.seq (settles_parseClassMethod calls) (.pure _)) ?_
  exact .seq .advance (.pure _)

lemma settles_classParens : Settles known [] (classParens self) :=
  (Settles.matchToken _).bind fun _ => .ite ((Settles.loop settles_parenTurn _ _).bind fun _ => .pure _) (.pure _)

lemma settles_parseClass (calls : Calls self) : Settles known [] (parseClass self) := by
  refine .seq (.consume _ _) (.prevNameConst fun name s => .seq settles_classParens ?_)
  refine .seq (.consume _ _) (.seq (.emitName rfl rfl List.mem_cons_self) ?_)
  exact .seq (.loop (settles_memberTurn calls) _ _) (.seq (.consume _ _) (.emitName rfl rfl List.mem_cons_self))

/-! ### Leaving -/

lemma settles_endsHere : Settles known [] (endsHere : Parse ν Bool) := .get fun _ => .pure _

lemma settles_skipSemi : Settles known [] (skipSemi : Parse ν Unit) := (Settles.matchToken _).bind fun _ => .pure _

/-- The exit that is noted is the position of an operand. -/
lemma settles_pipeExit (pipe : .emitted .pipeInit ∈ known) : Settles known [] (pipeExit : Parse ν Unit) := by
  intro rest ops p tidy holds
  simp only [pipeExit, bind_apply, get_apply, Outcome.bind_ok]
  split
  · next room =>
    simp only [emitJump, codeLen, bind_assoc, pure_bind]
    have inPipe : .pipeInit ∈ ops := holds _ pipe
    have emitted := tidy.emit rest .a (i := ⟨.jump, 0x7FFF % 65536, 0⟩) (by decide) trivial
      (fun _ => .inr ⟨rfl, rfl, inPipe⟩) (List.Subset.refl _) fun o mem => .inl mem
    apply emitted.bind
    rintro _ q ⟨-, jump, tidy'⟩
    have stands : OperandOf (ops ++ [.jump]) (p.chunk.code.length + 1) .jump := ⟨ops, [], rfl, by rw [tidy.length]⟩
    have noted (k : Nat) (others : ∀ i < k, i ≠ p.pipeExitCount → ∃ pos, q.pipeExits[i]? = some pos ∧
        OperandOf (ops ++ [.jump]) pos .jump) : Exits k (ops ++ [.jump]) { q with
          pipeExits := q.pipeExits.set p.pipeExitCount (p.chunk.code.length + 1)
          pipeExitCount := p.pipeExitCount + 1 } := by
      intro i lt
      by_cases here : i = p.pipeExitCount
      · subst here
        have inside : p.pipeExitCount < q.pipeExits.length := tidy'.size ▸ room
        exact ⟨_, List.getElem?_set_self inside, stands⟩
      · obtain ⟨pos, e, operand⟩ := others i lt here
        exact ⟨pos, (List.getElem?_set_ne (Ne.symm here)).trans e, operand⟩
    refine ⟨_, ⟨jump.more, jump.pool, jump.slots, fun k e => ?_⟩, { tidy' with size := ?_, exits := ?_ }⟩
    · exact noted k fun i lt _ => jump.exits k e i lt
    · rw [List.length_set]
      exact tidy'.size
    · exact noted (p.pipeExitCount + 1) fun i lt ne => jump.exits _ tidy.exits i (by omega)
  · exact Settles.tooMany _ rest ops p tidy holds

lemma settles_pipeReturn (calls : Calls self) (pipe : .emitted .pipeInit ∈ known) :
    Settles known [] (pipeReturn self) := by
  refine settles_endsHere.bind fun _ => .ite (.seq (.emitOp rfl) ?_) (.seq calls.expression ?_)
  · exact .seq settles_skipSemi (settles_pipeExit pipe)
  · exact .seq settles_skipSemi (settles_pipeExit pipe)

lemma settles_countedExpression (calls : Calls self) (count : Nat) : Settles known [] (countedExpression self count) :=
  .seq calls.expression ((Settles.castU16 _).bind fun _ => .pure _)

lemma settles_parseReturn (calls : Calls self) : Settles known [] (parseReturn self) := by
  intro rest ops p tidy holds
  simp only [parseReturn, bind_apply, get_apply, Outcome.bind_ok]
  split
  · next inBody =>
    have inPipe : Settles (.emitted .pipeInit :: known) [] (pipeReturn self) :=
      settles_pipeReturn calls List.mem_cons_self
    refine inPipe rest ops p tidy fun g mem => ?_
    obtain rfl | mem := List.mem_cons.mp mem
    · exact tidy.pipe inBody
    · exact holds g mem
  · have plain : Settles known [] (do
        if ← endsHere then
          emitOp .null
          skipSemi
          emitOpA .return 1
        else
          deeper
          let count ← doCommaLoop (countedExpression self) self.turns 0
          shallower
          skipSemi
          emitOpA .return count) := by
      refine settles_endsHere.bind fun _ => .ite ?_ ?_
      · exact .seq (.emitOp rfl) (.seq settles_skipSemi (.emitOpA rfl rfl _))
      · refine .seq settles_deeper ((Settles.doCommaLoop (settles_countedExpression calls) _ _).bind fun count => ?_)
        exact .seq settles_shallower (.seq settles_skipSemi (.emitOpA rfl rfl _))
    exact plain rest ops p tidy holds

lemma settles_parseThrow (calls : Calls self) : Settles known [] (parseThrow self) := by
  refine .seq settles_deeper (.seq calls.expression ?_)
  refine (Settles.commaLoop (settles_countedExpression calls) _ _).bind fun count => .seq settles_shallower ?_
  exact .seq (.consume _ _) (.emitOpA rfl rfl _)

lemma settles_parseBreak : Settles known [] (parseBreak : Parse ν Unit) := .seq settles_skipSemi (.emitOpA rfl rfl _)

lemma settles_parseContinue : Settles known [] (parseContinue : Parse ν Unit) :=
  .seq settles_skipSemi (.emitOpA rfl rfl _)

/-! ### Statements -/

lemma settles_expressionEnd : Settles known [] (expressionEnd : Parse ν Unit) :=
  .get fun _ => .ite (.pure _) (.consume _ _)

lemma settles_statementRule (calls : Calls self) {type : CandoTokenType} {statement : Parse ν Unit}
    (h : statementRule self type = some statement) : Settles known [] statement := by
  unfold statementRule at h
  split at h
  all_goals cases h
  all_goals first
    | with_reducible exact settles_parseVarDecl calls _
    | with_reducible exact settles_parseIf calls
    | with_reducible exact settles_parseWhile calls
    | with_reducible exact settles_parseFor calls
    | with_reducible exact settles_parseTry calls
    | with_reducible exact settles_parseClass calls
    | with_reducible exact settles_parseReturn calls
    | with_reducible exact settles_parseThrow calls
    | with_reducible exact settles_parseBreak
    | with_reducible exact settles_parseContinue
    | with_reducible exact settles_scopedBlock calls
    | with_reducible exact .pure _

/-- The last instruction is `OP_POP`, and what stands before it owes no more than `owed`. -/
def Popped (owed : List (Nat × Opcode)) (p : CandoParser ν) : Prop :=
  ∃ (ops : List Opcode) (c : Chunk ν), c.Owes owed ops ∧ p.chunk = c.emit { op := .pop }

/-- As `Brings`, and an expression statement leaves its `OP_POP` at the end of the code. -/
abbrev BringsPopped (owed : List (Nat × Opcode)) (ops : List Opcode) (p : CandoParser ν)
    (o : Outcome (CandoParser ν) Empty Stop Bool) : Prop :=
  o.Ends (fun wasExpr q => (∃ ops', Prolongs ops p ops' q ∧ Tidy owed ops' q) ∧ (wasExpr = true → Popped owed q))
    fun _ => True

variable {ops : List Opcode} {p : CandoParser ν}

/-- An expression that is a statement. -/
lemma brings_popped {m : Parse ν Unit} (h : Settles [] [] m) (tidy : Tidy owed ops p) :
    BringsPopped owed ops p ((do m; expressionEnd; emitOp .pop; return true : Parse ν Bool) p) := by
  have whole : Settles [] [] (do m; expressionEnd) := .seq h settles_expressionEnd
  rw [← bind_assoc]
  apply Outcome.Ends.bind (whole owed ops p tidy fun _ mem => absurd mem List.not_mem_nil)
  rintro _ q ⟨ops', goes, tidy'⟩
  have popped := tidy'.emitFree .none (i := { op := .pop }) (by decide) rfl trivial
  apply Outcome.Ends.bind popped
  rintro _ r ⟨e, goes', tidy''⟩
  exact ⟨⟨_, goes.trans goes', tidy''⟩, fun _ => ⟨ops', q.chunk, tidy'.code, e⟩⟩

/-- A statement that is not an expression. -/
lemma brings_unpopped {m : Parse ν Unit} (h : Settles [] [] m) (tidy : Tidy owed ops p) :
    BringsPopped owed ops p ((do m; return false : Parse ν Bool) p) := by
  apply Outcome.Ends.bind (h owed ops p tidy fun _ mem => absurd mem List.not_mem_nil)
  exact fun _ q goes => ⟨goes, fun expr => absurd expr Bool.false_ne_true⟩

lemma Prolongs.bringsPopped {ops' : List Opcode} {q : CandoParser ν} (h : Prolongs ops p ops' q)
    {o : Outcome (CandoParser ν) Empty Stop Bool} (rest : BringsPopped owed ops' q o) : BringsPopped owed ops p o :=
  Outcome.Ends.mono rest (fun _ _ ⟨⟨ops'', h', tidy⟩, pops⟩ => ⟨⟨ops'', h.trans h', tidy⟩, pops⟩) fun _ c => c

lemma advance_ends (tidy : Tidy owed ops p) {f : Parse ν Bool}
    (rest : ∀ q, Tidy owed ops q → BringsPopped owed ops q (f q)) : BringsPopped owed ops p ((do advance; f) p) := by
  obtain ⟨chunk, exits, count, pipe, locals, -⟩ := nextToken_keeps { p with previous := p.current }
  obtain ⟨read, tidy'⟩ := tidy.same (q := nextToken { p with previous := p.current }) chunk exits count pipe
    (Nat.le_of_eq (congrArg List.length locals))
  exact read.bringsPopped (rest _ tidy')

lemma dispatch_ends (calls : Calls self) (tidy : Tidy owed ops p) : BringsPopped owed ops p (dispatch self p) := by
  simp only [dispatch, bind_apply, get_apply, Outcome.bind_ok]
  split
  · refine advance_ends tidy fun q read => ?_
    simp only [functionStatement, CandoParser.check, bind_apply, get_apply, pure_apply, Outcome.bind_ok]
    split
    · exact brings_popped (settles_parseFunctionExpr calls) read
    · exact brings_unpopped (settles_parseFunction calls) read
  · cases e : statementRule self p.current.type with
    | some statement => exact advance_ends tidy fun q read => brings_unpopped (settles_statementRule calls e) read
    | none =>
      simp only [parseExprStmt, bind_assoc]
      exact brings_popped calls.expression tidy

omit [F64 ν] in
lemma synchronise_keeps : (synchronise self p).Ends (fun _ q => q.chunk = p.chunk ∧ q.pipeExits = p.pipeExits ∧
    q.pipeExitCount = p.pipeExitCount ∧ q.inPipeBody = p.inPipeBody ∧ q.locals = p.locals ∧
      q.lastStmtWasExpr = p.lastStmtWasExpr) fun _ => True := by
  let J : CandoParser ν → Prop := fun q => q.chunk = p.chunk ∧ q.pipeExits = p.pipeExits ∧
    q.pipeExitCount = p.pipeExitCount ∧ q.inPipeBody = p.inPipeBody ∧ q.locals = p.locals ∧
      q.lastStmtWasExpr = p.lastStmtWasExpr
  refine loop_ends (J := J) (fun _ q same => ?_) self.turns () ⟨rfl, rfl, rfl, rfl, rfl, rfl⟩
  simp only [bind_apply, get_apply, Outcome.bind_ok]
  split
  · exact same
  · obtain ⟨chunk, exits, count, pipe, locals, expr⟩ := same
    obtain ⟨chunk', exits', count', pipe', locals', expr'⟩ := nextToken_keeps { q with previous := q.current }
    exact ⟨chunk'.trans chunk, exits'.trans exits, count'.trans count, pipe'.trans pipe, locals'.trans locals,
      expr'.trans expr⟩

/-- A statement pays what it comes to owe; one that is an expression leaves its `OP_POP` last. -/
lemma parseStatement_ends (calls : Calls self) (tidy : Tidy owed ops p) :
    (parseStatement self p).Ends (fun _ q => (∃ ops', Prolongs ops p ops' q ∧ Tidy owed ops' q) ∧
      (q.lastStmtWasExpr → Popped owed q)) fun _ => True := by
  obtain ⟨reset, tidy₀⟩ := tidy.same (q := { p with lastStmtWasExpr := false }) rfl rfl rfl rfl (Nat.le_refl _)
  apply Outcome.Ends.bind (reset.bringsPopped (dispatch_ends calls tidy₀))
  rintro wasExpr q ⟨⟨ops', goes, tidy'⟩, pops⟩
  obtain ⟨noted, tidy''⟩ := tidy'.same (q := { q with lastStmtWasExpr := wasExpr }) rfl rfl rfl rfl (Nat.le_refl _)
  simp only [bind_apply, modify_apply, get_apply, Outcome.bind_ok]
  split
  · apply synchronise_keeps.mono
    · rintro _ r ⟨chunk, exits, count, pipe, locals, expr⟩
      obtain ⟨recovered, tidy₃⟩ := tidy''.same chunk exits count pipe (Nat.le_of_eq (congrArg List.length locals))
      refine ⟨⟨ops', (goes.trans noted).trans recovered, tidy₃⟩, fun last => ?_⟩
      obtain ⟨before, c, owes, e⟩ := pops (expr.symm.trans last)
      exact ⟨before, c, owes, chunk.trans e⟩
    · exact fun _ c => c
  · exact ⟨⟨ops', goes.trans noted, tidy''⟩, pops⟩

lemma calls_knot (fuel : Nat) : Calls (knot fuel : Knot ν) := by
  induction fuel with
  | zero => exact ⟨fun _ => .crash _, .crash _, .crash _⟩
  | succ fuel ih =>
    constructor
    case precedence => exact settles_parsePrecedence ih
    case statement =>
      intro rest ops p tidy _
      exact (parseStatement_ends ih tidy).mono (fun _ _ h => h.1) fun _ c => c
    case parseIf => exact settles_parseIf ih

/-! ### Sources -/

/-- Nothing is owed between statements, nor before the `OP_POP` of an expression. -/
def Between (p : CandoParser ν) : Prop := (∃ ops, Tidy [] ops p) ∧ (p.lastStmtWasExpr → Popped [] p)

lemma between_init (source : Str) (evalMode : Bool) : Between (init source {} evalMode : CandoParser ν) := by
  let eof : CandoToken := ⟨.tokEof, 0, 0, 0, 0⟩
  let start : CandoParser ν := { lexer := { source }, current := eof, previous := eof, chunk := {}, evalMode }
  obtain ⟨chunk, exits, count, pipe, locals, expr⟩ := nextToken_keeps start
  have nowhere {off : Nat} {i : Instr} : ¬ Stands [] off i := fun ⟨front, back, e, _⟩ => by simp at e
  have empty : Tidy [] [] start :=
    { code := ⟨[], .new rfl, rfl, fun _ _ at' => absurd at' nowhere, fun _ _ at' => absurd at' nowhere⟩
      owed := fun _ mem => absurd mem List.not_mem_nil
      pool := Nat.zero_le _
      slots := Nat.le_refl _
      narrow := Nat.zero_le _
      size := List.length_replicate
      exits := fun i lt => absurd lt (Nat.not_lt_zero i)
      pipe := fun inBody => absurd inBody Bool.false_ne_true }
  refine ⟨⟨[], (empty.same chunk exits count pipe (Nat.le_of_eq (congrArg List.length locals))).2⟩, fun last => ?_⟩
  rw [init, expr] at last
  exact absurd last Bool.false_ne_true

/-- The last instruction of a chunk. -/
lemma emitLast_ends (owes : p.chunk.Owes [] ops) (fmt : OpFmt) {i : Instr} (fits : i.Fits)
    (plain : i.op.kind = .plain) (ends : i.op = .halt ∨ i.op = .return) :
    (emit fmt i p).Ends (fun _ q => ∃ is, q.chunk.WellFormed is) fun _ => True := by
  refine (emit_appends fmt i p).mono (fun _ q ⟨cap, e⟩ => ?_) fun _ c => c
  subst e
  exact owes.finish fits plain ends

lemma parseEnd_wellFormed (between : Between p) :
    (parseEnd p).Ends (fun _ q => ∃ is, q.chunk.WellFormed is) fun _ => True := by
  obtain ⟨⟨ops, tidy⟩, pops⟩ := between
  simp only [parseEnd, bind_apply, get_apply, Outcome.bind_ok]
  split
  · split
    · next last =>
      obtain ⟨before, c, owes, e⟩ := pops last.1
      have shorter : { p.chunk with code := p.chunk.code.dropLast } = c := by
        rw [e]
        show { c with code := (c.code ++ [_]).dropLast } = c
        rw [List.dropLast_concat]
      rw [← shorter] at owes
      exact emitLast_ends (p := { p with chunk := { p.chunk with code := p.chunk.code.dropLast } })
        (i := ⟨.return, 1 % 65536, 0⟩) owes .a (by decide) rfl (.inr rfl)
    · exact emitLast_ends (i := ⟨.return, 0 % 65536, 0⟩) tidy.code .a (by decide) rfl (.inr rfl)
  · exact emitLast_ends (i := ⟨.halt, 0, 0⟩) tidy.code .none (by decide) rfl (.inl rfl)

/-- Of every source that the parser gets through, also with errors, the instructions in the chunk have the operands that
they need. -/
lemma parse_wellFormed {fuel : Nat} {source : Str} {evalMode : Bool} {p : CandoParser ν}
    (h : parse fuel source evalMode = .ok () p) : ∃ is, p.chunk.WellFormed is := by
  have ends : (parse fuel source evalMode : Outcome (CandoParser ν) Empty Stop Unit).Ends
      (fun _ q => ∃ is, q.chunk.WellFormed is) fun _ => True := by
    refine Outcome.Ends.bind (loop_ends (J := Between) (fun _ q between => ?_) _ () (between_init source evalMode))
      fun _ q between => parseEnd_wellFormed between
    simp only [bind_apply, get_apply, Outcome.bind_ok]
    split
    · exact between
    · obtain ⟨⟨ops, tidy⟩, -⟩ := between
      cases fuel with
      | zero => trivial
      | succ fuel =>
        apply Outcome.Ends.bind (parseStatement_ends (calls_knot fuel) tidy)
        rintro _ r ⟨⟨ops', -, tidy'⟩, pops⟩
        exact ⟨⟨ops', tidy'⟩, pops⟩
  rw [h] at ends
  exact ends

end

/-- The chunk of a source that the parser gets through holds whole instructions. -/
lemma parse_emits [F64 ν] {fuel : Nat} {source : Str} {evalMode : Bool} {p : CandoParser ν}
    (h : parse fuel source evalMode = .ok () p) : ∃ is, p.chunk.Emits is := by
  obtain ⟨is, wf⟩ := parse_wellFormed h
  exact ⟨is, wf.emits⟩

section Reads

variable [F64 ν] {fuel : Nat} {source : Str} {evalMode : Bool} {p : CandoParser ν}

/-- The compiler keeps what the interpreter relies on. A run of a compiled chunk begins with an instruction; and where
the running frame is at an instruction, and the chunk is not too long for its jumps, that instruction is fetched, the
`ip` is then where another one begins, unless the run or the call ends, and the handler finds the constants, names and
slots that it takes, and jumps to where an instruction begins. The jumps of `RETURN`s in the bodies of pipes are
excepted. -/
theorem compiled_reads (h : parse fuel source evalMode = .ok () p) :
    ∃ is, p.chunk.WellFormed is ∧ Begins (is.map Instr.op) 0 ∧ (p.chunk.code.length < 16384 →
      ∀ (vm : VM ν) (f : Frame) (fs : List Frame), vm.frames = f :: fs → vm.chunks[f.closure]? = some p.chunk →
        vm.chunks[f.ip.chunk]? = some p.chunk → Begins (is.map Instr.op) f.ip.off →
        ∃ i vm' f', Stands is f.ip.off i ∧ fetch vm = .ok i vm' ∧ vm'.frames = f' :: fs ∧
          f'.ip = ⟨f.ip.chunk, f.ip.off + i.op.size⟩ ∧
          (Begins (is.map Instr.op) f'.ip.off ∨ i.op = .halt ∨ i.op = .return) ∧
            (i.Loose (is.map Instr.op) ∨ i.Reads (Begins (is.map Instr.op)) p.chunk f'.ip.chunk vm')) := by
  obtain ⟨is, wf⟩ := parse_wellFormed h
  refine ⟨is, wf, wf.begins, fun short vm f fs frames closure code begins => ?_⟩
  rw [wf.emits.length rfl] at short
  obtain ⟨i, stands⟩ := begins.stands
  obtain ⟨fetched, behind⟩ := wf.fetch stands frames code
  refine ⟨i, _, f.goto (f.ip.off + i.op.size), stands, fetched, rfl, rfl, behind, ?_⟩
  exact wf.reads short stands rfl rfl closure

end Reads

/-- The three walks over a compiled chunk come by the boundaries of its instructions just if it has neither `OP_THROW`
nor `OP_FOR_OVER_INIT`, of which the disassembler takes fewer bytes than they have. -/
theorem compiled_walksAgree_iff [F64 ν] {fuel : Nat} {source : Str} {evalMode : Bool} {p : CandoParser ν}
    (h : parse fuel source evalMode = .ok () p) :
    (∃ is, p.chunk.Emits is) ∧ ∀ is, p.chunk.Emits is →
      (p.chunk.WalksAgree is ↔ ∀ i ∈ is, i.op ≠ .throw ∧ i.op ≠ .forOverInit) :=
  ⟨parse_emits h, fun _ emits => emits.walksAgree_iff⟩

/-- What the parser leaves of a source in the chunk. -/
def compiled (source : Str) : Option (List UInt8) :=
  (parse (callsFor source) source false : Outcome (CandoParser Int) Empty Stop Unit).ended.map fun r => r.2.chunk.code

lemma exists_compiled {source : Str} {code : List UInt8} (h : compiled source = some code) :
    ∃ p : CandoParser Int, parse (callsFor source) source false = .ok () p ∧ p.chunk.code = code := by
  rw [compiled, Option.map_eq_some_iff] at h
  obtain ⟨⟨u, p⟩, ended, rfl⟩ := h
  exact ⟨p, Outcome.ended_eq_some ended, rfl⟩

/-- `1;` -/
theorem compiled_one_reads : ∃ p : CandoParser Int, parse (callsFor (bytes "1;")) (bytes "1;") false = .ok () p ∧
    ∃ is, p.chunk.WellFormed is ∧ Begins (is.map Instr.op) 0 ∧ (p.chunk.code.length < 16384 →
      ∀ (vm : VM Int) (f : Frame) (fs : List Frame), vm.frames = f :: fs → vm.chunks[f.closure]? = some p.chunk →
        vm.chunks[f.ip.chunk]? = some p.chunk → Begins (is.map Instr.op) f.ip.off →
        ∃ i vm' f', Stands is f.ip.off i ∧ fetch vm = .ok i vm' ∧ vm'.frames = f' :: fs ∧
          f'.ip = ⟨f.ip.chunk, f.ip.off + i.op.size⟩ ∧
          (Begins (is.map Instr.op) f'.ip.off ∨ i.op = .halt ∨ i.op = .return) ∧
            (i.Loose (is.map Instr.op) ∨ i.Reads (Begins (is.map Instr.op)) p.chunk f'.ip.chunk vm')) := by
  have code : compiled (bytes "1;") = some (Instr.encodeAll [⟨.const, 0, 0⟩, ⟨.pop, 0, 0⟩, ⟨.halt, 0, 0⟩]) := by
    decide +kernel
  obtain ⟨p, parsed, -⟩ := exists_compiled code
  exact ⟨p, parsed, compiled_reads parsed⟩

/-- The exits of the inner body take the places of those of the outer one in `pipe_exits`, and the jump of the outer
`RETURN` keeps the distance that it was written with. -/
example : (compiled (bytes "a ~> { IF b { RETURN; } c ~> { RETURN; }; };")).bind (decode · 24) =
    some ⟨.jump, 0x7FFF, 0⟩ := by
  decide +kernel

/-- The instructions of `THROW 1;`. -/
def throwOne : List Instr := [⟨.const, 0, 0⟩, ⟨.throw, 1, 0⟩, ⟨.halt, 0, 0⟩]

/-- The disassembler loses the boundaries of `THROW 1;`. -/
theorem throw_walks_apart : ¬ ∀ (source : Str) (fuel : Nat) (evalMode : Bool) (p : CandoParser Int) (is : List Instr),
    parse fuel source evalMode = .ok () p → p.chunk.Emits is → p.chunk.WalksAgree is := by
  intro all
  have code : compiled (bytes "THROW 1;") = some (Instr.encodeAll throwOne) := by decide +kernel
  obtain ⟨p, parsed, code⟩ := exists_compiled code
  obtain ⟨is, emits⟩ := parse_emits parsed
  have agree := all _ _ _ p is parsed emits
  -- the walk by the formats comes by the boundaries of these instructions
  have format : walk (byteSize Opcode.size) (Instr.encodeAll throwOne) 0 =
      (boundaries throwOne 0, 0 + (Instr.encodeAll throwOne).length) :=
    (Instr.walk_encodeAll_iff _ throwOne 0).mpr fun i _ => byteSize_toByte _ i.op
  have same := agree.disasm.trans agree.format.symm
  rw [code, format] at same
  have right := (Instr.walk_encodeAll_iff _ throwOne 0).mp same ⟨.throw, 1, 0⟩ (by decide)
  rw [byteSize_toByte] at right
  exact absurd right (by decide)

/-- `1;` -/
theorem compiled_one_walks : ∃ p : CandoParser Int, parse (callsFor (bytes "1;")) (bytes "1;") false = .ok () p ∧
    (∃ is, p.chunk.Emits is) ∧ ∀ is, p.chunk.Emits is →
      (p.chunk.WalksAgree is ↔ ∀ i ∈ is, i.op ≠ .throw ∧ i.op ≠ .forOverInit) := by
  have code : compiled (bytes "1;") = some (Instr.encodeAll [⟨.const, 0, 0⟩, ⟨.pop, 0, 0⟩, ⟨.halt, 0, 0⟩]) := by
    decide +kernel
  obtain ⟨p, parsed, -⟩ := exists_compiled code
  exact ⟨p, parsed, compiled_walksAgree_iff parsed⟩

end CandoParser

end Cando
