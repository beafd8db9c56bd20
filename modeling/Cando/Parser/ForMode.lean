import Cando.Lib.Safe
import Cando.Parser.Sound
import Cando.Parser.Statement
import Cando.Vm.Control
import Cando.Vm.Entry

/-!
# What FOR goes over

`parse_for` looks at the last byte of an iterable's code to tell a range from another expression. `rangePrecedence` is
`parse_precedence` together with what the syntax says: the expression is a range when the operator that binds least in
it is an arrow, or when it is a range in brackets.
-/

namespace Cando

open Program

namespace CandoParser

variable {ν : Type} [F64 ν] {self : Knot ν}

/-! ### Range expressions -/

/-- `->` and `<-`. -/
def isArrow (type : CandoTokenType) : Bool := type == .tokRangeAsc || type == .tokRangeDesc

/-- `parse_grouping`, and whether it is a range. -/
def rangeGrouping (self : Knot ν) (inner : Parse ν Bool) : Parse ν Bool := do
  let p ← get
  if inMask p.current.type then
    let bits ← maskPattern self
    closeMask
    parseMaskEmit self bits
    return false
  else
    setCallDepth 0
    let range ← inner
    setCallDepth p.callDepth
    consume .tokRparen "expected ')' after expression"
    return range

/-- A prefix function, and whether the operand is a range: only one in brackets is. -/
def rangeOperand (self : Knot ν) (inner : Parse ν Bool) (canAssign : Bool) (type : CandoTokenType) :
    Option (Parse ν Bool) :=
  if type = .tokLparen then some (rangeGrouping self inner)
  else (prefixRule self canAssign type).map fun operand => do
    operand
    return false

/-- A turn of the loop over the operators, and whether the expression up to there is a range: whether its last operator
is an arrow. -/
def rangeTurn (self : Knot ν) (minPrec : Nat) (canAssign range : Bool) : Parse ν (Bool × Bool) := do
  let p ← get
  let (_, again) ← infixTurn self minPrec canAssign ()
  return (if again then isArrow p.current.type else range, again)

/-- The end of `parse_precedence`. -/
def assignmentTarget (canAssign : Bool) : Parse ν Unit := do
  if canAssign then
    if ← matchToken .tokAssign then error "invalid assignment target"

/-- `parse_precedence`, and whether the expression is a range. -/
def rangePrecedence : (fuel minPrec : Nat) → Parse ν Bool
  | 0, _ => crash .fuel
  | fuel + 1, minPrec => do
    setCall false
    let p ← get
    advance
    let canAssign := minPrec ≤ precAssign
    match rangeOperand (knot fuel) (rangePrecedence fuel precAssign) canAssign p.current.type with
    | some operand =>
      let range ← operand
      let range ← loop (rangeTurn (knot fuel) minPrec canAssign) (knot (ν := ν) fuel).turns range
      assignmentTarget canAssign
      return range
    | none =>
      error "expected expression"
      return false

/-! ### Its parse is that of the parser -/

lemma rangeTurn_erases (minPrec : Nat) (canAssign range : Bool) :
    (do let r ← rangeTurn self minPrec canAssign range; return ((), r.2)) = infixTurn self minPrec canAssign () := by
  simp only [rangeTurn, bind_assoc, pure_bind]
  exact bind_pure (infixTurn self minPrec canAssign ())

lemma rangeLoop_erases (minPrec : Nat) (canAssign : Bool) (turns : Nat) (range : Bool) :
    (do let _ ← loop (rangeTurn self minPrec canAssign) turns range; return ()) =
      loop (infixTurn self minPrec canAssign) turns () := by
  induction turns generalizing range with
  | zero => rfl
  | succ turns ih =>
    simp only [loop]
    rw [← rangeTurn_erases minPrec canAssign range]
    simp only [bind_assoc, pure_bind]
    congr 1
    funext r
    split
    · exact ih r.1
    · simp

omit [F64 ν] in
lemma rangeGrouping_erases {inner : Parse ν Bool} (erases : (do let _ ← inner; return ()) = parseExpression self) :
    (do let _ ← rangeGrouping self inner; return ()) = parseGrouping self := by
  rw [rangeGrouping, parseGrouping, bind_assoc]
  congr 1
  funext p
  split
  · simp
  · simp only [bind_assoc, pure_bind, ← erases]
    simp

lemma rangeOperand_erases {inner : Parse ν Bool} (erases : (do let _ ← inner; return ()) = parseExpression self)
    (canAssign : Bool) (type : CandoTokenType) :
    (rangeOperand self inner canAssign type).map (fun operand => do let _ ← operand; return ()) =
      prefixRule self canAssign type := by
  rw [rangeOperand]
  split
  · next brackets =>
    subst brackets
    exact congrArg some (rangeGrouping_erases erases)
  · simp [Function.comp_def]

/-- Telling whether an expression is a range does not change how it is parsed. -/
lemma rangePrecedence_erases (fuel minPrec : Nat) :
    (do let _ ← rangePrecedence fuel minPrec; return ()) = (knot (ν := ν) fuel).parsePrecedence minPrec := by
  induction fuel generalizing minPrec with
  | zero => rfl
  | succ fuel ih =>
    rw [rangePrecedence, knot]
    dsimp only
    rw [parsePrecedence]
    simp only [bind_assoc]
    congr 1
    funext _
    congr 1
    funext p
    congr 1
    funext _
    rw [← rangeOperand_erases (ih precAssign)]
    cases rangeOperand (knot (ν := ν) fuel) (rangePrecedence fuel precAssign) (minPrec ≤ precAssign) p.current.type with
    | none => simp
    | some operand =>
      simp only [Option.map_some, bind_assoc, pure_bind]
      congr 1
      funext range
      rw [infixOperators, ← rangeLoop_erases _ _ _ range]
      simp only [bind_assoc, pure_bind]
      congr 1
      funext _
      exact bind_pure (assignmentTarget (minPrec ≤ precAssign))

/-! ### The last byte -/

section

variable {ν α β : Type}

/-- The code ends in the opcode of a range, or in a byte like it. -/
def EndsInArrow (p : CandoParser ν) : Prop :=
  p.chunk.code.getLast? = some Opcode.rangeAsc.toByte ∨ p.chunk.code.getLast? = some Opcode.rangeDesc.toByte

lemma EndsInArrow.congr {p q : CandoParser ν} (same : q.chunk = p.chunk) (h : EndsInArrow p) : EndsInArrow q := by
  rw [EndsInArrow, same]
  exact h

/-- The parse function emits nothing. -/
def Codeless (m : Parse ν α) : Prop := ∀ p, (m p).Leaves fun _ q => q.chunk = p.chunk

namespace Codeless

lemma pure (a : α) : Codeless (Pure.pure a : Parse ν α) := fun _ => rfl

lemma bind {m : Parse ν α} {f : α → Parse ν β} (h : Codeless m) (next : ∀ a, Codeless (f a)) : Codeless (m >>= f) :=
  fun p => (h p).bind fun a q same => (next a q).mono fun _ _ e => e.trans same

lemma get {f : CandoParser ν → Parse ν β} (next : ∀ p, Codeless (f p)) : Codeless (Program.get >>= f) :=
  fun p => next p p

lemma ite {c : Prop} [Decidable c] {m m' : Parse ν α} (h : Codeless m) (h' : Codeless m') :
    Codeless (if c then m else m') := by
  split
  · exact h
  · exact h'

end Codeless

lemma nextToken_chunk (p : CandoParser ν) : (nextToken p).chunk = p.chunk := by
  fun_induction nextToken p with
  | case1 p p' error ih => rw [ih, errorAt_chunk]
  | case2 p p' error => rfl

lemma codeless_advance : Codeless (advance : Parse ν Unit) := fun _ => nextToken_chunk _

lemma codeless_error (msg : String) : Codeless (error msg : Parse ν Unit) := fun _ => errorAt_chunk _ _ _

lemma codeless_check (type : CandoTokenType) : Codeless (check type : Parse ν Bool) := fun _ => rfl

lemma codeless_consume (type : CandoTokenType) (msg : String) : Codeless (consume type msg : Parse ν Unit) :=
  (codeless_check type).bind fun _ => codeless_advance.ite fun _ => errorAt_chunk _ _ _

lemma codeless_matchToken (type : CandoTokenType) : Codeless (matchToken type : Parse ν Bool) :=
  (codeless_check type).bind fun _ => (codeless_advance.bind fun _ => .pure true).ite (.pure false)

lemma codeless_assignmentTarget (canAssign : Bool) : Codeless (assignmentTarget canAssign : Parse ν Unit) :=
  .ite ((codeless_matchToken .tokAssign).bind fun _ => (codeless_error _).ite (.pure ())) (.pure ())

end

/-- Says rightly of a range that the code ends like one. -/
def Telling (m : Parse ν Bool) : Prop := m.Leaving fun range p => range = true → EndsInArrow p

omit [F64 ν] in
/-- An opcode without operands is the last byte. -/
lemma emitOp_ends {op : Opcode} (plain : op.fmt = .none) (p : CandoParser ν) :
    (emitOp op p).Leaves fun _ q => q.chunk.code.getLast? = some op.toByte := by
  rw [emitOp, emit, if_pos plain]
  refine Outcome.leaves_last fun _ q => ?_
  rw [modify_apply, Outcome.leaves_ok]
  simp [Chunk.emit, Instr.encode, plain]

omit [F64 ν] in
/-- The code behind an arrow ends like a range. -/
lemma parseBinary_arrow {p : CandoParser ν} (arrow : isArrow p.previous.type = true) :
    (parseBinary self p).Leaves fun _ q => EndsInArrow q := by
  have emits (next : Nat) (q : CandoParser ν) :
      (emitBinary self next p.previous.type q).Leaves fun _ => EndsInArrow := by
    simp only [isArrow, Bool.or_eq_true, beq_iff_eq] at arrow
    obtain asc | desc := arrow
    · rw [asc]
      exact (emitOp_ends rfl q).mono fun _ _ last => .inl last
    · rw [desc]
      exact (emitOp_ends rfl q).mono fun _ _ last => .inr last
  rw [parseBinary, bind_apply, get_apply, Outcome.bind_ok]
  refine Outcome.leaves_last fun _ q => Outcome.leaves_last fun _ q => Outcome.leaves_last fun _ q => ?_
  exact (emits _ q).bind fun _ r ends => ends

/-- The operator of an arrow is a binary one. -/
lemma infixRule_arrow {canAssign : Bool} {type : CandoTokenType} (arrow : isArrow type = true) :
    infixRule self canAssign type = some (parseBinary self) := by
  simp only [isArrow, Bool.or_eq_true, beq_iff_eq] at arrow
  obtain rfl | rfl := arrow <;> rfl

/-- A turn with an arrow ends like a range, and the last turn emits nothing. -/
lemma infixTurn_ends (minPrec : Nat) (canAssign : Bool) (p : CandoParser ν) :
    (infixTurn self minPrec canAssign () p).Leaves fun r q =>
      (r.2 = true → isArrow p.current.type = true → EndsInArrow q) ∧ (r.2 = false → q.chunk = p.chunk) := by
  rw [infixTurn, bind_apply, get_apply, Outcome.bind_ok]
  split
  · exact ⟨nofun, fun _ => rfl⟩
  · rw [bind_apply, advance, modify_apply, Outcome.bind_ok]
    have operator := nextToken_previous { p with previous := p.current }
    have same := nextToken_chunk { p with previous := p.current }
    generalize nextToken { p with previous := p.current } = q at operator same
    cases arrow : isArrow p.current.type with
    | true =>
      rw [infixRule_arrow arrow]
      have again : isArrow q.previous.type = true := operator ▸ arrow
      have ends : (parseBinary self q).Leaves fun _ r => EndsInArrow r := parseBinary_arrow again
      exact ends.bind fun _ r ends => ⟨fun _ _ => ends, nofun⟩
    | false =>
      cases infixRule self canAssign p.current.type with
      | none => exact ⟨nofun, fun _ => same⟩
      | some operation => exact Outcome.leaves_last fun _ r => ⟨fun _ => nofun, nofun⟩

/-- A turn says rightly whether the code ends like a range. -/
lemma rangeTurn_ends {minPrec : Nat} {canAssign range : Bool} {p : CandoParser ν}
    (told : range = true → EndsInArrow p) :
    (rangeTurn self minPrec canAssign range p).Leaves fun r q => r.1 = true → EndsInArrow q := by
  rw [rangeTurn, bind_apply, get_apply, Outcome.bind_ok]
  refine (infixTurn_ends minPrec canAssign p).bind fun r q ends => ?_
  obtain ⟨_, again⟩ := r
  cases again with
  | true => exact ends.1 rfl
  | false => exact fun range => (told range).congr (ends.2 rfl)

lemma rangeLoop_ends {minPrec : Nat} {canAssign : Bool} (turns : Nat) {range : Bool} {p : CandoParser ν}
    (told : range = true → EndsInArrow p) :
    (loop (rangeTurn self minPrec canAssign) turns range p).Leaves fun range q => range = true → EndsInArrow q := by
  induction turns generalizing range p with
  | zero => trivial
  | succ turns ih =>
    rw [loop]
    refine (rangeTurn_ends told).bind fun r q ends => ?_
    dsimp only
    split
    · exact ih ends
    · exact ends

omit [F64 ν] in
lemma telling_rangeGrouping {inner : Parse ν Bool} (told : Telling inner) : Telling (rangeGrouping self inner) := by
  intro p
  rw [rangeGrouping, bind_apply, get_apply, Outcome.bind_ok]
  split
  · exact Outcome.leaves_last fun _ _ => Outcome.leaves_last fun _ _ => Outcome.leaves_last fun _ _ => nofun
  · refine Outcome.leaves_last fun _ q => (told q).bind fun range q ends => ?_
    refine (codeless_consume _ _ { q with callDepth := p.callDepth }).bind fun _ r same => ?_
    exact fun yes => (ends yes).congr same

lemma telling_rangeOperand {inner : Parse ν Bool} (told : Telling inner) {canAssign : Bool} {type : CandoTokenType}
    {operand : Parse ν Bool} (found : rangeOperand self inner canAssign type = some operand) : Telling operand := by
  rw [rangeOperand] at found
  split at found
  · cases found
    exact telling_rangeGrouping told
  · obtain ⟨m, -, rfl⟩ := Option.map_eq_some_iff.mp found
    exact Leaving.last fun _ => Leaving.pure fun _ => nofun

/-- The code of a range ends in its opcode. -/
lemma telling_rangePrecedence (fuel minPrec : Nat) : Telling (rangePrecedence fuel minPrec : Parse ν Bool) := by
  induction fuel generalizing minPrec with
  | zero => exact fun _ => trivial
  | succ fuel ih =>
    rw [rangePrecedence]
    refine Leaving.last fun _ => Leaving.last fun p => Leaving.last fun _ => ?_
    dsimp only
    split
    · next operand found =>
      intro p
      refine (telling_rangeOperand (ih precAssign) found p).bind fun range q told => ?_
      refine (rangeLoop_ends _ told).bind fun range r told => ?_
      refine (codeless_assignmentTarget _ r).bind fun _ r' same => ?_
      exact fun yes => (told yes).congr same
    · exact Leaving.last fun _ => Leaving.pure fun _ => nofun

/-! ### What the loop goes over -/

/-- In this mode `OP_FOR_INIT` goes over the indices of an array and the names of an object's fields. -/
def OverKeys (ν : Type) [F64 ν] (mode : Nat) : Prop :=
  ∀ (vm : VM ν) h o, vm.store.resolve h = some o → loopItems mode (.object h) vm =
    .ok (if o.kind = .array then (List.range o.items.length).map Value.ofNat else o.slots.map fun s => .string s.key) vm

/-- In this mode `OP_FOR_INIT` goes over the numbers of an array of numbers. -/
def OverNumbers (ν : Type) [F64 ν] (mode : Nat) : Prop :=
  ∀ (vm : VM ν) h o (xs : List ν), vm.store.resolve h = some o → o.kind = .array → o.items = xs.map .number →
    loopItems mode (.object h) vm = .ok (xs.map .number) vm

omit [F64 ν] in
lemma arrayValues_numbers (xs : List ν) (vm : VM ν) :
    arrayValues (xs.map .number) vm = .ok (xs.map .number) vm := by
  induction xs generalizing vm with
  | nil => rfl
  | cons x xs ih =>
    have first : toCando (.number x) vm = .ok (.number x) vm := rfl
    rw [arrayValues] at ih ⊢
    rw [List.map_cons, List.mapM_cons, bind_apply, first, Outcome.bind_ok, bind_apply, ih, Outcome.bind_ok]
    rfl

/-- A VM with an array of one number behind the handle 0. -/
def oneNumber (x : ν) : VM ν :=
  { store := { objs := [{ kind := .array, items := [.number x] }], handles := [0] } }

lemma ofInt_zero_ne : (F64.ofInt 0 : ν) ≠ F64.ofInt 1 := by
  intro same
  have zero := F64.trunc_ofInt (ν := ν) 0 (by decide)
  rw [same, F64.trunc_ofInt 1 (by decide)] at zero
  cases zero

lemma overKeys_iff (mode : Nat) : OverKeys ν mode ↔ mode ≠ 0 := by
  constructor
  · rintro keys rfl
    have listed := keys (oneNumber (F64.ofInt 1)) 0 _ rfl
    have element : (F64.ofInt 1 : ν) = F64.ofInt 0 :=
      Value.number.inj (List.cons.inj (Outcome.ok.inj listed).1).1
    exact ofInt_zero_ne element.symm
  · intro keysMode vm h o found
    rw [loopItems, bind_apply, resolve_apply found, Outcome.bind_ok]
    split <;> rfl

lemma overNumbers_iff (mode : Nat) : OverNumbers ν mode ↔ mode = 0 := by
  constructor
  · intro numbers
    by_contra keysMode
    have found : (oneNumber (F64.ofInt 1 : ν)).store.resolve 0 = some _ := rfl
    have keys := (overKeys_iff mode).mpr keysMode (oneNumber (F64.ofInt 1 : ν)) 0 _ found
    rw [numbers _ 0 _ [F64.ofInt 1] found rfl rfl] at keys
    exact ofInt_zero_ne (Value.number.inj (List.cons.inj (Outcome.ok.inj keys).1).1).symm
  · rintro rfl vm h o xs found array items
    rw [loopItems, bind_apply, resolve_apply found, Outcome.bind_ok, if_pos array, if_neg (not_not.mpr rfl), items]
    exact arrayValues_numbers xs vm

/-- The mode is that of the syntax: a range is gone over by its numbers, anything else by its keys. -/
def RightMode (ν : Type) [F64 ν] (range : Bool) (mode : Nat) : Prop :=
  if range then OverNumbers ν mode else OverKeys ν mode

lemma rightMode_iff (range : Bool) (mode : Nat) : RightMode ν range mode ↔ (mode = 0 ↔ range = true) := by
  cases range with
  | true => simp [RightMode, overNumbers_iff]
  | false => simp [RightMode, overKeys_iff]

/-- The head of a FOR IN loop behind IN, and whether its iterable is a range. -/
def rangeHead (fuel : Nat) (names : List Str) : Parse ν Bool := do
  when (1 < names.length) (error "only 'over' loops support multiple loop variables")
  let range ← rangePrecedence fuel precAssign
  consume .tokLbrace "expected '\x7b' after FOR iterable"
  return range

/-- What comes first in `parse_for` is the head. -/
lemma forEach_head {fuel : Nat} {names : List Str} {p q : CandoParser ν} {range : Bool}
    (head : rangeHead fuel names p = .ok range q) (keysMode : Bool) :
    forEach (knot fuel) keysMode names p =
      (do emitOpA .forInit (← forMode keysMode); loopBody (knot fuel) .forNext loopFor [names.headD []]) q := by
  have whole : forEach (knot (ν := ν) fuel) keysMode names = (do
      let _ ← rangeHead fuel names
      emitOpA .forInit (← forMode keysMode)
      loopBody (knot fuel) .forNext loopFor [names.headD []]) := by
    have parsed : parseExpression (knot (ν := ν) fuel) = (do let _ ← rangePrecedence fuel precAssign; return ()) :=
      (rangePrecedence_erases fuel precAssign).symm
    rw [forEach, rangeHead, parsed]
    simp only [bind_assoc, pure_bind]
  rw [whole, bind_apply, head, Outcome.bind_ok]

lemma rangeHead_ends {fuel : Nat} {names : List Str} {p q : CandoParser ν}
    (head : rangeHead fuel names p = .ok true q) : EndsInArrow q := by
  have told : Telling (rangeHead fuel names : Parse ν Bool) := Leaving.last fun _ p => by
    refine (telling_rangePrecedence fuel precAssign p).bind fun range r told => ?_
    exact (codeless_consume _ _ r).bind fun _ r' same => fun yes => (told yes).congr same
  have ends := told p
  rw [head] at ends
  exact ends rfl

omit [F64 ν] in
lemma forMode_arrow {q : CandoParser ν} (ends : EndsInArrow q) : forMode true q = .ok 0 q := by
  rw [forMode, bind_apply, get_apply, Outcome.bind_ok]
  exact congrFun (if_pos ends) q

omit [F64 ν] in
lemma forMode_other {q : CandoParser ν} (ends : ¬ EndsInArrow q) : forMode true q = .ok 1 q := by
  rw [forMode, bind_apply, get_apply, Outcome.bind_ok]
  exact congrFun (if_neg ends) q

/-- `FOR k IN e` goes over the numbers of a range and over the keys of anything else if and only if `e` is a range or
its code does not end in a byte like the opcode of one. -/
theorem for_in_mode_iff {fuel : Nat} {names : List Str} {p q : CandoParser ν} {range : Bool}
    (head : rangeHead fuel names p = .ok range q) :
    ∃ mode, forMode true q = .ok mode q ∧ forEach (knot fuel) true names p =
        (do emitOpA .forInit mode; loopBody (knot fuel) .forNext loopFor [names.headD []]) q ∧
      (RightMode ν range mode ↔ range = true ∨ ¬ EndsInArrow q) := by
  have parsed := forEach_head head true
  by_cases ends : EndsInArrow q
  · refine ⟨0, forMode_arrow ends, ?_, ?_⟩
    · rw [parsed, bind_apply, forMode_arrow ends]
      rfl
    · simp [rightMode_iff, ends]
  · refine ⟨1, forMode_other ends, ?_, ?_⟩
    · rw [parsed, bind_apply, forMode_other ends]
      rfl
    · have no_range : range = false := Bool.eq_false_iff.mpr fun yes => ends (rangeHead_ends (yes ▸ head))
      simp [rightMode_iff, ends, no_range]

/-- The parser behind the first three tokens of a source. -/
def behindThree (source : String) : CandoParser Int :=
  let next (p : CandoParser Int) := nextToken { p with previous := p.current }
  next (next (next (init (bytes source) {} false)))

/-- The head of the loop over `k` in a source that begins with `FOR k IN`. -/
def headOf (source : String) : Outcome (CandoParser Int) Empty Stop Bool :=
  rangeHead 12 [bytes "k"] (behindThree source)

/-- A head that is parsed ends somewhere. -/
lemma headOf_some {source : String} {range : Bool} (h : (headOf source).ended.map (·.1) = some range) :
    ∃ q, headOf source = .ok range q := by
  obtain ⟨⟨_, q⟩, ended, rfl⟩ := Option.map_eq_some_iff.mp h
  exact ⟨q, Outcome.ended_eq_some ended⟩

/-- A loop over the range in `FOR k IN (1 -> 3) { }`. -/
theorem for_in_mode_iff_range : ∃ q mode, headOf "FOR k IN (1 -> 3) \x7b \x7d" = .ok true q ∧
    forMode true q = .ok mode q ∧ RightMode Int true mode := by
  have parsed : (headOf "FOR k IN (1 -> 3) \x7b \x7d").ended.map (·.1) = some true := by decide +kernel
  obtain ⟨q, head⟩ := headOf_some parsed
  obtain ⟨mode, chosen, _, right⟩ := for_in_mode_iff head
  exact ⟨q, mode, head, chosen, right.mpr (.inl rfl)⟩

/-- In `FOR k IN x || 1 -> 3 { }` the iterable is no range, but its code ends in the opcode of one. -/
theorem for_in_disjunction : ¬ ∀ (fuel : Nat) (names : List Str) (p q : CandoParser Int) (range : Bool) (mode : Nat),
    rangeHead fuel names p = .ok range q → forMode true q = .ok mode q → RightMode Int range mode := by
  intro right
  have tail : (headOf "FOR k IN x || 1 -> 3 \x7b \x7d").ended.map (fun r => (r.1, r.2.chunk.code.getLast?)) =
      some (false, some Opcode.rangeAsc.toByte) := by decide +kernel
  obtain ⟨⟨_, q⟩, ended, found⟩ := Option.map_eq_some_iff.mp tail
  obtain ⟨rfl, last⟩ := Prod.mk.inj found
  have keys := right 12 _ _ q false 0 (Outcome.ended_eq_some ended) (forMode_arrow (.inl last))
  exact absurd ((rightMode_iff false 0).mp keys) (by decide)

end CandoParser

end Cando
