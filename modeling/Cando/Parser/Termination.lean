import Cando.Parser.SoundStatement

/-!
# The parser comes to an end

Whatever the source is, the parser comes to its end, unless the code needs an array of more than 2^31 bytes: the
capacity, which has 32 bits, then doubles to zero, and the loop of `chunk_ensure_code` never ends.
-/

namespace Cando

open Program SourceText

namespace CandoParser

variable {ν : Type}

/-- The call has come to an end: it has returned, or has aborted at a failed assertion. -/
def Terminates : Outcome (CandoParser ν) Empty Stop Unit → Prop
  | .ok _ _ | .crash .assertion | .crash .poolFull => True
  | _ => False

/-- With enough calls, a parse comes to an end if and only if no instruction makes the code longer than 2^31 bytes. -/
theorem parse_terminates [F64 ν] (source : Str) (evalMode : Bool) (more : Nat) :
    Terminates (parse (callsFor source + more) source evalMode : Outcome (CandoParser ν) Empty Stop Unit) ↔
      ∀ need, (parse (callsFor source + more) source evalMode : Outcome (CandoParser ν) Empty Stop Unit) =
        .crash (.codeFull need) → need ≤ 2147483648 := by
  have ends := parse_ends (ν := ν) source evalMode (Nat.le_add_right (callsFor source) more)
  cases e : (parse (callsFor source + more) source evalMode : Outcome (CandoParser ν) Empty Stop Unit) with
  | ok a p => exact ⟨fun _ _ h => (by cases h), fun _ => trivial⟩
  | crash c =>
    rw [e] at ends
    obtain rfl | full := ends
    · exact ⟨fun _ _ h => (by cases h), fun _ => trivial⟩
    · cases c with
      | codeFull need => exact ⟨False.elim, fun h => absurd (h need rfl) (Nat.not_le.mpr full)⟩
      | assertion | poolFull | bounds | fuel => exact full.elim
  | error | exit | enter =>
    rw [e] at ends
    exact ends.elim

/-! ### Statements that are a literal -/

lemma nextToken_eq {p : CandoParser ν} (h : p.lexer.next.1.type ≠ .tokError) :
    nextToken p = { p with current := p.lexer.next.1, lexer := p.lexer.next.2 } := by
  rw [nextToken]
  exact dif_neg h

lemma advance_eq {p : CandoParser ν} (h : p.lexer.next.1.type ≠ .tokError) :
    advance p = .ok () { p with previous := p.current, current := p.lexer.next.1, lexer := p.lexer.next.2 } := by
  exact congrArg (Outcome.ok ()) (nextToken_eq (p := { p with previous := p.current }) h)

/-- What an expression leaves when it is one literal. -/
lemma constant_ends [F64 ν] {p : CandoParser ν} (good : Good p) (v : Value ν) :
    ((addConst v >>= fun c => emitOpA .const c) p).Ends (fun _ q => ∃ r cap code, p.chunk.addConst v = some r ∧
      cap ∈ capacities ∧ q = { p with codeCap := cap, chunk := { r.2 with code } } ∧ code.length = p.len + 3 ∧
      code.length ≤ cap) (fun c => CodeFull c ∨ c = .poolFull ∧ p.chunk.addConst v = none) := by
  simp only [addConst, bind_apply, get_apply, Outcome.bind_ok]
  cases e : p.chunk.addConst v with
  | none => exact .inr ⟨rfl, rfl⟩
  | some r =>
    obtain ⟨sameCode, few⟩ := addConst_spec e good.pool
    have same : len { p with chunk := r.2 } = p.len := by rw [len, sameCode, len]
    have ends : (emitOpA .const r.1 { p with chunk := r.2 }).Ends _ CodeFull :=
      emit_ends (p := { p with chunk := r.2 }) good.cap (same ▸ good.room) rfl
    refine Outcome.Ends.mono ends ?_ fun _ c => .inl c
    rintro _ q ⟨cap, mem, rfl, room⟩
    refine ⟨r, cap, _, rfl, mem, rfl, ?_, ?_⟩
    · rw [length_emitted, same]
      rfl
    · rwa [length_emitted]

/-- Behind the operand there is no operator. -/
lemma infixOperators_semi [F64 ν] {p : CandoParser ν} (h : p.current.type = .tokSemi) (fuel : Nat) (canAssign : Bool) :
    infixOperators (knot (fuel + 2) : Knot ν) precAssign canAssign p = .ok () p := by
  have stop : p.current.type = .tokEof ∨ p.current.type.precedence < precAssign := .inr (by rw [h]; decide)
  have other : p.current.type ≠ .tokAssign := by
    rw [h]
    decide
  have turn : infixTurn (knot (fuel + 2) : Knot ν) precAssign canAssign () p = .ok ((), false) p := by
    simp only [infixTurn, bind_apply, get_apply, Outcome.bind_ok, if_pos stop, pure_apply]
  have turns : loop (infixTurn (knot (fuel + 2) : Knot ν) precAssign canAssign) (fuel + 1) () p = .ok () p := by
    simp only [loop, bind_apply, turn, Outcome.bind_ok, Bool.false_eq_true, if_false, pure_apply]
  cases canAssign with
  | false =>
    show (loop _ (fuel + 1) () p).bind _ = _
    rw [turns]
    rfl
  | true =>
    show (loop _ (fuel + 1) () p).bind _ = _
    rw [turns]
    simp only [Outcome.bind_ok, if_true, bind_apply, matchToken_other other]
    rfl

/-- The semicolon behind an expression. -/
lemma expressionEnd_semi {p : CandoParser ν} (h : p.current.type = .tokSemi) (next : p.lexer.next.1.type ≠ .tokError) :
    expressionEnd p =
      .ok () { p with previous := p.current, current := p.lexer.next.1, lexer := p.lexer.next.2 } := by
  have inside : ¬ (p.evalMode ∧ p.current.type = .tokEof) := by
    rw [h]
    rintro ⟨_, ⟨⟩⟩
  simp only [expressionEnd, bind_apply, get_apply, Outcome.bind_ok, if_neg inside, consume_found h]
  exact advance_eq next

/-- The parser stands before a statement that is one literal, whose value is `v`. -/
structure AtLiteral [F64 ν] (v : Value ν) (p : CandoParser ν) : Prop where
  good : Good p
  quiet : p.panicMode = false
  expression (self : Knot ν) : p.current.type ≠ .tokFunction ∧ statementRule self p.current.type = none
  operand (self : Knot ν) (q : CandoParser ν) : q.previous = p.current → q.lexer = p.lexer.next.2 →
    ∃ m, prefixRule self true p.current.type = some m ∧ m q = (addConst v >>= fun c => emitOpA .const c) q
  semi : p.lexer.next.1.type = .tokSemi
  next : p.lexer.next.2.next.1.type ≠ .tokError

/-- `p` behind the statement. -/
def behindLiteral (p : CandoParser ν) (codeCap : Nat) (chunk : Chunk ν) : CandoParser ν :=
  { p with
    current := p.lexer.next.2.next.1, lexer := p.lexer.next.2.next.2, previous := p.lexer.next.1,
    lastExprWasCall := false, lastStmtWasExpr := true, codeCap, chunk }

/-- A statement that is one literal takes four bytes. -/
lemma parseStatement_literal [F64 ν] {v : Value ν} {p : CandoParser ν} (lit : AtLiteral v p) (fuel : Nat) :
    (parseStatement (knot (fuel + 3)) p).Ends (fun _ q => ∃ r cap code, p.chunk.addConst v = some r ∧ cap ∈ capacities ∧
      q = p.behindLiteral cap { r.2 with code } ∧ code.length = p.len + 4 ∧ code.length ≤ cap)
      (fun c => CodeFull c ∨ c = .poolFull ∧ p.chunk.addConst v = none) := by
  have error : p.lexer.next.1.type ≠ .tokError := by
    rw [lit.semi]
    decide
  -- The literal has been read, and the semicolon is the current token.
  obtain ⟨q, atSemi⟩ : ∃ q, { p with
    lastStmtWasExpr := false, lastExprWasCall := false, previous := p.current, current := p.lexer.next.1,
    lexer := p.lexer.next.2 } = q := ⟨_, rfl⟩
  have good : Good q := atSemi ▸ { lit.good with }
  obtain ⟨m, rule, literal⟩ := lit.operand (knot (fuel + 2)) q (atSemi ▸ rfl) (atSemi ▸ rfl)
  have read : nextToken { p with lastStmtWasExpr := false, lastExprWasCall := false, previous := p.current } = q :=
    atSemi ▸ nextToken_eq error
  have expression : parseExpression (knot (fuel + 3)) { p with lastStmtWasExpr := false } =
      (m q).bind fun _ => infixOperators (knot (fuel + 2)) precAssign true := by
    show parsePrecedence (knot (fuel + 2)) precAssign { p with lastStmtWasExpr := false } = _
    simp only [parsePrecedence, setCall, bind_apply, get_apply, modify_apply, Outcome.bind_ok, advance, read, le_refl,
      decide_true, rule]
  have chunk : q.chunk = p.chunk := atSemi ▸ rfl
  have ends := constant_ends good v
  rw [← literal, chunk, len, chunk, ← len] at ends
  have statement : (parseExprStmt (knot (fuel + 3)) { p with lastStmtWasExpr := false }).Ends (fun _ q' =>
      ∃ r cap code, p.chunk.addConst v = some r ∧ cap ∈ capacities ∧
        q' = { p.behindLiteral cap { r.2 with code } with lastStmtWasExpr := false } ∧ code.length = p.len + 4 ∧
        code.length ≤ cap) (fun c => CodeFull c ∨ c = .poolFull ∧ p.chunk.addConst v = none) := by
    simp only [parseExprStmt, bind_apply, expression, Outcome.bind_assoc]
    apply Outcome.Ends.bind ends
    rintro _ _ ⟨r, cap, code, const, mem, rfl, length, room⟩
    obtain ⟨q', atEnd⟩ : ∃ q', { q with codeCap := cap, chunk := { r.2 with code } } = q' := ⟨_, rfl⟩
    have semi : q'.current.type = .tokSemi := by
      rw [← atEnd, ← atSemi]
      exact lit.semi
    have next : q'.lexer.next.1.type ≠ .tokError := by
      rw [← atEnd, ← atSemi]
      exact lit.next
    rw [atEnd, infixOperators_semi semi, Outcome.bind_ok]
    obtain ⟨t, atNext⟩ : ∃ t, { q' with
      previous := q'.current, current := q'.lexer.next.1, lexer := q'.lexer.next.2 } = t := ⟨_, rfl⟩
    simp only [bind_apply, expressionEnd_semi semi next, Outcome.bind_ok, atNext]
    have sameCode : t.chunk.code = code := by rw [← atNext, ← atEnd]
    have sameCap : t.codeCap = cap := by rw [← atNext, ← atEnd]
    have fits : t.len ≤ t.codeCap := by rwa [len, sameCode, sameCap]
    refine Outcome.Ends.mono (emit_ends (i := { op := .pop }) (sameCap ▸ mem) fits rfl) ?_ fun _ c => .inl c
    rintro _ _ ⟨cap', mem', rfl, room''⟩
    rw [len, sameCode] at room''
    refine ⟨r, cap', code ++ ({ op := .pop } : Instr).encode, const, mem', ?_, ?_, ?_⟩
    · rw [sameCode, ← atNext, ← atEnd, ← atSemi]
      rfl
    · rw [List.length_append, length]
      rfl
    · rw [List.length_append]
      exact room''
  have dispatched : dispatch (knot (fuel + 3)) { p with lastStmtWasExpr := false } =
      (parseExprStmt (knot (fuel + 3)) { p with lastStmtWasExpr := false }).bind fun _ => pure true := by
    simp only [dispatch, bind_apply, get_apply, Outcome.bind_ok, if_neg (lit.expression (knot (fuel + 3))).1,
      (lit.expression (knot (fuel + 3))).2]
  simp only [parseStatement, bind_apply, modify_apply, Outcome.bind_ok, dispatched, Outcome.bind_assoc]
  apply statement.bind
  rintro _ _ ⟨r, cap, code, const, mem, rfl, length, room⟩
  show ((if p.panicMode = true then synchronise _ else pure ()) (p.behindLiteral cap _)).Ends _ _
  rw [if_neg (by rw [lit.quiet]; decide)]
  exact ⟨r, cap, code, const, mem, rfl, length, room⟩

lemma good_behindLiteral [F64 ν] {v : Value ν} {p : CandoParser ν} (good : Good p) {r : Nat × Chunk ν} {cap : Nat}
    {code : List UInt8} (const : p.chunk.addConst v = some r) (mem : cap ∈ capacities) (more : p.len ≤ code.length)
    (room : code.length ≤ cap) : Good (p.behindLiteral cap { r.2 with code }) := by
  have few := (addConst_spec const good.pool).2
  refine { good with cap := mem, room := room, pool := few, exit := fun pos hpos => ?_ }
  exact (good.exit pos hpos).imp_right fun h => h.trans more

/-! ### A source that is too long -/

lemma skipWhile_stop {f : UInt8 → Bool} {lex : CandoLexer} (h : ∀ c, lex.cur = some c → f c = false) :
    lex.skipWhile f = lex := by
  rw [CandoLexer.skipWhile]
  split
  · rfl
  · next c at_c => rw [h c at_c]; rfl

lemma next_end {lex : CandoLexer} (h : lex.cur = none) : lex.next = lex.token .tokEof lex := by
  have white : lex.skipWhile isWhite = lex := skipWhile_stop (by rw [h]; nofun)
  rw [CandoLexer.next]
  simp only [white]
  split
  · rfl
  · next c at_c =>
    rw [white, h] at at_c
    cases at_c

/-- A token that does not begin with white space or a comment. -/
lemma next_token {lex : CandoLexer} {c : UInt8} (h : lex.cur = some c) (white : isWhite c = false) (comment : c ≠ slash)
    (line : c ≠ lineFeed) : lex.next = CandoLexer.scanToken { lex with pos := lex.pos + 1 } lex c := by
  have start : lex.skipWhile isWhite = lex := skipWhile_stop (by rw [h]; rintro _ ⟨⟩; exact white)
  have step : lex.advance = { lex with pos := lex.pos + 1 } := by rw [CandoLexer.advance, h]; exact if_neg line
  rw [CandoLexer.next]
  simp only [start]
  split
  · next at_end =>
    rw [start, h] at at_end
    cases at_end
  · next d at_d =>
    rw [start, h] at at_d
    cases at_d
    simp only [comment, false_and, if_false, step]

lemma next_semi {lex : CandoLexer} (h : lex.cur = some 59) :
    lex.next = CandoLexer.token { lex with pos := lex.pos + 1 } .tokSemi lex := by
  rw [next_token h (by decide) (by decide) (by decide)]
  rfl

lemma next_one {lex : CandoLexer} (h : lex.cur = some 49) (after : lex.source[lex.pos + 1]? = some 59) :
    lex.next = CandoLexer.token { lex with pos := lex.pos + 1 } .tokNumber lex := by
  obtain ⟨behind, e⟩ : ∃ behind, { lex with pos := lex.pos + 1 } = behind := ⟨_, rfl⟩
  have cur : behind.cur = some 59 := e ▸ after
  have digits : behind.skipWhile isDecimal = behind := skipWhile_stop (by rw [cur]; rintro _ ⟨⟩; rfl)
  have point : ¬ (behind.peekChar = ch '.' ∧ isDecimal behind.peekChar2) := by
    rw [CandoLexer.peekChar, cur]
    rintro ⟨⟨⟩, _⟩
  rw [next_token h (by decide) (by decide) (by decide), e]
  show behind.number lex = _
  rw [CandoLexer.number, digits]
  exact if_neg point

/-- `count` times the statement `1;`. -/
def ones (count : Nat) : Str := (List.replicate count [49, 59]).flatten

lemma ones_succ (count : Nat) : ones (count + 1) = 49 :: 59 :: ones count := by
  rw [ones, List.replicate_succ, List.flatten_cons]
  rfl

lemma ones_length (count : Nat) : (ones count).length = 2 * count := by
  induction count with
  | zero => rfl
  | succ count ih =>
    rw [ones_succ, List.length_cons, List.length_cons, ih]
    omega

lemma ones_at {count k : Nat} (h : k < count) : (ones count)[2 * k]? = some 49 ∧
    (ones count)[2 * k + 1]? = some 59 := by
  induction count generalizing k with
  | zero => exact absurd h (Nat.not_lt_zero k)
  | succ count ih =>
    rw [ones_succ]
    cases k with
    | zero => exact ⟨rfl, rfl⟩
    | succ k => exact ih (Nat.lt_of_succ_lt_succ h)

/-- The value of the numeral. -/
def one : Value Int := .number (F64.strtod [49])

/-- The token that the lexer reads before the statement number `k`, and where it is then. -/
structure Reads (count k : Nat) (tok : CandoToken) (lex : CandoLexer) : Prop where
  source : lex.source = ones count
  numeral : k < count → tok.type = .tokNumber ∧ tok.start = 2 * k ∧ tok.length = 1 ∧ lex.pos = 2 * k + 1
  last : k = count → tok.type = .tokEof

lemma reads_next {count k : Nat} {lex : CandoLexer} (source : lex.source = ones count) (pos : lex.pos = 2 * k)
    (le : k ≤ count) : Reads count k lex.next.1 lex.next.2 := by
  obtain lt | rfl := Nat.lt_or_eq_of_le le
  · obtain ⟨digit, semi⟩ := ones_at lt
    have cur : lex.cur = some 49 := by rw [CandoLexer.cur, source, pos, digit]
    rw [next_one cur (by rw [source, pos, semi])]
    refine ⟨source, fun _ => ⟨rfl, pos, ?_, ?_⟩, fun e => absurd e (Nat.ne_of_lt lt)⟩
    · show (lex.pos + 1 - lex.pos) % 4294967296 = 1
      rw [Nat.add_sub_cancel_left]
    · show lex.pos + 1 = _
      rw [pos]
  · have cur : lex.cur = none := by
      rw [CandoLexer.cur, source, pos]
      exact List.getElem?_eq_none (Nat.le_of_eq (ones_length k))
    rw [next_end cur]
    exact ⟨source, fun lt => absurd lt (Nat.lt_irrefl k), fun _ => rfl⟩

/-- The parser stands before the statement number `k`. -/
structure AtOne (count k : Nat) (p : CandoParser Int) : Prop where
  good : Good p
  quiet : p.panicMode = false
  mode : p.evalMode = false
  len : p.len = 4 * k
  consts : p.chunk.constants = [] ∨ p.chunk.constants = [one]
  reads : Reads count k p.current p.lexer

lemma addConst_one {c : Chunk Int} (h : c.constants = [] ∨ c.constants = [one]) :
    ∃ r, c.addConst one = some r ∧ r.2.constants = [one] := by
  rw [Chunk.addConst]
  obtain h | h := h
  · exact ⟨(0, { c with constants := [one] }), by rw [h]; rfl, rfl⟩
  · exact ⟨(0, c), by rw [h]; rfl, h⟩

/-- The semicolon behind the numeral, and what comes then. -/
lemma AtOne.tokens {count k : Nat} {p : CandoParser Int} (h : AtOne count k p) (lt : k < count) :
    p.lexer.next.1.type = .tokSemi ∧ p.lexer.next.2.source = ones count ∧
      Reads count (k + 1) p.lexer.next.2.next.1 p.lexer.next.2.next.2 := by
  obtain ⟨_, _, _, pos⟩ := h.reads.numeral lt
  have cur : p.lexer.cur = some 59 := by rw [CandoLexer.cur, h.reads.source, pos, (ones_at lt).2]
  rw [next_semi cur]
  refine ⟨rfl, h.reads.source, reads_next h.reads.source ?_ lt⟩
  show p.lexer.pos + 1 = _
  rw [pos]
  omega

lemma AtOne.literal {count k : Nat} {p : CandoParser Int} (h : AtOne count k p) (lt : k < count) : AtLiteral one p := by
  obtain ⟨type, start, length, _⟩ := h.reads.numeral lt
  obtain ⟨semi, source, next⟩ := h.tokens lt
  refine ⟨h.good, h.quiet, fun self => ?_, fun self q behind lexer => ⟨parseNumber, ?_, ?_⟩, semi, ?_⟩
  · rw [type]
    exact ⟨nofun, rfl⟩
  · rw [type]
    rfl
  · have text : (q.lexer.source.drop q.previous.start).take q.previous.length = [49] := by
      rw [lexer, source, behind, start, length, List.take_one, List.head?_drop, (ones_at lt).1]
      rfl
    simp only [parseNumber, previousText, bind_apply, get_apply, Outcome.bind_ok, pure_apply, text]
    rfl
  · obtain lt' | e := Nat.lt_or_eq_of_le lt
    · rw [(next.numeral lt').1]
      decide
    · rw [next.last e]
      decide

/-- A statement makes the code longer by four bytes, and the pool keeps its one constant. -/
lemma AtOne.step {count k : Nat} {p : CandoParser Int} (h : AtOne count k p) (lt : k < count) (fuel : Nat) :
    (parseStatement (knot (fuel + 3)) p).Ends (fun _ => AtOne count (k + 1)) CodeFull := by
  obtain ⟨r, const, pool⟩ := addConst_one h.consts
  refine (parseStatement_literal (h.literal lt) fuel).mono ?_ ?_
  · rintro _ _ ⟨r', cap, code, const', mem, rfl, length, room⟩
    obtain rfl : r = r' := Option.some.inj (const.symm.trans const')
    have good := good_behindLiteral h.good const mem (length ▸ Nat.le_add_right _ _) room
    refine ⟨good, h.quiet, h.mode, ?_, .inr pool, (h.tokens lt).2.2⟩
    show code.length = _
    rw [length, h.len]
    omega
  · rintro c (full | ⟨_, none⟩)
    · exact full
    · rw [const] at none
      cases none

/-- The statements are parsed one after the other. -/
lemma ones_loop {count k : Nat} (fuel : Nat) {turns : Nat} (enough : count - k < turns) (le : k ≤ count)
    {p : CandoParser Int} (h : AtOne count k p) :
    (loop (fun _ => do
      let p ← get
      if p.current.type = .tokEof then return ((), false)
      else
        parseStatement (knot (fuel + 3))
        return ((), true)) turns () p).Ends (fun _ => AtOne count count) CodeFull := by
  induction turns generalizing k p with
  | zero => exact absurd enough (Nat.not_lt_zero _)
  | succ turns ih =>
    obtain lt | rfl := Nat.lt_or_eq_of_le le
    · have inside : p.current.type ≠ .tokEof := by
        rw [(h.reads.numeral lt).1]
        decide
      simp only [loop, bind_apply, get_apply, Outcome.bind_ok, if_neg inside, Outcome.bind_assoc, pure_apply, if_true]
      apply (h.step lt fuel).bind
      exact fun _ _ next => ih (by omega) lt next
    · simp only [loop, bind_apply, get_apply, Outcome.bind_ok, if_pos (h.reads.last rfl), pure_apply,
        Bool.false_eq_true, if_false]
      exact h

lemma atOne_init (count : Nat) : AtOne count 0 (init (ones count) {} false) := by
  have reads : Reads count 0 ({ source := ones count } : CandoLexer).next.1
      ({ source := ones count } : CandoLexer).next.2 := reads_next rfl rfl (Nat.zero_le count)
  have first : ({ source := ones count } : CandoLexer).next.1.type ≠ .tokError := by
    obtain some | none := Nat.lt_or_eq_of_le (Nat.zero_le count)
    · rw [(reads.numeral some).1]
      decide
    · rw [reads.last none]
      decide
  have good : Good (init (ones count) {} false : CandoParser Int) := (within_init _ _).good
  rw [init, nextToken_eq first] at good ⊢
  exact ⟨good, rfl, rfl, rfl, .inl rfl, reads⟩

/-- The last instruction finds no room. -/
lemma ones_full {count : Nat} (long : 2147483648 ≤ 4 * count) (more : Nat) :
    ∃ need, (parse (callsFor (ones count) + more) (ones count) false : Outcome (CandoParser Int) Empty Stop Unit) =
      .crash (.codeFull need) := by
  obtain ⟨fuel, calls⟩ : ∃ fuel, callsFor (ones count) + more = fuel + 4 :=
    ⟨callsFor (ones count) + more - 4, by rw [callsFor, ones_length]; omega⟩
  have turns : count - 0 < (knot (fuel + 4) : Knot Int).turns := by
    show count - 0 < fuel + 3
    rw [callsFor, ones_length] at calls
    omega
  have statements := ones_loop fuel turns (Nat.zero_le _) (atOne_init count)
  have ends : (parse (fuel + 4) (ones count) false : Outcome (CandoParser Int) Empty Stop Unit).Ends (fun _ _ => False)
      CodeFull := by
    apply Outcome.Ends.bind statements
    intro _ q last
    have notEval : ¬ q.evalMode = true := by
      rw [last.mode]
      decide
    simp only [parseEnd, bind_apply, get_apply, Outcome.bind_ok, if_neg notEval]
    refine Outcome.Ends.mono (emit_ends (i := { op := .halt }) last.good.cap last.good.room rfl) ?_ fun _ c => c
    rintro _ _ ⟨cap, mem, -, room⟩
    have most := capacity_le cap mem
    rw [last.len] at room
    have size : ({ op := .halt } : Instr).op.size = 1 := rfl
    omega
  rw [calls]
  cases e : (parse (fuel + 4) (ones count) false : Outcome (CandoParser Int) Empty Stop Unit) with
  | ok a p => rw [e] at ends; exact ends.elim
  | crash c =>
    rw [e] at ends
    cases c with
    | codeFull need => exact ⟨need, rfl⟩
    | assertion | poolFull | bounds | fuel => exact ends.elim
  | error | exit | enter =>
    rw [e] at ends
    exact ends.elim

lemma ones_not_terminating {count : Nat} (long : 2147483648 ≤ 4 * count) :
    ¬ ∃ more, Terminates (parse (callsFor (ones count) + more) (ones count) false :
      Outcome (CandoParser Int) Empty Stop Unit) := by
  rintro ⟨more, ends⟩
  obtain ⟨need, full⟩ := ones_full long more
  rw [full] at ends
  exact ends

/-- The parser does not come to an end on 2^29 statements. -/
theorem parse_endless : ¬ ∀ (source : Str) (evalMode : Bool), ∃ more,
    Terminates (parse (callsFor source + more) source evalMode : Outcome (CandoParser Int) Empty Stop Unit) :=
  fun all => ones_not_terminating (by decide) (all (ones 536870912) false)

end CandoParser

end Cando
