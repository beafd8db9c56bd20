import Cando.Lang.Code
import Cando.Parser.Termination

/-!
# What the parser has before it

A parser on a source whose tokens are known, in the middle of a program of the core: `View` is what of its state matters
there, and `Leads` is a logic for parse functions over views. A function may also stop short, when an array or the
constant pool is full; of that nothing is said here.
-/

namespace Cando.Lang

open Program CandoParser

variable {ν α β : Type}

/-! ### Tokens to come -/

/-- The token is this one. -/
structure Lexeme.Is (t : Lexeme) (source : Str) (tok : CandoToken) : Prop where
  type : tok.type = t.type
  length : tok.length = t.text.length
  text : (source.drop tok.start).take tok.length = t.text

/-- A token that is neither an error nor the one at the end. -/
def Lexeme.Proper (t : Lexeme) : Prop := t.type ≠ .tokError ∧ t.type ≠ .tokEof

/-- These are the tokens that the lexer will yield. -/
def Upcoming : List Lexeme → CandoLexer → Prop
  | [], lex => lex.next.1.type = .tokEof ∧ lex.next.2.source = lex.source
  | t :: ts, lex => t.Is lex.source lex.next.1 ∧ t.Proper ∧ lex.next.2.source = lex.source ∧ Upcoming ts lex.next.2

/-- These are the tokens before the parser, the current one first. -/
def Ahead (p : CandoParser ν) : List Lexeme → Prop
  | [] => p.current.type = .tokEof
  | t :: ts => t.Is p.lexer.source p.current ∧ t.Proper ∧ Upcoming ts p.lexer

/-- The type of the current token. -/
def headType : List Lexeme → CandoTokenType
  | [] => .tokEof
  | t :: _ => t.type

lemma Ahead.current {p : CandoParser ν} {ts : List Lexeme} (h : Ahead p ts) : p.current.type = headType ts := by
  cases ts with
  | nil => exact h
  | cons t ts => exact h.1.type

/-! ### Views -/

/-- A number that stands in the code of the core. -/
def Numeral [F64 ν] (x : ν) : Prop := (∃ text, Expr.IsNumeral text ∧ x = F64.strtod text) ∨ x = F64.ofInt 1

/-- Numerals that C's `==` takes for equal are the same double. -/
def ExactNumerals (ν : Type) [F64 ν] : Prop := ∀ x y : ν, Numeral x → Numeral y → F64.eq x y = true → x = y

/-- A constant pool of the core. -/
structure Pool [F64 ν] (pool : List (Value ν)) : Prop where
  few : pool.length ≤ 65535
  numerals : ∀ x, .number x ∈ pool → Numeral x

/-- What matters of a parser. -/
structure View (ν : Type) where
  ahead : List Lexeme
  last : Lexeme
  code : List UInt8
  pool : List (Value ν)
  width : Nat
  locals : List CandoLocal
  depth : Int
  calls : Nat
  eval : Bool
  wasExpr : Bool

/-- The names of the variables of the blocks around. -/
def View.names (v : View ν) : List Str := v.locals.map (·.name)

/-- The view when tokens have been read, code has been appended and constants may have been added. -/
def View.moved (v : View ν) (ahead : List Lexeme) (last : Lexeme) (bs : List UInt8) (pool : List (Value ν)) : View ν :=
  { v with ahead, last, code := v.code ++ bs, pool }

/-- The parser is in the middle of a program of the core, and this is what matters of it. -/
structure Shows [F64 ν] (p : CandoParser ν) (v : View ν) : Prop where
  ahead : Ahead p v.ahead
  last : v.last.Is p.lexer.source p.previous
  code : p.chunk.code = v.code
  pool : p.chunk.constants = v.pool
  width : p.chunk.localCount = v.width
  locals : p.locals = v.locals
  depth : p.scopeDepth = v.depth
  calls : p.callDepth = v.calls
  eval : p.evalMode = v.eval
  wasExpr : p.lastStmtWasExpr = v.wasExpr
  noError : p.hadError = false
  noPanic : p.panicMode = false
  noCall : p.lastExprWasCall = false
  noUnpack : p.lastExprWasUnpack = false
  single : p.lastMultiPush = 1
  noPipe : p.inPipeBody = false
  arity : p.chunk.arity = 0
  narrow : v.width ≤ localMax
  sound : Pool v.pool

/-- From a parser with this view the function leads to one with a view that satisfies `Q`, unless it stops short. -/
def Leads [F64 ν] (m : Parse ν α) (v : View ν) (Q : α → View ν → Prop) : Prop :=
  ∀ p, Shows p v → (m p).Ends (fun a q => ∃ w, Shows q w ∧ Q a w) fun _ => True

/-- It leads to this value and this view. -/
abbrev Does [F64 ν] (m : Parse ν α) (v : View ν) (a : α) (w : View ν) : Prop := Leads m v fun b u => b = a ∧ u = w

/-- Up to the tokens `rest`, code with the property `P` has been appended to `bs`, with the constants that are in the
pool now. -/
def Appends (v : View ν) (rest : List Lexeme) (bs : List UInt8) (pool : List (Value ν))
    (P : List (Value ν) → List UInt8 → Prop) (w : View ν) : Prop :=
  ∃ bs' pool' last, w = v.moved rest last (bs ++ bs') pool' ∧ pool <+: pool' ∧ P pool' bs'

variable [F64 ν] {v w : View ν} {m : Parse ν α} {f : α → Parse ν β} {P Q : α → View ν → Prop} {R : β → View ν → Prop}
  {ahead rest : List Lexeme} {last : Lexeme} {bs : List UInt8} {pool : List (Value ν)}

namespace Leads

lemma mono (h : Leads m v P) (hQ : ∀ a w, P a w → Q a w) : Leads m v Q :=
  fun p shows => (h p shows).mono (fun a _ ⟨w, shows, holds⟩ => ⟨w, shows, hQ a w holds⟩) fun _ _ => trivial

lemma pure {a : α} (h : Q a v) : Leads (pure a : Parse ν α) v Q := fun _ shows => ⟨v, shows, h⟩

lemma crash (c : Stop) : Leads (crash c : Parse ν α) v Q := fun _ _ => trivial

lemma bind (h : Leads m v P) (hf : ∀ a w, P a w → Leads (f a) w R) : Leads (m >>= f) v R :=
  fun p shows => (h p shows).bind fun a q ⟨w, shows, holds⟩ => hf a w holds q shows

/-- Going on behind a step whose outcome is known. -/
lemma after {a : α} (h : Does m v a w) (hf : Leads (f a) w R) : Leads (m >>= f) v R :=
  h.bind fun _ _ ⟨value, view⟩ => by rw [value, view]; exact hf

lemma get {f : CandoParser ν → Parse ν β} (h : ∀ p, Shows p v → Leads (f p) v R) : Leads (Program.get >>= f) v R :=
  fun p shows => h p shows p shows

lemma modify {g : CandoParser ν → CandoParser ν} (h : ∀ p, Shows p v → Shows (g p) w) :
    Does (Program.modify g) v () w :=
  fun p shows => ⟨w, h p shows, rfl, rfl⟩

lemma ite {c : Prop} [Decidable c] {m m' : Parse ν α} (h : c → Leads m v Q) (h' : ¬ c → Leads m' v Q) :
    Leads (if c then m else m') v Q := by
  split
  · exact h ‹_›
  · exact h' ‹_›

/-- Going on behind code that has been appended. -/
lemma append {m : Parse ν Unit} {g : Parse ν β} {C : List (Value ν) → List UInt8 → Prop}
    (h : Leads m v fun _ => Appends w rest bs pool C)
    (hg : ∀ last bs' pool', pool <+: pool' → C pool' bs' → Leads g (w.moved rest last (bs ++ bs') pool') R) :
    Leads (m >>= fun _ => g) v R := by
  refine h.bind fun _ _ ⟨bs', pool', last, view, more, holds⟩ => ?_
  rw [view]
  exact hg last bs' pool' more holds

/-- What has been appended is code with the property. -/
lemma appended {m : Parse ν Unit} {C : List (Value ν) → List UInt8 → Prop} {bs' bs'' : List UInt8}
    {pool' : List (Value ν)} (h : Does m v () (w.moved rest last bs'' pool')) (all : bs'' = bs ++ bs')
    (more : pool <+: pool') (holds : C pool' bs') : Leads m v fun _ => Appends w rest bs pool C :=
  h.mono fun _ _ ⟨_, view⟩ => ⟨bs', pool', last, all ▸ view, more, holds⟩

end Leads

/-! ### Flags -/

lemma does_setCall : Does (setCall false : Parse ν Unit) v () v := Leads.modify fun _ s => { s with noCall := rfl }

lemma does_setUnpack : Does (setUnpack false : Parse ν Unit) v () v :=
  Leads.modify fun _ s => { s with noUnpack := rfl }

lemma does_setMultiPush : Does (setMultiPush 1 : Parse ν Unit) v () v :=
  Leads.modify fun _ s => { s with single := rfl }

lemma does_setCallDepth (n : Nat) : Does (setCallDepth n : Parse ν Unit) (v.moved ahead last bs pool) ()
    ({ v with calls := n }.moved ahead last bs pool) := Leads.modify fun _ s => { s with calls := rfl }

lemma does_deeper : Does (deeper : Parse ν Unit) (v.moved ahead last bs pool) ()
    ({ v with calls := v.calls + 1 }.moved ahead last bs pool) :=
  Leads.modify fun _ s => { s with calls := congrArg (· + 1) s.calls }

lemma does_shallower : Does (shallower : Parse ν Unit) ({ v with calls := v.calls + 1 }.moved ahead last bs pool) ()
    (v.moved ahead last bs pool) :=
  Leads.modify fun _ s => { s with calls := congrArg (· - 1) s.calls }

/-! ### Tokens -/

omit [F64 ν] in
lemma Ahead.advance {p : CandoParser ν} {t : Lexeme} {ts : List Lexeme} (h : Ahead p (t :: ts)) :
    ∃ q, CandoParser.advance p = .ok () q ∧ Ahead q ts ∧ t.Is q.lexer.source q.previous ∧
      q = { p with previous := p.current, current := p.lexer.next.1, lexer := p.lexer.next.2 } := by
  obtain ⟨here, proper, upcoming⟩ := h
  cases ts with
  | nil =>
    obtain ⟨last, source⟩ := upcoming
    have error : p.lexer.next.1.type ≠ .tokError := by
      rw [last]
      decide
    exact ⟨_, advance_eq error, last, ⟨here.type, here.length, source ▸ here.text⟩, rfl⟩
  | cons t' ts =>
    obtain ⟨next, proper', source, upcoming⟩ := upcoming
    have error : p.lexer.next.1.type ≠ .tokError := by
      rw [next.type]
      exact proper'.1
    refine ⟨_, advance_eq error, ⟨?_, proper', upcoming⟩, ?_, rfl⟩
    · exact ⟨next.type, next.length, source ▸ next.text⟩
    · exact ⟨here.type, here.length, source ▸ here.text⟩

lemma does_advance (t : Lexeme) (rest : List Lexeme) :
    Does (CandoParser.advance : Parse ν Unit) (v.moved (t :: rest) last bs pool) () (v.moved rest t bs pool) := by
  intro p s
  obtain ⟨q, advanced, next, last, rfl⟩ := Ahead.advance s.ahead
  rw [advanced]
  exact ⟨v.moved rest t bs pool, { s with ahead := next, last := last }, rfl, rfl⟩

lemma does_check (type : CandoTokenType) : Does (check type : Parse ν Bool) v (headType v.ahead == type) v :=
  Leads.get fun _ s => Leads.pure ⟨by rw [s.ahead.current], rfl⟩

lemma does_matchToken {t : Lexeme} {type : CandoTokenType} (found : t.type = type) (rest : List Lexeme) :
    Does (matchToken type : Parse ν Bool) (v.moved (t :: rest) last bs pool) true (v.moved rest t bs pool) := by
  refine (does_check type).after ?_
  rw [View.moved, headType, found, beq_self_eq_true, if_pos rfl]
  exact (does_advance t rest).after (Leads.pure ⟨rfl, rfl⟩)

lemma does_matchOther {type : CandoTokenType} (other : headType v.ahead ≠ type) :
    Does (matchToken type : Parse ν Bool) v false v := by
  refine (does_check type).after ?_
  rw [beq_eq_false_iff_ne.mpr other, if_neg Bool.false_ne_true]
  exact Leads.pure ⟨rfl, rfl⟩

lemma does_consume {t : Lexeme} {type : CandoTokenType} (found : t.type = type) (msg : String) (rest : List Lexeme) :
    Does (consume type msg : Parse ν Unit) (v.moved (t :: rest) last bs pool) () (v.moved rest t bs pool) := by
  refine (does_check type).after ?_
  rw [View.moved, headType, found, beq_self_eq_true, if_pos rfl]
  exact does_advance t rest

lemma does_previousText : Does (previousText : Parse ν Str) v v.last.text v :=
  Leads.get fun _ s => Leads.pure ⟨s.last.text, rfl⟩

lemma does_quotedText {q : Quote} {content : Str} (last : v.last.text = q.char :: (content ++ [q.char])) :
    Does (quotedText : Parse ν Str) v content v := by
  refine Leads.get fun p s => Leads.pure ⟨?_, rfl⟩
  have text := s.last.text
  have length := s.last.length
  rw [last] at text length
  have whole : p.previous.length = content.length + 2 := by
    rw [length, List.length_cons, List.length_append, List.length_singleton]
  obtain ⟨tail, e⟩ : ∃ tail, p.lexer.source.drop p.previous.start = q.char :: (content ++ [q.char]) ++ tail :=
    ⟨_, (text ▸ List.take_append_drop p.previous.length (p.lexer.source.drop p.previous.start)).symm⟩
  rw [← List.drop_drop, e, whole, Nat.add_sub_cancel, List.cons_append, List.drop_succ_cons, List.drop_zero,
    List.append_assoc, List.take_left]

/-! ### Code -/

lemma does_emit {fmt : OpFmt} {i : Instr} (format : i.op.fmt = fmt) :
    Does (emit fmt i : Parse ν Unit) (v.moved ahead last bs pool) () (v.moved ahead last (bs ++ i.encode) pool) := by
  intro p s
  have append (cap : Nat) : Shows { p with codeCap := cap, chunk := p.chunk.emit i }
      (v.moved ahead last (bs ++ i.encode) pool) :=
    { s with code := (congrArg (· ++ i.encode) s.code).trans (List.append_assoc _ _ _) }
  rw [emit, if_pos format, bind_apply, ensureCode]
  dsimp only
  split
  · exact ⟨_, append p.codeCap, rfl, rfl⟩
  · cases growTo ((p.chunk.code.length + i.op.size) % 4294967296) 32 (chunkGrow p.codeCap) with
    | some cap => exact ⟨_, append cap, rfl, rfl⟩
    | none => trivial

lemma does_emitOp {op : Opcode} (format : op.fmt = .none) :
    Does (emitOp op : Parse ν Unit) (v.moved ahead last bs pool) () (v.moved ahead last (bs ++ code op 0 0) pool) :=
  does_emit format

lemma does_emitOpA {op : Opcode} (format : op.fmt = .a) (a : Nat) :
    Does (emitOpA op a : Parse ν Unit) (v.moved ahead last bs pool) ()
      (v.moved ahead last (bs ++ code op (a % 65536) 0) pool) := does_emit format

lemma does_emitFitting {op : Opcode} (format : op.fmt = .a) {a : Nat} (fits : a < 65536) :
    Does (emitOpA op a : Parse ν Unit) (v.moved ahead last bs pool) ()
      (v.moved ahead last (bs ++ code op a 0) pool) := by
  have emitted : Does (emitOpA op a : Parse ν Unit) (v.moved ahead last bs pool) ()
      (v.moved ahead last (bs ++ code op (a % 65536) 0) pool) := does_emitOpA format a
  rw [Nat.mod_eq_of_lt fits] at emitted
  exact emitted

lemma does_codeLen : Does (codeLen : Parse ν Nat) v v.code.length v :=
  Leads.get fun _ s => Leads.pure ⟨by rw [s.code], rfl⟩

lemma does_emitJump {op : Opcode} (format : op.fmt = .a) :
    Does (emitJump op : Parse ν Nat) (v.moved ahead last bs pool) (v.code.length + bs.length + 1)
      (v.moved ahead last (bs ++ code op 0x7FFF 0) pool) :=
  does_codeLen.after ((does_emitFitting format (by decide)).after
    (Leads.pure ⟨congrArg (· + 1) List.length_append, rfl⟩))

section Patch

variable {back : List UInt8} {pos start : Nat}

omit [F64 ν] in
/-- Writing the first operand of an instruction in the middle of the code. -/
lemma write_operand (front back tail : List UInt8) (op : Opcode) (a b : Nat) :
    ((front ++ (op.toByte :: (u16Bytes a ++ tail) ++ back)).set (front.length + 1) (UInt8.ofNat b)).set
      (front.length + 1 + 1) (UInt8.ofNat (b / 256)) = front ++ (op.toByte :: (u16Bytes b ++ tail) ++ back) := by
  have first : front.length + 1 - front.length = 1 := Nat.add_sub_cancel_left _ _
  have second : front.length + 1 + 1 - front.length = 2 := by omega
  rw [List.set_append_right _ _ (Nat.le_succ _), List.set_append_right _ _ (by omega), first, second]
  rfl

/-- A jump over `back`, which is `n` bytes long. -/
lemma does_patchJump (op : Opcode) (a : Nat) (front : List UInt8) {n : Int} (format : op.fmt = .a)
    (placed : bs = front ++ (code op a 0 ++ back)) (operand : pos = v.code.length + front.length + 1)
    (distance : back.length = n) : Does (patchJump pos : Parse ν Unit) (v.moved ahead last bs pool) ()
      (v.moved ahead last (front ++ (code op (toU16 n) 0 ++ back)) pool) := by
  have size : op.size = 3 := by rw [Opcode.size, format]
  have length : (v.code ++ bs).length = (v.code ++ front).length + (3 + back.length) := by
    rw [placed, List.length_append, List.length_append, List.length_append, List.length_append, code_length, size,
      Nat.add_assoc]
  have bytes (a : Nat) : code op a 0 = op.toByte :: (u16Bytes a ++ []) := by
    simp only [code, Instr.encode, format, List.append_nil]
  have written := write_operand (v.code ++ front) back [] op a (toU16 n)
  rw [List.append_assoc v.code, List.append_assoc v.code] at written
  rw [← List.length_append] at operand
  subst operand
  refine does_codeLen.after (Leads.ite (fun _ => ?_) fun outside => absurd ?_ outside)
  · refine Leads.modify fun p s => { s with code := ?_ }
    have code : p.chunk.code = v.code ++ bs := s.code
    have distance : ((p.chunk.code.length : Nat) : Int) - (((v.code ++ front).length + 1 : Nat) + 2) = n := by
      rw [code, length]
      omega
    show (p.chunk.code.set _ _).set _ _ = v.code ++ _
    rw [distance, code, placed, bytes, bytes]
    exact written
  · show _ ≤ (v.code ++ bs).length
    omega

lemma does_patchLoopMarkBreak (b : Nat) (front : List UInt8) {n : Int}
    (placed : bs = front ++ (code .loopMark 0 b ++ back))
    (operand : pos = v.code.length + front.length + 1) (distance : back.length = n) :
    Does (patchLoopMarkBreak pos : Parse ν Unit) (v.moved ahead last bs pool) ()
      (v.moved ahead last (front ++ (code .loopMark (toU16 n) b ++ back)) pool) := by
  have length : (v.code ++ bs).length = (v.code ++ front).length + (5 + back.length) := by
    rw [placed, List.length_append, List.length_append, List.length_append, List.length_append, code_length,
      Nat.add_assoc]
    rfl
  have bytes (a : Nat) : code .loopMark a b = Opcode.loopMark.toByte :: (u16Bytes a ++ u16Bytes b) := rfl
  have written := write_operand (v.code ++ front) back (u16Bytes b) .loopMark 0 (toU16 n)
  rw [List.append_assoc v.code, List.append_assoc v.code] at written
  rw [← List.length_append] at operand
  subst operand
  refine does_codeLen.after (Leads.ite (fun _ => ?_) fun outside => absurd ?_ outside)
  · refine Leads.modify fun p s => { s with code := ?_ }
    have code : p.chunk.code = v.code ++ bs := s.code
    have distance : ((p.chunk.code.length : Nat) : Int) - (((v.code ++ front).length + 1 : Nat) + 4) = n := by
      rw [code, length]
      omega
    show (p.chunk.code.set _ _).set _ _ = v.code ++ _
    rw [distance, code, placed, bytes, bytes]
    exact written
  · show _ ≤ (v.code ++ bs).length
    omega

/-- A jump back to where `back` begins, and over the jump itself. -/
lemma does_emitLoop (front back : List UInt8) {n : Int} (placed : bs = front ++ back)
    (target : start = v.code.length + front.length) (distance : back.length + 3 = n) :
    Does (emitLoop start : Parse ν Unit) (v.moved ahead last bs pool) ()
      (v.moved ahead last (bs ++ code .loop (toU16 n) 0) pool) := by
  have length : (v.code ++ bs).length = v.code.length + front.length + back.length := by
    rw [placed, List.length_append, List.length_append, Nat.add_assoc]
  have far : (((v.code ++ bs).length : Nat) : Int) + 3 - (v.code.length + front.length : Nat) = n := by omega
  subst target
  refine does_codeLen.after ?_
  show Leads (if _ < (v.code ++ bs).length + 3 then
    emitOpA .loop (toU16 ((((v.code ++ bs).length : Nat) : Int) + 3 - (v.code.length + front.length : Nat)))
    else crash .assertion : Parse ν Unit) _ _
  refine Leads.ite (fun _ => ?_) fun behind => absurd (by omega) behind
  rw [far]
  exact does_emitFitting rfl (toU16_lt _)

/-- The mark of a loop that begins where `back` does. -/
lemma does_emitLoopMark (front back : List UInt8) {n : Int} (placed : bs = front ++ back)
    (target : start = v.code.length + front.length) (distance : back.length + 5 = n) :
    Does (emitLoopMark start loopWhile : Parse ν Nat) (v.moved ahead last bs pool) (v.code.length + bs.length + 1)
      (v.moved ahead last (bs ++ code .loopMark 0 (toU16 n % 16384)) pool) := by
  have length : (v.code ++ bs).length = v.code.length + front.length + back.length := by
    rw [placed, List.length_append, List.length_append, Nat.add_assoc]
  have far : (((v.code ++ bs).length : Nat) : Int) + 5 - (v.code.length + front.length : Nat) = n := by omega
  have small : (toU16 n % 16384 + loopWhile * 16384) % 65536 = toU16 n % 16384 := by
    have zero : loopWhile = 0 := rfl
    omega
  subst target
  have mark : Does (emitOpAb .loopMark 0 (toU16 ((((v.code ++ bs).length : Nat) : Int) + 5 -
      (v.code.length + front.length : Nat)) % 16384 + loopWhile * 16384) : Parse ν Unit)
      (v.moved ahead last bs pool) ()
      (v.moved ahead last (bs ++ code .loopMark 0 (toU16 n % 16384)) pool) := by
    rw [far, emitOpAb, small]
    exact does_emit rfl
  exact does_codeLen.after (mark.after (Leads.pure ⟨congrArg (· + 1) List.length_append, rfl⟩))

end Patch

/-! ### Constants and variables -/

lemma addConst_code {c : Chunk ν} {x : Value ν} {r : Nat × Chunk ν} (h : c.addConst x = some r) :
    r.2.code = c.code ∧ r.2.localCount = c.localCount ∧ r.2.arity = c.arity := by
  rw [Chunk.addConst] at h
  cases found : c.constants.findIdx? (Chunk.sameConst · x) with
  | some i =>
    rw [found] at h
    cases h
    exact ⟨rfl, rfl, rfl⟩
  | none =>
    rw [found] at h
    by_cases room : c.constants.length < 65535
    · simp only [if_pos room] at h
      cases h
      exact ⟨rfl, rfl, rfl⟩
    · simp only [if_neg room] at h
      cases h

/-- A constant of the core. -/
def CoreConst (x : Value ν) : Prop := (∃ n, x = .number n ∧ Numeral n) ∨ ∃ s, x = .string s

/-- What the pool takes for the same constant is the same. -/
lemma sameConst_eq (exact : ExactNumerals ν) {pool : List (Value ν)} (sound : Pool pool) {x y : Value ν}
    (mem : y ∈ pool) (core : CoreConst x) (same : Chunk.sameConst y x = true) : y = x := by
  obtain ⟨n, rfl, numeral⟩ | ⟨s, rfl⟩ := core
  · cases y with
    | number m => rw [exact m n (sound.numerals m mem) numeral same]
    | _ => cases same
  · cases y with
    | string t => rw [eq_of_beq same]
    | _ => cases same

lemma addConst_holds (exact : ExactNumerals ν) {c : Chunk ν} {x : Value ν} {r : Nat × Chunk ν}
    (h : c.addConst x = some r) (sound : Pool c.constants) (core : CoreConst x) :
    Holds r.2.constants x r.1 ∧ c.constants <+: r.2.constants ∧ Pool r.2.constants := by
  rw [Chunk.addConst] at h
  cases found : c.constants.findIdx? (Chunk.sameConst · x) with
  | some i =>
    rw [found] at h
    cases h
    obtain ⟨inside, same, -⟩ := List.findIdx?_eq_some_iff_getElem.mp found
    have few := sound.few
    have small : i % 65536 = i := Nat.mod_eq_of_lt (by omega)
    have here : c.constants[i]? = some x := by
      rw [List.getElem?_eq_getElem inside, sameConst_eq exact sound (List.getElem_mem inside) core same]
    refine ⟨?_, List.prefix_refl _, sound⟩
    show Holds c.constants x (i % 65536)
    rw [small]
    exact ⟨here, by omega⟩
  | none =>
    rw [found] at h
    by_cases room : c.constants.length < 65535
    · simp only [if_pos room] at h
      cases h
      refine ⟨⟨List.getElem?_concat_length, by omega⟩, List.prefix_append _ _, ?_, fun n mem => ?_⟩
      · rw [List.length_append]
        exact room
      · obtain mem | mem := List.mem_append.mp mem
        · exact sound.numerals n mem
        · obtain ⟨m, e, numeral⟩ | ⟨s, e⟩ := core
          · rw [e] at mem
            cases List.mem_singleton.mp mem
            exact numeral
          · rw [e] at mem
            cases List.mem_singleton.mp mem
    · simp only [if_neg room] at h
      cases h

lemma leads_addConst (exact : ExactNumerals ν) {x : Value ν} (core : CoreConst x) :
    Leads (addConst x : Parse ν Nat) (v.moved ahead last bs pool) fun ci w =>
      ∃ pool', w = v.moved ahead last bs pool' ∧ pool <+: pool' ∧ Holds pool' x ci := by
  refine Leads.get fun p s q shows => ?_
  have constants : p.chunk.constants = pool := s.pool
  cases added : p.chunk.addConst x with
  | none => trivial
  | some r =>
    obtain ⟨holds, more, sound⟩ := addConst_holds exact added (constants ▸ s.sound) core
    obtain ⟨sameCode, sameWidth, sameArity⟩ := addConst_code added
    refine ⟨v.moved ahead last bs r.2.constants, ?_, r.2.constants, rfl, constants ▸ more, holds⟩
    exact { shows with
      code := sameCode.trans s.code, width := sameWidth.trans s.width, arity := sameArity.trans s.arity
      pool := rfl, sound := sound }

lemma leads_strConst (exact : ExactNumerals ν) (x : Str) :
    Leads (strConst x : Parse ν Nat) (v.moved ahead last bs pool) fun ci w =>
      ∃ pool', w = v.moved ahead last bs pool' ∧ pool <+: pool' ∧ Holds pool' (.string x) ci :=
  leads_addConst exact (.inr ⟨x, rfl⟩)

lemma does_resolveLocal (x : Str) : Does (resolveLocal x : Parse ν (Option Nat)) v (slotOf v.names x) v := by
  refine Leads.get fun p s => Leads.pure ⟨?_, rfl⟩
  rw [slotOf, View.names, List.findIdx?_map, List.length_map, s.locals]
  rfl

/-! ### Scopes -/

omit [F64 ν] in
/-- The view when variables have been declared, the last one first, and a statement of some kind has ended. -/
def View.grown (v : View ν) (width : Nat) (xs : List Str) (wasExpr : Bool) : View ν :=
  { v with width, locals := xs.map (⟨·, v.depth, false⟩) ++ v.locals, wasExpr }

/-- Inside of one more block. -/
def View.inner (v : View ν) : View ν := { v with depth := v.depth + 1 }

/-- No variable belongs to a block that has ended. -/
structure View.Nested (v : View ν) : Prop where
  depth : 0 ≤ v.depth
  locals : ∀ loc ∈ v.locals, loc.depth ≤ v.depth

section Scopes

variable {width : Nat} {xs : List Str} {wasExpr : Bool}

omit [F64 ν]

lemma grown_names : (v.grown width xs wasExpr).names = xs ++ v.names := by
  rw [View.names, View.grown, List.map_append, List.map_map]
  exact congrArg (· ++ v.names) (List.map_id xs)

lemma grown_grown (width' : Nat) (xs' : List Str) (wasExpr' : Bool) :
    (v.grown width xs wasExpr).grown width' xs' wasExpr' = v.grown width' (xs' ++ xs) wasExpr' := by
  rw [View.grown, View.grown, View.grown, List.map_append, List.append_assoc]

lemma View.Nested.grown (h : v.Nested) (width : Nat) (xs : List Str) (wasExpr : Bool) :
    (v.grown width xs wasExpr).Nested := by
  refine ⟨h.depth, fun loc mem => ?_⟩
  obtain new | old := List.mem_append.mp mem
  · obtain ⟨x, -, rfl⟩ := List.mem_map.mp new
    exact le_refl v.depth
  · exact h.locals loc old

lemma View.Nested.inner (h : v.Nested) : v.inner.Nested :=
  ⟨by have := h.depth; show 0 ≤ v.depth + 1; omega,
    fun loc mem => (h.locals loc mem).trans (by show _ ≤ v.depth + 1; omega)⟩

end Scopes

lemma does_scopeBegin :
    Does (scopeBegin : Parse ν Unit) (v.moved ahead last bs pool) () (v.inner.moved ahead last bs pool) :=
  Leads.modify fun _ s => { s with depth := congrArg (· + 1) s.depth }

/-- The variables of the block are gone. -/
lemma does_scopeEnd (nested : v.Nested) (width : Nat) (xs : List Str) (wasExpr : Bool) :
    Does (scopeEnd : Parse ν Unit) ((v.inner.grown width xs wasExpr).moved ahead last bs pool) ()
      ((v.grown width [] wasExpr).moved ahead last bs pool) := by
  have back : v.depth + 1 - 1 = v.depth := Int.add_sub_cancel _ _
  have kept : v.locals.dropWhile (fun loc => v.depth < loc.depth) = v.locals := by
    cases e : v.locals with
    | nil => rfl
    | cons loc locals =>
      have outer := nested.locals loc (e ▸ List.mem_cons_self)
      rw [List.dropWhile_cons_of_neg (by simpa using outer)]
  have gone : (xs.map (CandoLocal.mk · (v.depth + 1) false) ++ v.locals).dropWhile (fun loc => v.depth < loc.depth) =
      v.locals := by
    rw [List.dropWhile_append_of_pos]
    · exact kept
    · intro loc mem
      obtain ⟨x, -, rfl⟩ := List.mem_map.mp mem
      exact decide_eq_true (Int.lt_succ v.depth)
  refine Leads.modify fun p s => { s with depth := ?_, locals := ?_ }
  · show p.locals.dropWhile (fun loc => p.scopeDepth - 1 < loc.depth) = v.locals
    rw [show p.scopeDepth = v.depth + 1 from s.depth, back]
    exact (congrArg _ s.locals).trans gone
  · show p.scopeDepth - 1 = v.depth
    rw [show p.scopeDepth = v.depth + 1 from s.depth, back]

lemma does_declareLocal (x : Str) (room : v.locals.length < localMax) :
    Does (declareLocal x false : Parse ν Nat) (v.moved ahead last bs pool) v.names.length
      ((v.grown (max v.width (v.names.length + 1)) [x] v.wasExpr).moved ahead last bs pool) := by
  have length : v.names.length = v.locals.length := List.length_map _
  have added : Does (Program.modify fun p => { p with
      locals := ⟨x, p.scopeDepth, false⟩ :: p.locals,
      chunk := { p.chunk with localCount := max p.chunk.localCount (p.locals.length + 1) } } : Parse ν Unit)
      (v.moved ahead last bs pool) ()
      ((v.grown (max v.width (v.names.length + 1)) [x] v.wasExpr).moved ahead last bs pool) := by
    refine Leads.modify fun p s => { s with locals := ?_, width := ?_, narrow := ?_ }
    · show max p.chunk.localCount (p.locals.length + 1) = max v.width (v.names.length + 1)
      rw [show p.chunk.localCount = v.width from s.width, show p.locals = v.locals from s.locals, length]
    · show ⟨x, p.scopeDepth, false⟩ :: p.locals = ⟨x, v.depth, false⟩ :: v.locals
      rw [show p.scopeDepth = v.depth from s.depth, show p.locals = v.locals from s.locals]
    · exact Nat.max_le.mpr ⟨s.narrow, length ▸ room⟩
  refine Leads.get fun p s => ?_
  rw [show p.locals = v.locals from s.locals]
  refine Leads.ite (fun full => absurd full (Nat.not_le.mpr room)) fun _ => ?_
  exact added.after (Leads.pure ⟨length.symm, rfl⟩)

end Cando.Lang
