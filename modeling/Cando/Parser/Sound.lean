import Cando.Parser.State

/-!
# What parse functions keep

A parse function is sound when, begun in a good state with at most `A` left to read and at least `n` bytes of code, it
ends in a good state, with no more left and no less code than when it began. It may stop short only where the constant
pool is full, or where the code would need more than 2^31 bytes. A parse function eats when moreover, unless it begins
at the end of the source, it leaves less to read.
-/

namespace Cando

open Program

namespace CandoParser

variable {ν α β : Type}

/-! ### Good states -/

/-- What is left to read, with the current token. -/
def left (p : CandoParser ν) : Nat := p.lexer.left + if p.current.type = .tokEof then 0 else 1

/-- `code_len`. -/
def len (p : CandoParser ν) : Nat := p.chunk.code.length

/-- The capacities of a code array: none, or a power of two from 2^3 to 2^31. -/
def capacities : List Nat := 0 :: (List.range 29).map fun k => 8 <<< k

/-- The state of a parser between two steps. -/
structure Good (p : CandoParser ν) : Prop where
  cap : p.codeCap ∈ capacities
  room : p.len ≤ p.codeCap
  pool : p.chunk.constants.length ≤ 65535
  locals : p.locals.length ≤ localMax
  exits : p.pipeExits.length = maxPipeExits
  exit : ∀ pos ∈ p.pipeExits, pos = 0 ∨ pos + 2 ≤ p.len
  exitCount : p.pipeExitCount ≤ maxPipeExits
  panic : p.panicMode → p.hadError
  message : p.hadError → p.errorMsg ≠ []
  reported : p.exceeded → p.hadError ∨ p.silent
  silent : p.silent → p.exceeded

/-- A good state with at most `A` left to read and at least `n` bytes of code. -/
structure Within (A n : Nat) (p : CandoParser ν) : Prop where
  good : Good p
  left : p.left ≤ A
  len : n ≤ p.len

lemma Within.mono {A A' n n' : Nat} {p : CandoParser ν} (h : Within A n p) (hA : A ≤ A') (hn : n' ≤ n) :
    Within A' n' p :=
  ⟨h.good, h.left.trans hA, hn.trans h.len⟩

lemma Good.within {p : CandoParser ν} (h : Good p) : Within p.left p.len p := ⟨h, Nat.le_refl _, Nat.le_refl _⟩

/-- The code would need more than 2^31 bytes. -/
def CodeFull : Stop → Prop
  | .codeFull need => 2147483648 < need
  | _ => False

/-- Where a parse function may stop short. -/
def Allowed (c : Stop) : Prop := c = .poolFull ∨ CodeFull c

/-- The parse function ends with at most `A` left to read and at least `n` bytes of code, or stops where it may. -/
abbrev EndsWithin (A n : Nat) (o : Outcome (CandoParser ν) Empty Stop α) : Prop := o.Ends (fun _ => Within A n) Allowed

/-! ### Sound parse functions -/

def Sound (A n : Nat) (m : Parse ν α) : Prop := ∀ p, Within A n p → EndsWithin p.left p.len (m p)

def Eats (A n : Nat) (m : Parse ν α) : Prop :=
  ∀ p, Within A n p → p.current.type ≠ .tokEof → EndsWithin (p.left - 1) p.len (m p)

lemma EndsWithin.mono {A A' n n' : Nat} {o : Outcome (CandoParser ν) Empty Stop α} (h : EndsWithin A n o) (hA : A ≤ A')
    (hn : n' ≤ n) : EndsWithin A' n' o :=
  Outcome.Ends.mono h (fun _ _ w => w.mono hA hn) fun _ c => c

/-- Only at the end of the source can there be nothing left. -/
lemma left_pos {p : CandoParser ν} (h : p.current.type ≠ .tokEof) : 0 < p.left := by
  rw [left, if_neg h]
  exact Nat.succ_pos _

namespace Sound

variable {A A' n n' : Nat} {m : Parse ν α} {f : α → Parse ν β}

lemma ends (h : Sound A n m) {p : CandoParser ν} (w : Within A n p) : EndsWithin p.left p.len (m p) := h p w

lemma weaken (h : Sound A n m) (hA : A' ≤ A) (hn : n ≤ n') : Sound A' n' m := fun p w => h p (w.mono hA hn)

lemma pure (a : α) : Sound A n (pure a : Parse ν α) := fun _ w => w.good.within

lemma bind (hm : Sound A n m) (hf : ∀ a, Sound A n (f a)) : Sound A n (m >>= f) := by
  intro p w
  apply (hm p w).bind
  intro a q within
  have le := (hf a q) (within.mono w.left w.len)
  exact le.mono within.left within.len

lemma seq {m : Parse ν Unit} {m' : Parse ν β} (hm : Sound A n m) (hm' : Sound A n m') : Sound A n (do m; m') :=
  hm.bind fun _ => hm'

/-- Reading the state, of which nothing but that it is good is kept in mind. -/
lemma get {f : CandoParser ν → Parse ν β} (h : ∀ p, Good p → Sound A n (f p)) : Sound A n (Program.get >>= f) :=
  fun p w => h p w.good p w

/-- Reading the state, with the code that is there. -/
lemma getCode {f : CandoParser ν → Parse ν β} (h : ∀ p, Good p → n ≤ p.len → Sound A p.len (f p)) :
    Sound A n (Program.get >>= f) :=
  fun p w => h p w.good w.len p ⟨w.good, w.left, Nat.le_refl _⟩

lemma ite {c : Prop} [Decidable c] {m m' : Parse ν α} (h : c → Sound A n m) (h' : ¬ c → Sound A n m') :
    Sound A n (if c then m else m') := by
  split
  · next yes => exact h yes
  · next no => exact h' no

lemma when {c : Prop} [Decidable c] {m : Parse ν Unit} (h : Sound A n m) : Sound A n (when c m) :=
  ite (fun _ => h) fun _ => pure ()

/-- Writing where there is room. -/
lemma store {size : Nat} {cells : List α} (room : cells.length < size) (a : α) :
    Sound A n (store size cells a : Parse ν (List α)) := by
  rw [CandoParser.store, if_pos room]
  exact pure _

/-- The fields that soundness is about. -/
def core (p : CandoParser ν) :=
  (p.lexer, p.current, p.chunk, p.codeCap, p.locals, p.pipeExits, p.pipeExitCount, p.panicMode, p.hadError, p.errorMsg,
    p.exceeded, p.silent)

lemma within_of_core {p q : CandoParser ν} (h : core q = core p) (w : Within A n p) : Within A n q := by
  simp only [core, Prod.mk.injEq] at h
  obtain ⟨lexer, current, chunk, cap, locals, exits, count, panic, error, msg, exceeded, silent⟩ := h
  obtain ⟨good, left, len⟩ := w
  have sameLen : q.len = p.len := by rw [CandoParser.len, chunk, CandoParser.len]
  have sameLeft : q.left = p.left := by rw [CandoParser.left, lexer, current, CandoParser.left]
  refine ⟨?_, sameLeft ▸ left, sameLen ▸ len⟩
  constructor
  · exact cap ▸ good.cap
  · exact sameLen ▸ cap ▸ good.room
  · exact chunk ▸ good.pool
  · exact locals ▸ good.locals
  · exact exits ▸ good.exits
  · exact exits ▸ sameLen ▸ good.exit
  · exact count ▸ good.exitCount
  · exact panic ▸ error ▸ good.panic
  · exact error ▸ msg ▸ good.message
  · exact exceeded ▸ error ▸ silent ▸ good.reported
  · exact exceeded ▸ silent ▸ good.silent

/-- A change of the other fields. -/
lemma quiet {g : CandoParser ν → CandoParser ν} (h : ∀ p, core (g p) = core p) : Sound A n (modify g) :=
  fun p w => within_of_core (h p) w.good.within

/-- A change that leaves the code and the tokens as they are. -/
lemma modify {g : CandoParser ν → CandoParser ν} (h : ∀ p, Good p → Within p.left p.len (g p)) : Sound A n (modify g) :=
  fun p w => h p w.good

end Sound

/-! ### Errors -/

lemma errorMsg_ne (head shown msg : Str) : (head ++ shown ++ bytes "': " ++ msg).take 511 ≠ [] := by
  have middle : bytes "': " ≠ [] := by decide
  simp [middle]

lemma Good.exceed {p : CandoParser ν} (good : Good p) (error : p.hadError) : Good { p with exceeded := true } :=
  { good with reported := fun _ => .inl error, silent := fun _ => rfl }

lemma good_errorAt {p : CandoParser ν} (good : Good p) (tok : CandoToken) (msg : Str) :
    Good (p.errorAt tok msg) ∧ (p.errorAt tok msg).hadError := by
  rw [errorAt]
  by_cases panic : p.panicMode
  · rw [if_pos panic]
    exact ⟨good, good.panic panic⟩
  · rw [if_neg panic]
    refine ⟨{ good with panic := fun _ => rfl, message := fun _ => ?_, reported := fun _ => .inl rfl }, rfl⟩
    exact errorMsg_ne _ _ _

lemma errorAt_current (p : CandoParser ν) (tok : CandoToken) (msg : Str) :
    (p.errorAt tok msg).current = p.current ∧ (p.errorAt tok msg).previous = p.previous := by
  rw [errorAt]
  split <;> exact ⟨rfl, rfl⟩

lemma errorAt_chunk (p : CandoParser ν) (tok : CandoToken) (msg : Str) : (p.errorAt tok msg).chunk = p.chunk := by
  rw [errorAt]
  split <;> rfl

lemma within_errorAt {A n : Nat} {p : CandoParser ν} (w : Within A n p) (tok : CandoToken) (msg : Str) :
    Within A n (p.errorAt tok msg) := by
  refine ⟨(good_errorAt w.good tok msg).1, ?_, ?_⟩
  · rw [left, errorAt_lexer, (errorAt_current p tok msg).1]
    exact w.left
  · rw [len, errorAt_chunk]
    exact w.len

namespace Sound

variable {A n : Nat}

lemma error (msg : String) : Sound A n (error msg : Parse ν Unit) := fun _ w => within_errorAt w.good.within _ _

lemma errorCurrent (msg : String) : Sound A n (errorCurrent msg : Parse ν Unit) :=
  fun _ w => within_errorAt w.good.within _ _

/-- The limit is exceeded and reported. -/
lemma tooMany (msg : String) : Sound A n (tooMany msg : Parse ν Unit) := by
  intro p w
  have swap : ({ p with exceeded := true } : CandoParser ν).errorAt p.previous (bytes msg) =
      { p.errorAt p.previous (bytes msg) with exceeded := true } := by
    simp only [errorAt]
    split <;> rfl
  have within := within_errorAt w.good.within p.previous (bytes msg)
  have good := (good_errorAt w.good p.previous (bytes msg)).1.exceed (good_errorAt w.good p.previous (bytes msg)).2
  show Within _ _ (({ p with exceeded := true } : CandoParser ν).errorAt p.previous (bytes msg))
  rw [swap]
  exact ⟨good, within.left, within.len⟩

lemma exceed : Sound A n (exceed : Parse ν Unit) :=
  modify fun _ good => ⟨{ good with reported := fun _ => .inr rfl, silent := fun _ => rfl }, Nat.le_refl _,
    Nat.le_refl _⟩

lemma castU16 (k : Nat) : Sound A n (castU16 k : Parse ν Nat) := (when exceed).seq (pure _)

end Sound

/-! ### Tokens -/

/-- `p` with what comes next. -/
lemma good_read {p : CandoParser ν} (good : Good p) (current : CandoToken) (lexer : CandoLexer) :
    Good { p with current, lexer } :=
  { good with }

/-- What is left behind the next token is less than what the lexer had left. -/
lemma within_nextToken (p : CandoParser ν) (good : Good p) : Within p.lexer.left p.len (nextToken p) := by
  fun_induction nextToken p with
  | case1 p p' error ih =>
    have read := good_read good p.lexer.next.1 p.lexer.next.2
    have within := ih (good_errorAt read p'.current p'.lexer.errorMsg).1
    rw [errorAt_lexer, len, errorAt_chunk] at within
    exact within.mono (CandoLexer.left_next p.lexer).1 (Nat.le_refl _)
  | case2 p p' error =>
    refine ⟨good_read good _ _, ?_, Nat.le_refl _⟩
    have next := CandoLexer.left_next p.lexer
    rw [left]
    split
    · exact next.1
    · next inside => exact next.2 inside

lemma nextToken_previous (p : CandoParser ν) : (nextToken p).previous = p.previous := by
  fun_induction nextToken p with
  | case1 p p' error ih => rw [ih, (errorAt_current _ _ _).2]
  | case2 p p' error => rfl

lemma within_advance {p : CandoParser ν} (good : Good p) :
    Within p.lexer.left p.len (nextToken { p with previous := p.current }) :=
  within_nextToken { p with previous := p.current } { good with }

lemma matchToken_found {p : CandoParser ν} {type : CandoTokenType} (h : p.current.type = type) :
    matchToken type p = .ok true (nextToken { p with previous := p.current }) := by
  simp only [matchToken, check, bind_apply, get_apply, pure_apply, Outcome.bind_ok, h, beq_self_eq_true, if_true]
  rfl

lemma matchToken_other {p : CandoParser ν} {type : CandoTokenType} (h : p.current.type ≠ type) :
    matchToken type p = .ok false p := by
  simp only [matchToken, check, bind_apply, get_apply, pure_apply, Outcome.bind_ok, beq_eq_false_iff_ne.mpr h]
  rfl

lemma consume_found {p : CandoParser ν} {type : CandoTokenType} (h : p.current.type = type) (msg : String) :
    consume type msg p = advance p := by
  simp only [consume, check, bind_apply, get_apply, pure_apply, Outcome.bind_ok, h, beq_self_eq_true, if_true]

lemma consume_other {p : CandoParser ν} {type : CandoTokenType} (h : p.current.type ≠ type) (msg : String) :
    consume type msg p = .ok () (p.errorAt p.current (bytes msg)) := by
  simp only [consume, check, bind_apply, get_apply, pure_apply, Outcome.bind_ok, beq_eq_false_iff_ne.mpr h]
  rfl

lemma Eats.advance {A n : Nat} : Eats A n (advance : Parse ν Unit) := by
  intro p w inside
  have within := within_advance w.good
  refine within.mono ?_ (Nat.le_refl _)
  rw [left, if_neg inside]
  exact Nat.le_refl _

namespace Sound

variable {A n : Nat} {m : Parse ν α} {f : α → Parse ν β}

lemma advance : Sound A n (advance : Parse ν Unit) :=
  fun _ w => (within_advance w.good).mono (Nat.le_add_right _ _) (Nat.le_refl _)

lemma check (type : CandoTokenType) : Sound A n (check type : Parse ν Bool) := get fun _ _ => pure _

lemma matchToken (type : CandoTokenType) : Sound A n (matchToken type : Parse ν Bool) :=
  (check type).bind fun _ => ite (fun _ => advance.seq (pure _)) fun _ => pure _

lemma consume (type : CandoTokenType) (msg : String) : Sound A n (consume type msg : Parse ν Unit) :=
  (check type).bind fun _ => ite (fun _ => advance) fun _ => errorCurrent msg

lemma previousText : Sound A n (previousText : Parse ν Str) := get fun _ _ => pure _

end Sound

/-! ### Eating -/

namespace Eats

variable {A n : Nat} {m : Parse ν α} {f : α → Parse ν β}

lemma weaken {A' n' : Nat} (h : Eats A n m) (hA : A' ≤ A) (hn : n ≤ n') : Eats A' n' m :=
  fun p w => h p (w.mono hA hn)

/-- What eats first, eats. -/
lemma bind (hm : Eats A n m) (hf : ∀ a, Sound (A - 1) n (f a)) : Eats A n (m >>= f) := by
  intro p w inside
  apply (hm p w inside).bind
  intro a q within
  have le := hf a q (within.mono (Nat.sub_le_sub_right w.left 1) w.len)
  exact le.mono within.left within.len

lemma seq {m : Parse ν Unit} {m' : Parse ν β} (hm : Eats A n m) (hm' : Sound (A - 1) n m') : Eats A n (do m; m') :=
  hm.bind fun _ => hm'

lemma get {f : CandoParser ν → Parse ν β} (h : ∀ p, Good p → Eats A n (f p)) : Eats A n (Program.get >>= f) :=
  fun p w => h p w.good p w

/-- A token that is there is eaten; a token that is not is left to what follows. -/
lemma matchToken {type : CandoTokenType} {f : Bool → Parse ν β} (found : Sound (A - 1) n (f true))
    (other : Eats A n (f false)) : Eats A n (matchToken type >>= f) := by
  intro p w inside
  by_cases h : p.current.type = type
  · rw [bind_apply, matchToken_found h]
    exact Eats.advance.bind (fun _ => found) p w inside
  · rw [bind_apply, matchToken_other h]
    exact other p w inside

end Eats

lemma Eats.afterQuiet {A n : Nat} {g : CandoParser ν → CandoParser ν} {m : Parse ν β}
    (h : ∀ p, Sound.core (g p) = Sound.core p) (hm : Eats A n m) : Eats A n (do modify g; m) := by
  intro p w inside
  have same := h p
  simp only [Sound.core, Prod.mk.injEq] at same
  have ate := hm (g p) (Sound.within_of_core (h p) w) (same.2.1 ▸ inside)
  have left : (g p).left = p.left := by rw [CandoParser.left, same.1, same.2.1, CandoParser.left]
  have len : (g p).len = p.len := by rw [CandoParser.len, same.2.2.1, CandoParser.len]
  rw [left, len] at ate
  exact ate

/-- Behind a token that is there, there is less to read. -/
lemma Sound.matched {A n : Nat} {type : CandoTokenType} {f : Bool → Parse ν β} (token : type ≠ .tokEof)
    (found : 0 < A → Sound (A - 1) n (f true)) (other : Sound A n (f false)) :
    Sound A n (CandoParser.matchToken type >>= f) := by
  intro p w
  by_cases h : p.current.type = type
  · have inside : p.current.type ≠ .tokEof := h ▸ token
    have some : 0 < A := (left_pos inside).trans_le w.left
    have ate := Eats.advance.bind (fun _ => found some) p w inside
    rw [bind_apply, matchToken_found h]
    exact ate.mono (Nat.sub_le _ _) (Nat.le_refl _)
  · rw [bind_apply, matchToken_other h]
    exact other p w

/-! ### Loops -/

/-- Every turn of the loop is sound, and one that is not the last leaves less to read. -/
def Turns (A n : Nat) (body : α → Parse ν (α × Bool)) : Prop :=
  ∀ a p, Within A n p →
    (body a p).Ends (fun r q => Within p.left p.len q ∧ (r.2 → q.left < p.left)) Allowed

/-- A loop ends when it may take more turns than there is left to read. -/
lemma Sound.loop {A n : Nat} {body : α → Parse ν (α × Bool)} (h : Turns A n body) {turns : Nat} (enough : A < turns)
    (a : α) : Sound A n (loop body turns a) := by
  induction turns generalizing A a with
  | zero => exact absurd enough (Nat.not_lt_zero A)
  | succ turns ih =>
    intro p w
    apply (h a p w).bind
    rintro ⟨b, again⟩ q ⟨within, less⟩
    cases again with
    | false => exact within
    | true =>
      have fewer : Turns q.left n body := fun c r wr => h c r (wr.mono (within.left.trans w.left) (Nat.le_refl _))
      have lt : q.left < turns := by
        have := less rfl
        have := w.left
        omega
      have rest := ih fewer lt b q ⟨within.good, Nat.le_refl _, w.len.trans within.len⟩
      exact rest.mono within.left within.len

namespace Turns

variable {A n : Nat} {body : α → Parse ν (α × Bool)}

/-- A turn that stops at once, or eats. -/
lemma ofStop {stop : α → CandoParser ν → Prop} [∀ a p, Decidable (stop a p)]
    {m : α → CandoParser ν → Parse ν (α × Bool)}
    (inside : ∀ a p, ¬ stop a p → p.current.type ≠ .tokEof) (eats : ∀ a p, Good p → ¬ stop a p → Eats A n (m a p)) :
    Turns A n fun a => (do
      let p ← Program.get
      if stop a p then return (a, false) else m a p) := by
  intro a p w
  by_cases h : stop a p
  · simpa [h] using w.good.within
  · have ate := eats a p w.good h p w (inside a p h)
    have pos := left_pos (inside a p h)
    simp only [bind_apply, get_apply, Outcome.bind_ok, if_neg h]
    refine Outcome.Ends.mono ate (fun r q within => ⟨within.mono (Nat.sub_le _ _) (Nat.le_refl _), fun _ => ?_⟩) fun _
      c => c
    exact Nat.lt_of_le_of_lt within.left (Nat.sub_lt pos Nat.one_pos)

/-- A turn that eats, or stops. -/
lemma ofGo {go : α → CandoParser ν → Prop} [∀ a p, Decidable (go a p)] {m : α → CandoParser ν → Parse ν (α × Bool)}
    (inside : ∀ a p, go a p → p.current.type ≠ .tokEof) (eats : ∀ a p, Good p → go a p → Eats A n (m a p)) :
    Turns A n fun a => (do
      let p ← Program.get
      if go a p then m a p else return (a, false)) := by
  have turns : Turns A n fun a => (do
      let p ← Program.get
      if ¬ go a p then return (a, false) else m a p) :=
    ofStop (fun a p h => inside a p (not_not.mp h)) fun a p good h => eats a p good (not_not.mp h)
  simpa only [ite_not] using turns

/-- A turn that stops where it finds no comma. -/
lemma comma (h : ∀ a, Sound A n (body a)) :
    Turns A n fun a => do if ← matchToken .tokComma then body a else return (a, false) := by
  intro a p w
  by_cases found : p.current.type = .tokComma
  · change Outcome.Ends _ _ ((matchToken .tokComma p).bind _)
    rw [matchToken_found found]
    have inside : p.current.type ≠ .tokEof := by
      rw [found]
      decide
    have pos := left_pos inside
    have ate := (Eats.advance p w inside : EndsWithin _ _ (advance p))
    have rest := h a _ ⟨ate.good, ate.left.trans ((Nat.sub_le _ _).trans w.left), w.len.trans ate.len⟩
    refine Outcome.Ends.mono rest (fun r q within => ⟨within.mono ?_ ate.len, fun _ => ?_⟩) fun _ c => c
    · exact ate.left.trans (Nat.sub_le _ _)
    · exact Nat.lt_of_le_of_lt (within.left.trans ate.left) (Nat.sub_lt pos Nat.one_pos)
  · change Outcome.Ends _ _ ((matchToken .tokComma p).bind _)
    rw [matchToken_other found]
    exact ⟨w.good.within, nofun⟩

/-- A turn that comes to its end at a comma. -/
lemma doComma (h : ∀ a, Sound A n (body a)) :
    Turns A n fun a => do
      let (a, again) ← body a
      if again then return (a, ← matchToken .tokComma) else return (a, false) := by
  intro a p w
  refine Outcome.Ends.bind (h a p w) ?_
  rintro ⟨b, again⟩ q within
  cases again with
  | false => exact ⟨within, nofun⟩
  | true =>
    by_cases found : q.current.type = .tokComma
    · have inside : q.current.type ≠ .tokEof := by
        rw [found]
        decide
      have pos := left_pos inside
      have ate := (Eats.advance q within.good.within inside : EndsWithin _ _ (advance q))
      simp only [if_true, bind_apply, matchToken_found found, Outcome.bind_ok, pure_apply]
      refine ⟨ate.mono ((Nat.sub_le _ _).trans within.left) within.len, fun _ => ?_⟩
      exact Nat.lt_of_lt_of_le (Nat.lt_of_le_of_lt ate.left (Nat.sub_lt pos Nat.one_pos)) within.left
    · simp only [if_true, bind_apply, matchToken_other found, Outcome.bind_ok, pure_apply]
      exact ⟨within, nofun⟩

end Turns

namespace Sound

variable {A n : Nat} {body : α → Parse ν (α × Bool)} {turns : Nat}

lemma commaLoop (enough : A < turns) (h : ∀ a, Sound A n (body a)) (a : α) : Sound A n (commaLoop body turns a) :=
  loop (.comma h) enough a

lemma doCommaLoop (enough : A < turns) (h : ∀ a, Sound A n (body a)) (a : α) : Sound A n (doCommaLoop body turns a) :=
  loop (.doComma h) enough a

end Sound

/-! ### Code -/

/-- A capacity below the last one doubles, and then has room for another instruction. -/
lemma chunkGrow_mem : ∀ cap ∈ capacities, cap < 2147483648 → chunkGrow cap ∈ capacities ∧ cap + 5 ≤ chunkGrow cap := by
  decide

lemma capacity_le : ∀ cap ∈ capacities, cap ≤ 2147483648 := by decide

/-- The largest capacity doubles to zero, and zero stays zero. -/
lemma growTo_zero {need : Nat} (h : 0 < need) (doublings : Nat) : growTo need doublings 0 = none := by
  induction doublings with
  | zero => rw [growTo, if_neg (Nat.not_le.mpr h)]
  | succ n ih => rw [growTo, if_neg (Nat.not_le.mpr h), Nat.zero_mul, Nat.zero_mod, ih]

lemma growTo_fits {need cap : Nat} (h : need ≤ cap) (doublings : Nat) : growTo need doublings cap = some cap := by
  cases doublings <;> rw [growTo, if_pos h]

/-- The state differs in its capacity at most, and has room for `extra` bytes. -/
lemma ensureCode_ends {p : CandoParser ν} (cap : p.codeCap ∈ capacities) (room : p.len ≤ p.codeCap) {extra : Nat}
    (some : 0 < extra) (few : extra ≤ 5) :
    (ensureCode extra p).Ends (fun _ q => ∃ cap, q = { p with codeCap := cap } ∧ cap ∈ capacities ∧ p.len + extra ≤ cap)
      CodeFull := by
  have most := capacity_le p.codeCap cap
  have noWrap : (p.chunk.code.length + extra) % 4294967296 = p.len + extra := by
    have lt : p.len + extra < 4294967296 := by omega
    exact Nat.mod_eq_of_lt lt
  rw [ensureCode]
  simp only [noWrap]
  split
  · next fits => exact ⟨p.codeCap, rfl, cap, fits⟩
  · next full =>
    by_cases last : p.codeCap < 2147483648
    · obtain ⟨mem, more⟩ := chunkGrow_mem p.codeCap cap last
      rw [growTo_fits (by omega)]
      exact ⟨_, rfl, mem, by omega⟩
    · have cap : p.codeCap = 2147483648 := by omega
      rw [cap, show chunkGrow 2147483648 = 0 from rfl, growTo_zero (by omega)]
      show 2147483648 < p.len + extra
      omega

lemma size_le (op : Opcode) : 0 < op.size ∧ op.size ≤ 5 := by
  cases e : op.fmt <;> simp [Opcode.size, e]

/-- `p` with another code array. -/
def withCode (p : CandoParser ν) (codeCap : Nat) (code : List UInt8) : CandoParser ν :=
  { p with codeCap, chunk := { p.chunk with code } }

/-- An instruction is appended to the code, in an array that has room for it. -/
lemma emit_ends {p : CandoParser ν} (cap : p.codeCap ∈ capacities) (room : p.len ≤ p.codeCap) {fmt : OpFmt} {i : Instr}
    (h : i.op.fmt = fmt) :
    (emit fmt i p).Ends (fun _ q => ∃ cap ∈ capacities, q = p.withCode cap (p.chunk.code ++ i.encode) ∧
      p.len + i.op.size ≤ cap) CodeFull := by
  have size := size_le i.op
  rw [emit, if_pos h]
  apply (ensureCode_ends cap room size.1 size.2).bind
  rintro _ _ ⟨cap, rfl, mem, room⟩
  exact ⟨cap, mem, rfl, room⟩

lemma length_emitted (p : CandoParser ν) (i : Instr) : (p.chunk.code ++ i.encode).length = p.len + i.op.size := by
  rw [List.length_append, Instr.encode_length, len]

/-- More code, and nothing else. -/
lemma good_code {p : CandoParser ν} (good : Good p) {cap : Nat} (mem : cap ∈ capacities) {code : List UInt8}
    (more : p.len ≤ code.length) (room : code.length ≤ cap) : Within p.left code.length (p.withCode cap code) := by
  refine ⟨{ good with cap := mem, room := room, exit := ?_ }, Nat.le_refl _, Nat.le_refl _⟩
  intro pos hpos
  exact (good.exit pos hpos).imp_right fun h => h.trans more

/-- An instruction makes the code longer by its size. -/
lemma emit_within {p : CandoParser ν} (good : Good p) {fmt : OpFmt} {i : Instr} (h : i.op.fmt = fmt) :
    EndsWithin p.left (p.len + i.op.size) (emit fmt i p) := by
  refine (emit_ends good.cap good.room h).mono ?_ fun _ c => .inr c
  rintro _ q ⟨cap, mem, rfl, room⟩
  rw [← length_emitted] at room ⊢
  exact good_code good mem (length_emitted p i ▸ Nat.le_add_right _ _) room

lemma addConst_spec [F64 ν] {c : Chunk ν} {v : Value ν} {r : Nat × Chunk ν} (h : c.addConst v = some r)
    (few : c.constants.length ≤ 65535) : r.2.code = c.code ∧ r.2.constants.length ≤ 65535 := by
  rw [Chunk.addConst] at h
  split at h
  · cases h
    exact ⟨rfl, few⟩
  · split at h
    · next room =>
      cases h
      refine ⟨rfl, ?_⟩
      rw [List.length_append]
      exact room
    · cases h

namespace Sound

variable {A n : Nat} {f : Nat → Parse ν β}

lemma emit {fmt : OpFmt} {i : Instr} (h : i.op.fmt = fmt) : Sound A n (emit fmt i : Parse ν Unit) :=
  fun _ w => (emit_within w.good h).mono (Nat.le_refl _) (Nat.le_add_right _ _)

lemma emitOp {op : Opcode} (h : op.fmt = .none) : Sound A n (emitOp op : Parse ν Unit) := emit h

lemma emitOpA {op : Opcode} (h : op.fmt = .a) (a : Nat) : Sound A n (emitOpA op a : Parse ν Unit) := emit h

lemma emitOpAb {op : Opcode} (h : op.fmt = .ab) (a b : Nat) : Sound A n (emitOpAb op a b : Parse ν Unit) := emit h

/-- What follows knows that there is code up to the position. -/
lemma codeLen (h : ∀ pos, n ≤ pos → Sound A pos (f pos)) : Sound A n (codeLen >>= f) :=
  fun p w => h p.len w.len p ⟨w.good, w.left, Nat.le_refl _⟩

/-- What follows knows that the operand of the jump is there. -/
lemma emitJump {op : Opcode} (h : op.fmt = .a) (hf : ∀ pos, n ≤ pos → Sound A (pos + 2) (f pos)) :
    Sound A n (emitJump op >>= f) := by
  intro p w
  have size : op.size = 3 := by rw [Opcode.size, h]
  have jump : EndsWithin p.left (p.len + 3) (CandoParser.emitOpA op 0x7FFF p) := size ▸ emit_within w.good h
  refine Outcome.Ends.bind (P := fun pos q => pos = p.len + 1 ∧ Within p.left (p.len + 3) q) ?_ ?_
  · apply jump.bind
    intro _ q within
    exact ⟨rfl, within⟩
  · rintro _ q ⟨rfl, within⟩
    have rest := hf (p.len + 1) (w.len.trans (Nat.le_succ _)) q (within.mono w.left (Nat.le_refl _))
    exact rest.mono within.left ((Nat.le_add_right _ _).trans within.len)

/-- What follows knows that the operand of the mark is there. -/
lemma emitLoopMark {start loopType : Nat} (hf : ∀ pos, n ≤ pos → Sound A (pos + 2) (f pos)) :
    Sound A n (emitLoopMark start loopType >>= f) := by
  intro p w
  have mark (b : Nat) : EndsWithin p.left (p.len + 5) (CandoParser.emitOpAb .loopMark 0 b p) := emit_within w.good rfl
  refine Outcome.Ends.bind (P := fun pos q => pos = p.len + 1 ∧ Within p.left (p.len + 5) q) ?_ ?_
  · apply (mark _).bind
    intro _ q within
    exact ⟨rfl, within⟩
  · rintro _ q ⟨rfl, within⟩
    have some := w.len.trans (Nat.le_succ p.len)
    have rest := hf (p.len + 1) some q (within.mono w.left (by omega))
    exact rest.mono within.left ((Nat.le_add_right _ _).trans within.len)

/-- Writing into the code that is there. -/
lemma writeU16 {pos : Nat} {a : CandoParser ν → Nat} :
    Sound A n (Program.modify fun p => { p with chunk := p.chunk.writeU16 pos (a p) } : Parse ν Unit) := by
  apply modify
  intro p good
  have same : (p.chunk.writeU16 pos (a p)).code.length = p.len := by
    simp only [Chunk.writeU16, List.length_set, len]
  have more : p.len ≤ (p.chunk.writeU16 pos (a p)).code.length := by omega
  have within := good_code good good.cap more (same ▸ good.room)
  rw [same] at within
  exact within

lemma patchJump {pos : Nat} (h : pos + 2 ≤ n) : Sound A n (patchJump pos : Parse ν Unit) :=
  codeLen fun _ le => ite (fun _ => writeU16) fun outside => absurd (h.trans le) outside

lemma patchLoopMarkBreak {pos : Nat} (h : pos + 2 ≤ n) : Sound A n (patchLoopMarkBreak pos : Parse ν Unit) :=
  codeLen fun _ le => ite (fun _ => writeU16) fun outside => absurd (h.trans le) outside

lemma emitLoop {start : Nat} (h : start ≤ n) : Sound A n (emitLoop start : Parse ν Unit) :=
  codeLen fun _ le => ite (fun _ => emitOpA rfl _) fun ahead => absurd (h.trans le) (by omega)

lemma addConst [F64 ν] (v : Value ν) : Sound A n (addConst v : Parse ν Nat) := by
  intro p w
  rw [CandoParser.addConst]
  simp only [bind_apply, get_apply, Outcome.bind_ok]
  cases e : p.chunk.addConst v with
  | none => exact .inl rfl
  | some r =>
    obtain ⟨code, few⟩ := addConst_spec e w.good.pool
    have same : len { p with chunk := r.2 } = p.len := by rw [len, code, len]
    refine ⟨{ w.good with room := ?_, pool := few, exit := ?_ }, Nat.le_refl _, Nat.le_of_eq same.symm⟩
    · exact same ▸ w.good.room
    · exact same ▸ w.good.exit

lemma strConst [F64 ν] (s : Str) : Sound A n (strConst s : Parse ν Nat) := addConst _

lemma prevNameConst [F64 ν] : Sound A n (prevNameConst : Parse ν Nat) := previousText.bind fun _ => strConst _

/-! ### Scopes -/

lemma scopeBegin : Sound A n (scopeBegin : Parse ν Unit) := quiet fun _ => rfl

lemma scopeEnd : Sound A n (scopeEnd : Parse ν Unit) :=
  modify fun _ good => ⟨{ good with locals := (List.length_dropWhile_le _ _).trans good.locals }, Nat.le_refl _,
    Nat.le_refl _⟩

lemma resolveLocal (name : Str) : Sound A n (resolveLocal name : Parse ν (Option Nat)) := get fun _ _ => pure _

lemma declareLocal (name : Str) (isConst : Bool) : Sound A n (declareLocal name isConst : Parse ν Nat) := by
  intro p w
  rw [CandoParser.declareLocal]
  simp only [bind_apply, get_apply, Outcome.bind_ok]
  split
  · exact (tooMany _).seq (pure _) p w
  · next room =>
    have few : p.locals.length + 1 ≤ localMax := Nat.lt_of_not_le room
    exact ⟨{ w.good with locals := few }, Nat.le_refl _, Nat.le_refl _⟩

end Sound

end CandoParser

end Cando
