import Cando.Parser.Termination

/-!
# The parser's limits

A limit that is exceeded is an error, apart from the constant pool, whose limit is an assertion, and the limits that are
kept silently: the parameters of a method, the skips of a mask, the positions of a mask in front of a call, and counts
that are cut to 16 or 15 bits.
-/

namespace Cando

open Program SourceText

namespace CandoParser

variable {ν : Type}

/-- The call has returned, and has reported a limit that was exceeded. -/
def Reports : Outcome (CandoParser ν) Empty Stop Unit → Prop
  | .ok _ p => p.exceeded → p.hadError ∧ p.errorMsg ≠ []
  | _ => False

/-- The parse does not come to a limit without a guard: the constant pool has room for every constant, the code array
has room for every instruction, and a limit that is kept silently is exceeded in a source with an error only. -/
def Guarded : Outcome (CandoParser ν) Empty Stop Unit → Prop
  | .ok _ p => p.silent → p.hadError
  | .crash .poolFull => False
  | .crash (.codeFull need) => need ≤ 2147483648
  | _ => True

/-- A parse reaches no assertion, writes past the end of no array and reports the limits that are exceeded, if and
only if it does not come to a limit without a guard. -/
theorem parse_reports [F64 ν] (source : Str) (evalMode : Bool) (more : Nat) :
    Reports (parse (callsFor source + more) source evalMode : Outcome (CandoParser ν) Empty Stop Unit) ↔
      Guarded (parse (callsFor source + more) source evalMode : Outcome (CandoParser ν) Empty Stop Unit) := by
  have ends := parse_ends (ν := ν) source evalMode (Nat.le_add_right (callsFor source) more)
  cases e : (parse (callsFor source + more) source evalMode : Outcome (CandoParser ν) Empty Stop Unit) with
  | ok a p =>
    rw [e] at ends
    have good : Good p := ends
    constructor
    · exact fun h silent => (h (good.silent silent)).1
    · intro h exceeded
      have error : p.hadError := (good.reported exceeded).elim id h
      exact ⟨error, good.message error⟩
  | crash c =>
    rw [e] at ends
    obtain rfl | full := ends
    · exact Iff.rfl
    · cases c with
      | codeFull need => exact ⟨False.elim, fun h => absurd h (Nat.not_le.mpr full)⟩
      | assertion | poolFull | bounds | fuel => exact full.elim
  | error | exit | enter =>
    rw [e] at ends
    exact ends.elim

/-! ### A pool that is too small -/

/-- A string of `k` letters. -/
def letters (k : Nat) : Str := List.replicate k 97

/-- The strings of `k`, `k + 1`, ... letters as statements, `count` of them. -/
def stringsFrom (k : Nat) : (count : Nat) → Str
  | 0 => []
  | count + 1 => 39 :: (letters k ++ 39 :: 59 :: stringsFrom (k + 1) count)

/-- What the lexer has before it. -/
def rest (lex : CandoLexer) : Str := lex.source.drop lex.pos

lemma cur_eq {lex : CandoLexer} {c : UInt8} {s : Str} (h : rest lex = c :: s) : lex.cur = some c := by
  rw [CandoLexer.cur, ← List.head?_drop, ← rest, h]
  rfl

lemma rest_step {lex : CandoLexer} {c : UInt8} {s : Str} (h : rest lex = c :: s) :
    rest { lex with pos := lex.pos + 1 } = s := by
  show lex.source.drop (lex.pos + 1) = s
  rw [← List.tail_drop, ← rest, h]
  rfl

lemma advance_eq_step {lex : CandoLexer} {c : UInt8} (h : lex.cur = some c) (line : c ≠ lineFeed) :
    lex.advance = { lex with pos := lex.pos + 1 } := by
  rw [CandoLexer.advance, h]
  exact if_neg line

/-- The lexer behind the quote of a string of `k` letters. -/
lemma stringLoop_letters {k : Nat} {lex : CandoLexer} {s : Str} (h : rest lex = letters k ++ 39 :: s)
    (start : CandoLexer) : lex.stringLoop 39 .tokStringSq "unterminated single-quoted string" start =
      CandoLexer.token { lex with pos := lex.pos + k + 1 } .tokStringSq start := by
  induction k generalizing lex with
  | zero =>
    have cur : lex.cur = some 39 := cur_eq h
    rw [CandoLexer.stringLoop]
    split
    · next none =>
      rw [cur] at none
      cases none
    · next c at_c =>
      rw [cur] at at_c
      cases at_c
      rw [if_neg (by decide), if_pos rfl, advance_eq_step cur (by decide)]
  | succ k ih =>
    have cur : lex.cur = some 97 := cur_eq h
    have behind : rest { lex with pos := lex.pos + 1 } = letters k ++ 39 :: s := rest_step h
    rw [CandoLexer.stringLoop]
    split
    · next none =>
      rw [cur] at none
      cases none
    · next c at_c =>
      rw [cur] at at_c
      cases at_c
      rw [if_neg (by decide), if_neg (by decide), advance_eq_step cur (by decide), ih behind]
      have pos : lex.pos + 1 + k + 1 = lex.pos + (k + 1) + 1 := by omega
      simp only [pos]

/-- The token that the lexer reads where `count` strings come, and where it is then. -/
structure ReadsString (k count : Nat) (tok : CandoToken) (lex : CandoLexer) : Prop where
  string : 0 < count → tok.type = .tokStringSq ∧ lex.source.drop tok.start = stringsFrom k count ∧ tok.length = k + 2 ∧
    rest lex = 59 :: stringsFrom (k + 1) (count - 1)
  last : count = 0 → tok.type = .tokEof

lemma readsString_next {k count : Nat} (few : k ≤ 65536) {lex : CandoLexer} (h : rest lex = stringsFrom k count) :
    ReadsString k count lex.next.1 lex.next.2 := by
  cases count with
  | zero =>
    have none : lex.cur = none := by
      rw [CandoLexer.cur, ← List.head?_drop, ← rest, h]
      rfl
    rw [next_end none]
    exact ⟨fun some => absurd some (Nat.lt_irrefl 0), fun _ => rfl⟩
  | succ count =>
    have behind : rest { lex with pos := lex.pos + 1 } = letters k ++ 39 :: 59 :: stringsFrom (k + 1) count :=
      rest_step h
    have scan : lex.next = CandoLexer.token { lex with pos := lex.pos + 1 + k + 1 } .tokStringSq lex := by
      rw [next_token (cur_eq h) (by decide) (by decide) (by decide)]
      exact stringLoop_letters behind lex
    rw [scan]
    refine ⟨fun _ => ⟨rfl, h, ?_, ?_⟩, fun none => absurd none (Nat.succ_ne_zero count)⟩
    · show (lex.pos + 1 + k + 1 - lex.pos) % 4294967296 = k + 2
      omega
    · show lex.source.drop (lex.pos + 1 + k + 1) = _
      have drop : (lex.source.drop (lex.pos + 1)).drop (k + 1) = 59 :: stringsFrom (k + 1) count := by
        have all : lex.source.drop (lex.pos + 1) = (letters k ++ [39]) ++ 59 :: stringsFrom (k + 1) count := by
          rw [List.append_assoc]
          exact behind
        rw [all]
        exact List.drop_left' (by simp [letters])
      rw [List.drop_drop] at drop
      exact drop

/-- The parser stands before the string of `k` letters. -/
structure AtString (k count : Nat) (p : CandoParser Int) : Prop where
  good : Good p
  quiet : p.panicMode = false
  consts : p.chunk.constants = (List.range k).map fun i => .string (letters i)
  reads : ReadsString k count p.current p.lexer

/-- The semicolon behind the string, and what comes then. -/
lemma AtString.tokens {k count : Nat} {p : CandoParser Int} (h : AtString k (count + 1) p) (few : k < 65536) :
    p.lexer.next.1.type = .tokSemi ∧ p.lexer.next.2.source = p.lexer.source ∧
      ReadsString (k + 1) count p.lexer.next.2.next.1 p.lexer.next.2.next.2 := by
  obtain ⟨_, _, _, before⟩ := h.reads.string (Nat.succ_pos count)
  rw [next_semi (cur_eq before)]
  exact ⟨rfl, rfl, readsString_next few (rest_step before)⟩

lemma AtString.literal {k count : Nat} {p : CandoParser Int} (h : AtString k (count + 1) p) (few : k < 65536) :
    AtLiteral (.string (letters k)) p := by
  obtain ⟨type, start, length, _⟩ := h.reads.string (Nat.succ_pos count)
  obtain ⟨semi, source, next⟩ := h.tokens few
  refine ⟨h.good, h.quiet, fun self => ?_, fun self q behind lexer => ⟨parseStringLiteral, ?_, ?_⟩, semi, ?_⟩
  · rw [type]
    exact ⟨nofun, rfl⟩
  · rw [type]
    rfl
  · have text : (q.lexer.source.drop (q.previous.start + 1)).take (q.previous.length - 2) = letters k := by
      rw [lexer, source, behind, length, ← List.tail_drop, start]
      show (letters k ++ _).take (k + 2 - 2) = _
      exact List.take_left' (by simp [letters])
    simp only [parseStringLiteral, quotedText, bind_apply, get_apply, Outcome.bind_ok, pure_apply, text]
    rfl
  · cases count with
    | zero =>
      rw [next.last rfl]
      decide
    | succ count =>
      rw [(next.string (Nat.succ_pos count)).1]
      decide

/-- The string is a new constant, as long as there is room for it. -/
lemma addConst_letters {c : Chunk Int} {k : Nat} (h : c.constants = (List.range k).map fun i => .string (letters i)) :
    c.addConst (.string (letters k)) = if k < 65535 then
      some (k, { c with constants := (List.range (k + 1)).map fun i => .string (letters i) }) else none := by
  have fresh : ((List.range k).map fun i => (.string (letters i) : Value Int)).findIdx?
      (Chunk.sameConst · (.string (letters k))) = none := by
    rw [List.findIdx?_eq_none_iff]
    intro v mem
    obtain ⟨i, inside, rfl⟩ := List.mem_map.mp mem
    have lt := List.mem_range.mp inside
    have ne : letters i ≠ letters k := by
      intro same
      have lengths := congrArg List.length same
      simp only [letters, List.length_replicate] at lengths
      omega
    exact beq_eq_false_iff_ne.mpr ne
  rw [Chunk.addConst, h, fresh]
  simp only [List.length_map, List.length_range, List.range_succ, List.map_append, List.map_cons, List.map_nil]

/-- A string has a constant of its own. -/
lemma AtString.step {k count : Nat} {p : CandoParser Int} (h : AtString k (count + 1) p) (room : k < 65535)
    (fuel : Nat) :
    (parseStatement (knot (fuel + 3)) p).Ends (fun _ => AtString (k + 1) count) Allowed := by
  have few : k < 65536 := Nat.lt_succ_of_lt room
  have const := addConst_letters h.consts
  rw [if_pos room] at const
  refine (parseStatement_literal (h.literal few) fuel).mono ?_ ?_
  · rintro _ _ ⟨r, cap, code, const', mem, rfl, length, fits⟩
    obtain rfl := Option.some.inj (const.symm.trans const')
    have good := good_behindLiteral h.good const mem (length ▸ Nat.le_add_right _ _) fits
    exact ⟨good, h.quiet, rfl, (h.tokens few).2.2⟩
  · exact fun c full => full.elim .inr fun full => .inl full.1

/-- The string of 65535 letters finds the pool full. -/
lemma AtString.full {count : Nat} {p : CandoParser Int} (h : AtString 65535 (count + 1) p) (fuel : Nat) :
    (parseStatement (knot (fuel + 3)) p).Ends (fun _ _ => False) Allowed := by
  have const := addConst_letters h.consts
  rw [if_neg (Nat.lt_irrefl _)] at const
  refine (parseStatement_literal (h.literal (by decide)) fuel).mono ?_ ?_
  · rintro _ _ ⟨r, cap, code, const', _⟩
    rw [const] at const'
    cases const'
  · exact fun c full => full.elim .inr fun full => .inl full.1

/-- The statements are parsed one after the other, up to the one that finds the pool full. -/
lemma strings_loop {k count : Nat} (fuel : Nat) {turns : Nat} (enough : 65535 - k < turns) (few : k ≤ 65535)
    (many : 65535 < k + count) {p : CandoParser Int} (h : AtString k count p) :
    (loop (fun _ => do
      let p ← get
      if p.current.type = .tokEof then return ((), false)
      else
        parseStatement (knot (fuel + 3))
        return ((), true)) turns () p).Ends (fun _ _ => False) Allowed := by
  induction turns generalizing k count p with
  | zero => exact absurd enough (Nat.not_lt_zero _)
  | succ turns ih =>
    obtain ⟨count, rfl⟩ : ∃ c, count = c + 1 := ⟨count - 1, by omega⟩
    have inside : p.current.type ≠ .tokEof := by
      rw [(h.reads.string (Nat.succ_pos count)).1]
      decide
    simp only [loop, bind_apply, get_apply, Outcome.bind_ok, if_neg inside, Outcome.bind_assoc, pure_apply, if_true]
    obtain room | rfl := Nat.lt_or_eq_of_le few
    · apply (h.step room fuel).bind
      exact fun _ _ next => ih (by omega) room (by omega) next
    · apply (h.full fuel).bind
      exact fun _ _ none => none.elim

lemma atString_init (count : Nat) : AtString 0 count (init (stringsFrom 0 count) {} false) := by
  have reads : ReadsString 0 count ({ source := stringsFrom 0 count } : CandoLexer).next.1
      ({ source := stringsFrom 0 count } : CandoLexer).next.2 := readsString_next (Nat.zero_le _) rfl
  have first : ({ source := stringsFrom 0 count } : CandoLexer).next.1.type ≠ .tokError := by
    cases count with
    | zero =>
      rw [reads.last rfl]
      decide
    | succ count =>
      rw [(reads.string (Nat.succ_pos count)).1]
      decide
  have good : Good (init (stringsFrom 0 count) {} false : CandoParser Int) := (within_init _ _).good
  rw [init, nextToken_eq first] at good ⊢
  exact ⟨good, rfl, rfl, reads⟩

lemma stringsFrom_length (k count : Nat) : count ≤ (stringsFrom k count).length := by
  induction count generalizing k with
  | zero => exact Nat.zero_le _
  | succ count ih =>
    have tail := ih (k + 1)
    simp only [stringsFrom, List.length_cons, List.length_append]
    omega

lemma strings_unreported {count : Nat} (many : 65535 < count) : ¬ ∃ more,
    Reports (parse (callsFor (stringsFrom 0 count) + more) (stringsFrom 0 count) false :
      Outcome (CandoParser Int) Empty Stop Unit) := by
  rintro ⟨more, reports⟩
  have long := stringsFrom_length 0 count
  obtain ⟨fuel, calls⟩ : ∃ fuel, callsFor (stringsFrom 0 count) + more = fuel + 4 :=
    ⟨callsFor (stringsFrom 0 count) + more - 4, by rw [callsFor]; omega⟩
  have turns : 65535 - 0 < (knot (fuel + 4) : Knot Int).turns := by
    show 65535 - 0 < fuel + 3
    rw [callsFor] at calls
    omega
  have statements := strings_loop fuel turns (Nat.zero_le _) (by omega) (atString_init count)
  have ends : (parse (fuel + 4) (stringsFrom 0 count) false : Outcome (CandoParser Int) Empty Stop Unit).Ends
      (fun _ _ => False) Allowed := by
    apply Outcome.Ends.bind statements
    exact fun _ _ none => none.elim
  rw [calls] at reports
  cases e : (parse (fuel + 4) (stringsFrom 0 count) false : Outcome (CandoParser Int) Empty Stop Unit) with
  | ok a p =>
    rw [e] at ends
    exact ends.elim
  | crash | error | exit | enter =>
    rw [e] at reports
    exact reports.elim

/-- With 65536 different constants the parser reaches an assertion. -/
theorem parse_unreported : ¬ ∀ (source : Str) (evalMode : Bool), ∃ more,
    Reports (parse (callsFor source + more) source evalMode : Outcome (CandoParser Int) Empty Stop Unit) :=
  fun all => strings_unreported (by decide) (all (stringsFrom 0 65536) false)

end CandoParser

end Cando
