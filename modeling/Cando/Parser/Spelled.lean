import Cando.Parser.Numeral
import Cando.Parser.View
import Mathlib.Tactic.IntervalCases

/-!
# Texts that spell programs

A text spells a row of tokens when each stands there as the language writes it, with white space before the next one.
The lexer reads these tokens from it, and no others.
-/

namespace Cando.Lang

open SourceText CandoLexer

variable {lex : CandoLexer} {before rest text : Str} {c : UInt8} {type : CandoTokenType}

/-! ### How tokens are written -/

/-- A byte that may stand in a word. -/
def isWordByte (c : UInt8) : Bool := isAlpha c || isDecimal c || c == ch '_'

/-- A byte that a word may begin with. -/
def isWordHead (c : UInt8) : Bool := isAlpha c || c == ch '_'

/-- The text is a word. -/
def IsWord (text : Str) : Prop := text.head?.any isWordHead ∧ text.all isWordByte

/-- The text is an operator or a bracket. -/
inductive IsSymbol : CandoTokenType → Str → Prop where
  | single {c : UInt8} {type : CandoTokenType} : singleTokens.lookup c = some type → IsSymbol type [c]
  | alone {c : UInt8} {type : CandoTokenType} {follow : List (UInt8 × CandoTokenType)} :
    singleTokens.lookup c = none → operatorTokens.lookup c = some (follow, type) → IsSymbol type [c]
  | pair {c d : UInt8} {type one : CandoTokenType} {follow : List (UInt8 × CandoTokenType)} :
    singleTokens.lookup c = none → operatorTokens.lookup c = some (follow, one) → follow.lookup d = some type →
    IsSymbol type [c, d]

/-- The content of a string that the lexer has nothing to do with. -/
def IsPlain (q : Quote) (content : Str) : Prop :=
  ∀ c ∈ content, c ≠ 92 ∧ c ≠ q.char ∧ (q = .bt → c ≠ ch '$')

/-- The token is written in one of these ways. -/
inductive Lexeme.Written : Lexeme → Prop where
  | symbol {type : CandoTokenType} {text : Str} : IsSymbol type text → Written ⟨type, text⟩
  | word {text : Str} : IsWord text → Written ⟨candoKeywordType text, text⟩
  | number {text : Str} : Expr.IsNumeral text → Written ⟨.tokNumber, text⟩
  | string {q : Quote} {content : Str} : IsPlain q content → Written ⟨q.type, q.char :: (content ++ [q.char])⟩

/-- White space comes next, or the end. -/
def Apart (rest : Str) : Prop := ∀ c ∈ rest.head?, isWhite c = true

/-- The text spells these tokens. -/
inductive Spells : List Lexeme → Str → Prop where
  | nil {gap : Str} : (∀ c ∈ gap, isWhite c = true) → Spells [] gap
  | cons {gap rest : Str} {t : Lexeme} {ts : List Lexeme} : (∀ c ∈ gap, isWhite c = true) → t.Written → Apart rest →
    Spells ts rest → Spells (t :: ts) (gap ++ (t.text ++ rest))

/-! ### Reading one token -/

lemma white_cases (h : isWhite c = true) : c ∈ ([9, 10, 11, 12, 13, 32] : List UInt8) := by
  rw [isWhite, Bool.or_eq_true, beq_iff_eq, Bool.and_eq_true, decide_eq_true_eq, decide_eq_true_eq,
    UInt8.le_iff_toNat_le, UInt8.le_iff_toNat_le] at h
  obtain rfl | ⟨lo, hi⟩ := h
  · decide
  · have e : c = UInt8.ofNat c.toNat := UInt8.ofNat_toNat.symm
    change 9 ≤ c.toNat at lo
    change c.toNat ≤ 13 at hi
    rw [e]
    interval_cases c.toNat <;> decide

/-- White space is none of the bytes in a list where none is. -/
lemma not_white {p : UInt8 → Bool} (h : isWhite c = true)
    (none : (([9, 10, 11, 12, 13, 32] : List UInt8).all fun d => !p d) = true) : p c = false := by
  have missing := List.all_eq_true.mp none c (white_cases h)
  rwa [Bool.not_eq_true'] at missing

/-- No key of a table has the property of this byte. -/
lemma lookup_none {β : Type} {l : List (UInt8 × β)} (p : UInt8 → Bool) (others : ∀ k ∈ l, p k.1 = false)
    (h : p c = true) : l.lookup c = none := by
  rw [List.lookup_eq_none_iff]
  intro k mem
  rw [bne_iff_ne]
  rintro rfl
  rw [others k mem] at h
  cases h

/-- White space in front of a token is skipped. -/
lemma skip_gap {gap : Str} (a : lex.At before (gap ++ rest)) (white : ∀ c ∈ gap, isWhite c = true)
    (black : ∀ c ∈ rest.head?, isWhite c = false) : (lex.skipWhile isWhite).At (before ++ gap) rest := by
  have s := skipWhile_spec (p := isWhite) a
  have none : rest.takeWhile isWhite = [] := by
    cases rest with
    | nil => rfl
    | cons c rest => exact List.takeWhile_cons_of_neg (by rw [black c rfl]; exact Bool.false_ne_true)
  rw [List.takeWhile_append_of_pos white, List.dropWhile_append_of_pos white, none, List.append_nil] at s
  have all : rest.dropWhile isWhite = rest := by
    have split := List.takeWhile_append_dropWhile (p := isWhite) (l := rest)
    rw [none, List.nil_append] at split
    exact split
  rw [all] at s
  exact s

/-- A token that does not begin like a comment. -/
lemma next_scan (s : (lex.skipWhile isWhite).At before (c :: rest))
    (comment : c = slash → ∀ d ∈ rest.head?, d ≠ slash ∧ d ≠ asterisk) :
    lex.next = (lex.skipWhile isWhite).advance.scanToken (lex.skipWhile isWhite) c := by
  have cur : (lex.skipWhile isWhite).cur = some c := s.cur
  have second (d : UInt8) (ne : d ≠ 0) : (lex.skipWhile isWhite).advance.peekChar = d → rest.head? = some d := by
    intro h
    obtain ⟨rest', rfl⟩ := s.advance.rest_of_peekChar ne h
    rfl
  have line : ¬ (c = slash ∧ (lex.skipWhile isWhite).advance.peekChar = slash) := fun h =>
    (comment h.1 slash (second slash (by decide) h.2)).1 rfl
  have block : ¬ (c = slash ∧ (lex.skipWhile isWhite).advance.peekChar = asterisk) := fun h =>
    (comment h.1 asterisk (second asterisk (by decide) h.2)).2 rfl
  rw [CandoLexer.next]
  split
  · rename_i at_end
    rw [cur] at at_end
    cases at_end
  · rename_i d at_d
    rw [cur] at at_d
    cases at_d
    rw [if_neg line, if_neg block]

/-- Where nothing but white space is left, the text ends. -/
lemma next_gap {gap : Str} (a : lex.At before gap) (white : ∀ c ∈ gap, isWhite c = true) :
    lex.next.1.type = .tokEof ∧ lex.next.2.source = lex.source := by
  rw [← List.append_nil gap] at a
  have s := skip_gap a white nofun
  have cur : (lex.skipWhile isWhite).cur = none := s.cur
  have ended : lex.next = (lex.skipWhile isWhite).token .tokEof (lex.skipWhile isWhite) := by
    rw [CandoLexer.next]
    split
    · rfl
    · rename_i d at_d
      rw [cur] at at_d
      cases at_d
  rw [ended]
  refine ⟨rfl, s.source.trans ?_⟩
  rw [a.source, List.append_assoc]

/-- What the lexer says of a token whose end is known. -/
lemma token_is (text : Str) {start lex' : CandoLexer} (a : start.At before (text ++ rest))
    (b : lex'.At (before ++ text) rest) (small : start.source.length < 4294967296) (type : CandoTokenType) :
    Lexeme.Is ⟨type, text⟩ start.source (lex'.token type start).1 := by
  have length : (lex'.pos - start.pos) % 4294967296 = text.length := by
    rw [a.source, List.length_append, List.length_append] at small
    rw [a.pos, b.pos, List.length_append]
    omega
  refine ⟨rfl, length, ?_⟩
  show (start.source.drop start.pos).take ((lex'.pos - start.pos) % 4294967296) = text
  rw [length, a.source, a.pos, List.drop_left, List.take_left]

/-! ### The kinds of tokens -/

/-- The lexer reads the token behind its first byte, with which no comment begins. -/
structure Scans (start : CandoLexer) (before rest : Str) (type : CandoTokenType) (c : UInt8) (tail : Str) : Prop where
  noComment : c = slash → ∀ d ∈ (tail ++ rest).head?, d ≠ slash ∧ d ≠ asterisk
  scanned : ∃ lex' : CandoLexer, start.advance.scanToken start c = lex'.token type start ∧
    lex'.At (before ++ c :: tail) rest

variable {start : CandoLexer} {tail : Str}

lemma not_symbol (follow : List (UInt8 × CandoTokenType)) (black : ∀ k ∈ follow, isWhite k.1 = false)
    (a : lex.At before rest) (apart : Apart rest) : lex.operator start type follow = lex.token type start := by
  induction follow with
  | nil => rfl
  | cons k follow ih =>
    have other : lex.cur ≠ some k.1 := by
      intro found
      rw [a.cur] at found
      have white := apart k.1 found
      rw [black k List.mem_cons_self] at white
      cases white
    rw [operator, matchChar, if_neg other]
    exact ih fun k mem => black k (List.mem_cons_of_mem _ mem)

lemma operator_pair {d : UInt8} {two : CandoTokenType} {follow : List (UInt8 × CandoTokenType)}
    (a : lex.At before (d :: rest)) (found : follow.lookup d = some two) :
    lex.operator start type follow = CandoLexer.token { lex with pos := lex.pos + 1 } two start := by
  have cur : lex.cur = some d := a.cur
  induction follow with
  | nil => cases found
  | cons k follow ih =>
    obtain ⟨e, two'⟩ := k
    rw [operator, matchChar, cur]
    by_cases same : d = e
    · subst same
      rw [List.lookup_cons_self] at found
      cases found
      rw [if_pos rfl]
    · rw [List.lookup_cons, beq_eq_false_iff_ne.mpr same] at found
      rw [if_neg fun e => same (Option.some.inj e)]
      exact ih found

lemma symbol_scans (h : IsSymbol type (c :: tail)) (s : start.At before (c :: (tail ++ rest))) (apart : Apart rest) :
    Scans start before rest type c tail := by
  have apartComment : ∀ d ∈ rest.head?, d ≠ slash ∧ d ≠ asterisk := by
    intro d mem
    refine ⟨?_, ?_⟩
    · rintro rfl
      exact absurd (apart slash mem) (by decide)
    · rintro rfl
      exact absurd (apart asterisk mem) (by decide)
  have single : ∀ k ∈ singleTokens, k.1 ≠ slash := by decide
  have operator : ∀ k ∈ operatorTokens, ∀ j ∈ k.2.1, isWhite j.1 = false ∧ j.1 ≠ slash ∧ j.1 ≠ asterisk := by decide
  cases h with
  | single found =>
    have other := single _ (mem_of_lookup found)
    exact ⟨fun e => absurd e other, start.advance, by rw [scanToken, found], s.advance⟩
  | alone none found =>
    have follow := operator _ (mem_of_lookup found)
    refine ⟨fun _ => apartComment, start.advance, ?_, s.advance⟩
    rw [scanToken, none, found]
    exact not_symbol _ (fun k mem => (follow k mem).1) s.advance apart
  | @pair _ d _ one follow none found second =>
    obtain ⟨white, noSlash, noStar⟩ := operator _ (mem_of_lookup found) _ (mem_of_lookup second)
    have line : d ≠ lineFeed := by
      rintro rfl
      have white : isWhite lineFeed = false := white
      exact absurd white (by decide)
    have behind := s.advance.pass line
    rw [List.append_assoc] at behind
    refine ⟨fun _ e mem => ?_, _, ?_, behind⟩
    · cases mem
      exact ⟨noSlash, noStar⟩
    · rw [scanToken, none, found]
      exact operator_pair s.advance second

/-- What does not begin a word. -/
lemma wordHead_ne {d : UInt8} (h : isWordHead c = true) (other : isWordHead d = false) : c ≠ d := by
  rintro rfl
  rw [h] at other
  cases other

lemma word_scans (h : IsWord (c :: tail)) (s : start.At before (c :: (tail ++ rest))) (apart : Apart rest)
    (small : start.source.length < 4294967296) :
    Scans start before rest (candoKeywordType (c :: tail)) c tail := by
  have head : isWordHead c = true := h.1
  have bytes : ∀ d ∈ tail, isWordByte d = true := fun d mem => List.all_eq_true.mp h.2 d (List.mem_cons_of_mem _ mem)
  have single : singleTokens.lookup c = none := lookup_none isWordHead (by decide) head
  have operator : operatorTokens.lookup c = none := lookup_none isWordHead (by decide) head
  have digit : ¬ isDecimal c := by
    intro digit
    have digits := isDecimal_cases digit
    have others : (([48, 49, 50, 51, 52, 53, 54, 55, 56, 57] : List UInt8).all fun d => !isWordHead d) = true := rfl
    have other := List.all_eq_true.mp others c digits
    rw [head] at other
    cases other
  have behind := skipWhile_spec (p := isWordByte) s.advance
  have ended : rest.takeWhile isWordByte = [] ∧ rest.dropWhile isWordByte = rest := by
    cases rest with
    | nil => exact ⟨rfl, rfl⟩
    | cons d rest =>
      have other : ¬ isWordByte d = true := by
        rw [not_white (p := isWordByte) (apart d rfl) rfl]
        exact Bool.false_ne_true
      exact ⟨List.takeWhile_cons_of_neg other, List.dropWhile_cons_of_neg other⟩
  rw [List.takeWhile_append_of_pos bytes, List.dropWhile_append_of_pos bytes, ended.1, ended.2, List.append_nil,
    List.append_assoc] at behind
  refine ⟨fun e => absurd e (wordHead_ne head rfl), start.advance.skipWhile isWordByte, ?_, behind⟩
  · have text := token_is (c :: tail) s behind small .tokIdent
    rw [scanToken, single, operator]
    dsimp only
    rw [if_neg (wordHead_ne head rfl), if_neg (wordHead_ne head rfl), if_neg (wordHead_ne head rfl),
      if_neg (wordHead_ne head rfl), if_neg (wordHead_ne head rfl), if_neg digit,
      if_pos (show (isAlpha c || c == ch '_') = true from head)]
    show (start.advance.skipWhile isWordByte).token (candoKeywordType (((start.advance.skipWhile isWordByte).source.drop
      start.pos).take (((start.advance.skipWhile isWordByte).pos - start.pos) % 4294967296))) start = _
    have same : (start.advance.skipWhile isWordByte).source = start.source := by
      rw [behind.source, s.source, List.append_assoc, List.singleton_append, List.cons_append]
    have text : (start.source.drop start.pos).take
        (((start.advance.skipWhile isWordByte).pos - start.pos) % 4294967296) = c :: tail := text.text
    rw [same, text]

/-- A digit does not come next. -/
lemma digits_end {s : Str} (digits : ∀ d ∈ s, isDecimal d = true) (ends : DigitsEnd rest) :
    (s ++ rest).takeWhile isDecimal = s ∧ (s ++ rest).dropWhile isDecimal = rest := by
  have none : rest.takeWhile isDecimal = [] ∧ rest.dropWhile isDecimal = rest := by
    cases rest with
    | nil => exact ⟨rfl, rfl⟩
    | cons d rest =>
      have other : ¬ isDecimal d = true := by
        rw [ends d rfl]
        exact Bool.false_ne_true
      exact ⟨List.takeWhile_cons_of_neg other, List.dropWhile_cons_of_neg other⟩
  rw [List.takeWhile_append_of_pos digits, List.dropWhile_append_of_pos digits, none.1, none.2, List.append_nil]
  exact ⟨rfl, rfl⟩

lemma Apart.digitsEnd (apart : Apart rest) : DigitsEnd rest := fun d mem =>
  not_white (p := isDecimal) (apart d mem) rfl

/-- A numeral ends where white space begins. -/
lemma numberSpan_apart (whole : numberSpan text = text) (apart : Apart rest) : numberSpan (text ++ rest) = text := by
  have digits : ∀ d ∈ text.takeWhile isDecimal, isDecimal d = true := fun d mem => List.mem_takeWhile_imp mem
  have split := List.takeWhile_append_dropWhile (p := isDecimal) (l := text)
  rw [numberSpan] at whole
  cases behind : text.dropWhile isDecimal with
  | nil =>
    rw [behind, List.append_nil] at split
    rw [split] at digits
    obtain ⟨taken, dropped⟩ := digits_end digits apart.digitsEnd
    rw [numberSpan, taken, dropped]
    cases rest with
    | nil => exact List.append_nil text
    | cons d rest =>
      have point : ¬ (d = ch '.' ∧ isDecimal (rest.headD 0)) := by
        rintro ⟨rfl, -⟩
        exact absurd (apart _ rfl) (by decide)
      dsimp only
      rw [if_neg point, List.append_nil]
  | cons d t =>
    rw [behind] at split whole
    dsimp only at whole
    by_cases point : d = ch '.' ∧ isDecimal (t.headD 0)
    · rw [if_pos point] at whole
      have same : text.takeWhile isDecimal ++ d :: t.takeWhile isDecimal = text.takeWhile isDecimal ++ d :: t :=
        whole.trans split.symm
      have decimals : t.takeWhile isDecimal = t := (List.cons.inj (List.append_cancel_left same)).2
      have all : ∀ e ∈ t, isDecimal e = true := by
        intro e mem
        rw [← decimals] at mem
        exact List.mem_takeWhile_imp mem
      have more : DigitsEnd (d :: (t ++ rest)) := by
        rintro _ ⟨⟩
        rw [point.1]
        rfl
      obtain ⟨taken, dropped⟩ := digits_end digits more
      have next : (t ++ rest).headD 0 = t.headD 0 := by
        cases t with
        | nil => exact absurd point.2 (by decide)
        | cons e t => rfl
      have whole : text ++ rest = text.takeWhile isDecimal ++ d :: (t ++ rest) := by
        rw [← List.cons_append, ← List.append_assoc, split]
      rw [numberSpan, whole, taken, dropped]
      dsimp only
      rw [next, if_pos point, (digits_end all apart.digitsEnd).1, split]
    · rw [if_neg point, List.append_nil] at whole
      have length := congrArg List.length split
      rw [whole, List.length_append, List.length_cons] at length
      omega

lemma number_scans (h : Expr.IsNumeral (c :: tail)) (s : start.At before (c :: (tail ++ rest))) (apart : Apart rest) :
    Scans start before rest .tokNumber c tail := by
  have digit : isDecimal c = true := h.1
  have scanned : start.advance.scanToken start c = start.advance.number start ∧ c ≠ slash := by
    have digits := isDecimal_cases digit
    simp only [List.mem_cons, List.not_mem_nil, or_false] at digits
    rcases digits with rfl | rfl | rfl | rfl | rfl | rfl | rfl | rfl | rfl | rfl
    all_goals exact ⟨rfl, by decide⟩
  obtain ⟨scan, ne⟩ := scanned
  have whole : numberSpan tail = tail := by
    have span := h.2.1
    rw [numberSpan_cons digit] at span
    exact (List.cons.inj span).2
  obtain ⟨lex', after, number, behind⟩ := number_at s.advance start
  rw [numberSpan_apart whole apart, List.append_assoc] at behind
  -- The lexer is still on the same text.
  have left : after = rest := by
    obtain ⟨read, unread, split, there⟩ := (@number_scanned _ start _ _ s.advance).passed
    rw [number] at there
    have same : before ++ ([c] ++ tail) ++ after = before ++ ([c] ++ tail) ++ rest := by
      rw [← behind.source, show lex'.source = _ from there.source, List.append_assoc _ read, ← split]
      simp only [List.append_assoc]
    exact List.append_cancel_left same
  subst left
  exact ⟨fun e => absurd e ne, lex', scan.trans number, behind⟩

lemma stringLoop_plain (type : CandoTokenType) (msg : String) (start : CandoLexer) {quote : UInt8} {content : Str}
    (plain : ∀ c ∈ content, c ≠ 92 ∧ c ≠ quote) (ne : quote ≠ 92) (a : lex.At before (content ++ quote :: rest)) :
    ∃ lex' : CandoLexer, lex.stringLoop quote type msg start = lex'.token type start ∧
      lex'.At (before ++ (content ++ [quote])) rest := by
  induction content generalizing lex before with
  | nil =>
    have cur : lex.cur = some quote := a.cur
    refine ⟨lex.advance, ?_, a.advance⟩
    rw [stringLoop]
    split
    · rename_i at_end
      rw [cur] at at_end
      cases at_end
    · rename_i d at_d
      rw [cur] at at_d
      cases at_d
      rw [if_neg ne, if_pos rfl]
  | cons c content ih =>
    have cur : lex.cur = some c := a.cur
    obtain ⟨noEscape, noQuote⟩ := plain c List.mem_cons_self
    obtain ⟨lex', scanned, behind⟩ := ih (fun d mem => plain d (List.mem_cons_of_mem _ mem)) a.advance
    refine ⟨lex', ?_, ?_⟩
    · rw [stringLoop]
      split
      · rename_i at_end
        rw [cur] at at_end
        cases at_end
      · rename_i d at_d
        rw [cur] at at_d
        cases at_d
        rw [if_neg noEscape, if_neg noQuote, scanned]
    · rw [List.append_assoc] at behind
      exact behind

lemma stringBt_plain (start : CandoLexer) {content : Str} (plain : IsPlain .bt content)
    (a : lex.At before (content ++ 96 :: rest)) :
    ∃ lex' : CandoLexer, lex.stringBt start = lex'.token .tokStringBt start ∧
      lex'.At (before ++ (content ++ [96])) rest := by
  induction content generalizing lex before with
  | nil =>
    have cur : lex.cur = some 96 := a.cur
    refine ⟨lex.advance, ?_, a.advance⟩
    rw [stringBt]
    split
    · rename_i at_end
      rw [cur] at at_end
      cases at_end
    · rename_i d at_d
      rw [cur] at at_d
      cases at_d
      rw [if_neg (by decide), if_neg fun h => absurd h.1 (by decide), if_pos rfl]
  | cons c content ih =>
    have cur : lex.cur = some c := a.cur
    obtain ⟨noEscape, noQuote, noDollar⟩ := plain c List.mem_cons_self
    obtain ⟨lex', scanned, behind⟩ := ih (fun d mem => plain d (List.mem_cons_of_mem _ mem)) a.advance
    refine ⟨lex', ?_, ?_⟩
    · rw [stringBt]
      split
      · rename_i at_end
        rw [cur] at at_end
        cases at_end
      · rename_i d at_d
        rw [cur] at at_d
        cases at_d
        rw [if_neg noEscape, if_neg fun h => noDollar rfl h.1, if_neg (show c ≠ 96 from noQuote), scanned]
    · rw [List.append_assoc] at behind
      exact behind

lemma string_scans {q : Quote} {content : Str} (plain : IsPlain q content)
    (s : start.At before (q.char :: (content ++ [q.char] ++ rest))) :
    Scans start before rest q.type q.char (content ++ [q.char]) := by
  have split : content ++ [q.char] ++ rest = content ++ q.char :: rest := List.append_assoc _ _ _
  rw [split] at s
  have behind := s.advance
  cases q with
  | dq =>
    obtain ⟨lex', scanned, after⟩ := stringLoop_plain .tokStringDq "unterminated double-quoted string"
      start (fun c mem => ⟨(plain c mem).1, (plain c mem).2.1⟩) (by decide) behind
    rw [List.append_assoc] at after
    exact ⟨fun e => absurd e (by decide), lex', scanned, after⟩
  | sq =>
    obtain ⟨lex', scanned, after⟩ := stringLoop_plain .tokStringSq "unterminated single-quoted string"
      start (fun c mem => ⟨(plain c mem).1, (plain c mem).2.1⟩) (by decide) behind
    rw [List.append_assoc] at after
    exact ⟨fun e => absurd e (by decide), lex', scanned, after⟩
  | bt =>
    obtain ⟨lex', scanned, after⟩ := stringBt_plain start plain behind
    rw [List.append_assoc] at after
    exact ⟨fun e => absurd e (by decide), lex', scanned, after⟩

/-- A token as it is written begins with a byte that is no white space. -/
lemma Lexeme.Written.head {t : Lexeme} (h : t.Written) : ∃ c tail, t.text = c :: tail ∧ isWhite c = false := by
  have single : ∀ k ∈ singleTokens, isWhite k.1 = false := by decide
  have operator : ∀ k ∈ operatorTokens, isWhite k.1 = false := by decide
  have others {p : UInt8 → Bool} {c : UInt8} (holds : p c = true)
      (none : (([9, 10, 11, 12, 13, 32] : List UInt8).all fun d => !p d) = true) : isWhite c = false := by
    cases white : isWhite c with
    | false => rfl
    | true =>
      rw [not_white white none] at holds
      cases holds
  cases h with
  | symbol symbol =>
    cases symbol with
    | single found => exact ⟨_, _, rfl, single _ (mem_of_lookup found)⟩
    | alone _ found | pair _ found _ => exact ⟨_, _, rfl, operator _ (mem_of_lookup found)⟩
  | @word text word =>
    cases text with
    | nil => cases word.1
    | cons c tail => exact ⟨c, tail, rfl, others (p := isWordHead) word.1 rfl⟩
  | @number text numeral =>
    cases text with
    | nil => cases numeral.1
    | cons c tail => exact ⟨c, tail, rfl, others (p := isDecimal) numeral.1 rfl⟩
  | @string q content plain => exact ⟨_, _, rfl, by cases q <;> rfl⟩

/-- A token as it is written is read. -/
lemma Lexeme.Written.scans {t : Lexeme} (h : t.Written) (text : t.text = c :: tail)
    (s : start.At before (c :: (tail ++ rest))) (apart : Apart rest) (small : start.source.length < 4294967296) :
    Scans start before rest t.type c tail := by
  cases h with
  | symbol symbol =>
    subst text
    exact symbol_scans symbol s apart
  | word word =>
    subst text
    exact word_scans word s apart small
  | number numeral =>
    subst text
    exact number_scans numeral s apart
  | string plain =>
    cases text
    exact string_scans plain s

/-- What is written is neither an error nor the end. -/
lemma Lexeme.Written.proper {t : Lexeme} (h : t.Written) : t.Proper := by
  have single : ∀ k ∈ singleTokens, k.2 ≠ .tokError ∧ k.2 ≠ .tokEof := by decide
  have operator : ∀ k ∈ operatorTokens, (k.2.2 ≠ .tokError ∧ k.2.2 ≠ .tokEof) ∧
      ∀ j ∈ k.2.1, j.2 ≠ .tokError ∧ j.2 ≠ .tokEof := by decide
  have keyword : ∀ k ∈ keywords, k.2 ≠ .tokError ∧ k.2 ≠ .tokEof := by decide
  cases h with
  | symbol symbol =>
    cases symbol with
    | single found => exact single _ (mem_of_lookup found)
    | alone _ found => exact (operator _ (mem_of_lookup found)).1
    | pair _ found second => exact (operator _ (mem_of_lookup found)).2 _ (mem_of_lookup second)
  | @word text word =>
    rw [Lexeme.Proper, candoKeywordType]
    dsimp only
    split
    · decide
    · split
      · rename_i k found
        exact keyword k (List.mem_of_find?_eq_some found)
      · decide
  | number => exact ⟨by rintro ⟨⟩, by rintro ⟨⟩⟩
  | @string q content plain => cases q <;> exact ⟨by rintro ⟨⟩, by rintro ⟨⟩⟩

/-! ### Reading a text -/

/-- The lexer reads the tokens that a text spells. -/
lemma spells_upcoming {ts : List Lexeme} {s : Str} (h : Spells ts s) (a : lex.At before s)
    (small : lex.source.length < 4294967296) : Upcoming ts lex := by
  induction h generalizing lex before with
  | nil white => exact next_gap a white
  | @cons gap rest t ts white written apart _ ih =>
    have same : (lex.skipWhile isWhite).source = lex.source := by
      rw [(skipWhile_spec a).source, a.source, List.append_assoc, List.takeWhile_append_dropWhile]
    obtain ⟨c, tail, text, black⟩ := written.head
    rw [text, List.cons_append] at a
    have s := skip_gap a white (by rintro _ ⟨⟩; exact black)
    rw [← same] at small
    have scans := written.scans text s apart small
    obtain ⟨lex', scanned, behind⟩ := scans.scanned
    have next : lex.next = lex'.token t.type (lex.skipWhile isWhite) := (next_scan s scans.noComment).trans scanned
    have is := token_is (c :: tail) s behind small t.type
    have source : lex'.source = lex.source := by
      rw [behind.source, ← same, s.source, List.append_assoc, List.cons_append]
    rw [← text, same] at is
    refine ⟨next ▸ is, written.proper, ?_, ?_⟩
    · rw [next]
      exact source
    · rw [next]
      exact ih behind (source.symm ▸ same ▸ small)

/-! ### Programs -/

/-- A word that is no keyword. -/
def IsName (x : Str) : Prop := IsWord x ∧ candoKeywordType x = .tokIdent

/-- Names are names, and the lexer has nothing to do in strings. -/
def Expr.Plain : Expr → Prop
  | .number _ | .null | .bool _ => True
  | .string q content => IsPlain q content
  | .name x | .step _ x => IsName x
  | .paren e | .neg e | .not e => e.Plain
  | .binary _ l r | .and l r | .or l r => l.Plain ∧ r.Plain
  | .assign x e | .update _ x e => IsName x ∧ e.Plain

def Stmt.Plain : Stmt → Prop
  | .nil | .empty | .breakLoop | .continueLoop => True
  | .seq s t => s.Plain ∧ t.Plain
  | .expr e | .throwValue e => e.Plain
  | .declare x e => IsName x ∧ e.Plain
  | .block s => s.Plain
  | .ifElse c s t => c.Plain ∧ s.Plain ∧ t.Plain
  | .whileLoop c s => c.Plain ∧ s.Plain
  | .tryCatch s x h => s.Plain ∧ IsName x ∧ h.Plain

lemma fixed_written {type : CandoTokenType} (h : spelling type ≠ "") : (fixed type).Written := by
  have word {type : CandoTokenType} {text : Str} (word : IsWord text) (e : candoKeywordType text = type) :
      Lexeme.Written ⟨type, text⟩ := e ▸ .word word
  cases type
  all_goals first
    | exact absurd rfl h
    | exact .symbol (.single rfl)
    | exact .symbol (.alone rfl rfl)
    | exact .symbol (.pair rfl rfl rfl)
    | exact word ⟨rfl, rfl⟩ rfl

lemma IsName.written {x : Str} (h : IsName x) : (ident x).Written := by
  have written := Lexeme.Written.word h.1
  rw [h.2] at written
  exact written

/-- The tokens of an expression can be written. -/
lemma Expr.written {e : Expr} {min : Nat} (fits : e.Fits min) (plain : e.Plain) : ∀ t ∈ e.lexemes, t.Written := by
  induction e generalizing min with
  | number text => exact List.forall_mem_singleton.mpr (.number fits)
  | string q content => exact List.forall_mem_singleton.mpr (.string plain)
  | null => exact List.forall_mem_singleton.mpr (fixed_written (by decide))
  | bool b => exact List.forall_mem_singleton.mpr (fixed_written (by cases b <;> decide))
  | name x => exact List.forall_mem_singleton.mpr plain.written
  | paren e ih =>
    refine List.forall_mem_cons.mpr ⟨fixed_written (by decide), List.forall_mem_append.mpr ⟨ih fits plain, ?_⟩⟩
    exact List.forall_mem_singleton.mpr (fixed_written (by decide))
  | neg e ih | not e ih => exact List.forall_mem_cons.mpr ⟨fixed_written (by decide), ih fits.2 plain⟩
  | binary o l r ihl ihr =>
    refine List.forall_mem_append.mpr ⟨ihl fits.2.1 plain.1, List.forall_mem_cons.mpr ⟨fixed_written ?_,
      ihr fits.2.2 plain.2⟩⟩
    rcases o with o | o <;> cases o <;> decide
  | and l r ihl ihr | or l r ihl ihr =>
    exact List.forall_mem_append.mpr ⟨ihl fits.2.1 plain.1, List.forall_mem_cons.mpr ⟨fixed_written (by decide),
      ihr fits.2.2 plain.2⟩⟩
  | assign x e ih =>
    exact List.forall_mem_cons.mpr ⟨plain.1.written, List.forall_mem_cons.mpr ⟨fixed_written (by decide),
      ih fits.2 plain.2⟩⟩
  | update o x e ih =>
    exact List.forall_mem_cons.mpr ⟨plain.1.written, List.forall_mem_cons.mpr ⟨fixed_written (by cases o <;> decide),
      ih fits.2 plain.2⟩⟩
  | step up x =>
    exact List.forall_mem_cons.mpr ⟨plain.written,
      List.forall_mem_singleton.mpr (fixed_written (by cases up <;> decide))⟩

/-- The tokens of a program can be written. -/
lemma Stmt.written {s : Stmt} {inLoop : Bool} (fits : s.Fits inLoop) (plain : s.Plain) :
    ∀ t ∈ s.lexemes, t.Written := by
  have last {type : CandoTokenType} (h : spelling type ≠ "") : ∀ t ∈ [fixed type], t.Written :=
    List.forall_mem_singleton.mpr (fixed_written h)
  induction s generalizing inLoop with
  | nil => nofun
  | seq s t ihs iht => exact List.forall_mem_append.mpr ⟨ihs fits.1 plain.1, iht fits.2 plain.2⟩
  | empty => exact last (by decide)
  | expr e => exact List.forall_mem_append.mpr ⟨e.written fits plain, last (by decide)⟩
  | declare x e =>
    exact List.forall_mem_cons.mpr ⟨fixed_written (by decide), List.forall_mem_cons.mpr ⟨plain.1.written,
      List.forall_mem_cons.mpr ⟨fixed_written (by decide), List.forall_mem_append.mpr ⟨e.written fits plain.2,
        last (by decide)⟩⟩⟩⟩
  | block s ih =>
    exact List.forall_mem_cons.mpr ⟨fixed_written (by decide), List.forall_mem_append.mpr ⟨ih fits plain,
      last (by decide)⟩⟩
  | ifElse c s t ihs iht =>
    refine List.forall_mem_cons.mpr ⟨fixed_written (by decide), List.forall_mem_append.mpr ⟨c.written fits.1 plain.1,
      List.forall_mem_cons.mpr ⟨fixed_written (by decide), List.forall_mem_append.mpr ⟨ihs fits.2.1 plain.2.1,
        List.forall_mem_cons.mpr ⟨fixed_written (by decide), ?_⟩⟩⟩⟩⟩
    split
    · nofun
    · exact List.forall_mem_cons.mpr ⟨fixed_written (by decide), iht fits.2.2.1 plain.2.2⟩
  | whileLoop c s ih =>
    exact List.forall_mem_cons.mpr ⟨fixed_written (by decide), List.forall_mem_append.mpr ⟨c.written fits.1 plain.1,
      List.forall_mem_cons.mpr ⟨fixed_written (by decide), List.forall_mem_append.mpr ⟨ih fits.2 plain.2,
        last (by decide)⟩⟩⟩⟩
  | breakLoop | continueLoop => exact List.forall_mem_cons.mpr ⟨fixed_written (by decide), last (by decide)⟩
  | tryCatch s x h ihs ihh =>
    exact List.forall_mem_cons.mpr ⟨fixed_written (by decide), List.forall_mem_cons.mpr ⟨fixed_written (by decide),
      List.forall_mem_append.mpr ⟨ihs fits.1 plain.1, List.forall_mem_cons.mpr ⟨fixed_written (by decide),
        List.forall_mem_cons.mpr ⟨fixed_written (by decide), List.forall_mem_cons.mpr ⟨fixed_written (by decide),
          List.forall_mem_cons.mpr ⟨plain.2.1.written, List.forall_mem_cons.mpr ⟨fixed_written (by decide),
            List.forall_mem_cons.mpr ⟨fixed_written (by decide), List.forall_mem_append.mpr ⟨ihh fits.2 plain.2.2,
              last (by decide)⟩⟩⟩⟩⟩⟩⟩⟩⟩⟩
  | throwValue e =>
    exact List.forall_mem_cons.mpr ⟨fixed_written (by decide), List.forall_mem_append.mpr ⟨e.written fits plain,
      last (by decide)⟩⟩

/-- Tokens with a blank behind each. -/
def printed (ts : List Lexeme) : Str := ts.flatMap fun t => t.text ++ [32]

lemma Spells.gap {ts : List Lexeme} {s gap : Str} (white : ∀ c ∈ gap, isWhite c = true) (h : Spells ts s) :
    Spells ts (gap ++ s) := by
  cases h with
  | nil more => exact .nil (List.forall_mem_append.mpr ⟨white, more⟩)
  | @cons gap' rest t ts more written apart rest' =>
    rw [← List.append_assoc]
    exact .cons (List.forall_mem_append.mpr ⟨white, more⟩) written apart rest'

lemma spells_printed {ts : List Lexeme} (written : ∀ t ∈ ts, t.Written) : Spells ts (printed ts) := by
  induction ts with
  | nil => exact .nil nofun
  | cons t ts ih =>
    obtain ⟨first, rest⟩ := List.forall_mem_cons.mp written
    have blank : ∀ c ∈ ([32] : Str), isWhite c = true := List.forall_mem_singleton.mpr rfl
    have spells : Spells (t :: ts) ([] ++ (t.text ++ ([32] ++ printed ts))) :=
      .cons nofun first (by rintro _ ⟨⟩; rfl) ((ih rest).gap blank)
    rw [printed, List.flatMap_cons, List.append_assoc]
    exact spells

end Cando.Lang
