import Cando.Lib.SourceText
import Cando.Parser.Token

/-!
# The lexer

`parser/lexer.c`. A token spans the bytes from where the lexer was, `start`, to where it is. The cases of the switch in
`cando_lexer_next` that read one byte, or look for a second one after it, stand in tables.
-/

namespace Cando

open SourceText

/-- `CandoLexer`. -/
structure CandoLexer where
  source : Str
  pos : Nat := 0
  line : Nat := 1
  lineStart : Nat := 0
  errorMsg : Str := []
  deriving DecidableEq, Repr

/-- The code of a character. -/
def ch (c : Char) : UInt8 := UInt8.ofNat c.toNat

namespace CandoLexer

/-- The byte at the cursor, if it is not at the end. -/
def cur (lex : CandoLexer) : Option UInt8 := lex.source[lex.pos]?

/-- How much is left. -/
def left (lex : CandoLexer) : Nat := lex.source.length - lex.pos

/-- `lex_peek_char`. -/
def peekChar (lex : CandoLexer) : UInt8 := lex.cur.getD 0

/-- `lex_peek_char2`. -/
def peekChar2 (lex : CandoLexer) : UInt8 := (lex.source[lex.pos + 1]?).getD 0

/-- `lex_advance`. -/
def advance (lex : CandoLexer) : CandoLexer :=
  match lex.cur with
  | none => lex
  | some c =>
    if c = lineFeed then { lex with pos := lex.pos + 1, line := (lex.line + 1) % 4294967296, lineStart := lex.pos + 1 }
    else { lex with pos := lex.pos + 1 }

/-- `lex_match`. -/
def matchChar (lex : CandoLexer) (expected : UInt8) : Option CandoLexer :=
  if lex.cur = some expected then some { lex with pos := lex.pos + 1 } else none

/-- `make_token`. -/
def makeToken (lex : CandoLexer) (type : CandoTokenType) (start : CandoLexer) : CandoToken where
  type := type
  start := start.pos
  length := (lex.pos - start.pos) % 4294967296
  line := start.line
  col := ((start.pos - start.lineStart) % 4294967296 + 1) % 4294967296

/-- A token that ends where the lexer is. -/
def token (lex : CandoLexer) (type : CandoTokenType) (start : CandoLexer) : CandoToken × CandoLexer :=
  (lex.makeToken type start, lex)

/-- `lex_error`. -/
def error (lex start : CandoLexer) (msg : String) : CandoToken × CandoLexer :=
  (lex.makeToken .tokError start, { lex with errorMsg := bytes msg })

/-! ### Loops -/

lemma cur_eq_some {lex : CandoLexer} {c : UInt8} (h : lex.cur = some c) : lex.pos < lex.source.length :=
  (List.getElem?_eq_some_iff.mp h).1

lemma left_advance {lex : CandoLexer} {c : UInt8} (h : lex.cur = some c) : lex.advance.left < lex.left := by
  have inside := cur_eq_some h
  have less : lex.source.length - (lex.pos + 1) < lex.source.length - lex.pos := by omega
  rw [advance, h]
  simp only
  split <;> exact less

lemma left_advance_le (lex : CandoLexer) : lex.advance.left ≤ lex.left := by
  cases h : lex.cur with
  | none => rw [advance, h]
  | some c => exact Nat.le_of_lt (left_advance h)

/-- Advance while the byte at the cursor satisfies a predicate. -/
def skipWhile (p : UInt8 → Bool) (lex : CandoLexer) : CandoLexer :=
  match _at : lex.cur with
  | none => lex
  | some c => if p c then skipWhile p lex.advance else lex
termination_by lex.left
decreasing_by exact left_advance _at

/-- `skip_line_comment`. -/
def skipLineComment (lex : CandoLexer) : CandoLexer := lex.skipWhile (· != lineFeed)

/-- `skip_block_comment`: whether it has ended. -/
def skipBlockComment (lex : CandoLexer) : Bool × CandoLexer :=
  match _at : lex.cur with
  | none => (false, lex)
  | some c =>
    if c = asterisk ∧ lex.advance.peekChar = slash then (true, lex.advance.advance)
    else skipBlockComment lex.advance
termination_by lex.left
decreasing_by exact left_advance _at

/-- The loop that `lex_string_dq` and `lex_string_sq` share: up to a quote that no backslash stands before. -/
def stringLoop (quote : UInt8) (type : CandoTokenType) (msg : String) (lex start : CandoLexer) :
    CandoToken × CandoLexer :=
  match _at : lex.cur with
  | none => lex.error start msg
  | some c =>
    if c = 92 then
      match lex.advance.cur with
      | none => lex.advance.error start msg
      | some _ => lex.advance.advance.stringLoop quote type msg start
    else if c = quote then lex.advance.token type start
    else lex.advance.stringLoop quote type msg start
termination_by lex.left
decreasing_by
  · exact Nat.lt_of_le_of_lt (left_advance_le _) (left_advance _at)
  · exact left_advance _at

/-- `lex_string_dq`. -/
def stringDq (lex start : CandoLexer) : CandoToken × CandoLexer :=
  lex.stringLoop 34 .tokStringDq "unterminated double-quoted string" start

/-- `lex_string_sq`. -/
def stringSq (lex start : CandoLexer) : CandoToken × CandoLexer :=
  lex.stringLoop 39 .tokStringSq "unterminated single-quoted string" start

/-- The inner loop of `lex_string_bt`, up to the brace that matches. -/
def skipInterpolation (lex : CandoLexer) (depth : Int32) : Int32 × CandoLexer :=
  if 0 < depth then
    match _at : lex.cur with
    | none => (depth, lex)
    | some c => skipInterpolation lex.advance
        (if c = ch '{' then depth + 1 else if c = ch '}' then depth - 1 else depth)
  else (depth, lex)
termination_by lex.left
decreasing_by exact left_advance _at

lemma left_skipInterpolation (lex : CandoLexer) (depth : Int32) : (lex.skipInterpolation depth).2.left ≤ lex.left := by
  fun_induction skipInterpolation lex depth with
  | case1 | case3 => exact Nat.le_refl _
  | case2 lex depth _ c at_c ih => exact ih.trans (left_advance_le lex)

/-- `lex_string_bt`. -/
def stringBt (lex start : CandoLexer) : CandoToken × CandoLexer :=
  match _at : lex.cur with
  | none => lex.error start "unterminated backtick string"
  | some c =>
    if c = 92 then
      match lex.advance.cur with
      | none => lex.advance.error start "unterminated backtick string"
      | some _ => lex.advance.advance.stringBt start
    else if c = ch '$' ∧ lex.advance.peekChar = ch '{' then
      let inner := lex.advance.advance.skipInterpolation 1
      if inner.1 ≠ 0 then inner.2.error start "unterminated interpolation in backtick string"
      else inner.2.stringBt start
    else if c = 96 then lex.advance.token .tokStringBt start
    else lex.advance.stringBt start
termination_by lex.left
decreasing_by
  · exact Nat.lt_of_le_of_lt (left_advance_le _) (left_advance _at)
  · refine Nat.lt_of_le_of_lt (left_skipInterpolation _ _) ?_
    exact Nat.lt_of_le_of_lt (left_advance_le _) (left_advance _at)
  · exact left_advance _at

/-- `lex_number`. -/
def number (lex start : CandoLexer) : CandoToken × CandoLexer :=
  let lex := lex.skipWhile isDecimal
  if lex.peekChar = ch '.' ∧ isDecimal lex.peekChar2 then
    (lex.advance.skipWhile isDecimal).token .tokNumber start
  else lex.token .tokNumber start

/-- `lex_ident`. -/
def ident (lex start : CandoLexer) : CandoToken × CandoLexer :=
  let lex := lex.skipWhile fun c => isAlpha c || isDecimal c || c == ch '_'
  lex.token (candoKeywordType ((lex.source.drop start.pos).take ((lex.pos - start.pos) % 4294967296))) start

/-! ### The switch -/

/-- The tokens of one byte that no other token begins with. -/
def singleTokens : List (UInt8 × CandoTokenType) :=
  [(ch '(', .tokLparen), (ch ')', .tokRparen), (ch '{', .tokLbrace), (ch '}', .tokRbrace), (ch '[', .tokLbracket),
    (ch ']', .tokRbracket), (ch ';', .tokSemi), (ch ',', .tokComma), (ch '#', .tokHash)]

/-- The bytes that may have a second one behind them: the second bytes in the order in which they are tried, and the
type of the first byte alone. -/
def operatorTokens : List (UInt8 × List (UInt8 × CandoTokenType) × CandoTokenType) :=
  [(ch '^', [(ch '=', .tokCaretAssign)], .tokCaret),
    (ch '%', [(ch '=', .tokPercentAssign)], .tokPercent),
    (ch '*', [(ch '=', .tokStarAssign)], .tokStar),
    (ch '/', [(ch '=', .tokSlashAssign)], .tokSlash),
    (ch '+', [(ch '+', .tokIncr), (ch '=', .tokPlusAssign)], .tokPlus),
    (ch '-', [(ch '-', .tokDecr), (ch '=', .tokMinusAssign), (ch '>', .tokRangeAsc)], .tokMinus),
    (ch '<', [(ch '=', .tokLeq), (ch '<', .tokLshift), (ch '-', .tokRangeDesc)], .tokLt),
    (ch '>', [(ch '=', .tokGeq), (ch '>', .tokRshift)], .tokGt),
    (ch '=', [(ch '=', .tokEq), (ch '>', .tokFatArrow)], .tokAssign),
    (ch '!', [(ch '=', .tokNeq)], .tokBang),
    (ch '&', [(ch '&', .tokAnd)], .tokAmp),
    (ch '|', [(ch '|', .tokOr), (ch '&', .tokBitxor)], .tokBitor),
    (ch ':', [(ch ':', .tokFluent)], .tokColon)]

/-- `lex_match` on one byte after the other. -/
def operator (lex start : CandoLexer) (type : CandoTokenType) : List (UInt8 × CandoTokenType) → CandoToken × CandoLexer
  | [] => lex.token type start
  | (c, two) :: rest =>
    match lex.matchChar c with
    | some lex => lex.token two start
    | none => operator lex start type rest

/-- An error that shows the byte. -/
def unexpected (lex start : CandoLexer) (c : UInt8) : CandoToken × CandoLexer :=
  let hex := (Nat.toDigits 16 c.toNat).map Char.toUpper
  let hex2 := String.ofList (if hex.length < 2 then '0' :: hex else hex)
  let line := start.line
  lex.error start s!"unexpected character '\\x{hex2}' (line {line})"

/-- `cando_lexer_next`, from behind the first byte `c` of a token that is not a comment. -/
def scanToken (lex start : CandoLexer) (c : UInt8) : CandoToken × CandoLexer :=
  match singleTokens.lookup c, operatorTokens.lookup c with
  | some type, _ => lex.token type start
  | none, some (follow, type) => lex.operator start type follow
  | none, none =>
    if c = ch '.' then
      if lex.peekChar = ch '.' ∧ lex.peekChar2 = ch '.' then lex.advance.advance.token .tokVararg start
      else lex.token .tokDot start
    else if c = ch '~' then
      if lex.peekChar = ch '!' ∧ lex.source[lex.pos + 1]? = some (ch '>') then
        lex.advance.advance.token .tokFilterOp start
      else lex.operator start .tokTilde [(ch '>', .tokPipeOp)]
    else if c = 34 then lex.stringDq start
    else if c = 39 then lex.stringSq start
    else if c = 96 then lex.stringBt start
    else if isDecimal c then lex.number start
    else if isAlpha c || c == ch '_' then lex.ident start
    else lex.unexpected start c

lemma left_skipWhile (p : UInt8 → Bool) (lex : CandoLexer) : (lex.skipWhile p).left ≤ lex.left := by
  fun_induction skipWhile p lex with
  | case1 | case3 => exact Nat.le_refl _
  | case2 lex c at_c _ ih => exact ih.trans (left_advance_le lex)

lemma left_skipBlockComment (lex : CandoLexer) : lex.skipBlockComment.2.left ≤ lex.left := by
  fun_induction skipBlockComment lex with
  | case1 => exact Nat.le_refl _
  | case2 lex => exact (left_advance_le _).trans (left_advance_le lex)
  | case3 lex c at_c _ ih => exact ih.trans (left_advance_le lex)

/-- `cando_lexer_next`; a comment is skipped, and all begins again. -/
def next (lex : CandoLexer) : CandoToken × CandoLexer :=
  let start := lex.skipWhile isWhite
  match _at : start.cur with
  | none => start.token .tokEof start
  | some c =>
    if c = slash ∧ start.advance.peekChar = slash then next start.advance.advance.skipLineComment
    else if c = slash ∧ start.advance.peekChar = asterisk then
      let comment := start.advance.advance.skipBlockComment
      if comment.1 then next comment.2 else comment.2.error start "unterminated block comment"
    else start.advance.scanToken start c
termination_by lex.left
decreasing_by
  · have le := left_skipWhile isWhite lex
    have lt := left_advance _at
    have le' := (left_skipWhile (· != lineFeed) start.advance.advance).trans (left_advance_le start.advance)
    exact Nat.lt_of_le_of_lt le' (Nat.lt_of_lt_of_le lt le)
  · have le := left_skipWhile isWhite lex
    have lt := left_advance _at
    have le' := (left_skipBlockComment start.advance.advance).trans (left_advance_le start.advance)
    exact Nat.lt_of_le_of_lt le' (Nat.lt_of_lt_of_le lt le)

/-! ### Progress -/

lemma left_stringLoop (quote : UInt8) (type : CandoTokenType) (msg : String) (lex start : CandoLexer) :
    (lex.stringLoop quote type msg start).2.left ≤ lex.left := by
  fun_induction stringLoop quote type msg lex start with
  | case1 => exact Nat.le_refl _
  | case2 lex => exact left_advance_le lex
  | case3 lex _ _ _ ih => exact ih.trans ((left_advance_le _).trans (left_advance_le lex))
  | case4 lex => exact left_advance_le lex
  | case5 lex _ _ _ _ ih => exact ih.trans (left_advance_le lex)

lemma left_stringBt (lex start : CandoLexer) : (lex.stringBt start).2.left ≤ lex.left := by
  have two (lex : CandoLexer) : lex.advance.advance.left ≤ lex.left := (left_advance_le _).trans (left_advance_le lex)
  fun_induction stringBt lex start with
  | case1 => exact Nat.le_refl _
  | case2 lex => exact left_advance_le lex
  | case3 lex _ _ _ ih => exact ih.trans (two lex)
  | case4 lex => exact (left_skipInterpolation _ _).trans (two lex)
  | case5 lex _ _ _ _ _ _ ih => exact ih.trans ((left_skipInterpolation _ _).trans (two lex))
  | case6 lex => exact left_advance_le lex
  | case7 lex _ _ _ _ _ ih => exact ih.trans (left_advance_le lex)

lemma left_number (lex start : CandoLexer) : (lex.number start).2.left ≤ lex.left := by
  have digits := left_skipWhile isDecimal lex
  rw [number]
  split
  · exact (left_skipWhile _ _).trans ((left_advance_le _).trans digits)
  · exact digits

lemma left_operator (lex start : CandoLexer) (type : CandoTokenType) (follow : List (UInt8 × CandoTokenType)) :
    (lex.operator start type follow).2.left ≤ lex.left := by
  induction follow with
  | nil => exact Nat.le_refl _
  | cons k follow ih =>
    rw [operator, matchChar]
    by_cases found : lex.cur = some k.1
    · rw [if_pos found]
      exact Nat.sub_le_sub_left (Nat.le_succ _) _
    · rw [if_neg found]
      exact ih

/-- Behind its first byte, a token gives nothing back. -/
lemma left_scanToken (lex start : CandoLexer) (c : UInt8) : (lex.scanToken start c).2.left ≤ lex.left := by
  have two : lex.advance.advance.left ≤ lex.left := (left_advance_le _).trans (left_advance_le lex)
  rw [scanToken]
  split
  · exact Nat.le_refl _
  · exact left_operator lex start _ _
  · repeat' split
    · exact two
    · exact Nat.le_refl _
    · exact two
    · exact left_operator lex start _ _
    · exact left_stringLoop _ _ _ lex start
    · exact left_stringLoop _ _ _ lex start
    · exact left_stringBt lex start
    · exact left_number lex start
    · exact left_skipWhile _ lex
    · exact Nat.le_refl _

/-- Behind white space and the byte at the cursor, less is left. -/
lemma left_advance_skipWhite {lex : CandoLexer} {c : UInt8} (h : (lex.skipWhile isWhite).cur = some c) :
    (lex.skipWhile isWhite).advance.left < lex.left :=
  Nat.lt_of_lt_of_le (left_advance h) (left_skipWhile isWhite lex)

/-- A call gives nothing back, and a token that is not the one at the end takes some of the source. -/
lemma left_next (lex : CandoLexer) :
    lex.next.2.left ≤ lex.left ∧ (lex.next.1.type ≠ .tokEof → lex.next.2.left < lex.left) := by
  have weak {n m : Nat} {P : Prop} (lt : n < m) : n ≤ m ∧ (P → n < m) := ⟨Nat.le_of_lt lt, fun _ => lt⟩
  fun_induction next lex with
  | case1 lex start at_end => exact ⟨left_skipWhile isWhite lex, fun h => absurd rfl h⟩
  | case2 lex start c at_c _ ih =>
    have first := left_advance_skipWhite at_c
    have comment := (left_skipWhile (· != lineFeed) start.advance.advance).trans (left_advance_le start.advance)
    exact weak (Nat.lt_of_le_of_lt (ih.1.trans comment) first)
  | case3 lex start c at_c _ _ comment _ ih =>
    have first := left_advance_skipWhite at_c
    have rest := (left_skipBlockComment start.advance.advance).trans (left_advance_le start.advance)
    exact weak (Nat.lt_of_le_of_lt (ih.1.trans rest) first)
  | case4 lex start c at_c =>
    have first := left_advance_skipWhite at_c
    have rest := (left_skipBlockComment start.advance.advance).trans (left_advance_le start.advance)
    exact weak (Nat.lt_of_le_of_lt rest first)
  | case5 lex start c at_c =>
    have first := left_advance_skipWhite at_c
    exact weak (Nat.lt_of_le_of_lt (left_scanToken _ _ _) first)

/-- `cando_lexer_peek`. -/
def peek (lex : CandoLexer) : CandoToken × CandoLexer :=
  let (tok, after) := lex.next
  (tok, { after with pos := lex.pos, line := lex.line, lineStart := lex.lineStart, errorMsg := lex.errorMsg })

end CandoLexer

end Cando
