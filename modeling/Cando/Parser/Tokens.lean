import Cando.Parser.Lexer

/-!
# What the lexer makes of a source

The tokens that `cando_lexer_next` yields lie in the source one behind the other, with blanks in between. The lines
and columns are 32 bits wide: those of the token at the end are wrong on just the longest sources that consist of one
line or of nothing but line ends.
-/

namespace Cando

open SourceText

variable {lex lex' start : CandoLexer} {before text rest : Str} {c : UInt8} {p : UInt8 → Bool}

/-- What a token with the text `text` behind `before` says of itself. -/
structure CandoToken.Marks (tok : CandoToken) (before text : Str) : Prop where
  start : tok.start = before.length
  length : tok.length = text.length % 4294967296
  line : tok.line = lineOf before % 4294967296
  col : tok.col = colOf before % 4294967296

namespace CandoLexer

/-- The lexer stands between `before` and `rest`, and knows the line and the column. -/
structure At (lex : CandoLexer) (before rest : Str) : Prop where
  source : lex.source = before ++ rest
  pos : lex.pos = before.length
  line : lex.line = lineOf before % 4294967296
  lineStart : lex.lineStart + (lastLine before).length = before.length

namespace At

lemma init (s : Str) : At { source := s } [] s := ⟨rfl, rfl, rfl, rfl⟩

lemma cur (a : At lex before rest) : lex.cur = rest.head? := by
  rw [CandoLexer.cur, a.source, a.pos, List.getElem?_append_right (Nat.le_refl _), Nat.sub_self,
    List.head?_eq_getElem?]

lemma second (a : At lex before rest) : lex.source[lex.pos + 1]? = rest[1]? := by
  have le : before.length ≤ before.length + 1 := Nat.le_succ _
  rw [a.source, a.pos, List.getElem?_append_right le, Nat.add_sub_cancel_left]

lemma rest_of_cur (a : At lex before rest) (h : lex.cur = some c) : ∃ rest', rest = c :: rest' := by
  rw [a.cur] at h
  exact List.head?_eq_some_iff.mp h

lemma rest_nil (a : At lex before rest) (h : lex.cur = none) : rest = [] := by
  rw [a.cur] at h
  exact List.head?_eq_none_iff.mp h

lemma rest_of_peekChar (a : At lex before rest) (ne : c ≠ 0) (h : lex.peekChar = c) : ∃ rest', rest = c :: rest' := by
  rw [CandoLexer.peekChar, a.cur] at h
  cases rest with
  | nil => exact absurd h.symm ne
  | cons d rest =>
    cases h
    exact ⟨rest, rfl⟩

lemma rest_of_second {d : UInt8} (a : At lex before (c :: rest)) (h : lex.source[lex.pos + 1]? = some d) :
    ∃ rest', rest = d :: rest' := by
  rw [a.second, List.getElem?_cons_succ, ← List.head?_eq_getElem?] at h
  exact List.head?_eq_some_iff.mp h

lemma rest_of_peekChar2 {d : UInt8} (a : At lex before (c :: rest)) (ne : d ≠ 0) (h : lex.peekChar2 = d) :
    ∃ rest', rest = d :: rest' := by
  rw [CandoLexer.peekChar2] at h
  cases found : lex.source[lex.pos + 1]? with
  | none =>
    rw [found] at h
    exact absurd h.symm ne
  | some e =>
    rw [found] at h
    cases h
    exact a.rest_of_second found

lemma peekChar (a : At lex before (c :: rest)) : lex.peekChar = c := by
  rw [CandoLexer.peekChar, a.cur]
  rfl

lemma error (a : At lex before rest) (msg : Str) : At { lex with errorMsg := msg } before rest :=
  ⟨a.source, a.pos, a.line, a.lineStart⟩

/-- A byte that does not end a line. -/
lemma pass (a : At lex before (c :: rest)) (ne : c ≠ lineFeed) :
    At { lex with pos := lex.pos + 1 } (before ++ [c]) rest where
  source := by rw [List.append_assoc]; exact a.source
  pos := by rw [List.length_append, a.pos]; rfl
  line := by rw [lineOf_concat, if_neg ne]; exact a.line
  lineStart := by
    have lineStart := a.lineStart
    rw [lastLine_concat, if_neg ne, List.length_cons, List.length_append, List.length_singleton]
    simp only
    omega

lemma advance (a : At lex before (c :: rest)) : At lex.advance (before ++ [c]) rest := by
  rw [CandoLexer.advance, a.cur, List.head?_cons]
  simp only
  split
  · rename_i e
    constructor
    · rw [List.append_assoc]
      exact a.source
    · rw [List.length_append, ← a.pos]
      rfl
    · rw [lineOf_concat, if_pos e, a.line]
      exact Nat.mod_add_mod _ _ _
    · rw [lastLine_concat, if_pos e, List.length_append, ← a.pos]
      rfl
  · rename_i ne
    exact a.pass ne

end At

/-! ### Loops -/

lemma skipWhile_spec (a : At lex before rest) :
    At (lex.skipWhile p) (before ++ rest.takeWhile p) (rest.dropWhile p) := by
  fun_induction skipWhile p lex generalizing before rest with
  | case1 lex h =>
    obtain rfl := a.rest_nil h
    rw [List.takeWhile_nil, List.append_nil]
    exact a
  | case2 lex c h holds ih =>
    obtain ⟨rest, rfl⟩ := a.rest_of_cur h
    rw [List.takeWhile_cons_of_pos holds, List.dropWhile_cons_of_pos holds, List.append_cons]
    exact ih a.advance
  | case3 lex c h fails =>
    obtain ⟨rest, rfl⟩ := a.rest_of_cur h
    rw [List.takeWhile_cons_of_neg fails, List.dropWhile_cons_of_neg fails, List.append_nil]
    exact a

/-- A block comment goes on up to the first `*/`. -/
lemma skipBlockComment_spec (a : At lex before rest) :
    (lex.skipBlockComment.1 = false ∧ At lex.skipBlockComment.2 (before ++ rest) []) ∨
      ∃ body rest', lex.skipBlockComment.1 = true ∧ rest = body ++ [asterisk, slash] ++ rest' ∧
        ¬ [asterisk, slash] <:+: body ++ [asterisk] ∧
        At lex.skipBlockComment.2 (before ++ (body ++ [asterisk, slash])) rest' := by
  fun_induction skipBlockComment lex generalizing before rest with
  | case1 lex h =>
    obtain rfl := a.rest_nil h
    refine .inl ⟨rfl, ?_⟩
    rw [List.append_nil]
    exact a
  | case2 lex c h ends =>
    obtain ⟨rfl, slashed⟩ := ends
    obtain ⟨rest, rfl⟩ := a.rest_of_cur h
    obtain ⟨rest, rfl⟩ := a.advance.rest_of_peekChar (by decide) slashed
    refine .inr ⟨[], rest, rfl, rfl, ?_, ?_⟩
    · decide
    · have past := a.advance.advance
      rw [List.append_assoc] at past
      exact past
  | case3 lex c h goes_on ih =>
    obtain ⟨rest, rfl⟩ := a.rest_of_cur h
    obtain ⟨ended, at_end⟩ | ⟨body, rest', ended, rfl, first, at_end⟩ := ih a.advance
    · refine .inl ⟨ended, ?_⟩
      rw [List.append_cons]
      exact at_end
    · refine .inr ⟨c :: body, rest', ended, rfl, ?_, ?_⟩
      · intro inside
        obtain opens | later := List.infix_cons_iff.mp inside
        · obtain ⟨starred, slashed⟩ := List.cons_prefix_cons.mp opens
          cases body with
          | nil => exact absurd (List.cons_prefix_cons.mp slashed).1 (by decide)
          | cons d body =>
            obtain ⟨rfl, -⟩ := List.cons_prefix_cons.mp slashed
            exact goes_on ⟨starred.symm, a.advance.peekChar⟩
        · exact first later
      · rw [List.cons_append, List.append_cons]
        exact at_end

/-! ### Tokens -/

/-- A scan that began at `start` and, with the lexer between `before` and `rest`, has come to the end of a token. -/
structure Scanned (start : CandoLexer) (before rest : Str) (r : CandoToken × CandoLexer) : Prop where
  passed : ∃ text rest', rest = text ++ rest' ∧ At r.2 (before ++ text) rest'
  token : ∃ type, type ≠ .tokEof ∧ r.1 = r.2.makeToken type start

namespace Scanned

variable {r : CandoToken × CandoLexer} {type : CandoTokenType}

lemma of_at {rest' : Str} (a : At lex (before ++ text) rest') (ne : type ≠ .tokEof) :
    Scanned start before (text ++ rest') (lex.token type start) :=
  ⟨⟨text, rest', rfl, a⟩, type, ne, rfl⟩

lemma here (a : At lex before rest) (ne : type ≠ .tokEof) : Scanned start before rest (lex.token type start) :=
  ⟨⟨[], rest, rfl, by rw [List.append_nil]; exact a⟩, type, ne, rfl⟩

lemma error (a : At lex before rest) (msg : String) : Scanned start before rest (lex.error start msg) :=
  ⟨⟨[], rest, rfl, by rw [List.append_nil]; exact a.error _⟩, .tokError, by decide, rfl⟩

lemma cons (h : Scanned start (before ++ [c]) rest r) : Scanned start before (c :: rest) r := by
  obtain ⟨⟨text, rest', rfl, a⟩, token⟩ := h
  refine ⟨⟨c :: text, rest', rfl, ?_⟩, token⟩
  rw [List.append_cons]
  exact a

lemma append (h : Scanned start (before ++ text) rest r) : Scanned start before (text ++ rest) r := by
  obtain ⟨⟨text', rest', rfl, a⟩, token⟩ := h
  refine ⟨⟨text ++ text', rest', (List.append_assoc _ _ _).symm, ?_⟩, token⟩
  rw [← List.append_assoc]
  exact a

end Scanned

lemma stringLoop_scanned {quote : UInt8} {type : CandoTokenType} {msg : String} (ne : type ≠ .tokEof)
    (a : At lex before rest) : Scanned start before rest (lex.stringLoop quote type msg start) := by
  fun_induction stringLoop quote type msg lex start generalizing before rest with
  | case1 lex h => exact .error a msg
  | case2 lex at_end h =>
    obtain ⟨rest, rfl⟩ := a.rest_of_cur h
    exact .cons (.error a.advance msg)
  | case3 lex d at_d h ih =>
    obtain ⟨rest, rfl⟩ := a.rest_of_cur h
    obtain ⟨rest, rfl⟩ := a.advance.rest_of_cur at_d
    exact .cons (.cons (ih a.advance.advance))
  | case4 lex h =>
    obtain ⟨rest, rfl⟩ := a.rest_of_cur h
    exact .cons (.here a.advance ne)
  | case5 lex c h _ _ ih =>
    obtain ⟨rest, rfl⟩ := a.rest_of_cur h
    exact .cons (ih a.advance)

lemma skipInterpolation_spec {depth : Int32} (a : At lex before rest) :
    ∃ text rest', rest = text ++ rest' ∧ At (lex.skipInterpolation depth).2 (before ++ text) rest' := by
  fun_induction skipInterpolation lex depth generalizing before rest with
  | case1 lex depth _ h => exact ⟨[], rest, rfl, by rw [List.append_nil]; exact a⟩
  | case2 lex depth _ c h ih =>
    obtain ⟨rest, rfl⟩ := a.rest_of_cur h
    obtain ⟨text, rest', rfl, past⟩ := ih a.advance
    refine ⟨c :: text, rest', rfl, ?_⟩
    rw [List.append_cons]
    exact past
  | case3 lex depth => exact ⟨[], rest, rfl, by rw [List.append_nil]; exact a⟩

lemma stringBt_scanned (a : At lex before rest) : Scanned start before rest (lex.stringBt start) := by
  fun_induction stringBt lex start generalizing before rest with
  | case1 lex h => exact .error a _
  | case2 lex at_end h =>
    obtain ⟨rest, rfl⟩ := a.rest_of_cur h
    exact .cons (.error a.advance _)
  | case3 lex d at_d h ih =>
    obtain ⟨rest, rfl⟩ := a.rest_of_cur h
    obtain ⟨rest, rfl⟩ := a.advance.rest_of_cur at_d
    exact .cons (.cons (ih a.advance.advance))
  | case4 lex c h _ opens inner =>
    obtain ⟨rest, rfl⟩ := a.rest_of_cur h
    obtain ⟨rest, rfl⟩ := a.advance.rest_of_peekChar (by decide) opens.2
    obtain ⟨text, rest, rfl, past⟩ := skipInterpolation_spec a.advance.advance
    exact .cons (.cons (.append (.error past _)))
  | case5 lex c h _ opens inner _ =>
    rename_i ih
    obtain ⟨rest, rfl⟩ := a.rest_of_cur h
    obtain ⟨rest, rfl⟩ := a.advance.rest_of_peekChar (by decide) opens.2
    obtain ⟨text, rest, rfl, past⟩ := skipInterpolation_spec a.advance.advance
    exact .cons (.cons (.append (ih past)))
  | case6 lex h =>
    obtain ⟨rest, rfl⟩ := a.rest_of_cur h
    exact .cons (.here a.advance (by decide))
  | case7 lex c h _ _ _ ih =>
    obtain ⟨rest, rfl⟩ := a.rest_of_cur h
    exact .cons (ih a.advance)

lemma number_scanned (a : At lex before rest) : Scanned start before rest (lex.number start) := by
  have digits := skipWhile_spec (p := isDecimal) a
  have whole := List.takeWhile_append_dropWhile (p := isDecimal) (l := rest)
  rw [number]
  split
  · rename_i fraction
    obtain ⟨rest', more⟩ := digits.rest_of_peekChar (by decide) fraction.1
    rw [more] at digits whole
    have decimals := skipWhile_spec (p := isDecimal) digits.advance
    have whole' := List.takeWhile_append_dropWhile (p := isDecimal) (l := rest')
    rw [← whole, ← whole']
    exact .append (.cons (.of_at decimals (by decide)))
  · rw [← whole]
    exact .of_at digits (by decide)

lemma candoKeywordType_ne (ident : Str) : candoKeywordType ident ≠ .tokEof := by
  have table : ∀ k ∈ keywords, k.2 ≠ .tokEof := by decide
  rw [candoKeywordType]
  split
  · decide
  · split
    · rename_i k found
      exact table k (List.mem_of_find?_eq_some found)
    · decide

lemma ident_scanned (a : At lex before rest) : Scanned start before rest (lex.ident start) := by
  have whole := List.takeWhile_append_dropWhile (p := fun c => isAlpha c || isDecimal c || c == ch '_') (l := rest)
  have past := skipWhile_spec (p := fun c => isAlpha c || isDecimal c || c == ch '_') a
  rw [ident, ← whole]
  exact .of_at past (candoKeywordType_ne _)

/-- A table of second bytes: none of them ends a line, and no type is that of the end. -/
def Follows (follow : List (UInt8 × CandoTokenType)) : Prop := ∀ k ∈ follow, k.1 ≠ lineFeed ∧ k.2 ≠ .tokEof

instance : DecidablePred Follows := fun follow =>
  inferInstanceAs (Decidable (∀ k ∈ follow, k.1 ≠ lineFeed ∧ k.2 ≠ .tokEof))

lemma operator_scanned {type : CandoTokenType} {follow : List (UInt8 × CandoTokenType)} (ne : type ≠ .tokEof)
    (follows : Follows follow) (a : At lex before rest) :
    Scanned start before rest (lex.operator start type follow) := by
  induction follow with
  | nil => exact .here a ne
  | cons k follow ih =>
    obtain ⟨c, two⟩ := k
    obtain ⟨⟨plain, ne'⟩, follows⟩ := List.forall_mem_cons.mp follows
    rw [operator, matchChar]
    by_cases found : lex.cur = some c
    · rw [if_pos found]
      obtain ⟨rest, rfl⟩ := a.rest_of_cur found
      exact .cons (.here (a.pass plain) ne')
    · rw [if_neg found]
      exact ih follows

lemma unexpected_scanned (a : At lex before rest) : Scanned start before rest (lex.unexpected start c) := .error a _

lemma singleTokens_ne : ∀ k ∈ singleTokens, k.2 ≠ .tokEof := by decide

lemma operatorTokens_follow : ∀ k ∈ operatorTokens, Follows k.2.1 ∧ k.2.2 ≠ .tokEof := by decide

lemma mem_of_lookup {β : Type} {l : List (UInt8 × β)} {x : β} (h : l.lookup c = some x) : (c, x) ∈ l := by
  obtain ⟨l₁, l₂, rfl, -⟩ := List.lookup_eq_some_iff.mp h
  exact List.mem_append_right l₁ List.mem_cons_self

/-- Whatever byte the token begins with, it is scanned. -/
lemma scanToken_scanned (a : At lex before rest) : Scanned start before rest (lex.scanToken start c) := by
  rw [scanToken]
  split
  · rename_i type _ found
    exact .here a (singleTokens_ne _ (mem_of_lookup found))
  · rename_i follow type _ found
    obtain ⟨follows, ne⟩ := operatorTokens_follow _ (mem_of_lookup found)
    exact operator_scanned ne follows a
  · refine iteInduction (fun _ => ?_) fun _ => iteInduction (fun _ => ?_) fun _ => ?_
    · refine iteInduction (fun dots => ?_) fun _ => .here a (by decide)
      obtain ⟨rest, rfl⟩ := a.rest_of_peekChar (by decide) dots.1
      obtain ⟨rest, rfl⟩ := a.rest_of_peekChar2 (by decide) dots.2
      exact .cons (.cons (.here a.advance.advance (by decide)))
    · refine iteInduction (fun filter => ?_) fun _ => operator_scanned (by decide) (by decide) a
      obtain ⟨rest, rfl⟩ := a.rest_of_peekChar (by decide) filter.1
      obtain ⟨rest, rfl⟩ := a.rest_of_second filter.2
      exact .cons (.cons (.here a.advance.advance (by decide)))
    · refine iteInduction (fun _ => stringLoop_scanned (by decide) a) fun _ => ?_
      refine iteInduction (fun _ => stringLoop_scanned (by decide) a) fun _ => ?_
      refine iteInduction (fun _ => stringBt_scanned a) fun _ => ?_
      refine iteInduction (fun _ => number_scanned a) fun _ => ?_
      exact iteInduction (fun _ => ident_scanned a) fun _ => unexpected_scanned a

/-! ### One call -/

lemma makeToken_marks {type : CandoTokenType} (s : At start before (text ++ rest)) (a : At lex (before ++ text) rest) :
    (lex.makeToken type start).Marks before text where
  start := s.pos
  length := by
    simp only [makeToken, a.pos, s.pos, List.length_append, Nat.add_sub_cancel_left]
  line := s.line
  col := by
    have col : start.pos - start.lineStart = (lastLine before).length := by
      have lineStart := s.lineStart
      rw [s.pos]
      omega
    simp only [makeToken, col, colOf]
    omega

/-- A call of `cando_lexer_next` between `before` and `rest`: a blank is skipped, then comes a token, or the end. -/
structure Yields (before rest : Str) (r : CandoToken × CandoLexer) (gap text rest' : Str) : Prop where
  split : rest = gap ++ (text ++ rest')
  blank : Blank gap (text ++ rest')
  at_end : At r.2 (before ++ gap ++ text) rest'
  marks : r.1.Marks (before ++ gap) text
  eof : r.1.type = .tokEof → text = [] ∧ rest' = []
  other : r.1.type ≠ .tokEof → text ≠ []

lemma Yields.behind {gap gap' text rest' : Str} {r : CandoToken × CandoLexer}
    (blank : Blank gap rest) (y : Yields (before ++ gap) rest r gap' text rest') :
    Yields before (gap ++ rest) r (gap ++ gap') text rest' where
  split := by rw [List.append_assoc, ← y.split]
  blank := .append (y.split ▸ blank) y.blank
  at_end := by
    rw [← List.append_assoc before]
    exact y.at_end
  marks := by
    rw [← List.append_assoc before]
    exact y.marks
  eof := y.eof
  other := y.other

/-- A token that has been scanned from its first byte on. -/
lemma Scanned.yields {r : CandoToken × CandoLexer} (s : At start before (c :: rest))
    (h : Scanned start (before ++ [c]) rest r) : ∃ text rest', Yields before (c :: rest) r [] text rest' := by
  obtain ⟨⟨text, rest', rfl, a⟩, type, ne, tok⟩ := h
  rw [List.append_assoc] at a
  refine ⟨c :: text, rest', rfl, .nil, ?_, ?_, fun e => ?_, fun _ => List.cons_ne_nil _ _⟩
  · rw [List.append_nil]
    exact a
  · rw [List.append_nil, tok]
    have marks : (r.2.makeToken type start).Marks before (c :: text) := makeToken_marks s a
    exact marks
  · rw [tok] at e
    exact absurd e ne

/-- A line comment, from its two slashes up to the end of the line. -/
lemma line_comment (a : At lex before (slash :: slash :: rest)) :
    ∃ m rest', slash :: slash :: rest = m ++ rest' ∧ Blank m rest' ∧
      At lex.advance.advance.skipLineComment (before ++ m) rest' := by
  refine ⟨slash :: slash :: rest.takeWhile (· != lineFeed), rest.dropWhile (· != lineFeed), ?_, ?_, ?_⟩
  · rw [List.cons_append, List.cons_append, List.takeWhile_append_dropWhile]
  · have com : Comment (slash :: slash :: rest.takeWhile (· != lineFeed)) (rest.dropWhile (· != lineFeed)) := by
      refine .line (fun mem => ?_) fun c first => ?_
      · have other := List.mem_takeWhile_imp mem
        cases other
      · have fails := List.head?_dropWhile_not (p := (· != lineFeed)) (l := rest)
        rw [first] at fails
        simpa using fails
    have blank := Blank.comment (s := []) com .nil
    rw [List.append_nil] at blank
    exact blank
  · have past := skipWhile_spec (p := (· != lineFeed)) a.advance.advance
    rw [List.append_cons, List.append_cons]
    exact past

lemma block_comment (a : At lex before (slash :: asterisk :: rest)) :
    (lex.advance.advance.skipBlockComment.1 = false ∧
      At lex.advance.advance.skipBlockComment.2 (before ++ (slash :: asterisk :: rest)) []) ∨
    ∃ m rest', lex.advance.advance.skipBlockComment.1 = true ∧ slash :: asterisk :: rest = m ++ rest' ∧
      Blank m rest' ∧ At lex.advance.advance.skipBlockComment.2 (before ++ m) rest' := by
  obtain ⟨open_end, past⟩ | ⟨body, rest', ended, rfl, first, past⟩ := skipBlockComment_spec a.advance.advance
  · refine .inl ⟨open_end, ?_⟩
    rw [List.append_cons, List.append_cons]
    exact past
  · refine .inr ⟨slash :: asterisk :: body ++ [asterisk, slash], rest', ended, ?_, ?_, ?_⟩
    · simp only [List.cons_append, List.append_assoc]
    · have blank := Blank.comment (s := []) (.block (r := [] ++ rest') first) .nil
      rw [List.append_nil] at blank
      exact blank
    · rw [List.cons_append, List.cons_append, List.append_cons, List.append_cons]
      exact past

lemma behind_blank {gap : Str} {r : CandoToken × CandoLexer} (blank : Blank gap rest)
    (h : ∃ gap' text rest', Yields (before ++ gap) rest r gap' text rest') :
    ∃ gap' text rest', Yields before (gap ++ rest) r gap' text rest' := by
  obtain ⟨gap', text, rest', y⟩ := h
  exact ⟨gap ++ gap', text, rest', y.behind blank⟩

/-- The white space at the beginning is skipped. -/
lemma behind_space {r : CandoToken × CandoLexer} (a : At lex before rest)
    (h : ∀ {before rest : Str}, At (lex.skipWhile isWhite) before rest →
      ∃ gap text rest', Yields before rest r gap text rest') :
    ∃ gap text rest', Yields before rest r gap text rest' := by
  have white : ∀ c ∈ rest.takeWhile isWhite, isWhite c = true := fun c mem => List.mem_takeWhile_imp mem
  have found := behind_blank (.spaces white) (h (skipWhile_spec (p := isWhite) a))
  rw [List.takeWhile_append_dropWhile] at found
  exact found

/-- One call, by its turns through the switch. -/
lemma next_spec (a : At lex before rest) : ∃ gap text rest', Yields before rest lex.next gap text rest' := by
  fun_induction next lex generalizing before rest with
  | case1 lex start =>
    rename_i at_end
    refine behind_space a fun {before rest} s => ?_
    obtain rfl := s.rest_nil at_end
    refine ⟨[], [], [], rfl, .nil, ?_, ?_, fun _ => ⟨rfl, rfl⟩, fun ne => absurd rfl ne⟩
    · rw [List.append_nil, List.append_nil]
      exact s
    · rw [List.append_nil]
      have here : At start (before ++ []) [] := by
        rw [List.append_nil]
        exact s
      exact makeToken_marks s here
  | case2 lex start =>
    rename_i c at_c opens ih
    refine behind_space a fun {before rest} s => ?_
    obtain ⟨rest, rfl⟩ := s.rest_of_cur at_c
    obtain ⟨rfl, slashed⟩ := opens
    obtain ⟨rest, rfl⟩ := s.advance.rest_of_peekChar (by decide) slashed
    obtain ⟨m, rest', whole, blank, past⟩ := line_comment s
    rw [whole]
    exact behind_blank blank (ih past)
  | case3 lex start =>
    rename_i c at_c _ opens comment ended ih
    refine behind_space a fun {before rest} s => ?_
    obtain ⟨rest, rfl⟩ := s.rest_of_cur at_c
    obtain ⟨rfl, starred⟩ := opens
    obtain ⟨rest, rfl⟩ := s.advance.rest_of_peekChar (by decide) starred
    obtain ⟨open_end, -⟩ | ⟨m, rest', -, whole, blank, past⟩ := block_comment s
    · exact absurd (ended.symm.trans open_end) (by decide)
    · rw [whole]
      exact behind_blank blank (ih past)
  | case4 lex start =>
    rename_i c at_c _ opens comment open_end
    refine behind_space a fun {before rest} s => ?_
    obtain ⟨rest, rfl⟩ := s.rest_of_cur at_c
    obtain ⟨rfl, starred⟩ := opens
    obtain ⟨rest, rfl⟩ := s.advance.rest_of_peekChar (by decide) starred
    obtain ⟨-, past⟩ | ⟨m, rest', ended, -⟩ := block_comment s
    · have scanned := Scanned.yields s (r := comment.2.error start "unterminated block comment")
        ⟨⟨asterisk :: rest, [], (List.append_nil _).symm, ?_⟩, .tokError, by decide, rfl⟩
      · obtain ⟨text, rest', y⟩ := scanned
        exact ⟨[], text, rest', y⟩
      · rw [← List.append_cons]
        exact past.error _
    · exact absurd ended open_end
  | case5 lex start =>
    rename_i c at_c _ _
    refine behind_space a fun {before rest} s => ?_
    obtain ⟨rest, rfl⟩ := s.rest_of_cur at_c
    obtain ⟨text, rest', y⟩ := Scanned.yields s (scanToken_scanned s.advance)
    exact ⟨[], text, rest', y⟩

/-- `cando_lexer_peek` yields what `cando_lexer_next` would, and leaves the lexer as it is. -/
lemma peek_spec (a : At lex before rest) : lex.peek = (lex.next.1, lex) := by
  obtain ⟨gap, text, rest', y⟩ := next_spec a
  have source : lex.next.2.source = lex.source := by
    rw [y.at_end.source, a.source, y.split]
    simp only [List.append_assoc]
  rw [peek]
  simp only [source]

end CandoLexer

/-! ### All calls -/

/-- The tokens that a number of calls of `cando_lexer_next` yield, up to the one at the end. -/
def tokensFrom : Nat → CandoLexer → List CandoToken
  | 0, _ => []
  | n + 1, lex => if lex.next.1.type = .tokEof then [lex.next.1] else lex.next.1 :: tokensFrom n lex.next.2

/-- The tokens of a source. -/
def tokensOf (src : Str) : List CandoToken := tokensFrom (src.length + 1) { source := src }

/-- The lexers that calls of `cando_lexer_next` lead to. -/
inductive LexerReached (src : Str) : CandoLexer → Prop where
  | init : LexerReached src { source := src }
  | next {lex : CandoLexer} (reached : LexerReached src lex) : LexerReached src lex.next.2

/-- The tokens cover a byte. -/
def Covered (toks : List CandoToken) (i : Nat) : Prop := ∃ t ∈ toks, t.start ≤ i ∧ i < t.start + t.length

/-- A comment covers a byte, and no token reaches into it. -/
def InComment (src : Str) (toks : List CandoToken) (i : Nat) : Prop :=
  ∃ a m r, src = a ++ m ++ r ∧ Comment m r ∧ a.length ≤ i ∧ i < a.length + m.length ∧
    ∀ t ∈ toks, t.start + t.length ≤ a.length ∨ a.length + m.length ≤ t.start

/-- What the lexer is to make of a source. -/
structure LexesWell (src : Str) : Prop where
  /-- the tokens end in the one at the end of the source, and the others have a text -/
  ends : ∃ front eof, tokensOf src = front ++ [eof] ∧ eof.type = .tokEof ∧ eof.start = src.length ∧ eof.length = 0 ∧
    ∀ t ∈ front, t.type ≠ .tokEof ∧ 0 < t.length
  /-- they lie in the source one behind the other -/
  inOrder : (tokensOf src).Pairwise fun t t' => t.start + t.length ≤ t'.start
  inside : ∀ t ∈ tokensOf src, t.start + t.length ≤ src.length
  /-- what no token covers is white space or comment -/
  outside : ∀ i c, src[i]? = some c → Covered (tokensOf src) i ∨ isWhite c = true ∨ InComment src (tokensOf src) i
  /-- the lines and columns are those of the first bytes -/
  positions : ∀ t ∈ tokensOf src, t.line = lineOf (src.take t.start) ∧ t.col = colOf (src.take t.start)
  /-- `cando_lexer_peek` foretells the token and changes nothing -/
  peeks : ∀ lex, LexerReached src lex → lex.peek = (lex.next.1, lex)

/-- The tokens of the source behind `before`, with the blanks in front of them. -/
inductive Tiled (src : Str) : Str → List CandoToken → Prop where
  | eof {before gap : Str} {tok : CandoToken} (split : src = before ++ gap) (blank : Blank gap [])
      (eof : tok.type = .tokEof) (marks : tok.Marks (before ++ gap) []) : Tiled src before [tok]
  | tok {before gap text rest : Str} {tok : CandoToken} {toks : List CandoToken}
      (split : src = before ++ gap ++ text ++ rest) (blank : Blank gap (text ++ rest)) (type : tok.type ≠ .tokEof)
      (nonempty : text ≠ []) (marks : tok.Marks (before ++ gap) text)
      (more : Tiled src (before ++ gap ++ text) toks) : Tiled src before (tok :: toks)

/-- The calls tile the source. -/
lemma tokensFrom_tiled {n : Nat} {src : Str} (a : lex.At before rest) (split : src = before ++ rest)
    (enough : rest.length < n) : Tiled src before (tokensFrom n lex) := by
  induction n generalizing lex before rest with
  | zero => exact absurd enough (Nat.not_lt_zero _)
  | succ n ih =>
    obtain ⟨gap, text, rest', y⟩ := CandoLexer.next_spec a
    have whole : src = before ++ gap ++ text ++ rest' := by
      rw [split, y.split]
      simp only [List.append_assoc]
    rw [tokensFrom]
    by_cases eof : lex.next.1.type = .tokEof
    · rw [if_pos eof]
      obtain ⟨rfl, rfl⟩ := y.eof eof
      rw [List.append_nil, List.append_nil] at whole
      exact .eof whole y.blank eof y.marks
    · rw [if_neg eof]
      have nonempty := y.other eof
      refine .tok whole y.blank eof nonempty y.marks (ih y.at_end whole ?_)
      have length := congrArg List.length y.split
      have pos := List.length_pos_iff.mpr nonempty
      rw [List.length_append, List.length_append] at length
      omega

namespace Tiled

variable {src : Str} {toks : List CandoToken} {t : CandoToken}

lemma start_le (tiled : Tiled src before toks) (mem : t ∈ toks) : before.length ≤ t.start := by
  induction tiled with
  | eof split blank eof marks =>
    obtain rfl := List.mem_singleton.mp mem
    rw [marks.start, List.length_append]
    exact Nat.le_add_right _ _
  | tok split blank type nonempty marks more ih =>
    rcases List.mem_cons.mp mem with rfl | mem
    · rw [marks.start, List.length_append]
      exact Nat.le_add_right _ _
    · have le := ih mem
      rw [List.length_append, List.length_append] at le
      omega

/-- Each token is that of a stretch of the source. -/
lemma stretch (tiled : Tiled src before toks) (mem : t ∈ toks) :
    ∃ front text rest, src = front ++ text ++ rest ∧ t.Marks front text ∧
      (t.type = .tokEof → front = src ∧ text = []) ∧ (t.type ≠ .tokEof → text ≠ []) := by
  induction tiled with
  | @eof before gap tok split blank eof marks =>
    obtain rfl := List.mem_singleton.mp mem
    refine ⟨before ++ gap, [], [], ?_, marks, fun _ => ⟨split.symm, rfl⟩, fun ne => absurd eof ne⟩
    rw [List.append_nil, List.append_nil]
    exact split
  | @tok before gap text rest tok toks split blank type nonempty marks more ih =>
    rcases List.mem_cons.mp mem with rfl | mem
    · exact ⟨before ++ gap, text, rest, split, marks, fun e => absurd e type, fun _ => nonempty⟩
    · exact ih mem

variable (small : src.length < 4294967296)

include small in
/-- Where a token ends. -/
lemma length_eq {front text rest : Str} (split : src = front ++ text ++ rest) (marks : t.Marks front text) :
    t.length = text.length ∧ t.start + text.length ≤ src.length := by
  have whole := congrArg List.length split
  rw [List.length_append, List.length_append] at whole
  rw [marks.length, marks.start, Nat.mod_eq_of_lt (by omega)]
  exact ⟨rfl, by omega⟩

include small in
lemma inside (tiled : Tiled src before toks) (mem : t ∈ toks) : t.start + t.length ≤ src.length := by
  obtain ⟨front, text, rest, split, marks, -, -⟩ := tiled.stretch mem
  obtain ⟨length, le⟩ := length_eq small split marks
  rw [length]
  exact le

include small in
lemma ends (tiled : Tiled src before toks) :
    ∃ front eof, toks = front ++ [eof] ∧ eof.type = .tokEof ∧ eof.start = src.length ∧ eof.length = 0 ∧
      ∀ t ∈ front, t.type ≠ .tokEof ∧ 0 < t.length := by
  induction tiled with
  | eof split blank eof marks =>
    refine ⟨[], _, rfl, eof, ?_, marks.length, by simp⟩
    rw [marks.start, ← split]
  | @tok before gap text rest tok toks split blank type nonempty marks more ih =>
    obtain ⟨front, eof, rfl, is_eof, start, length, others⟩ := ih
    refine ⟨tok :: front, eof, rfl, is_eof, start, length, List.forall_mem_cons.mpr ⟨⟨type, ?_⟩, others⟩⟩
    rw [(length_eq small split marks).1]
    exact List.length_pos_iff.mpr nonempty

include small in
lemma inOrder (tiled : Tiled src before toks) : toks.Pairwise fun t t' => t.start + t.length ≤ t'.start := by
  induction tiled with
  | eof => exact List.pairwise_singleton _ _
  | @tok before gap text rest tok toks split blank type nonempty marks more ih =>
    refine List.pairwise_cons.mpr ⟨fun t mem => ?_, ih⟩
    have le := more.start_le mem
    rw [List.length_append] at le
    rw [marks.start, (length_eq small split marks).1]
    exact le

/-- A byte of the blank behind `before`. -/
lemma gap_get {gap tail : Str} {i : Nat} (split : src = before ++ gap ++ tail) (blank : Blank gap tail)
    (behind : before.length ≤ i) (inside : i < (before ++ gap).length) (here : src[i]? = some c) :
    isWhite c = true ∨ ∃ a m r, src = a ++ m ++ r ∧ Comment m r ∧ before.length ≤ a.length ∧ a.length ≤ i ∧
      i < a.length + m.length ∧ a.length + m.length ≤ (before ++ gap).length := by
  rw [List.length_append] at inside
  have in_gap : gap[i - before.length]? = some c := by
    rw [split, List.append_assoc, List.getElem?_append_right behind, List.getElem?_append_left (by omega)] at here
    exact here
  obtain white | ⟨a, m, d, rfl, com, le, lt⟩ := blank.get in_gap
  · exact .inl white
  · refine .inr ⟨before ++ a, m, d ++ tail, ?_, com, ?_, ?_, ?_, ?_⟩
    · rw [split]
      simp only [List.append_assoc]
    · rw [List.length_append]
      exact Nat.le_add_right _ _
    · rw [List.length_append]
      omega
    · rw [List.length_append]
      omega
    · simp only [List.length_append]
      omega

include small in
/-- Behind `before` each byte is in a token, or is white space, or in a comment that no token reaches into. -/
lemma outside (tiled : Tiled src before toks) {i : Nat} (behind : before.length ≤ i) (here : src[i]? = some c) :
    Covered toks i ∨ isWhite c = true ∨
      ∃ a m r, src = a ++ m ++ r ∧ Comment m r ∧ before.length ≤ a.length ∧ a.length ≤ i ∧ i < a.length + m.length ∧
        ∀ t ∈ toks, t.start + t.length ≤ a.length ∨ a.length + m.length ≤ t.start := by
  induction tiled with
  | @eof before gap tok split blank eof marks =>
    have inside : i < (before ++ gap).length := split ▸ (List.getElem?_eq_some_iff.mp here).1
    have whole : src = before ++ gap ++ [] := by
      rw [List.append_nil]
      exact split
    obtain white | ⟨a, m, r, parts, com, far, le, lt, short⟩ := gap_get whole blank behind inside here
    · exact .inr (.inl white)
    · refine .inr (.inr ⟨a, m, r, parts, com, far, le, lt, fun t mem => .inr ?_⟩)
      obtain rfl := List.mem_singleton.mp mem
      rw [marks.start]
      exact short
  | @tok before gap text rest tok toks split blank type nonempty marks more ih =>
    have length := (length_eq small split marks).1
    by_cases in_gap : i < (before ++ gap).length
    · have whole : src = before ++ gap ++ (text ++ rest) := by
        rw [split]
        simp only [List.append_assoc]
      obtain white | ⟨a, m, r, parts, com, far, le, lt, short⟩ := gap_get whole blank behind in_gap here
      · exact .inr (.inl white)
      · refine .inr (.inr ⟨a, m, r, parts, com, far, le, lt, List.forall_mem_cons.mpr ⟨?_, fun t mem => ?_⟩⟩)
        · rw [marks.start]
          exact .inr short
        · have start := more.start_le mem
          rw [List.length_append] at start
          exact .inr (by omega)
    · by_cases in_text : i < (before ++ gap ++ text).length
      · refine .inl ⟨tok, List.mem_cons_self, ?_, ?_⟩
        · rw [marks.start]
          omega
        · rw [marks.start, length, ← List.length_append]
          exact in_text
      · obtain ⟨t, mem, covers⟩ | white | ⟨a, m, r, parts, com, far, le, lt, apart⟩ := ih (Nat.le_of_not_lt in_text)
        · exact .inl ⟨t, List.mem_cons_of_mem tok mem, covers⟩
        · exact .inr (.inl white)
        · refine .inr (.inr ⟨a, m, r, parts, com, ?_, le, lt, List.forall_mem_cons.mpr ⟨.inl ?_, apart⟩⟩)
          · simp only [List.length_append] at far
            omega
          · rw [marks.start, length, ← List.length_append]
            exact far

end Tiled

/-! ### The longest sources -/

/-- The source is not one of the longest, or it has a line end and something else as well. -/
def Numbered (src : Str) : Prop := src.length + 1 < 4294967296 ∨ lineFeed ∈ src ∧ ∃ c ∈ src, c ≠ lineFeed

/-- Lines and columns fit into 32 bits. -/
lemma Numbered.fits {src : Str} (small : src.length < 4294967296) (n : Numbered src) (front : before <+: src) :
    lineOf before < 4294967296 ∧ colOf before < 4294967296 := by
  have last := lastLine_le_count before
  obtain short | ⟨ended, c, mem, other⟩ := n
  · have le := front.length_le
    have lines := List.count_le_length (a := lineFeed) (l := before)
    have cols := lastLine_le before
    rw [lineOf, colOf]
    omega
  · have lines := countP_lt (p := (· == lineFeed)) front ⟨c, mem, beq_eq_false_iff_ne.mpr other⟩
    have cols := countP_lt (p := (· != lineFeed)) front ⟨lineFeed, ended, rfl⟩
    rw [← List.count_eq_countP] at lines
    rw [lineOf, colOf]
    omega

/-- If line and column of the end fit into 32 bits, the source is none of those. -/
lemma numbered_of_fits {src : Str} (small : src.length < 4294967296) (line : lineOf src < 4294967296)
    (col : colOf src < 4294967296) : Numbered src := by
  by_cases short : src.length + 1 < 4294967296
  · exact .inl short
  · refine .inr ⟨?_, ?_⟩
    · by_contra none
      have one_line : lastLine src = src.reverse :=
        List.takeWhile_eq_self_iff.mpr fun c mem => bne_iff_ne.mpr fun e => none (e ▸ List.mem_reverse.mp mem)
      rw [colOf, one_line, List.length_reverse] at col
      omega
    · by_contra none
      have all : src.count lineFeed = src.length :=
        List.count_eq_length.mpr fun c mem => by_contra fun ne => none ⟨c, mem, fun e => ne e.symm⟩
      rw [lineOf, all] at line
      omega

lemma LexerReached.at {src : Str} (reached : LexerReached src lex) : ∃ before rest, lex.At before rest := by
  induction reached with
  | init => exact ⟨[], src, .init src⟩
  | next _ ih =>
    obtain ⟨before, rest, a⟩ := ih
    obtain ⟨gap, text, rest', y⟩ := CandoLexer.next_spec a
    exact ⟨before ++ gap ++ text, rest', y.at_end⟩

lemma tokensOf_tiled (src : Str) : Tiled src [] (tokensOf src) :=
  tokensFrom_tiled (.init src) rfl (Nat.lt_succ_self _)

/-- Where the lexer does what it is to do, the end has a line and a column. -/
lemma LexesWell.numbered {src : Str} (small : src.length < 4294967296) (well : LexesWell src) : Numbered src := by
  obtain ⟨front, eof, split, is_eof, start, -, -⟩ := well.ends
  have mem : eof ∈ tokensOf src := by
    rw [split]
    exact List.mem_append_right front List.mem_cons_self
  obtain ⟨line, col⟩ := well.positions eof mem
  obtain ⟨before, text, rest, -, marks, whole, -⟩ := (tokensOf_tiled src).stretch mem
  obtain ⟨rfl, -⟩ := whole is_eof
  rw [start, List.take_length] at line col
  refine numbered_of_fits small ?_ ?_
  · rw [← line, marks.line]
    exact Nat.mod_lt _ (Nat.succ_pos _)
  · rw [← col, marks.col]
    exact Nat.mod_lt _ (Nat.succ_pos _)

lemma Numbered.lexesWell {src : Str} (small : src.length < 4294967296) (numbered : Numbered src) :
    LexesWell src := by
  have tiled := tokensOf_tiled src
  constructor
  · exact tiled.ends small
  · exact tiled.inOrder small
  · exact fun t mem => tiled.inside small mem
  · intro i c here
    obtain covered | white | ⟨a, m, r, parts, com, -, le, lt, apart⟩ := tiled.outside small (Nat.zero_le i) here
    · exact .inl covered
    · exact .inr (.inl white)
    · exact .inr (.inr ⟨a, m, r, parts, com, le, lt, apart⟩)
  · intro t mem
    obtain ⟨before, text, rest, split, marks, -, -⟩ := tiled.stretch mem
    have front : before <+: src := ⟨text ++ rest, by rw [split, List.append_assoc]⟩
    obtain ⟨line, col⟩ := numbered.fits small front
    rw [marks.start, ← List.prefix_iff_eq_take.mp front, marks.line, marks.col, Nat.mod_eq_of_lt line,
      Nat.mod_eq_of_lt col]
    exact ⟨rfl, rfl⟩
  · intro lex reached
    obtain ⟨before, rest, a⟩ := reached.at
    exact CandoLexer.peek_spec a

/-- On a source shorter than 4 GiB the lexer does what it is to do just when the end has a line and a column. -/
theorem lexes_well_iff {src : Str} (small : src.length < 4294967296) : LexesWell src ↔ Numbered src :=
  ⟨fun well => well.numbered small, fun numbered => numbered.lexesWell small⟩

/-- A source of three bytes. -/
theorem lexes_well_iff_short : LexesWell [97, 10, 98] ↔ Numbered [97, 10, 98] := lexes_well_iff (by decide)

/-- On a line of `2 ^ 32 - 1` blanks the column of the end is zero. -/
theorem column_of_end_wraps :
    ¬ ∀ src : Str, src.length < 4294967296 → LexesWell src := by
  intro well
  have length : (List.replicate 4294967295 (32 : UInt8)).length = 4294967295 := List.length_replicate
  have small : (List.replicate 4294967295 (32 : UInt8)).length < 4294967296 := by omega
  obtain short | ⟨ended, -⟩ := (well _ small).numbered small
  · omega
  · exact absurd (List.eq_of_mem_replicate ended) (by decide)

end Cando
