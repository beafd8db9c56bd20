import Cando.Core.Number

/-!
# Tokens

`parser/token.h`: the types of tokens, the tokens, and the table of keywords (`parser/lexer.c`).
-/

namespace Cando

/-- `CandoTokenType`. -/
inductive CandoTokenType where
  | tokNumber | tokStringDq | tokStringSq | tokStringBt | tokIdent
  | tokIf | tokElse | tokWhile | tokFor | tokFunction | tokClass | tokReturn | tokThrow | tokTry | tokCatch | tokFinaly
  | tokConst | tokVar | tokGlobal | tokStatic | tokPrivate | tokAsync | tokAwait | tokThread | tokNullKw | tokTrueKw
  | tokFalseKw | tokIn | tokOf | tokOver | tokContinue | tokBreak | tokPipeKw
  | tokPipeOp | tokFilterOp | tokRangeAsc | tokRangeDesc | tokFluent | tokVararg | tokFatArrow | tokAnd | tokOr | tokEq
  | tokNeq | tokLeq | tokGeq | tokLshift | tokRshift | tokBitxor | tokPlusAssign | tokMinusAssign | tokStarAssign
  | tokSlashAssign | tokPercentAssign | tokCaretAssign | tokIncr | tokDecr
  | tokPlus | tokMinus | tokStar | tokSlash | tokPercent | tokCaret | tokAmp | tokBitor | tokLt | tokGt | tokAssign
  | tokBang | tokTilde | tokDot | tokHash | tokLparen | tokRparen | tokLbrace | tokRbrace | tokLbracket | tokRbracket
  | tokSemi | tokComma | tokColon
  | tokEof | tokError
  deriving DecidableEq, Repr

/-- A `CandoToken`; `start` is counted from the beginning of the source. -/
structure CandoToken where
  type : CandoTokenType
  start : Nat
  length : Nat
  line : Nat
  col : Nat
  deriving DecidableEq, Repr

/-! ### Character classes of the C locale -/

def isUpper (c : UInt8) : Bool := 65 ≤ c && c ≤ 90

def isLower (c : UInt8) : Bool := 97 ≤ c && c ≤ 122

def isAlpha (c : UInt8) : Bool := isUpper c || isLower c

def isDecimal (c : UInt8) : Bool := 48 ≤ c && c ≤ 57

/-- `tolower`. -/
def lowerCase (c : UInt8) : UInt8 := if isUpper c then c + 32 else c

/-! ### Keywords -/

/-- `KEYWORDS`. -/
def keywords : List (String × CandoTokenType) :=
  [("IF", .tokIf), ("ELSE", .tokElse), ("WHILE", .tokWhile), ("FOR", .tokFor), ("FUNCTION", .tokFunction),
    ("CLASS", .tokClass), ("RETURN", .tokReturn), ("THROW", .tokThrow), ("TRY", .tokTry), ("CATCH", .tokCatch),
    ("FINALY", .tokFinaly), ("CONST", .tokConst), ("VAR", .tokVar), ("GLOBAL", .tokGlobal), ("STATIC", .tokStatic),
    ("PRIVATE", .tokPrivate), ("ASYNC", .tokAsync), ("AWAIT", .tokAwait), ("THREAD", .tokThread), ("NULL", .tokNullKw),
    ("TRUE", .tokTrueKw), ("FALSE", .tokFalseKw), ("IN", .tokIn), ("OF", .tokOf), ("OVER", .tokOver),
    ("CONTINUE", .tokContinue), ("BREAK", .tokBreak), ("pipe", .tokPipeKw)]

/-- `cando_keyword_type`: a word in upper case or in lower case, but not a mixed one. -/
def candoKeywordType (ident : Str) : CandoTokenType :=
  if ident.any isUpper && ident.any isLower then .tokIdent
  else
    match keywords.find? fun k => (bytes k.1).map lowerCase == ident.map lowerCase with
    | some k => k.2
    | none => .tokIdent

end Cando
