import Cando.Compat.WinRegex
import Cando.Lib.Rounds

/-!
# The language of a regular expression

The syntax that `compat/win_regex.c` documents, as trees with their texts, and what a tree matches in a subject: from
what is left of the subject at the start of the match to what is left at its end.
-/

namespace Cando

namespace WinRegex

/-! ### Syntax -/

/-- An escape that stands for one byte: a control byte, or the byte itself. -/
inductive ByteEscape where
  | newline | tab | carriageReturn
  | other (c : UInt8)
  deriving DecidableEq, Repr

/-- An escape outside a class. -/
inductive Escape where
  | digit | nonDigit | word | nonWord | space | nonSpace
  | byte (e : ByteEscape)
  deriving DecidableEq, Repr

/-- A member of a class: a byte or a range. -/
inductive Member where
  | byte (c : UInt8)
  | escaped (e : ByteEscape)
  | range (lo hi : UInt8)
  | rangeTo (lo : UInt8) (hi : ByteEscape)
  deriving DecidableEq, Repr

/-- An atom that matches one byte. A class may be negated, and may begin with a `]`. -/
inductive Single where
  | literal (c : UInt8)
  | any
  | escape (e : Escape)
  | class (neg close : Bool) (members : List Member)
  deriving DecidableEq, Repr

inductive Quant where
  | once | optional | star | plus
  deriving DecidableEq, Repr

/-- The two levels of the grammar: sequences, and alternations of sequences. -/
inductive Level where
  | seq | alt

/-- A pattern. -/
inductive Pattern : Level → Type where
  | nil : Pattern .seq
  | bol (rest : Pattern .seq) : Pattern .seq
  | eol (rest : Pattern .seq) : Pattern .seq
  | single (a : Single) (q : Quant) (rest : Pattern .seq) : Pattern .seq
  | group (r : Pattern .alt) (q : Quant) (rest : Pattern .seq) : Pattern .seq
  | last (r : Pattern .seq) : Pattern .alt
  | or (r : Pattern .seq) (r' : Pattern .alt) : Pattern .alt

/-! ### Texts -/

def ByteEscape.letter : ByteEscape → UInt8
  | .newline => 110
  | .tab => 116
  | .carriageReturn => 114
  | .other c => c

def ByteEscape.byte : ByteEscape → UInt8
  | .newline => 10
  | .tab => 9
  | .carriageReturn => 13
  | .other c => c

def Escape.letter : Escape → UInt8
  | .digit => 100
  | .nonDigit => 68
  | .word => 119
  | .nonWord => 87
  | .space => 115
  | .nonSpace => 83
  | .byte e => e.letter

def Member.text : Member → Str
  | .byte c => [c]
  | .escaped e => [backslash, e.letter]
  | .range lo hi => [lo, dash, hi]
  | .rangeTo lo hi => [lo, dash, backslash, hi.letter]

/-- What stands between the brackets of a class. -/
def classText (neg close : Bool) (members : List Member) : Str :=
  (if neg then [caret] else []) ++ ((if close then [closeBracket] else []) ++ members.flatMap Member.text)

def Single.text : Single → Str
  | .literal c => [c]
  | .any => [dot]
  | .escape e => [backslash, e.letter]
  | .class neg close members => openBracket :: (classText neg close members ++ [closeBracket])

def Quant.text : Quant → Str
  | .once => []
  | .optional => [quest]
  | .star => [WinRegex.star]
  | .plus => [WinRegex.plus]

def Pattern.text : {l : Level} → Pattern l → Str
  | _, .nil => []
  | _, .bol rest => caret :: rest.text
  | _, .eol rest => dollar :: rest.text
  | _, .single a q rest => a.text ++ (q.text ++ rest.text)
  | _, .group r q rest => openParen :: (r.text ++ closeParen :: (q.text ++ rest.text))
  | _, .last r => r.text
  | _, .or r r' => r.text ++ bar :: r'.text

/-! ### Well-formed patterns -/

/-- The byte is not one that an escape gives a meaning to. -/
def ByteEscape.Ok : ByteEscape → Prop
  | .other c => c ∉ [0, 100, 68, 119, 87, 115, 83, 110, 116, 114]
  | _ => True

/-- The byte stands for itself in a class. -/
def Plain (c : UInt8) : Prop := c ∉ [0, closeBracket, backslash]

def Member.Ok : Member → Prop
  | .byte c => Plain c
  | .escaped e => e.Ok
  | .range lo hi => Plain lo ∧ Plain hi
  | .rangeTo lo hi => Plain lo ∧ hi.Ok

/-- The member is one byte. -/
def Member.isByte : Member → Bool
  | .byte _ | .escaped _ => true
  | _ => false

/-- A member that is one byte is followed by a dash at the end of the class only, where the dash makes no range. -/
def MembersOk : List Member → Prop
  | [] => True
  | m :: ms =>
    m.Ok ∧ MembersOk ms ∧
      (m.isByte → (ms.flatMap Member.text).head? = some dash → (ms.flatMap Member.text).length = 1)

/-- The bytes with a meaning outside classes; `{` is not in the syntax. -/
def specials : List UInt8 :=
  [0, dollar, openParen, closeParen, star, plus, dot, quest, openBracket, backslash, caret, 123, bar]

def Single.Ok : Single → Prop
  | .literal c => c ∉ specials
  | .any => True
  | .escape (.byte e) => e.Ok
  | .escape _ => True
  | .class neg close members =>
    MembersOk members ∧ (close ∨ members ≠ []) ∧
      (neg = false → close = false → (members.flatMap Member.text).head? ≠ some caret)

def Pattern.Ok : {l : Level} → Pattern l → Prop
  | _, .nil => True
  | _, .bol rest => rest.Ok
  | _, .eol rest => rest.Ok
  | _, .single a _ rest => a.Ok ∧ rest.Ok
  | _, .group r _ rest => r.Ok ∧ rest.Ok
  | _, .last r => r.Ok
  | _, .or r r' => r.Ok ∧ r'.Ok

/-- How deep the pattern is nested: a group, a sequence and a further alternative each count one. -/
def Pattern.depth : {l : Level} → Pattern l → Nat
  | _, .nil => 0
  | _, .bol rest => rest.depth
  | _, .eol rest => rest.depth
  | _, .single _ _ rest => rest.depth
  | _, .group r _ rest => max (r.depth + 1) rest.depth
  | _, .last r => r.depth + 1
  | _, .or r r' => max r.depth r'.depth + 1

/-! ### The language -/

def Escape.accepts : Escape → UInt8 → Bool
  | .digit, x => isDigit x
  | .nonDigit, x => !isDigit x
  | .word, x => isAlnum x || x == 95
  | .nonWord, x => !(isAlnum x || x == 95)
  | .space, x => isSpace x
  | .nonSpace, x => !isSpace x
  | .byte e, x => x == e.byte

def Member.has (x : UInt8) : Member → Bool
  | .byte c => x == c
  | .escaped e => x == e.byte
  | .range lo hi => lo ≤ x && x ≤ hi
  | .rangeTo lo hi => lo ≤ x && x ≤ hi.byte

/-- One of the members of a class has the byte. -/
def classHas (close : Bool) (members : List Member) (x : UInt8) : Bool :=
  (close && x == closeBracket) || members.any (·.has x)

def Single.accepts : Single → UInt8 → Bool
  | .literal c, x => x == c
  | .any, _ => true
  | .escape e, x => e.accepts x
  | .class neg close members, x => if neg then !classHas close members x else classHas close members x

/-- What a quantifier makes of what an atom matches. -/
def Quant.Repeats {α : Type} (R : α → α → Prop) : Quant → α → α → Prop
  | .once => R
  | .optional => fun s t => s = t ∨ R s t
  | .star => Relation.ReflTransGen R
  | .plus => Relation.TransGen R

/-- At the start of the subject, or behind a newline. -/
def AtBol (text s : Str) : Prop := ∃ u, text = u ++ s ∧ (u = [] ∨ u.getLast? = some 10)

/-- At the end of the subject, or before a newline. -/
def AtEol (s : Str) : Prop := s = [] ∨ s.head? = some 10

/-- The pattern matches from `s` to `t`. -/
def Pattern.Matches (text : Str) : {l : Level} → Pattern l → Str → Str → Prop
  | _, .nil, s, t => s = t
  | _, .bol rest, s, t => AtBol text s ∧ rest.Matches text s t
  | _, .eol rest, s, t => AtEol s ∧ rest.Matches text s t
  | _, .single a q rest, s, t =>
    ∃ m, q.Repeats (fun a' b => ∃ x, a' = x :: b ∧ a.accepts x) s m ∧ rest.Matches text m t
  | _, .group r q rest, s, t => ∃ m, q.Repeats (r.Matches text) s m ∧ rest.Matches text m t
  | _, .last r, s, t => r.Matches text s t
  | _, .or r r', s, t => r.Matches text s t ∨ r'.Matches text s t

end WinRegex

end Cando
