import Mathlib.Data.List.Basic
import Mathlib.Data.List.Count
import Mathlib.Data.List.Infix
import Mathlib.Data.List.TakeWhile
import Mathlib.Tactic.Common

/-!
# Source texts

Lines and columns of a text over bytes, and what may stand between the tokens of one: white space and comments of the
two usual kinds. `Blank s r` says that `s` is such a stretch in front of `r`.
-/

namespace SourceText

variable {s r b : List UInt8} {c : UInt8} {i : Nat}

abbrev lineFeed : UInt8 := 10
abbrev asterisk : UInt8 := 42
abbrev slash : UInt8 := 47

/-- `isspace` in the C locale. -/
def isWhite (c : UInt8) : Bool := c == 32 || (9 ≤ c && c ≤ 13)

/-! ### Lines and columns -/

/-- The line on which a text goes on after `b`. -/
def lineOf (b : List UInt8) : Nat := b.count lineFeed + 1

/-- The bytes since the last line began. -/
def lastLine (b : List UInt8) : List UInt8 := b.reverse.takeWhile (· != lineFeed)

/-- The column in which a text goes on after `b`. -/
def colOf (b : List UInt8) : Nat := (lastLine b).length + 1

@[simp] lemma lineOf_nil : lineOf [] = 1 := rfl

@[simp] lemma lastLine_nil : lastLine [] = [] := rfl

lemma lineOf_concat : lineOf (b ++ [c]) = if c = lineFeed then lineOf b + 1 else lineOf b := by
  rw [lineOf, List.count_append, List.count_singleton]
  by_cases e : c = lineFeed
  · rw [if_pos e, if_pos (beq_iff_eq.mpr e)]
    rfl
  · rw [if_neg e, if_neg (fun h => e (beq_iff_eq.mp h))]
    rfl

lemma lastLine_concat : lastLine (b ++ [c]) = if c = lineFeed then [] else c :: lastLine b := by
  rw [lastLine, List.reverse_append, List.reverse_singleton, List.singleton_append, List.takeWhile_cons]
  by_cases e : c = lineFeed
  · rw [if_pos e, if_neg (by simp [e])]
  · rw [if_neg e, if_pos (by simp [e])]
    rfl

lemma lastLine_le (b : List UInt8) : (lastLine b).length ≤ b.length := by
  have le := (List.takeWhile_prefix (l := b.reverse) (· != lineFeed)).length_le
  rw [List.length_reverse] at le
  exact le

/-- The last line is as long as the number of its bytes that do not end lines. -/
lemma lastLine_le_count (b : List UInt8) : (lastLine b).length ≤ b.countP (· != lineFeed) := by
  have whole : (lastLine b).countP (· != lineFeed) = (lastLine b).length :=
    List.countP_eq_length.mpr fun c mem => (List.mem_takeWhile_imp mem :)
  have part := (List.takeWhile_prefix (l := b.reverse) (· != lineFeed)).sublist.countP_le (p := (· != lineFeed))
  rw [List.countP_reverse] at part
  exact whole ▸ part

/-- In front of a text's end fewer bytes satisfy a predicate than the text has, if one does not satisfy it. -/
lemma countP_lt {p : UInt8 → Bool} (front : b <+: s) (other : ∃ c ∈ s, p c = false) : b.countP p < s.length := by
  have le := front.sublist.countP_le (p := p)
  have lt := List.countP_lt_length_iff.mpr other
  omega

/-! ### Blanks -/

/-- A comment, and the text behind it. -/
inductive Comment : List UInt8 → List UInt8 → Prop where
  | line {body r : List UInt8} (one_line : lineFeed ∉ body) (ends : ∀ c, r.head? = some c → c = lineFeed) :
      Comment (slash :: slash :: body) r
  | block {body r : List UInt8} (first : ¬ [asterisk, slash] <:+: body ++ [asterisk]) :
      Comment (slash :: asterisk :: body ++ [asterisk, slash]) r

/-- White space and comments, and the text behind them. -/
inductive Blank : List UInt8 → List UInt8 → Prop where
  | nil {r : List UInt8} : Blank [] r
  | space {c : UInt8} {s r : List UInt8} (white : isWhite c = true) (rest : Blank s r) : Blank (c :: s) r
  | comment {m s r : List UInt8} (comment : Comment m (s ++ r)) (rest : Blank s r) : Blank (m ++ s) r

namespace Blank

lemma spaces (white : ∀ c ∈ s, isWhite c = true) : Blank s r := by
  induction s with
  | nil => exact .nil
  | cons c s ih =>
    exact .space (white c List.mem_cons_self) (ih fun d mem => white d (List.mem_cons_of_mem c mem))

lemma append {s' : List UInt8} (h : Blank s (s' ++ r)) (h' : Blank s' r) : Blank (s ++ s') r := by
  generalize e : s' ++ r = t at h
  induction h with
  | nil => exact h'
  | space white _ ih => exact .space white (ih e)
  | comment com _ ih =>
    subst e
    rw [List.append_assoc]
    refine .comment ?_ (ih rfl)
    rw [List.append_assoc]
    exact com

/-- Each byte of a blank is white space or belongs to a comment. -/
lemma get (h : Blank s r) (here : s[i]? = some c) :
    isWhite c = true ∨ ∃ a m d, s = a ++ m ++ d ∧ Comment m (d ++ r) ∧ a.length ≤ i ∧ i < a.length + m.length := by
  induction h generalizing i with
  | nil => cases here
  | @space c' s r white rest ih =>
    cases i with
    | zero =>
      cases here
      exact .inl white
    | succ i =>
      obtain white | ⟨a, m, d, rfl, com, le, lt⟩ := ih here
      · exact .inl white
      · refine .inr ⟨c' :: a, m, d, rfl, com, ?_, ?_⟩ <;> rw [List.length_cons] <;> omega
  | @comment m s r com rest ih =>
    by_cases inside : i < m.length
    · exact .inr ⟨[], m, s, rfl, com, Nat.zero_le _, by rw [List.length_nil]; omega⟩
    · rw [List.getElem?_append_right (Nat.le_of_not_lt inside)] at here
      obtain white | ⟨a, m', d, rfl, com', le, lt⟩ := ih here
      · exact .inl white
      · refine .inr ⟨m ++ a, m', d, by simp only [List.append_assoc], com', ?_, ?_⟩ <;>
          rw [List.length_append] <;> omega

end Blank

end SourceText
