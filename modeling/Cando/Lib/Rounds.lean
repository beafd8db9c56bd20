import Mathlib.Logic.Relation
import Mathlib.Tactic.Common

/-!
# Rounds of a partial step

A step that may have no result is repeated as long as it moves on, for a number of rounds at most. `rounds` collects
where the repetition has been; `Rounds` says it as a relation.
-/

variable {α : Type}

/-- The step leads somewhere else. -/
def Moves (f : α → Option α) (a b : α) : Prop := f a = some b ∧ b ≠ a

/-- A number of rounds, each of which moves on. -/
inductive Rounds (f : α → Option α) : Nat → α → α → Prop where
  | zero (a : α) : Rounds f 0 a a
  | succ {a b c : α} {n : Nat} : Moves f a b → Rounds f n b c → Rounds f (n + 1) a c

/-- Where the repetition has been behind one round or more. -/
def rounds [DecidableEq α] (f : α → Option α) : (room : Nat) → α → List α
  | 0, _ => []
  | room + 1, a =>
    match f a with
    | none => []
    | some b => if b = a then [] else b :: rounds f room b

/-- The repetition has been where rounds lead. -/
lemma mem_rounds [DecidableEq α] {f : α → Option α} {room : Nat} {a c : α} :
    c ∈ rounds f room a ↔ ∃ n, 0 < n ∧ n ≤ room ∧ Rounds f n a c := by
  induction room generalizing a with
  | zero =>
    constructor
    · intro h
      exact (List.not_mem_nil h).elim
    · rintro ⟨n, pos, le, -⟩
      omega
  | succ room ih =>
    rw [rounds]
    cases step : f a with
    | none =>
      constructor
      · intro h
        exact (List.not_mem_nil h).elim
      · rintro ⟨n, pos, -, run⟩
        cases run with
        | zero => exact absurd pos (Nat.lt_irrefl 0)
        | succ moves _ =>
          obtain ⟨e, -⟩ := moves
          rw [step] at e
          cases e
    | some b =>
      dsimp only
      by_cases stays : b = a
      · rw [if_pos stays]
        constructor
        · intro h
          exact (List.not_mem_nil h).elim
        · rintro ⟨n, pos, -, run⟩
          cases run with
          | zero => exact absurd pos (Nat.lt_irrefl 0)
          | succ moves _ =>
            obtain ⟨e, ne⟩ := moves
            rw [step] at e
            cases e
            exact absurd stays ne
      · rw [if_neg stays, List.mem_cons, ih]
        constructor
        · rintro (rfl | ⟨n, -, le, run⟩)
          · exact ⟨1, Nat.one_pos, Nat.succ_le_succ (Nat.zero_le _), .succ ⟨step, stays⟩ (.zero _)⟩
          · exact ⟨n + 1, Nat.succ_pos n, Nat.succ_le_succ le, .succ ⟨step, stays⟩ run⟩
        · rintro ⟨n, pos, le, run⟩
          cases run with
          | zero => exact absurd pos (Nat.lt_irrefl 0)
          | @succ _ b' _ n moves run =>
            obtain ⟨e, -⟩ := moves
            rw [step] at e
            cases e
            cases run with
            | zero => exact .inl rfl
            | succ moves run => exact .inr ⟨_, Nat.succ_pos _, Nat.le_of_succ_le_succ le, .succ moves run⟩

/-- What a step keeps, rounds keep. -/
lemma Rounds.keeps {f : α → Option α} {P : α → Prop} (step : ∀ a b, P a → f a = some b → P b) {n : Nat} {a c : α}
    (run : Rounds f n a c) (h : P a) : P c := by
  induction run with
  | zero => exact h
  | succ moves _ ih => exact ih (step _ _ h moves.1)

/-- Rounds are repetitions of a relation that the step follows. -/
lemma Rounds.reflTransGen {f : α → Option α} {P : α → Prop} {R : α → α → Prop}
    (step : ∀ a b, P a → f a = some b → P b) (follows : ∀ a b, P a → f a = some b → R a b) {n : Nat} {a c : α}
    (run : Rounds f n a c) (h : P a) : Relation.ReflTransGen R a c := by
  induction run with
  | zero => exact .refl
  | succ moves _ ih => exact .head (follows _ _ h moves.1) (ih (step _ _ h moves.1))

/-- A repetition of a relation on which the step makes things smaller is rounds, no more than there is to take away. -/
lemma Rounds.of_reflTransGen {f : α → Option α} {R : α → α → Prop} (size : α → Nat)
    (shrinks : ∀ a b, R a b → f a = some b ∧ size b < size a) {a c : α} (run : Relation.ReflTransGen R a c) :
    ∃ n, n + size c ≤ size a ∧ Rounds f n a c := by
  induction run using Relation.ReflTransGen.head_induction_on with
  | refl => exact ⟨0, Nat.le_of_eq (Nat.zero_add _), .zero _⟩
  | @head a b step _ ih =>
    obtain ⟨n, le, run⟩ := ih
    obtain ⟨e, smaller⟩ := shrinks a b step
    have ne : b ≠ a := by
      rintro rfl
      exact Nat.lt_irrefl _ smaller
    exact ⟨n + 1, by omega, .succ ⟨e, ne⟩ run⟩
