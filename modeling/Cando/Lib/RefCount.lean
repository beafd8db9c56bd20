import Mathlib.Algebra.Order.Group.Multiset
import Mathlib.Algebra.Ring.Nat
import Mathlib.Logic.Function.Basic

/-!
# Reference counts

Blocks that are freed when the last reference to them is given up. The references that are held form a multiset of
addresses; a heap is balanced by them when every one leads to a block that counts them all, and no block is left over.
-/

/-- A block with its count. -/
structure Counted (δ : Type) where
  data : δ
  count : Nat
  deriving DecidableEq, Repr

/-- The blocks by their addresses; `none` where no block is. -/
abbrev Blocks (δ : Type) := Nat → Option (Counted δ)

namespace Blocks

variable {δ : Type} {m m' : Blocks δ} {R S : Multiset Nat} {a : Nat}

/-- One reference more; `none` where there is no block, and the access is undefined. -/
def retain (m : Blocks δ) (a : Nat) : Option (Blocks δ) :=
  (m a).map fun b => Function.update m a (some { b with count := b.count + 1 })

/-- One reference less, and none left frees the block. -/
def release (m : Blocks δ) (a : Nat) : Option (Blocks δ) :=
  match m a with
  | some ⟨d, n + 1⟩ => some (Function.update m a (if n = 0 then none else some ⟨d, n⟩))
  | _ => none

/-- A new block, with the reference that its maker holds. -/
def create (m : Blocks δ) (a : Nat) (d : δ) : Blocks δ := Function.update m a (some ⟨d, 1⟩)

def dataAt (m : Blocks δ) (a : Nat) : Option δ := (m a).map Counted.data

def retainAll (m : Blocks δ) (l : List Nat) : Option (Blocks δ) := l.foldlM retain m

def releaseAll (m : Blocks δ) (l : List Nat) : Option (Blocks δ) := l.foldlM release m

/-- The blocks count the references `R`, and no others. -/
structure Balanced (m : Blocks δ) (R : Multiset Nat) : Prop where
  counts : ∀ a ∈ R, ∃ d, m a = some ⟨d, R.count a⟩
  others : ∀ a, a ∉ R → m a = none

/-- From one heap to the next, the blocks that are referred to by `R` keep their contents. -/
def Keeps (R : Multiset Nat) (m m' : Blocks δ) : Prop := ∀ a ∈ R, m'.dataAt a = m.dataAt a

lemma Keeps.refl : Keeps R m m := fun _ _ => rfl

lemma Keeps.trans {m'' : Blocks δ} (h : Keeps R m m') (h' : Keeps R m' m'') : Keeps R m m'' := by
  intro a mem
  rw [h' a mem, h a mem]

lemma Keeps.mono (h : Keeps R m m') (sub : S ⊆ R) : Keeps S m m' := fun a mem => h a (sub mem)

/-- What a step on one block does to the others. -/
lemma Balanced.update {b : Option (Counted δ)} (h : Balanced m R) (other : ∀ c, c ≠ a → S.count c = R.count c)
    (here : (a ∈ S ∧ ∃ d, b = some ⟨d, S.count a⟩) ∨ (a ∉ S ∧ b = none)) : Balanced (Function.update m a b) S := by
  have same (c : Nat) (ne : c ≠ a) : c ∈ S ↔ c ∈ R := by
    rw [← Multiset.count_pos, ← Multiset.count_pos, other c ne]
  constructor
  · intro c mem
    by_cases e : c = a
    · subst e
      rcases here with ⟨-, d, rfl⟩ | ⟨out, -⟩
      · exact ⟨d, Function.update_self ..⟩
      · exact absurd mem out
    · obtain ⟨d, there⟩ := h.counts c ((same c e).mp mem)
      exact ⟨d, by rw [Function.update_of_ne e, there, other c e]⟩
  · intro c out
    by_cases e : c = a
    · subst e
      rcases here with ⟨mem, -⟩ | ⟨-, rfl⟩
      · exact absurd mem out
      · exact Function.update_self ..
    · rw [Function.update_of_ne e]
      exact h.others c (mt (same c e).mpr out)

/-- A reference that is held can be copied. -/
lemma Balanced.retain (h : Balanced m R) (mem : a ∈ R) :
    ∃ m', m.retain a = some m' ∧ Balanced m' (a ::ₘ R) ∧ Keeps R m m' := by
  obtain ⟨d, there⟩ := h.counts a mem
  refine ⟨Function.update m a (some ⟨d, R.count a + 1⟩), by rw [Blocks.retain, there]; rfl, ?_, ?_⟩
  · apply h.update
    · intro c ne
      exact Multiset.count_cons_of_ne ne R
    · exact .inl ⟨Multiset.mem_cons_self a R, d, by rw [Multiset.count_cons_self]⟩
  · intro c _
    by_cases e : c = a
    · subst e
      simp only [dataAt, Function.update_self, there, Option.map_some]
    · simp only [dataAt, Function.update_of_ne e]

/-- A reference that is held can be given up. -/
lemma Balanced.release (h : Balanced m (a ::ₘ R)) :
    ∃ m', m.release a = some m' ∧ Balanced m' R ∧ Keeps R m m' := by
  obtain ⟨d, there⟩ := h.counts a (Multiset.mem_cons_self a R)
  rw [Multiset.count_cons_self] at there
  refine ⟨Function.update m a (if R.count a = 0 then none else some ⟨d, R.count a⟩),
    by simp only [Blocks.release, there], ?_, ?_⟩
  · apply h.update
    · intro c ne
      exact (Multiset.count_cons_of_ne ne R).symm
    · by_cases last : R.count a = 0
      · exact .inr ⟨Multiset.count_eq_zero.mp last, if_pos last⟩
      · exact .inl ⟨Multiset.count_pos.mp (Nat.pos_of_ne_zero last), d, if_neg last⟩
  · intro c mem
    by_cases e : c = a
    · subst e
      have held : R.count c ≠ 0 := Nat.ne_of_gt (Multiset.count_pos.mpr mem)
      simp only [dataAt, Function.update_self, there, if_neg held, Option.map_some]
    · simp only [dataAt, Function.update_of_ne e]

lemma Balanced.create {d : δ} (h : Balanced m R) (free : m a = none) :
    Balanced (m.create a d) (a ::ₘ R) ∧ Keeps R m (m.create a d) := by
  have out : a ∉ R := by
    intro mem
    obtain ⟨d, there⟩ := h.counts a mem
    rw [free] at there
    cases there
  constructor
  · apply h.update
    · intro c ne
      exact Multiset.count_cons_of_ne ne R
    · exact .inl ⟨Multiset.mem_cons_self a R, d, by
        rw [Multiset.count_cons_self, Multiset.count_eq_zero_of_notMem out]⟩
  · intro c mem
    have ne : c ≠ a := fun e => out (e ▸ mem)
    simp only [dataAt, Blocks.create, Function.update_of_ne ne]

lemma Balanced.retainAll {l : List Nat} (h : Balanced m R) (held : ∀ a ∈ l, a ∈ R) :
    ∃ m', m.retainAll l = some m' ∧ Balanced m' ((l : Multiset Nat) + R) ∧ Keeps R m m' := by
  induction l generalizing m R with
  | nil => exact ⟨m, rfl, (zero_add R).symm ▸ h, .refl⟩
  | cons a l ih =>
    obtain ⟨m₁, step, h₁, keeps₁⟩ := h.retain (held a List.mem_cons_self)
    obtain ⟨m₂, rest, h₂, keeps₂⟩ := ih h₁ fun b mem => Multiset.mem_cons_of_mem (held b (List.mem_cons_of_mem a mem))
    refine ⟨m₂, ?_, ?_, ?_⟩
    · rw [Blocks.retainAll, List.foldlM_cons, step]
      exact rest
    · rw [Multiset.add_cons] at h₂
      rw [← Multiset.cons_coe, Multiset.cons_add]
      exact h₂
    · exact keeps₁.trans (keeps₂.mono (Multiset.subset_cons R a))

lemma Balanced.releaseAll {l : List Nat} (h : Balanced m ((l : Multiset Nat) + R)) :
    ∃ m', m.releaseAll l = some m' ∧ Balanced m' R ∧ Keeps R m m' := by
  induction l generalizing m with
  | nil => exact ⟨m, rfl, zero_add R ▸ h, .refl⟩
  | cons a l ih =>
    rw [← Multiset.cons_coe, Multiset.cons_add] at h
    obtain ⟨m₁, step, h₁, keeps₁⟩ := h.release
    obtain ⟨m₂, rest, h₂, keeps₂⟩ := ih h₁
    refine ⟨m₂, ?_, h₂, ?_⟩
    · rw [Blocks.releaseAll, List.foldlM_cons, step]
      exact rest
    · exact (keeps₁.mono (Multiset.subset_of_le (Multiset.le_add_left R l))).trans keeps₂

end Blocks
