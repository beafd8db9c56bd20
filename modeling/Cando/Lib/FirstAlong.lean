import Mathlib.Data.Option.Basic

/-!
# Searching along a path

A partial function `next` leads from every point to the points after it, possibly in a circle. `search`
looks at the first points of the path from `a` for one that has a value; it finds the value of the first
that has one and fails exactly when none of them has. A path that ends or closes within the points looked
at has no others.
-/

namespace Along

variable {α β : Type*} (next : α → Option α) (value : α → Option β)

/-- The point `n` steps after `a`. -/
def visit (a : α) : Nat → Option α
  | 0 => some a
  | n + 1 => (visit a n).bind next

/-- The first value at one of the first `n` points. -/
def search : Nat → α → Option β
  | 0, _ => none
  | n + 1, a =>
    match value a with
    | some v => some v
    | none => (next a).bind (search n)

/-- `v` is the value of point number `k`, and no earlier point has one. -/
structure FirstAt (a : α) (k : Nat) (v : β) : Prop where
  here : ∃ b, visit next a k = some b ∧ value b = some v
  before : ∀ j < k, ∀ c, visit next a j = some c → value c = none

variable {next value} {a b : α} {v : β} {j k n : Nat}

@[simp] lemma visit_zero : visit next a 0 = some a := rfl

lemma visit_succ : visit next a (n + 1) = (visit next a n).bind next := rfl

/-- The path from `a` goes on as the path from the next point. -/
lemma visit_next : visit next a (n + 1) = (next a).bind (visit next · n) := by
  induction n with
  | zero => cases e : next a <;> simp [visit_succ, e]
  | succ n ih => rw [visit_succ, ih, Option.bind_assoc]; rfl

lemma FirstAt.zero (h : value a = some v) : FirstAt next value a 0 v where
  here := ⟨a, rfl, h⟩
  before j lt := absurd lt (Nat.not_lt_zero j)

lemma FirstAt.succ (none_here : value a = none) (step : next a = some b) (h : FirstAt next value b k v) :
    FirstAt next value a (k + 1) v where
  here := by
    obtain ⟨c, at_c, has⟩ := h.here
    exact ⟨c, by rw [visit_next, step, Option.bind_some, at_c], has⟩
  before j lt c at_c := by
    cases j with
    | zero =>
      have e : a = c := Option.some.inj at_c
      exact e ▸ none_here
    | succ j =>
      rw [visit_next, step, Option.bind_some] at at_c
      exact h.before j (by omega) c at_c

/-- One point less is to be looked at from the next point on. -/
lemma FirstAt.tail (h : FirstAt next value a (k + 1) v) :
    value a = none ∧ ∃ b, next a = some b ∧ FirstAt next value b k v := by
  have none_here := h.before 0 (by omega) a rfl
  obtain ⟨c, at_c, has⟩ := h.here
  rw [visit_next, Option.bind_eq_some_iff] at at_c
  obtain ⟨b, step, at_c⟩ := at_c
  refine ⟨none_here, b, step, ⟨c, at_c, has⟩, fun j lt d at_d => ?_⟩
  exact h.before (j + 1) (by omega) d (by rw [visit_next, step, Option.bind_some, at_d])

/-- The search finds the first value on the prefix it looks at. -/
theorem search_eq_some : search next value n a = some v ↔ ∃ k < n, FirstAt next value a k v := by
  induction n generalizing a with
  | zero => simp [search]
  | succ n ih =>
    rw [search]
    cases has : value a with
    | some u =>
      constructor
      · intro e
        cases e
        exact ⟨0, by omega, .zero has⟩
      · rintro ⟨k, lt, first⟩
        cases k with
        | zero =>
          obtain ⟨b, at_b, e⟩ := first.here
          cases at_b
          exact has.symm.trans e
        | succ k => exact absurd first.tail.1 (by simp [has])
    | none =>
      constructor
      · intro e
        obtain ⟨b, step, e⟩ := Option.bind_eq_some_iff.mp e
        obtain ⟨k, lt, first⟩ := ih.mp e
        exact ⟨k + 1, by omega, first.succ has step⟩
      · rintro ⟨k, lt, first⟩
        cases k with
        | zero =>
          obtain ⟨b, at_b, e⟩ := first.here
          cases at_b
          exact absurd (has.symm.trans e) (by simp)
        | succ k =>
          obtain ⟨b, step, first⟩ := first.tail.2
          exact Option.bind_eq_some_iff.mpr ⟨b, step, ih.mpr ⟨k, by omega, first⟩⟩

/-- The search fails exactly when no point of the prefix has a value. -/
theorem search_eq_none :
    search next value n a = none ↔ ∀ k < n, ∀ b, visit next a k = some b → value b = none := by
  induction n generalizing a with
  | zero => simp [search]
  | succ n ih =>
    rw [search]
    cases has : value a with
    | some u =>
      refine ⟨nofun, fun h => ?_⟩
      have none_here := h 0 (by omega) a rfl
      simp [has] at none_here
    | none =>
      simp only [Option.bind_eq_none_iff, ih]
      constructor
      · intro h k lt c at_c
        cases k with
        | zero =>
          cases at_c
          exact has
        | succ k =>
          rw [visit_next, Option.bind_eq_some_iff] at at_c
          obtain ⟨b, step, at_c⟩ := at_c
          exact h b step k (by omega) c at_c
      · intro h b step k lt c at_c
        exact h (k + 1) (by omega) c (by rw [visit_next, step, Option.bind_some, at_c])

/-- Going round at a point without a value finds nothing. -/
lemma search_loop (none_here : value a = none) (step : next a = some a) : search next value n a = none := by
  induction n with
  | zero => rfl
  | succ n ih => rw [search, none_here, step]; exact ih

/-- A path that has ended stays ended. -/
lemma visit_ended (stop : visit next a k = none) (le : k ≤ n) : visit next a n = none := by
  induction le with
  | refl => exact stop
  | step _ ih => rw [visit_succ, ih, Option.bind_none]

/-- A path that comes back to an earlier point goes on from there as it did before. -/
lemma visit_closed (closes : visit next a k = visit next a j) :
    visit next a (k + n) = visit next a (j + n) := by
  induction n with
  | zero => exact closes
  | succ n ih => rw [← Nat.add_assoc, ← Nat.add_assoc, visit_succ, visit_succ, ih]

/-- Every point of a path that closes is one of the points before it does. -/
lemma visit_within (lt : j < k) (closes : visit next a k = visit next a j) (n : Nat) :
    ∃ m < k, visit next a n = visit next a m := by
  induction n using Nat.strongRecOn with
  | _ n ih =>
    by_cases inside : n < k
    · exact ⟨n, inside, rfl⟩
    · obtain ⟨d, rfl⟩ := Nat.exists_eq_add_of_le (Nat.le_of_not_lt inside)
      obtain ⟨m, lt', e⟩ := ih (j + d) (by omega)
      exact ⟨m, lt', (visit_closed closes).trans e⟩

end Along
