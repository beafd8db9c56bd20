import Mathlib.Data.List.Infix

/-!
# Cutting a list at a separator

Where a list first occurs in another, and what joining the parts between its occurrences gives.
-/

namespace Cut

variable {α : Type*} [DecidableEq α] {sep s t x y x' y' : List α} {a : α}

/-- Around the first occurrence of `sep`. -/
def around (sep : List α) : List α → Option (List α × List α)
  | [] => if sep = [] then some ([], []) else none
  | a :: s =>
    if sep.isPrefixOf (a :: s) then some ([], (a :: s).drop sep.length)
    else (around sep s).map fun (x, y) => (a :: x, y)

/-- At an occurrence at the front. -/
lemma around_front (h : sep <+: s) : around sep s = some ([], s.drop sep.length) := by
  cases s with
  | nil =>
    obtain rfl := List.prefix_nil.mp h
    rfl
  | cons a s => rw [around, if_pos (List.isPrefixOf_iff_prefix.mpr h)]

lemma around_cons (h : ¬ sep <+: a :: s) : around sep (a :: s) = (around sep s).map fun (x, y) => (a :: x, y) := by
  rw [around, if_neg (mt List.isPrefixOf_iff_prefix.mp h)]

/-- It is an occurrence. -/
lemma around_some (h : around sep s = some (x, y)) : s = x ++ sep ++ y := by
  induction s generalizing x with
  | nil =>
    rw [around] at h
    split at h
    · rename_i empty
      cases h
      rw [empty]
      rfl
    · cases h
  | cons a s ih =>
    by_cases front : sep <+: a :: s
    · rw [around_front front] at h
      cases h
      exact (List.prefix_iff_eq_append.mp front).symm
    · rw [around_cons front] at h
      obtain ⟨⟨before, after⟩, later, e⟩ := Option.map_eq_some_iff.mp h
      cases e
      rw [ih later]
      rfl

/-- There is an occurrence, and none comes before it. -/
lemma around_first (x' y' : List α) : ∃ x y, around sep (x' ++ sep ++ y') = some (x, y) ∧ x.length ≤ x'.length := by
  induction x' with
  | nil => exact ⟨[], _, around_front (List.prefix_append sep y'), Nat.le_refl _⟩
  | cons a x' ih =>
    by_cases front : sep <+: a :: (x' ++ sep ++ y')
    · exact ⟨[], _, around_front front, Nat.zero_le _⟩
    · obtain ⟨x, y, found, le⟩ := ih
      refine ⟨a :: x, y, ?_, Nat.succ_le_succ le⟩
      rw [List.cons_append, List.cons_append, around_cons front, found]
      rfl

lemma around_none : around sep s = none ↔ ¬ sep <:+: s := by
  refine ⟨?_, fun out => ?_⟩
  · rintro none ⟨x', y', rfl⟩
    obtain ⟨x, y, found, -⟩ := around_first x' y'
    rw [none] at found
    cases found
  · cases found : around sep s with
    | none => rfl
    | some r =>
      have split := around_some found
      exact absurd ⟨r.1, r.2, split.symm⟩ out

lemma around_le (h : around sep s = some (x, y)) (occurs : s = x' ++ sep ++ y') : x.length ≤ x'.length := by
  obtain ⟨x₁, y₁, found, le⟩ := around_first x' y'
  rw [← occurs, h] at found
  cases found
  exact le

/-- What tells the first occurrence: it is one, and no other comes before it. -/
lemma around_eq (occurs : s = x ++ sep ++ y) (first : ∀ x' y', s = x' ++ sep ++ y' → x.length ≤ x'.length) :
    around sep s = some (x, y) := by
  obtain ⟨x₁, y₁, found, le⟩ := around_first x y
  rw [← occurs] at found
  have split := around_some found
  have len : x.length = x₁.length := Nat.le_antisymm (first x₁ y₁ split) le
  rw [occurs, List.append_assoc, List.append_assoc] at split
  obtain ⟨rfl, rest⟩ := List.append_inj split len
  obtain rfl := List.append_cancel_left rest
  exact found

/-- The first occurrence does not depend on what comes behind it. -/
lemma around_congr (h : around sep (x ++ sep ++ y) = some (x, y)) (y' : List α) :
    around sep (x ++ sep ++ y') = some (x, y') := by
  refine around_eq rfl fun x₁ y₁ occurs => ?_
  by_contra early
  -- an earlier occurrence ends before the first one does
  have fits : (x₁ ++ sep).length ≤ (x ++ sep).length := by
    simp only [List.length_append]
    omega
  have front : x₁ ++ sep <+: x ++ sep :=
    List.prefix_of_prefix_length_le (occurs ▸ List.prefix_append (x₁ ++ sep) y₁) (List.prefix_append (x ++ sep) y') fits
  obtain ⟨z, whole⟩ := front
  have occurs' : x ++ sep ++ y = x₁ ++ sep ++ (z ++ y) := by rw [← whole, List.append_assoc (x₁ ++ sep)]
  have le := around_le h occurs'
  omega

/-- Before the first occurrence there is none. -/
lemma around_before (h : around sep s = some (x, y)) (nonempty : sep ≠ []) : ¬ sep <:+: x := by
  rintro ⟨x', y', rfl⟩
  have split := around_some h
  have occurs : s = x' ++ sep ++ (y' ++ sep ++ y) := by simpa using split
  have le := around_le h occurs
  have pos := List.length_pos_iff.mpr nonempty
  simp only [List.length_append] at le
  omega

end Cut
