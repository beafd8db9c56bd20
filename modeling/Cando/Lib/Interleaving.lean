import Mathlib.Algebra.Ring.Nat
import Mathlib.Logic.Function.Basic

/-!
# Interleavings

Parties that act on a shared state take their atomic steps in any order. A schedule is the list of the actions that were
taken; a run under a schedule is guarded by a condition on its steps, and the guard `fun _ _ => True` gives all runs.
-/

/-- What an action does in a state; `none` where it is not possible. -/
structure Interleaving (σ α : Type) where
  step : σ → α → Option σ

namespace Interleaving

variable {σ α : Type} {P : Interleaving σ α} {G G' : σ → α → Prop} {s₀ s s' s'' : σ} {as bs : List α} {a : α}

/-- The state that a schedule leads to. -/
def after (P : Interleaving σ α) : σ → List α → Option σ
  | s, [] => some s
  | s, a :: as => (P.step s a).bind (P.after · as)

/-- The schedule leads from `s₀` to a state, and the guard admits each of its steps. -/
inductive Run (P : Interleaving σ α) (G : σ → α → Prop) (s₀ : σ) : List α → σ → Prop where
  | nil : Run P G s₀ [] s₀
  | snoc {as : List α} {s : σ} {a : α} {s' : σ} (run : Run P G s₀ as s) (admits : G s a)
      (step : P.step s a = some s') : Run P G s₀ (as ++ [a]) s'

/-- All runs. -/
def All : σ → α → Prop := fun _ _ => True

namespace Run

lemma mono (r : P.Run G s₀ as s) (weaker : ∀ s a, G s a → G' s a) : P.Run G' s₀ as s := by
  induction r with
  | nil => exact .nil
  | snoc _ admits step ih => exact ih.snoc (weaker _ _ admits) step

lemma all (r : P.Run G s₀ as s) : P.Run All s₀ as s := r.mono fun _ _ _ => trivial

lemma single (admits : G s a) (step : P.step s a = some s') : P.Run G s [a] s' := nil.snoc admits step

lemma append (r : P.Run G s₀ as s) (r' : P.Run G s bs s') : P.Run G s₀ (as ++ bs) s' := by
  induction r' with
  | nil =>
    rw [List.append_nil]
    exact r
  | snoc _ admits step ih =>
    rw [← List.append_assoc]
    exact ih.snoc admits step

/-- What holds at the beginning and is preserved by the admitted steps holds in every state that is reached. -/
lemma invariant {I : σ → Prop} (r : P.Run G s₀ as s) (pres : ∀ s a s', G s a → P.step s a = some s' → I s → I s')
    (init : I s₀) : I s := by
  induction r with
  | nil => exact init
  | snoc _ admits step ih => exact pres _ _ _ admits step ih

/-- A run is cut after any part of its schedule. -/
lemma cut (r : P.Run G s₀ (as ++ bs) s') : ∃ s, P.Run G s₀ as s ∧ P.Run G s bs s' := by
  generalize e : as ++ bs = cs at r
  induction r generalizing bs with
  | nil =>
    obtain ⟨rfl, rfl⟩ := List.append_eq_nil_iff.mp e
    exact ⟨_, nil, nil⟩
  | @snoc cs s₁ a s₂ run admits step ih =>
    obtain rfl | ⟨bs, b, rfl⟩ := List.eq_nil_or_concat bs
    · rw [List.append_nil] at e
      subst e
      exact ⟨s₂, run.snoc admits step, nil⟩
    · rw [List.concat_eq_append, ← List.append_assoc] at e
      obtain ⟨front, last⟩ := List.append_inj' e rfl
      cases last
      obtain ⟨s, r₁, r₂⟩ := ih front
      rw [List.concat_eq_append]
      exact ⟨s, r₁, r₂.snoc admits step⟩

/-- The last step of a run. -/
lemma last (r : P.Run G s₀ (as ++ [a]) s') : ∃ s, P.Run G s₀ as s ∧ G s a ∧ P.step s a = some s' := by
  generalize e : as ++ [a] = cs at r
  cases r with
  | nil => exact absurd e (List.append_ne_nil_of_right_ne_nil _ (List.cons_ne_nil _ _))
  | snoc run admits step =>
    obtain ⟨rfl, same⟩ := List.append_inj' e rfl
    cases same
    exact ⟨_, run, admits, step⟩

/-- A schedule leads to one state. -/
lemma unique (r : P.Run G s₀ as s) (r' : P.Run G' s₀ as s') : s = s' := by
  induction r generalizing s' with
  | nil =>
    generalize e : ([] : List α) = cs at r'
    cases r' with
    | nil => rfl
    | snoc _ _ _ => exact absurd e.symm (List.append_ne_nil_of_right_ne_nil _ (List.cons_ne_nil _ _))
  | snoc _ _ step ih =>
    obtain ⟨t, r₁, _, step'⟩ := r'.last
    obtain rfl := ih r₁
    exact Option.some.inj (step.symm.trans step')

/-- The first step of a run. -/
lemma head (r : P.Run G s (a :: as) s') : ∃ t, G s a ∧ P.step s a = some t ∧ P.Run G t as s' := by
  obtain ⟨t, first, rest⟩ := cut (show P.Run G s ([a] ++ as) s' from r)
  obtain ⟨t', none, admits, step⟩ := last (show P.Run G s ([] ++ [a]) t from first)
  obtain rfl := none.unique (nil (G := All))
  exact ⟨t, admits, step, rest⟩

/-- A run of which each step meets a condition is a run guarded by it. -/
lemma guarded (r : P.Run All s₀ as s)
    (meets : ∀ xs a ys t, as = xs ++ a :: ys → P.Run All s₀ xs t → G t a) : P.Run G s₀ as s := by
  induction r with
  | nil => exact nil
  | @snoc as s a s' run _ step ih =>
    refine (ih fun xs b ys t e r => meets xs b (ys ++ [a]) t ?_ r).snoc (meets as a [] s rfl run) step
    rw [e, List.append_assoc, List.cons_append]

/-- What holds of every action of the schedule may guard the run. -/
lemma listed {Q : α → Prop} (r : P.Run G s₀ as s) (all : ∀ a ∈ as, Q a) :
    P.Run (fun s a => G s a ∧ Q a) s₀ as s := by
  induction r with
  | nil => exact nil
  | @snoc as s a s' _ admits step ih =>
    have last : Q a := all a (List.mem_append_right as (List.mem_singleton_self a))
    exact (ih fun b mem => all b (List.mem_append_left [a] mem)).snoc ⟨admits, last⟩ step

lemma of_after (h : P.after s₀ as = some s) : P.Run All s₀ as s := by
  induction as generalizing s₀ with
  | nil =>
    obtain rfl := Option.some.inj h
    exact nil
  | cons a as ih =>
    obtain ⟨t, step, rest⟩ := Option.bind_eq_some_iff.mp h
    exact (single trivial step).append (ih rest)

lemma after_eq (r : P.Run G s₀ as s) : P.after s₀ as = some s := by
  induction as generalizing s₀ with
  | nil => exact congrArg some (nil (G := All) |>.unique r)
  | cons a as ih =>
    obtain ⟨t, -, step, rest⟩ := r.head
    rw [after, step, Option.bind_some, ih rest]

/-- Where a step from a state with a property leads to one with the property exactly when the guard admits it, a run
keeps the property in all its states exactly when the guard admits all its steps. -/
theorem kept_iff {I : σ → Prop} (init : I s₀)
    (exact_step : ∀ s a s', I s → P.step s a = some s' → (I s' ↔ G s a)) :
    (P.Run All s₀ as s ∧ ∀ bs t, bs <+: as → P.Run All s₀ bs t → I t) ↔ P.Run G s₀ as s := by
  constructor
  · rintro ⟨r, kept⟩
    induction r with
    | nil => exact nil
    | @snoc as s a s' r _ step ih =>
      have front := List.prefix_append as [a]
      have before := ih fun bs t part => kept bs t (part.trans front)
      have after := kept _ s' List.prefix_rfl (r.snoc trivial step)
      exact before.snoc ((exact_step s a s' (kept as s front r) step).mp after) step
  · intro r
    refine ⟨r.all, fun bs t front r' => ?_⟩
    obtain ⟨cs, rfl⟩ := front
    obtain ⟨u, first, -⟩ := r.cut
    obtain rfl := r'.unique first
    exact first.invariant (fun s a s' admits step here => (exact_step s a s' here step).mpr admits) init

end Run

/-- The actions that a check lets pass. -/
def restrict (P : Interleaving σ α) (g : σ → α → Bool) : Interleaving σ α where
  step s a := if g s a then P.step s a else none

/-- A schedule whose steps pass a check gives a guarded run. -/
lemma Run.of_restrict {g : σ → α → Bool} (h : (P.restrict g).after s₀ as = some s)
    (passes : ∀ s a, g s a = true → G s a) : P.Run G s₀ as s := by
  induction as generalizing s₀ with
  | nil =>
    obtain rfl := Option.some.inj h
    exact nil
  | cons a as ih =>
    obtain ⟨t, step, rest⟩ := Option.bind_eq_some_iff.mp h
    obtain ⟨pass, step⟩ := Option.ite_none_right_eq_some.mp step
    exact (single (passes _ _ pass) step).append (ih rest)

/-! ### Parties

The parties are indexed, each with a place in its program. -/

section Places

variable {ι κ : Type} [DecidableEq ι] {f : ι → κ} {i j : ι} {x : κ}

/-- After a step of party `i`, a property of all parties holds if `i` has it at its new place and the others keep it. -/
lemma forall_update {p : ι → κ → Prop} (here : p i x) (there : ∀ j, j ≠ i → p j (f j)) :
    ∀ j, p j (Function.update f i x j) := by
  intro j
  by_cases e : j = i
  · subst e
    rw [Function.update_self]
    exact here
  · rw [Function.update_of_ne e]
    exact there j e

/-- A party that had a property still has it after a step of a party that did not have it. -/
lemma exists_update {p : κ → Prop} (h : ∃ j, p (f j)) (other : ¬ p (f i)) : ∃ j, p (Function.update f i x j) := by
  obtain ⟨j, hj⟩ := h
  have ne : j ≠ i := fun e => other (e ▸ hj)
  exact ⟨j, by rw [Function.update_of_ne ne]; exact hj⟩

end Places

/-! ### Parties in a list

Parties that come into being are kept in a list, each under its number. -/

section Lists

variable {κ : Type} {l : List κ} {k : Nat} {x y : κ} {w v : κ → Nat}

/-- After a step of party `k`, a property of all parties holds if `k` has it and the others keep it. -/
lemma forall_set {p : Nat → κ → Prop} (here : p k y) (there : ∀ j z, j ≠ k → l[j]? = some z → p j z) :
    ∀ j z, (l.set k y)[j]? = some z → p j z := by
  intro j z h
  by_cases e : k = j
  · subst e
    obtain ⟨inside, same⟩ := List.getElem?_eq_some_iff.mp h
    rw [List.getElem_set_self] at same
    exact same ▸ here
  · rw [List.getElem?_set_ne e] at h
    exact there j z (Ne.symm e) h

/-- A new party. -/
lemma forall_concat {p : Nat → κ → Prop} (new : p l.length y) (old : ∀ j z, l[j]? = some z → p j z) :
    ∀ j z, (l ++ [y])[j]? = some z → p j z := by
  intro j z h
  rcases Nat.lt_trichotomy j l.length with inside | rfl | beyond
  · rw [List.getElem?_append_left inside] at h
    exact old j z h
  · rw [List.getElem?_append_right (Nat.le_refl _), Nat.sub_self] at h
    cases h
    exact new
  · have none := List.getElem?_eq_none (show (l ++ [y]).length ≤ j by rw [List.length_append]; exact beyond)
    rw [none] at h
    cases h

lemma sum_set (h : l[k]? = some x) : ((l.set k y).map w).sum + w x = (l.map w).sum + w y := by
  induction l generalizing k with
  | nil => cases h
  | cons z l ih =>
    cases k with
    | zero =>
      cases h
      rw [List.set_cons_zero, List.map_cons, List.map_cons, List.sum_cons, List.sum_cons]
      omega
    | succ k =>
      have tail := ih (show l[k]? = some x from h)
      rw [List.set_cons_succ, List.map_cons, List.map_cons, List.sum_cons, List.sum_cons]
      omega

lemma le_sum (h : l[k]? = some x) : w x ≤ (l.map w).sum := by
  induction l generalizing k with
  | nil => cases h
  | cons z l ih =>
    rw [List.map_cons, List.sum_cons]
    cases k with
    | zero =>
      cases h
      omega
    | succ k =>
      have tail := ih (show l[k]? = some x from h)
      omega

lemma sum_le_mul {c : Nat} (h : ∀ x, w x ≤ c * v x) : (l.map w).sum ≤ c * (l.map v).sum := by
  induction l with
  | nil => exact Nat.zero_le _
  | cons z l ih =>
    rw [List.map_cons, List.map_cons, List.sum_cons, List.sum_cons, Nat.mul_add]
    exact Nat.add_le_add (h z) ih

end Lists

/-! ### Mutexes -/

section Mutexes

variable {π : Type} {holds holds' : π → Bool} {m m' : Option π} {p q : π} {h h' : Bool}

/-- What a step of party `p` may do to a mutex: nothing, take it when it is free, or give it back. -/
inductive MutexStep (p : π) : Option π → Bool → Option π → Bool → Prop where
  | keep (m : Option π) (h : Bool) : MutexStep p m h m h
  | take : MutexStep p none false (some p) true
  | release (m : Option π) : MutexStep p m true none false

/-- Who is in a critical section has the mutex. -/
def Owned (holds : π → Bool) (m : Option π) : Prop := ∀ p, holds p = true → m = some p

lemma Owned.step (o : Owned holds m) (st : MutexStep p m (holds p) m' (holds' p))
    (others : ∀ q, q ≠ p → holds' q = holds q) : Owned holds' m' := by
  intro q hq
  generalize before : holds p = h at st
  generalize later : holds' p = h' at st
  by_cases e : q = p
  · subst e
    cases st with
    | keep => exact o q (before.trans (later.symm.trans hq))
    | take => rfl
    | release =>
      rw [later] at hq
      cases hq
  · rw [others q e] at hq
    cases st with
    | keep => exact o q hq
    | take => cases o q hq
    | release =>
      have here := o p before
      rw [o q hq] at here
      exact absurd (Option.some.inj here) e

/-- No two parties are in critical sections. -/
lemma Owned.exclusive (o : Owned holds m) (hp : holds p = true) (hq : holds q = true) : p = q :=
  Option.some.inj ((o p hp).symm.trans (o q hq))

end Mutexes

/-! ### Debts

What has been done is what was promised, up to one thing that a single party owes. -/

section Debts

variable {π φ : Type} {owes owes' : π → Option φ} {promised done : List φ} {p : π} {f : φ}

/-- At most one party owes something, namely what was promised last. -/
def Balanced (owes : π → Option φ) (promised done : List φ) : Prop :=
  (∀ p, owes p = none) ∧ promised = done ∨
    ∃ p f, owes p = some f ∧ (∀ q, q ≠ p → owes q = none) ∧ promised = done ++ [f]

lemma Balanced.keep (b : Balanced owes promised done) (same : ∀ p, owes' p = owes p) :
    Balanced owes' promised done := by
  obtain rfl : owes' = owes := funext same
  exact b

/-- A party does what it owes. -/
lemma Balanced.pay (b : Balanced owes promised done) (owed : owes p = some f) (paid : owes' p = none)
    (same : ∀ q, q ≠ p → owes' q = owes q) : Balanced owes' promised (done ++ [f]) := by
  obtain ⟨none, -⟩ | ⟨q, g, owes_q, others, rfl⟩ := b
  · rw [none p] at owed
    cases owed
  · have here : p = q := by
      by_contra ne
      rw [others p ne] at owed
      cases owed
    subst here
    rw [owed] at owes_q
    cases owes_q
    refine .inl ⟨fun q => ?_, rfl⟩
    by_cases e : q = p
    · exact e ▸ paid
    · rw [same q e, others q e]

/-- A promise when nothing is owed. -/
lemma Balanced.incur (b : Balanced owes promised done) (even : done.length = promised.length)
    (owed : owes' p = some f) (same : ∀ q, q ≠ p → owes' q = owes q) : Balanced owes' (promised ++ [f]) done := by
  obtain ⟨none, rfl⟩ | ⟨q, g, -, -, rfl⟩ := b
  · exact .inr ⟨p, f, owed, fun q ne => by rw [same q ne, none q], rfl⟩
  · rw [List.length_append, List.length_singleton] at even
    omega

/-- Nothing has been done, and all that was promised is owed by one party. -/
lemma Balanced.single (others : ∀ q, q ≠ p → owes q = none) : Balanced owes (owes p).toList [] := by
  cases owed : owes p with
  | none =>
    refine .inl ⟨fun q => ?_, rfl⟩
    by_cases e : q = p
    · exact e ▸ owed
    · exact others q e
  | some f => exact .inr ⟨p, f, owed, others, rfl⟩

lemma Balanced.begins (b : Balanced owes promised done) : done <+: promised := by
  obtain ⟨-, rfl⟩ | ⟨q, g, -, -, rfl⟩ := b
  · exact List.prefix_rfl
  · exact List.prefix_append _ _

lemma Balanced.even (b : Balanced owes promised done) (none : ∀ p, owes p = none) : done = promised := by
  obtain ⟨-, rfl⟩ | ⟨q, g, owed, -, -⟩ := b
  · rfl
  · rw [none q] at owed
    cases owed

end Debts

end Interleaving
