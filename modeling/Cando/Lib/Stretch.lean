import Cando.Lib.InnerRun

/-!
# Stretches of a run

What a machine does within one activation: it goes from one state to another, an error is raised, or it runs for so many
steps and more. Stretches are put end to end, and an error that is caught joins two of them. A machine that runs
for any number of steps never ends.
-/

namespace Machine

variable {σ ρ κ : Type} {M : Machine σ ρ κ} {m n : Nat} {s s' s'' : σ}

/-- In `n` steps the activation that is running gets from `s` to `s'`. -/
def Goes (M : Machine σ ρ κ) (n : Nat) (s s' : σ) : Prop :=
  ∀ entry outer, M.steps n (.running entry s outer) = .running entry s' outer

/-- In `n` steps the activation that is running raises an error in `s'`. -/
def Throws (M : Machine σ ρ κ) (n : Nat) (s s' : σ) : Prop :=
  ∀ entry outer, M.steps n (.running entry s outer) = .raised entry s' outer

/-- The activation that is running goes on for `n` steps at least. -/
def Lasts (M : Machine σ ρ κ) (n : Nat) (s : σ) : Prop := ∃ m s', n ≤ m ∧ M.Goes m s s'

lemma Goes.refl (s : σ) : M.Goes 0 s s := fun _ _ => rfl

lemma Goes.trans (h : M.Goes m s s') (h' : M.Goes n s' s'') : M.Goes (m + n) s s'' :=
  fun entry outer => by rw [steps_add, h, h']

lemma Goes.throws (h : M.Goes m s s') (h' : M.Throws n s' s'') : M.Throws (m + n) s s'' :=
  fun entry outer => by rw [steps_add, h, h']

lemma Goes.lasts (h : M.Goes m s s') (h' : M.Lasts n s') : M.Lasts (m + n) s := by
  obtain ⟨k, t, more, goes⟩ := h'
  exact ⟨m + k, t, Nat.add_le_add_left more m, h.trans goes⟩

lemma Lasts.mono (h : M.Lasts n s) (le : m ≤ n) : M.Lasts m s := by
  obtain ⟨k, t, more, goes⟩ := h
  exact ⟨k, t, Nat.le_trans le more, goes⟩

lemma Lasts.zero (s : σ) : M.Lasts 0 s := ⟨0, s, Nat.le_refl 0, .refl s⟩

/-- A turn that ends. -/
lemma Goes.turn (h : M.turn s = .ok () s') : M.Goes 1 s s' := by
  intro entry outer
  rw [steps, steps, step, h]
  cases outer <;> rfl

/-- A turn that raises an error. -/
lemma Throws.turn (h : M.turn s = .error s') : M.Throws 1 s s' := by
  intro entry outer
  rw [steps, steps, step, h]
  cases outer <;> rfl

/-- An error is caught. -/
lemma Throws.caught (h : M.Throws n s s') (h' : M.unwind s' = .ok () s'') : M.Goes (n + 1) s s'' := by
  intro entry outer
  rw [steps_succ, h, step, h']
  cases outer <;> rfl

/-! ### The end of a run -/

/-- The outermost activation leaves the loop. -/
lemma Goes.returns {r : ρ} (h : M.Goes n s s') (h' : M.turn s' = .exit r s'') : M.Returns s r s'' := by
  have done : M.steps (n + 1) (start s) = .done r s'' := by
    rw [start, steps_succ, h, step, h']
    rfl
  rw [Returns, ← done]
  exact reaches_steps M (n + 1) (start s)

/-- The outermost activation ends with an error. -/
lemma Throws.returns {r : ρ} (h : M.Throws n s s') (h' : M.unwind s' = .exit r s'') : M.Returns s r s'' := by
  have done : M.steps (n + 1) (start s) = .done r s'' := by
    rw [start, steps_succ, h, step, h']
    rfl
  rw [Returns, ← done]
  exact reaches_steps M (n + 1) (start s)

/-- The run has not ended. -/
def Active : Config σ ρ κ → Prop
  | .running _ _ _ | .raised _ _ _ => True
  | _ => False

lemma Lasts.active (h : M.Lasts n s) : Active (M.steps n (start s)) := by
  obtain ⟨k, t, more, goes⟩ := h
  have later := goes s []
  rw [← Nat.add_sub_cancel' more, steps_add] at later
  rw [start]
  cases e : M.steps n (.running s s []) with
  | running | raised => trivial
  | done r t =>
    rw [e, steps_done] at later
    cases later
  | crashed c =>
    rw [e, steps_crashed] at later
    cases later

lemma Returns.steps {r : ρ} (h : M.Returns s r s') : ∃ n, M.steps n (start s) = .done r s' := by
  have reached {c c' : Config σ ρ κ} (h : M.Reaches (fun _ => True) c c') : ∃ n, M.steps n c = c' := by
    induction h with
    | refl => exact ⟨0, rfl⟩
    | tail _ next ih =>
      obtain ⟨n, rfl⟩ := ih
      exact ⟨n + 1, (steps_succ M n c).trans next.2⟩
  exact reached h

/-- A run that comes back does not leave the language. -/
lemma Returns.safe {r : ρ} (h : M.Returns s r s') (n : Nat) (c : κ) : M.steps n (start s) ≠ .crashed c := by
  intro crashed
  obtain ⟨m, done⟩ := h.steps
  have later : M.steps (n + m) (start s) = .crashed c := by rw [steps_add, crashed, steps_crashed]
  rw [Nat.add_comm, steps_add, done, steps_done] at later
  cases later

/-- A run that comes back has not lasted longer. -/
lemma Returns.not_active {r : ρ} (h : M.Returns s r s') : ∃ n, ¬ Active (M.steps n (start s)) := by
  obtain ⟨n, done⟩ := h.steps
  exact ⟨n, by rw [done]; exact id⟩

end Machine
