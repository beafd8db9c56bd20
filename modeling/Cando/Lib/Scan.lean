import Mathlib.Tactic.Common

/-!
# Programs that use up their state

A scan over states `σ` ends with a value or fails, and leaves a state behind either way. Its loops repeat a body that
uses up some of the state, as a size measures it, so they need no bound of their own. A scan simulates one over other
states, which an abstraction maps to, unless it ends in a state that is marked as spoiled.
-/

/-- A program over states `σ` that may fail. -/
def Scan (σ α : Type) : Type := σ → Option α × σ

namespace Scan

variable {σ τ α β γ : Type}

/-- Go on with the value that a scan has ended with. -/
def andThen (f : α → Scan σ β) : Option α × σ → Option β × σ
  | (some a, s) => f a s
  | (none, s) => (none, s)

instance : Monad (Scan σ) where
  pure a s := (some a, s)
  bind m f s := andThen f (m s)

/-- Fail. -/
def fail : Scan σ α := fun s => (none, s)

@[simp] lemma pure_apply (a : α) (s : σ) : (pure a : Scan σ α) s = (some a, s) := rfl
@[simp] lemma bind_apply (m : Scan σ α) (f : α → Scan σ β) (s : σ) : (m >>= f) s = andThen f (m s) := rfl
@[simp] lemma fail_apply (s : σ) : (fail : Scan σ α) s = (none, s) := rfl
@[simp] lemma andThen_some (f : α → Scan σ β) (a : α) (s : σ) : andThen f (some a, s) = f a s := rfl
@[simp] lemma andThen_none (f : α → Scan σ β) (s : σ) : andThen f (none, s) = (none, s) := rfl

/-! ### Loops -/

section Loops

variable (size : σ → Nat) (body : β → Scan σ (β ⊕ α))

/-- At most `n` rounds of a loop. -/
def rounds : Nat → β → Scan σ α
  | 0, _ => fail
  | n + 1, b => do
    match ← body b with
    | .inl b => rounds n b
    | .inr a => pure a

/-- Repeat the body until it ends with a value, for as many rounds as there may be. -/
def loop (b : β) : Scan σ α := fun s => rounds body (size s + 1) b s

/-- Each round that is not the last uses up some of the state. -/
def UsesUp : Prop := ∀ b s b' s', body b s = (some (.inl b'), s') → size s' < size s

variable {size body}

/-- More rounds than there may be make no difference. -/
lemma rounds_enough (uses : UsesUp size body) {n m : Nat} {b : β} {s : σ} (hn : size s < n) (hm : size s < m) :
    rounds body n b s = rounds body m b s := by
  induction n generalizing m b s with
  | zero => exact absurd hn (Nat.not_lt_zero _)
  | succ n ih =>
    cases m with
    | zero => exact absurd hm (Nat.not_lt_zero _)
    | succ m =>
      simp only [rounds, bind_apply]
      match e : body b s with
      | (none, s') => rfl
      | (some (.inr a), s') => rfl
      | (some (.inl b'), s') =>
        have less := uses b s b' s' e
        exact ih (by omega) (by omega)

/-- A loop is its body and then the loop again. -/
lemma loop_eq (uses : UsesUp size body) (b : β) :
    loop size body b = (do
      match ← body b with
      | .inl b => loop size body b
      | .inr a => pure a : Scan σ α) := by
  funext s
  rw [loop, rounds, bind_apply, bind_apply]
  match e : body b s with
  | (none, s') => rfl
  | (some (.inr a), s') => rfl
  | (some (.inl b'), s') => exact rounds_enough uses (uses b s b' s' e) (Nat.lt_succ_self _)

end Loops

/-! ### Results -/

section Results

variable {m : Scan σ α} {f : α → Scan σ β}

/-- A scan that ended with a value did so in two parts. -/
lemma bind_eq_some {s s' : σ} {b : β} (e : (m >>= f) s = (some b, s')) :
    ∃ a s₁, m s = (some a, s₁) ∧ f a s₁ = (some b, s') := by
  rw [bind_apply] at e
  match first : m s with
  | (none, s₁) =>
    rw [first] at e
    cases e
  | (some a, s₁) =>
    rw [first] at e
    exact ⟨a, s₁, rfl, e⟩

lemma eq_some_of_fst {r : Option α × σ} {a : α} (h : r.1 = some a) : ∃ s, r = (some a, s) := ⟨r.2, Prod.ext h rfl⟩

end Results

/-! ### Simulation -/

/-- As long as it does not spoil its state, `m` does under the abstraction what `m'` does. -/
def Simulates (φ : σ → τ) (spoiled : σ → Prop) (m : Scan σ α) (m' : Scan τ α) : Prop :=
  ∀ s, ¬ spoiled (m s).2 →
    ¬ spoiled s ∧ (m s).1 = (m' (φ s)).1 ∧ ((m s).1 ≠ none → (m' (φ s)).2 = φ (m s).2)

namespace Simulates

variable {φ : σ → τ} {spoiled : σ → Prop} {m : Scan σ α} {m' : Scan τ α} {f : α → Scan σ β} {f' : α → Scan τ β}
  {body : β → Scan σ (β ⊕ α)} {body' : β → Scan τ (β ⊕ α)}

lemma pure (a : α) : Simulates φ spoiled (pure a) (pure a) := fun _ h => ⟨h, rfl, fun _ => rfl⟩

lemma fail : Simulates φ spoiled (fail : Scan σ α) fail := fun _ h => ⟨h, rfl, fun e => absurd rfl e⟩

lemma bind (h : Simulates φ spoiled m m') (hf : ∀ a, Simulates φ spoiled (f a) (f' a)) :
    Simulates φ spoiled (m >>= f) (m' >>= f') := by
  intro s sound
  have first := h s
  simp only [bind_apply] at sound ⊢
  match e : m s, e' : m' (φ s) with
  | (none, s₁), (o, t₁) =>
    rw [e] at sound first
    rw [e'] at first
    obtain ⟨clean, same, -⟩ := first sound
    obtain rfl : none = o := same
    exact ⟨clean, rfl, fun some => absurd rfl some⟩
  | (some a, s₁), (o, t₁) =>
    rw [e] at sound first
    rw [e'] at first
    have second := hf a s₁ sound
    obtain ⟨clean, same, next⟩ := first second.1
    obtain rfl : some a = o := same
    obtain rfl : t₁ = φ s₁ := next nofun
    exact ⟨clean, second.2⟩

lemma rounds (h : ∀ b, Simulates φ spoiled (body b) (body' b)) (n : Nat) (b : β) :
    Simulates φ spoiled (rounds body n b) (rounds body' n b) := by
  induction n generalizing b with
  | zero => exact fail
  | succ n ih =>
    refine (h b).bind fun next => ?_
    cases next with
    | inl b => exact ih b
    | inr a => exact pure a

lemma loop {size : σ → Nat} {size' : τ → Nat} (sizes : ∀ s, size' (φ s) = size s)
    (h : ∀ b, Simulates φ spoiled (body b) (body' b)) (b : β) :
    Simulates φ spoiled (loop size body b) (loop size' body' b) := by
  intro s sound
  have same : Scan.loop size' body' b (φ s) = Scan.rounds body' (size s + 1) b (φ s) := by rw [Scan.loop, sizes]
  rw [same]
  exact rounds h (size s + 1) b s sound

/-- Two scans that simulate one scan agree. -/
lemma agree {s s' : σ} (h : Simulates φ spoiled m m') (same : φ s = φ s') (sound : ¬ spoiled (m s).2)
    (sound' : ¬ spoiled (m s').2) : (m s).1 = (m s').1 := by
  rw [(h s sound).2.1, (h s' sound').2.1, same]

end Simulates

end Scan
