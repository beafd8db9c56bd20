import Mathlib.Tactic.Common
import Mathlib.Order.Defs.Unbundled

/-!
# Programs that re-enter their machine

A program over states `σ` is what one turn of a machine's loop executes. It ends with a value, with a
raised error, by leaving the loop with a result `ρ`, or by leaving the language; or it starts the loop
again from within and goes on when that inner run has returned.

Properties of programs are proved along their text: `Closed` collects the rules, `Maintains` (an invariant)
and `Carries` (a preorder between successive states) have them. `Steady` programs stay inside their turn.
-/

/-- How a program over states `σ` ends, or where it re-enters the loop. -/
inductive Outcome (σ ρ κ α : Type) : Type where
  | ok (a : α) (s : σ)
  | error (s : σ)
  | exit (r : ρ) (s : σ)
  | crash (c : κ)
  | enter (s : σ) (k : ρ → σ → Outcome σ ρ κ α)

/-- A program over states `σ`. -/
def Program (σ ρ κ α : Type) : Type := σ → Outcome σ ρ κ α

namespace Outcome

variable {σ ρ κ α β γ : Type}

/-- Go on with the value and the state. -/
def bind : Outcome σ ρ κ α → (α → Program σ ρ κ β) → Outcome σ ρ κ β
  | .ok a s, f => f a s
  | .error s, _ => .error s
  | .exit r s, _ => .exit r s
  | .crash c, _ => .crash c
  | .enter s k, f => .enter s fun r s' => (k r s').bind f

@[simp] lemma bind_ok (a : α) (s : σ) (f : α → Program σ ρ κ β) :
    (Outcome.ok a s).bind f = f a s := rfl
@[simp] lemma bind_error (s : σ) (f : α → Program σ ρ κ β) :
    (Outcome.error s).bind f = .error s := rfl
@[simp] lemma bind_exit (r : ρ) (s : σ) (f : α → Program σ ρ κ β) :
    (Outcome.exit r s).bind f = .exit r s := rfl
@[simp] lemma bind_crash (c : κ) (f : α → Program σ ρ κ β) :
    (Outcome.crash c).bind f = .crash c := rfl
@[simp] lemma bind_enter (s : σ) (k : ρ → σ → Outcome σ ρ κ α) (f : α → Program σ ρ κ β) :
    (Outcome.enter s k).bind f = .enter s fun r s' => (k r s').bind f := rfl

lemma bind_assoc (m : Outcome σ ρ κ α) (f : α → Program σ ρ κ β) (g : β → Program σ ρ κ γ) :
    (m.bind f).bind g = m.bind fun a s => (f a s).bind g := by
  induction m with
  | enter s k ih => exact congrArg (Outcome.enter s) (funext fun r => funext fun s' => ih r s')
  | _ => rfl

lemma bind_pure (m : Outcome σ ρ κ α) : m.bind Outcome.ok = m := by
  induction m with
  | enter s k ih => exact congrArg (Outcome.enter s) (funext fun r => funext fun s' => ih r s')
  | _ => rfl

/-- A program that ended with a value did so in two parts. -/
lemma bind_eq_ok {m : Outcome σ ρ κ α} {f : α → Program σ ρ κ β} {b s'} (h : m.bind f = .ok b s') :
    ∃ a s, m = .ok a s ∧ f a s = .ok b s' := by
  cases m with
  | ok a s => exact ⟨a, s, rfl, h⟩
  | _ => simp at h

/-- The value and the state of a program that ended. -/
def ended : Outcome σ ρ κ α → Option (α × σ)
  | .ok a s => some (a, s)
  | _ => none

lemma ended_eq_some {m : Outcome σ ρ κ α} {a : α} {s : σ} (h : m.ended = some (a, s)) : m = .ok a s := by
  cases m with
  | ok b t =>
    obtain ⟨rfl, rfl⟩ := Prod.mk.inj (Option.some.inj h)
    rfl
  | _ => cases h

/-- The state in which the program ended with a value or first entered the loop. -/
def reached : Outcome σ ρ κ α → Option σ
  | .ok _ s => some s
  | .enter s _ => some s
  | _ => none

@[simp] lemma reached_ok (a : α) (s : σ) : (Outcome.ok a s : Outcome σ ρ κ α).reached = some s := rfl
@[simp] lemma reached_error (s : σ) : (Outcome.error s : Outcome σ ρ κ α).reached = none := rfl
@[simp] lemma reached_exit (r : ρ) (s : σ) : (Outcome.exit r s : Outcome σ ρ κ α).reached = none := rfl
@[simp] lemma reached_crash (c : κ) : (Outcome.crash c : Outcome σ ρ κ α).reached = none := rfl
@[simp] lemma reached_enter (s : σ) (k : ρ → σ → Outcome σ ρ κ α) :
    (Outcome.enter s k).reached = some s := rfl

/-- What holds along an outcome: `P` of the state it ends in, `F` of one in which it fails, and `Q` on leaving
the loop; `A` of a state in which it enters the loop, from where the inner run may come back with any result
and state that `N` allows. -/
def All (A : σ → Prop) (N : σ → ρ → σ → Prop) (P F : σ → Prop) (Q : ρ → σ → Prop) :
    Outcome σ ρ κ α → Prop
  | .ok _ s => P s
  | .error s => F s
  | .exit r s => Q r s
  | .crash _ => True
  | .enter s k => A s ∧ ∀ r s', N s r s' → (k r s').All A N P F Q

section All

variable {A A' : σ → Prop} {N : σ → ρ → σ → Prop} {P P' F F' : σ → Prop} {Q Q' : ρ → σ → Prop}

@[simp] lemma all_ok {a : α} {s : σ} :
    (Outcome.ok a s : Outcome σ ρ κ α).All A N P F Q ↔ P s := Iff.rfl
@[simp] lemma all_error {s : σ} :
    (Outcome.error s : Outcome σ ρ κ α).All A N P F Q ↔ F s := Iff.rfl
@[simp] lemma all_exit {r : ρ} {s : σ} :
    (Outcome.exit r s : Outcome σ ρ κ α).All A N P F Q ↔ Q r s := Iff.rfl
@[simp] lemma all_crash {c : κ} : (Outcome.crash c : Outcome σ ρ κ α).All A N P F Q ↔ True := Iff.rfl
@[simp] lemma all_enter {s : σ} {k : ρ → σ → Outcome σ ρ κ α} :
    (Outcome.enter s k).All A N P F Q ↔ A s ∧ ∀ r s', N s r s' → (k r s').All A N P F Q := Iff.rfl

lemma All.mono {m : Outcome σ ρ κ α} (h : m.All A N P F Q) (hA : ∀ s, A s → A' s)
    (hP : ∀ s, P s → P' s) (hF : ∀ s, F s → F' s) (hQ : ∀ r s, Q r s → Q' r s) :
    m.All A' N P' F' Q' := by
  induction m with
  | ok a s => exact hP s h
  | error s => exact hF s h
  | exit r s => exact hQ r s h
  | crash c => trivial
  | enter s k ih => exact ⟨hA s h.1, fun r s' hN => ih r s' (h.2 r s' hN)⟩

/-- What holds along both parts holds along the whole. -/
lemma All.bind {m : Outcome σ ρ κ α} {f : α → Program σ ρ κ β} (h : m.All A N P F Q)
    (hf : ∀ a s, P s → (f a s).All A N P' F Q) : (m.bind f).All A N P' F Q := by
  induction m with
  | ok a s => exact hf a s h
  | error s => exact h
  | exit r s => exact h
  | crash c => trivial
  | enter s k ih => exact ⟨h.1, fun r s' hN => ih r s' (h.2 r s' hN)⟩

end All

/-- Up to its end, or to where it enters the loop, the outcome leads from `s₀` to `R`-related states, and so
again from whatever state the inner run comes back with. -/
def Along (R : σ → σ → Prop) (s₀ : σ) : Outcome σ ρ κ α → Prop
  | .ok _ s => R s₀ s
  | .error s => R s₀ s
  | .exit _ s => R s₀ s
  | .crash _ => True
  | .enter s k => R s₀ s ∧ ∀ r s', (k r s').Along R s'

lemma Along.from {R : σ → σ → Prop} [IsTrans σ R] {s₀ s₁ : σ} {m : Outcome σ ρ κ α} (h : R s₀ s₁)
    (hm : m.Along R s₁) : m.Along R s₀ := by
  cases m with
  | crash c => trivial
  | enter s k => exact ⟨trans_of R h hm.1, hm.2⟩
  | _ => exact trans_of R h hm

lemma Along.bind {R : σ → σ → Prop} [IsTrans σ R] {s₀ : σ} {m : Outcome σ ρ κ α}
    {f : α → Program σ ρ κ β} (h : m.Along R s₀) (hf : ∀ a s, (f a s).Along R s) :
    (m.bind f).Along R s₀ := by
  induction m generalizing s₀ with
  | ok a s => exact (hf a s).from h
  | error s => exact h
  | exit r s => exact h
  | crash c => trivial
  | enter s k ih => exact ⟨h.1, fun r s' => ih r s' (h.2 r s')⟩

/-- The outcome is a value and a state that satisfy `P`, or leaves the language for a reason that satisfies `C`. -/
def Ends (P : α → σ → Prop) (C : κ → Prop) : Outcome σ ρ κ α → Prop
  | .ok a s => P a s
  | .crash c => C c
  | _ => False

section Ends

variable {P P' : α → σ → Prop} {Q : β → σ → Prop} {C C' : κ → Prop}

@[simp] lemma ends_ok {a : α} {s : σ} : (Outcome.ok a s : Outcome σ ρ κ α).Ends P C ↔ P a s := Iff.rfl
@[simp] lemma ends_crash {c : κ} : (Outcome.crash c : Outcome σ ρ κ α).Ends P C ↔ C c := Iff.rfl

lemma Ends.mono {m : Outcome σ ρ κ α} (h : m.Ends P C) (hP : ∀ a s, P a s → P' a s) (hC : ∀ c, C c → C' c) :
    m.Ends P' C' := by
  cases m with
  | ok a s => exact hP a s h
  | crash c => exact hC c h
  | error | exit | enter => exact h.elim

/-- An outcome that goes on ends as what it goes on with. -/
lemma Ends.bind {m : Outcome σ ρ κ α} {f : α → Program σ ρ κ β} (h : m.Ends P C)
    (hf : ∀ a s, P a s → (f a s).Ends Q C) : (m.bind f).Ends Q C := by
  cases m with
  | ok a s => exact hf a s h
  | crash c => exact h
  | error | exit | enter => exact h.elim

end Ends

/-- Two outcomes are the same but for the states in which they end, which `R` relates: they enter the loop in the
same states, and go on alike from whatever the inner run comes back with. -/
inductive Alike (R : σ → σ → Prop) : Outcome σ ρ κ α → Outcome σ ρ κ α → Prop where
  | ok {a : α} {s s' : σ} : R s s' → Alike R (.ok a s) (.ok a s')
  | error {s s' : σ} : R s s' → Alike R (.error s) (.error s')
  | exit {r : ρ} {s s' : σ} : R s s' → Alike R (.exit r s) (.exit r s')
  | crash {c : κ} : Alike R (.crash c) (.crash c)
  | enter {s : σ} {k k' : ρ → σ → Outcome σ ρ κ α} : (∀ r t, Alike R (k r t) (k' r t)) →
    Alike R (.enter s k) (.enter s k')

end Outcome

namespace Program

variable {σ ρ κ α β : Type}

instance : Monad (Program σ ρ κ) where
  pure a s := .ok a s
  bind m f s := (m s).bind f

@[simp] lemma pure_apply (a : α) (s : σ) : (pure a : Program σ ρ κ α) s = .ok a s := rfl
@[simp] lemma bind_apply (m : Program σ ρ κ α) (f : α → Program σ ρ κ β) (s : σ) :
    (m >>= f) s = (m s).bind f := rfl

instance : LawfulMonad (Program σ ρ κ) := LawfulMonad.mk' _
  (fun m => funext fun s => Outcome.bind_pure (m s))
  (fun _ _ => rfl)
  (fun m f g => funext fun s => Outcome.bind_assoc (m s) f g)

/-- Read the state. -/
def get : Program σ ρ κ σ := fun s => .ok s s

/-- Change the state. -/
def modify (f : σ → σ) : Program σ ρ κ Unit := fun s => .ok () (f s)

/-- Leave the language. -/
def crash (c : κ) : Program σ ρ κ α := fun _ => .crash c

/-- Raise an error. -/
def raise : Program σ ρ κ α := fun s => .error s

/-- Leave the loop. -/
def exit (r : ρ) : Program σ ρ κ α := fun s => .exit r s

/-- Run the loop from within. -/
def enter : Program σ ρ κ ρ := fun s => .enter s .ok

/-- A step taken only when the condition holds. -/
def when (c : Prop) [Decidable c] (m : Program σ ρ κ Unit) : Program σ ρ κ Unit :=
  if c then m else pure ()

/-- A value that must be there. -/
def orCrash (c : κ) : Option α → Program σ ρ κ α
  | some a => pure a
  | none => crash c

@[simp] lemma get_apply (s : σ) : (get : Program σ ρ κ σ) s = .ok s s := rfl
@[simp] lemma modify_apply (f : σ → σ) (s : σ) :
    (modify f : Program σ ρ κ Unit) s = .ok () (f s) := rfl
@[simp] lemma crash_apply (c : κ) (s : σ) : (crash c : Program σ ρ κ α) s = .crash c := rfl
@[simp] lemma raise_apply (s : σ) : (raise : Program σ ρ κ α) s = .error s := rfl
@[simp] lemma exit_apply (r : ρ) (s : σ) : (exit r : Program σ ρ κ α) s = .exit r s := rfl
@[simp] lemma enter_apply (s : σ) : (enter : Program σ ρ κ ρ) s = .enter s .ok := rfl
@[simp] lemma orCrash_some (c : κ) (a : α) :
    (orCrash c (some a) : Program σ ρ κ α) = pure a := rfl
@[simp] lemma orCrash_none (c : κ) : (orCrash c none : Program σ ρ κ α) = crash c := rfl

/-! ### Logics for programs -/

/-- A property of programs that can be proved along their text. -/
class Closed (L : ∀ α : Type, Program σ ρ κ α → Prop) : Prop where
  pure : ∀ {α : Type} (a : α), L α (pure a)
  get : L σ get
  crash : ∀ {α : Type} (c : κ), L α (crash c)
  bind : ∀ {α β : Type} {m : Program σ ρ κ α} {f : α → Program σ ρ κ β}, L α m →
    (∀ a, L β (f a)) → L β (m >>= f)

/-- The program has the property. -/
def Meets (L : ∀ α : Type, Program σ ρ κ α → Prop) (m : Program σ ρ κ α) : Prop := L α m

namespace Meets

variable {L : ∀ α : Type, Program σ ρ κ α → Prop}

lemma ite {c : Prop} [Decidable c] {m m' : Program σ ρ κ α} (h : Meets L m) (h' : Meets L m') :
    Meets L (if c then m else m') := by
  split
  · exact h
  · exact h'

variable [Closed L]

lemma pure (a : α) : Meets L (pure a : Program σ ρ κ α) := Closed.pure a

lemma get : Meets L (get : Program σ ρ κ σ) := Closed.get

lemma crash (c : κ) : Meets L (crash c : Program σ ρ κ α) := Closed.crash c

lemma bind {m : Program σ ρ κ α} {f : α → Program σ ρ κ β} (hm : Meets L m)
    (hf : ∀ a, Meets L (f a)) : Meets L (m >>= f) := Closed.bind hm hf

lemma when {c : Prop} [Decidable c] {m : Program σ ρ κ Unit} (h : Meets L m) : Meets L (when c m) :=
  h.ite (Meets.pure ())

lemma orCrash (c : κ) (o : Option α) : Meets L (orCrash c o : Program σ ρ κ α) := by
  cases o with
  | none => exact Meets.crash c
  | some a => exact Meets.pure a

end Meets

/-! ### What a program maintains -/

/-- Begun in a state that satisfies `P`, the program ends in one; see `Outcome.All`. -/
def Maintains (A : σ → Prop) (N : σ → ρ → σ → Prop) (P F : σ → Prop) (Q : ρ → σ → Prop) (α : Type)
    (m : Program σ ρ κ α) : Prop :=
  ∀ s, P s → (m s).All A N P F Q

instance {A : σ → Prop} {N : σ → ρ → σ → Prop} {P F : σ → Prop} {Q : ρ → σ → Prop} :
    Closed (Maintains (κ := κ) A N P F Q) where
  pure _ _ h := h
  get _ h := h
  crash _ _ _ := trivial
  bind hm hf s h := (hm s h).bind fun a => hf a

/-! ### What a program carries along -/

/-- On each stretch of the program, up to its end or to where it enters the loop, the states are related by
`R`. -/
def Carries (R : σ → σ → Prop) (α : Type) (m : Program σ ρ κ α) : Prop := ∀ s, (m s).Along R s

instance {R : σ → σ → Prop} [IsPreorder σ R] : Closed (Carries (ρ := ρ) (κ := κ) R) where
  pure _ s := refl_of R s
  get s := refl_of R s
  crash _ _ := trivial
  bind hm hf s := (hm s).bind fun a s' => hf a s'

/-! ### What a program reads -/

/-- A program that ends with a value ends in the state it began in. -/
def Reads (α : Type) (m : Program σ ρ κ α) : Prop := ∀ s a s', m s = .ok a s' → s' = s

instance : Closed (Reads (σ := σ) (ρ := ρ) (κ := κ)) where
  pure _ s _ _ h := by cases h; rfl
  get s _ _ h := by cases h; rfl
  crash _ _ _ _ h := by cases h
  bind hm hf s b s' h := by
    obtain ⟨a, s₁, e, h⟩ := Outcome.bind_eq_ok h
    rw [hf a s₁ b s' h, hm s a s₁ e]

/-! ### Steady programs -/

/-- The program relates the state it begins in by `R` to the one it ends or fails in, fails only in states
that satisfy `F`, and neither leaves nor enters the loop. -/
def Steady (R : σ → σ → Prop) (F : σ → Prop) (m : Program σ ρ κ α) : Prop :=
  ∀ s, (m s).All (fun _ => False) (fun _ _ _ => False) (R s) (fun s' => R s s' ∧ F s') fun _ _ => False

namespace Steady

variable {R : σ → σ → Prop} {F : σ → Prop}

@[simp] lemma crash (c : κ) : Steady R F (crash c : Program σ ρ κ α) := fun _ => trivial

lemma modify {g : σ → σ} (h : ∀ s, R s (g s)) : Steady R F (modify g : Program σ ρ κ Unit) := h

/-- Failing after a change. -/
lemma modify_raise {g : σ → σ} (h : ∀ s, R s (g s)) (hF : ∀ s, F (g s)) :
    Steady R F (do Program.modify g; raise : Program σ ρ κ α) :=
  fun s => ⟨h s, hF s⟩

lemma ite {c : Prop} [Decidable c] {m m' : Program σ ρ κ α} (h : Steady R F m) (h' : Steady R F m') :
    Steady R F (if c then m else m') := by
  split
  · exact h
  · exact h'

lemma when {c : Prop} [Decidable c] {m : Program σ ρ κ Unit} [IsPreorder σ R] (h : Steady R F m) :
    Steady R F (when c m) :=
  h.ite fun s => refl_of R s

/-- A steady program maintains what the relation carries along. -/
lemma maintains {A : σ → Prop} {N : σ → ρ → σ → Prop} {P P' : σ → Prop} {Q : ρ → σ → Prop}
    (hP : ∀ s s', R s s' → P s → P s') (hF : ∀ s s', R s s' → F s' → P s → P' s')
    {m : Program σ ρ κ α} (h : Steady R F m) : Meets (Maintains A N P P' Q) m := by
  intro s hs
  have e := h s
  cases hm : m s with
  | ok a s' => exact hP s s' (by rwa [hm] at e) hs
  | error s' =>
    rw [hm] at e
    exact hF s s' e.1 e.2 hs
  | exit r s' => rw [hm] at e; exact e.elim
  | crash c => trivial
  | enter s' k => rw [hm] at e; exact e.1.elim

/-- A steady program carries its relation along, and any coarser one. -/
lemma carries {R' : σ → σ → Prop} (hR : ∀ s s', R s s' → R' s s') {m : Program σ ρ κ α}
    (h : Steady R F m) : Meets (Carries R') m := by
  intro s
  have e := h s
  cases hm : m s with
  | ok a s' => exact hR s s' (by rwa [hm] at e)
  | error s' =>
    rw [hm] at e
    exact hR s s' e.1
  | exit r s' => rw [hm] at e; exact e.elim
  | crash c => trivial
  | enter s' k => rw [hm] at e; exact e.1.elim

variable [IsPreorder σ R]

@[simp] lemma pure (a : α) : Steady R F (pure a : Program σ ρ κ α) := fun s => refl_of R s

@[simp] lemma get : Steady R F (get : Program σ ρ κ σ) := fun s => refl_of R s

@[simp] lemma orCrash (c : κ) (o : Option α) : Steady R F (orCrash c o : Program σ ρ κ α) := by
  cases o with
  | none => exact Steady.crash c
  | some a => exact Steady.pure a

lemma bind {m : Program σ ρ κ α} {g : α → Program σ ρ κ β} (hm : Steady R F m)
    (hg : ∀ a, Steady R F (g a)) : Steady R F (m >>= g) := by
  intro s
  refine (hm s).bind fun a s' e => ?_
  exact (hg a s').mono (fun _ h => h) (fun s'' h => trans_of R e h) (fun s'' h => ⟨trans_of R e h.1, h.2⟩)
    fun _ _ h => h

lemma mapM {m : α → Program σ ρ κ β} (h : ∀ a, Steady R F (m a)) (l : List α) :
    Steady R F (l.mapM m) := by
  induction l with
  | nil => exact Steady.pure _
  | cons a l ih =>
    rw [List.mapM_cons]
    exact bind (h a) fun _ => bind ih fun _ => Steady.pure _

end Steady

end Program
