import Cando.Lib.Program

/-!
# Programs that stay in the language

`Safe` is the weakest precondition of a program by its outcome: it ends with a value and a state that satisfy a
condition, or raises an error, and never leaves the language, whatever the inner runs that it starts come back
with. `Leaves` only looks at the values it ends with, and `Comes` tells with which it can.
-/

namespace Outcome

variable {σ ρ κ α β : Type} {N : σ → ρ → σ → Prop} {P P' : α → σ → Prop} {Q : β → σ → Prop}
  {m : Outcome σ ρ κ α} {f : α → Program σ ρ κ β}

/-- The outcome is an error, or a value and a state that satisfy `P`; `N` tells what inner runs come back with. -/
def Safe (N : σ → ρ → σ → Prop) (P : α → σ → Prop) : Outcome σ ρ κ α → Prop
  | .ok a s => P a s
  | .error _ => True
  | .exit _ _ => False
  | .crash _ => False
  | .enter s k => ∀ r s', N s r s' → (k r s').Safe N P

/-- Every value it ends with satisfies `P`. -/
def Leaves (P : α → σ → Prop) : Outcome σ ρ κ α → Prop
  | .ok a s => P a s
  | .enter _ k => ∀ r s', (k r s').Leaves P
  | _ => True

/-- It ends with `a` in `s'`, the inner runs that it starts coming back with what `N` tells. -/
def Comes (N : σ → ρ → σ → Prop) : Outcome σ ρ κ α → α → σ → Prop
  | .ok a s, a', s' => a = a' ∧ s = s'
  | .enter s k, a', s' => ∃ r t, N s r t ∧ (k r t).Comes N a' s'
  | _, _, _ => False

@[simp] lemma safe_ok {a : α} {s : σ} : (Outcome.ok a s : Outcome σ ρ κ α).Safe N P ↔ P a s := Iff.rfl
@[simp] lemma safe_error {s : σ} : (Outcome.error s : Outcome σ ρ κ α).Safe N P ↔ True := Iff.rfl
@[simp] lemma safe_exit {r : ρ} {s : σ} : (Outcome.exit r s : Outcome σ ρ κ α).Safe N P ↔ False := Iff.rfl
@[simp] lemma safe_crash {c : κ} : (Outcome.crash c : Outcome σ ρ κ α).Safe N P ↔ False := Iff.rfl

@[simp] lemma leaves_ok {a : α} {s : σ} : (Outcome.ok a s : Outcome σ ρ κ α).Leaves P ↔ P a s := Iff.rfl
@[simp] lemma leaves_error {s : σ} : (Outcome.error s : Outcome σ ρ κ α).Leaves P ↔ True := Iff.rfl
@[simp] lemma leaves_crash {c : κ} : (Outcome.crash c : Outcome σ ρ κ α).Leaves P ↔ True := Iff.rfl

/-- What comes first leads to where the rest is safe. -/
lemma safe_bind : (m.bind f).Safe N Q ↔ m.Safe N fun a s => (f a s).Safe N Q := by
  induction m with
  | enter s k ih => exact forall_congr' fun r => forall_congr' fun s' => imp_congr Iff.rfl (ih r s')
  | _ => exact Iff.rfl

lemma Safe.mono (h : m.Safe N P) (weaker : ∀ a s, P a s → P' a s) : m.Safe N P' := by
  induction m with
  | ok a s => exact weaker a s h
  | error s => trivial
  | exit r s => exact h
  | crash c => exact h
  | enter s k ih => exact fun r s' back => ih r s' (h r s' back)

/-- A condition on the values may be added. -/
lemma Safe.leaving (h : m.Safe N P) (l : m.Leaves P') : m.Safe N fun a s => P a s ∧ P' a s := by
  induction m with
  | ok a s => exact ⟨h, l⟩
  | error s => trivial
  | exit r s => exact h
  | crash c => exact h
  | enter s k ih => exact fun r s' back => ih r s' (h r s' back) (l r s')

lemma Leaves.mono (l : m.Leaves P) (weaker : ∀ a s, P a s → P' a s) : m.Leaves P' := by
  induction m with
  | ok a s => exact weaker a s l
  | enter s k ih => exact fun r s' => ih r s' (l r s')
  | _ => trivial

lemma Leaves.bind (l : m.Leaves P) (next : ∀ a s, P a s → (f a s).Leaves Q) : (m.bind f).Leaves Q := by
  induction m with
  | ok a s => exact next a s l
  | enter s k ih => exact fun r s' => ih r s' (l r s')
  | _ => trivial

/-- The values are those of the last part. -/
lemma leaves_last (next : ∀ a s, (f a s).Leaves Q) : (m.bind f).Leaves Q := by
  induction m with
  | ok a s => exact next a s
  | enter s k ih => exact fun r s' => ih r s'
  | _ => trivial

@[simp] lemma comes_ok {a a' : α} {s s' : σ} : (Outcome.ok a s : Outcome σ ρ κ α).Comes N a' s' ↔ a = a' ∧ s = s' :=
  Iff.rfl
@[simp] lemma comes_crash {c : κ} {a' : α} {s' : σ} : ¬ (Outcome.crash c : Outcome σ ρ κ α).Comes N a' s' := id
@[simp] lemma comes_enter {s : σ} {k : ρ → σ → Outcome σ ρ κ α} {a' : α} {s' : σ} :
    (Outcome.enter s k).Comes N a' s' ↔ ∃ r t, N s r t ∧ (k r t).Comes N a' s' := Iff.rfl

/-- A program comes to its end in two parts. -/
lemma comes_bind {b : β} {s' : σ} : (m.bind f).Comes N b s' ↔ ∃ a s, m.Comes N a s ∧ (f a s).Comes N b s' := by
  induction m with
  | ok a s => exact ⟨fun h => ⟨a, s, ⟨rfl, rfl⟩, h⟩, by rintro ⟨_, _, ⟨rfl, rfl⟩, h⟩; exact h⟩
  | enter s k ih =>
    constructor
    · rintro ⟨r, t, back, h⟩
      obtain ⟨a, s₁, first, rest⟩ := (ih r t).mp h
      exact ⟨a, s₁, ⟨r, t, back, first⟩, rest⟩
    · rintro ⟨a, s₁, ⟨r, t, back, first⟩, rest⟩
      exact ⟨r, t, back, (ih r t).mpr ⟨a, s₁, first, rest⟩⟩
  | _ => exact ⟨False.elim, fun ⟨_, _, no, _⟩ => no⟩

/-- The value and the state it ends with when every inner run comes back as `g` computes. -/
def endedBy (g : σ → ρ × σ) : Outcome σ ρ κ α → Option (α × σ)
  | .ok a s => some (a, s)
  | .enter s k => (k (g s).1 (g s).2).endedBy g
  | _ => none

lemma comes_of_endedBy {g : σ → ρ × σ} {a : α} {s' : σ} (h : m.endedBy g = some (a, s')) :
    m.Comes (fun s r t => (r, t) = g s) a s' := by
  induction m with
  | ok b s =>
    obtain ⟨rfl, rfl⟩ := Prod.mk.inj (Option.some.inj h)
    exact ⟨rfl, rfl⟩
  | enter s k ih => exact ⟨_, _, rfl, ih _ _ h⟩
  | _ => cases h

end Outcome

namespace Program

variable {σ ρ κ α β : Type} {P : α → σ → Prop} {Q : β → σ → Prop} {m m' : Program σ ρ κ α} {f : α → Program σ ρ κ β}

/-- Every value the program ends with satisfies `P`, wherever it starts. -/
def Leaving (P : α → σ → Prop) (m : Program σ ρ κ α) : Prop := ∀ s, (m s).Leaves P

namespace Leaving

lemma last (next : ∀ a, Leaving Q (f a)) : Leaving Q (m >>= f) := fun _ => Outcome.leaves_last next

lemma pure {a : α} (done : ∀ s, P a s) : Leaving P (Pure.pure a : Program σ ρ κ α) := done

lemma ite {c : Prop} [Decidable c] (h : Leaving P m) (h' : Leaving P m') : Leaving P (if c then m else m') := by
  split
  · exact h
  · exact h'

/-- A part that looks at its state first. -/
lemma get {g : σ → Program σ ρ κ α} (here : ∀ s, (g s s).Leaves P) : Leaving P (Program.get >>= g) := here

end Leaving

end Program
