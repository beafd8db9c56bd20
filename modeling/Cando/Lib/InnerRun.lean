import Cando.Lib.Machine

/-!
# Inner runs

A turn that enters the loop waits for an inner run and goes on with what that run hands back. Seen from outside, such a
turn is one step that takes a while: the machine gets to what the turn becomes. `Lives` are the states of an activation
between its turns, with a ghost beside them that a specification keeps; every activation of a run lives so.
-/

namespace Outcome

variable {σ ρ κ α β : Type} {N : σ → ρ → σ → Prop} {m : Outcome σ ρ κ α} {f : α → Program σ ρ κ β}

/-- What the outcome becomes when the inner runs it starts come back as `N` tells. -/
def Becomes (N : σ → ρ → σ → Prop) : Outcome σ ρ κ α → Outcome σ ρ κ α → Prop
  | .ok a s, o => o = .ok a s
  | .error s, o => o = .error s
  | .exit r s, o => o = .exit r s
  | .crash c, o => o = .crash c
  | .enter s k, o => ∃ r t, N s r t ∧ (k r t).Becomes N o

/-- It enters the loop in state `t`, at once or behind inner runs. -/
def Enters (N : σ → ρ → σ → Prop) : Outcome σ ρ κ α → σ → Prop
  | .enter s k, t => s = t ∨ ∃ r s', N s r s' ∧ (k r s').Enters N t
  | _, _ => False

@[simp] lemma becomes_ok {a : α} {s : σ} {o : Outcome σ ρ κ α} : (Outcome.ok a s).Becomes N o ↔ o = .ok a s := Iff.rfl
@[simp] lemma becomes_error {s : σ} {o : Outcome σ ρ κ α} : (Outcome.error s).Becomes N o ↔ o = .error s := Iff.rfl
@[simp] lemma becomes_exit {r : ρ} {s : σ} {o : Outcome σ ρ κ α} :
    (Outcome.exit r s).Becomes N o ↔ o = .exit r s := Iff.rfl
@[simp] lemma becomes_crash {c : κ} {o : Outcome σ ρ κ α} : (Outcome.crash c).Becomes N o ↔ o = .crash c := Iff.rfl

/-- A program comes to its end in two parts. -/
lemma becomes_bind {b : β} {s' : σ} :
    (m.bind f).Becomes N (.ok b s') ↔ ∃ a s, m.Becomes N (.ok a s) ∧ (f a s).Becomes N (.ok b s') := by
  induction m with
  | ok a s =>
    constructor
    · intro h
      exact ⟨a, s, rfl, h⟩
    · rintro ⟨a', s₁, e, h⟩
      cases e
      exact h
  | enter s k ih =>
    constructor
    · rintro ⟨r, t, back, h⟩
      obtain ⟨a, s₁, first, rest⟩ := (ih r t).mp h
      exact ⟨a, s₁, ⟨r, t, back, first⟩, rest⟩
    · rintro ⟨a, s₁, ⟨r, t, back, first⟩, rest⟩
      exact ⟨r, t, back, (ih r t).mpr ⟨a, s₁, first, rest⟩⟩
  | _ =>
    constructor
    · rintro ⟨⟩
    · rintro ⟨a, s, e, -⟩
      cases e

/-- What enters the loop also does so when more follows. -/
lemma Enters.bind {t : σ} (h : m.Enters N t) : (m.bind f).Enters N t := by
  induction m with
  | enter s k ih =>
    obtain rfl | ⟨r, s', back, enters⟩ := h
    · exact .inl rfl
    · exact .inr ⟨r, s', back, ih r s' enters⟩
  | _ => cases h

/-- Behind a part that comes to its end the loop is entered. -/
lemma Becomes.enters_bind {a : α} {s t : σ} (h : m.Becomes N (.ok a s)) (h' : (f a s).Enters N t) :
    (m.bind f).Enters N t := by
  induction m with
  | ok b s' =>
    cases h
    exact h'
  | enter s₁ k ih =>
    obtain ⟨r, s₂, back, becomes⟩ := h
    exact .inr ⟨r, s₂, back, ih r s₂ becomes⟩
  | _ => cases h

/-- What holds of all that the outcome may become holds along it. -/
lemma all_of_becomes {A P F : σ → Prop} {Q : ρ → σ → Prop} (ok : ∀ a s, m.Becomes N (.ok a s) → P s)
    (error : ∀ s, m.Becomes N (.error s) → F s) (exit : ∀ r s, m.Becomes N (.exit r s) → Q r s)
    (enters : ∀ t, m.Enters N t → A t) : m.All A N P F Q := by
  induction m with
  | ok a s => exact ok a s rfl
  | error s => exact error s rfl
  | exit r s => exact exit r s rfl
  | crash c => trivial
  | enter s k ih =>
    refine ⟨enters s (.inl rfl), fun r t back => ih r t ?_ ?_ ?_ ?_⟩
    · exact fun a u h => ok a u ⟨r, t, back, h⟩
    · exact fun u h => error u ⟨r, t, back, h⟩
    · exact fun q u h => exit q u ⟨r, t, back, h⟩
    · exact fun u h => enters u (.inr ⟨r, t, back, h⟩)

end Outcome

/-- A steady program comes to its end at once. -/
lemma Program.Steady.ok_of_becomes {σ ρ κ α : Type} {m : Program σ ρ κ α} {R : σ → σ → Prop} {F : σ → Prop}
    {N : σ → ρ → σ → Prop} {s s' : σ} {a : α} (steady : Steady R F m) (h : (m s).Becomes N (.ok a s')) :
    m s = .ok a s' := by
  have calm := steady s
  cases e : m s with
  | enter t k =>
    rw [e] at calm
    exact calm.1.elim
  | _ =>
    rw [e] at h
    exact h.symm

/-- A program that begins with a steady part comes to its end behind it. -/
lemma Program.Steady.becomes_bind {σ ρ κ α β : Type} {m : Program σ ρ κ α} {f : α → Program σ ρ κ β}
    {R : σ → σ → Prop} {F : σ → Prop} {N : σ → ρ → σ → Prop} {s s' : σ} {b : β} (steady : Steady R F m)
    (h : ((m >>= f) s).Becomes N (.ok b s')) :
    ∃ a s₁, m s = .ok a s₁ ∧ R s s₁ ∧ (f a s₁).Becomes N (.ok b s') := by
  obtain ⟨a, s₁, first, rest⟩ := Outcome.becomes_bind.mp h
  have ended := steady.ok_of_becomes first
  have calm := steady s
  rw [ended] at calm
  exact ⟨a, s₁, ended, calm, rest⟩

namespace Machine

variable {σ ρ κ γ : Type}

/-- What a whole run of the machine hands back. -/
def Returns (M : Machine σ ρ κ) (s : σ) (r : ρ) (t : σ) : Prop := M.Reaches (fun _ => True) (start s) (.done r t)

/-- The configuration with further activations around it, which wait for it to end. -/
def inside (waiting : List (Suspended σ ρ κ)) : Config σ ρ κ → Config σ ρ κ
  | .running e s outer => .running e s (outer ++ waiting)
  | .raised e s outer => .raised e s (outer ++ waiting)
  | .done r s =>
    match waiting with
    | [] => .done r s
    | a :: rest => settle a.entry rest (a.resume r s)
  | .crashed c => .crashed c

variable {M : Machine σ ρ κ} {waiting : List (Suspended σ ρ κ)}

lemma inside_settle (e : σ) (outer : List (Suspended σ ρ κ)) (o : Outcome σ ρ κ Unit) :
    inside waiting (settle e outer o) = settle e (outer ++ waiting) o := by
  induction outer generalizing e o with
  | nil =>
    cases o with
    | exit r s =>
      cases waiting with
      | nil => rfl
      | cons a rest => rw [settle, inside, List.nil_append, settle]
    | _ => cases waiting <;> rfl
  | cons a outer ih =>
    cases o with
    | exit r s => exact ih a.entry (a.resume r s)
    | _ => rfl

/-- Further activations take no part in a step of a configuration that goes on. -/
lemma step_inside {c : Config σ ρ κ} (goes : ∀ r s, c ≠ .done r s) :
    M.step (inside waiting c) = inside waiting (M.step c) := by
  cases c with
  | running e s outer => exact (inside_settle e outer (M.turn s)).symm
  | raised e s outer => exact (inside_settle e outer (M.unwind s)).symm
  | done r s => exact absurd rfl (goes r s)
  | crashed k => rfl

/-- A run takes place inside other activations as it does by itself. -/
lemma Reaches.inside {G : Config σ ρ κ → Prop} {c c' : Config σ ρ κ} (run : M.Reaches G c c')
    (waiting : List (Suspended σ ρ κ)) :
    M.Reaches (fun _ => True) (inside waiting c) (inside waiting c') := by
  induction run with
  | refl => exact .refl
  | @tail c₁ c₂ _ turn ih =>
    obtain ⟨-, rfl⟩ := turn
    cases c₁ with
    | done r s => exact ih
    | _ => exact ih.tail ⟨trivial, step_inside (by rintro r s ⟨⟩)⟩

/-- The machine gets to what an outcome of the running activation becomes, through the inner runs. -/
lemma reaches_of_becomes {o o' : Outcome σ ρ κ Unit} (e : σ) (outer : List (Suspended σ ρ κ))
    (h : o.Becomes M.Returns o') : M.Reaches (fun _ => True) (settle e outer o) (settle e outer o') := by
  induction o with
  | enter t k ih =>
    obtain ⟨r, back, run, rest⟩ := h
    have entered : settle e outer (.enter t k) = Machine.inside (⟨e, k⟩ :: outer) (start t) := by cases outer <;> rfl
    rw [entered]
    exact (run.inside (⟨e, k⟩ :: outer)).trans (ih r back rest)
  | _ =>
    obtain rfl := h
    exact .refl

/-! ### The lives of activations -/

/-- The states of the activations of a run between their turns: one entered in `e` is in state `s`, and `g` is a ghost
that starts as `first` with the activation and behind an error, and that `mark` changes at each turn. The turns satisfy
the guard. -/
inductive Lives (M : Machine σ ρ κ) (mark : σ → γ → σ → γ) (first : γ) (G : σ → γ → σ → Prop) (s₀ : σ) :
    (e s : σ) → (g : γ) → Prop where
  | start : Lives M mark first G s₀ s₀ s₀ first
  | enter {e s t : σ} {g : γ} : Lives M mark first G s₀ e s g → (M.turn s).Enters M.Returns t →
    Lives M mark first G s₀ t t first
  | turn {e s s' : σ} {g : γ} : Lives M mark first G s₀ e s g → (M.turn s).Becomes M.Returns (.ok () s') → G s g s' →
    Lives M mark first G s₀ e s' (mark s g s')
  | caught {e s s₁ s' : σ} {g : γ} : Lives M mark first G s₀ e s g → (M.turn s).Becomes M.Returns (.error s₁) →
    M.unwind s₁ = .ok () s' → Lives M mark first G s₀ e s' first

variable {mark : σ → γ → σ → γ} {first : γ} {s₀ e s : σ} {outer : List (Suspended σ ρ κ)}

/-- What the turns of an activation preserve holds as long as it lives. -/
lemma Lives.invariant {G : σ → γ → σ → Prop} {J : σ → γ → Prop} {g : γ} (begins : ∀ s, J s first)
    (turn : ∀ s g s', J s g → (M.turn s).Becomes M.Returns (.ok () s') → G s g s' → J s' (mark s g s'))
    (h : M.Lives mark first G s₀ e s g) : J s g := by
  induction h with
  | start => exact begins _
  | enter => exact begins _
  | turn _ become guard ih => exact turn _ _ _ ih become guard
  | caught => exact begins _

/-- The activations of a run live: where the unwinding does not raise errors or enter the loop, each configuration that
is reached is in the life of one. -/
lemma Reaches.lives {G : Config σ ρ κ → Prop} (flat : ∀ s, (∀ s', M.unwind s ≠ .error s') ∧
      ∀ t k, M.unwind s ≠ .enter t k) (run : M.Reaches G (Machine.start s₀) (.running e s outer)) :
    ∃ g, M.Lives mark first (fun _ _ _ => True) s₀ e s g := by
  let J : σ → σ → Prop := fun e s => (∃ g, M.Lives mark first (fun _ _ _ => True) s₀ e s g) ∧
    M.Reaches (fun _ => True) (Machine.start e) (.running e s [])
  let F : σ → σ → Prop := fun e s₁ => (∃ s g, M.Lives mark first (fun _ _ _ => True) s₀ e s g ∧
    (M.turn s).Becomes M.Returns (.error s₁)) ∧ M.Reaches (fun _ => True) (Machine.start e) (.raised e s₁ [])
  have holds := run.holds (A := fun _ _ => True) (J := J) (F := F) (N := M.Returns) ?_ ?_
    ⟨⟨first, .start⟩, .refl⟩
  · exact holds.1.1
  · rintro e s outer - ⟨⟨g, lives⟩, reached⟩
    have step : M.Reaches (fun _ => True) (Machine.start e) (settle e [] (M.turn s)) := reached.tail ⟨trivial, rfl⟩
    refine Outcome.all_of_becomes (fun _ s' h => ?_) (fun s' h => ?_) (fun r s' h => ?_) fun t h => ?_
    · exact ⟨⟨_, lives.turn h trivial⟩, step.trans (reaches_of_becomes e [] h)⟩
    · exact ⟨⟨s, g, lives, h⟩, step.trans (reaches_of_becomes e [] h)⟩
    · exact step.trans (reaches_of_becomes e [] h)
    · exact ⟨trivial, ⟨first, lives.enter h⟩, .refl⟩
  · rintro e s outer - ⟨⟨s₁, g, lives, raised⟩, reached⟩
    have step : M.Reaches (fun _ => True) (Machine.start e) (settle e [] (M.unwind s)) := reached.tail ⟨trivial, rfl⟩
    cases h : M.unwind s with
    | ok _ s' =>
      rw [h] at step
      exact ⟨⟨first, lives.caught raised h⟩, step⟩
    | error s' => exact absurd h ((flat s).1 s')
    | exit r s' =>
      rw [h] at step
      exact step
    | crash c => trivial
    | enter t k => exact absurd h ((flat s).2 t k)

end Machine
