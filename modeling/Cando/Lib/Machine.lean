import Cando.Lib.Program
import Mathlib.Logic.Relation

/-!
# Machines with re-entrant loops

A machine repeats a program, its turn, until the program leaves the loop; a second program decides how to
go on when the turn has raised an error. A turn may enter the loop again, so a configuration holds the
activation that is running and those that wait for it. Each activation remembers the state in which it was
entered. Runs are taken to satisfy a guard on their configurations as they go; the guard `fun _ => True`
gives all runs.
-/

/-- A machine: what one turn of its loop does, and how it goes on after an error. -/
structure Machine (σ ρ κ : Type) where
  turn : Program σ ρ κ Unit
  unwind : Program σ ρ κ Unit

/-- An activation that waits for an inner one. -/
structure Suspended (σ ρ κ : Type) where
  entry : σ
  resume : ρ → σ → Outcome σ ρ κ Unit

/-- A configuration: the activation that is running, with the state in which it was entered and its state
now, or how the outermost one ended. -/
inductive Config (σ ρ κ : Type) where
  | running (entry s : σ) (outer : List (Suspended σ ρ κ))
  | raised (entry s : σ) (outer : List (Suspended σ ρ κ))
  | done (r : ρ) (s : σ)
  | crashed (c : κ)

/-- The state of a configuration that has not left the language. -/
def Config.state {σ ρ κ : Type} : Config σ ρ κ → Option σ
  | .running _ s _ => some s
  | .raised _ s _ => some s
  | .done _ s => some s
  | .crashed _ => none

namespace Machine

variable {σ ρ κ : Type}

/-- What an outcome of the innermost activation leads to. -/
def settle (entry : σ) : List (Suspended σ ρ κ) → Outcome σ ρ κ Unit → Config σ ρ κ
  | outer, .ok _ s => .running entry s outer
  | outer, .error s => .raised entry s outer
  | [], .exit r s => .done r s
  | a :: outer, .exit r s => settle a.entry outer (a.resume r s)
  | _, .crash c => .crashed c
  | outer, .enter s k => .running s s (⟨entry, k⟩ :: outer)

/-- One step of the machine; a configuration that has ended stays. -/
def step (M : Machine σ ρ κ) : Config σ ρ κ → Config σ ρ κ
  | .running entry s outer => settle entry outer (M.turn s)
  | .raised entry s outer => settle entry outer (M.unwind s)
  | c => c

/-- `n` steps. -/
def steps (M : Machine σ ρ κ) : Nat → Config σ ρ κ → Config σ ρ κ
  | 0, c => c
  | n + 1, c => steps M n (M.step c)

/-- The loop entered in state `s`. -/
def start (s : σ) : Config σ ρ κ := .running s s []

/-- `c'` is reached from `c`, and the guard holds of every configuration left on the way. -/
def Reaches (M : Machine σ ρ κ) (G : Config σ ρ κ → Prop) : Config σ ρ κ → Config σ ρ κ → Prop :=
  Relation.ReflTransGen fun c c' => G c ∧ M.step c = c'

/-- Something that holds of the first configuration and that every guarded step preserves holds of all
that are reached. -/
lemma Reaches.invariant {M : Machine σ ρ κ} {G : Config σ ρ κ → Prop} {I : Config σ ρ κ → Prop}
    (pres : ∀ c, G c → I c → I (M.step c)) {c c'} (rs : M.Reaches G c c') (h : I c) : I c' := by
  induction rs with
  | refl => exact h
  | tail _ st ih => exact st.2 ▸ pres _ st.1 ih

/-! ### Invariants of activations -/

section Activations

variable (A : σ → σ → Prop) (J F : σ → σ → Prop) (N : σ → ρ → σ → Prop)

/-- The activations that wait for the one entered in state `e`: each was able to enter the one inside it,
and goes on with its own invariant when that one returns; the outermost was entered in state `e₀`. -/
def Waiting (e₀ : σ) : σ → List (Suspended σ ρ κ) → Prop
  | e, [] => e = e₀
  | e, a :: outer =>
    A a.entry e ∧
      (∀ r s, N e r s → (a.resume r s).All (fun s' => A a.entry s' ∧ J s' s') N (J a.entry)
        (F a.entry) (N a.entry)) ∧
      Waiting e₀ a.entry outer

/-- Every activation of the configuration has its invariant: `J` when it runs, `F` when it has failed. -/
def Holds (e₀ : σ) : Config σ ρ κ → Prop
  | .running e s outer => J e s ∧ Waiting A J F N e₀ e outer
  | .raised e s outer => F e s ∧ Waiting A J F N e₀ e outer
  | .done r s => N e₀ r s
  | .crashed _ => True

variable {A J F N}

lemma holds_settle {e₀ e : σ} {outer : List (Suspended σ ρ κ)} {o : Outcome σ ρ κ Unit}
    (h : o.All (fun s' => A e s' ∧ J s' s') N (J e) (F e) (N e)) (w : Waiting A J F N e₀ e outer) :
    Holds A J F N e₀ (settle e outer o) := by
  induction outer generalizing e o with
  | nil =>
    cases o with
    | ok _ s => exact ⟨h, w⟩
    | error s => exact ⟨h, w⟩
    | exit r s =>
      obtain rfl : e = e₀ := w
      exact h
    | crash c => trivial
    | enter s k => exact ⟨h.1.2, h.1.1, h.2, w⟩
  | cons a outer ih =>
    cases o with
    | ok _ s => exact ⟨h, w⟩
    | error s => exact ⟨h, w⟩
    | exit r s => exact ih (w.2.1 r s h) w.2.2
    | crash c => trivial
    | enter s k => exact ⟨h.1.2, h.1.1, h.2, w⟩

/-- If turns and unwinding keep the invariant of the activation they belong to, enter the loop only as `A`
allows and leave it only as `N` allows, then every activation of a run keeps it. -/
lemma Reaches.holds {M : Machine σ ρ κ} {G : Config σ ρ κ → Prop}
    (turn : ∀ e s outer, G (.running e s outer) → J e s →
      (M.turn s).All (fun s' => A e s' ∧ J s' s') N (J e) (F e) (N e))
    (unwind : ∀ e s outer, G (.raised e s outer) → F e s →
      (M.unwind s).All (fun s' => A e s' ∧ J s' s') N (J e) (F e) (N e))
    {e c} (rs : M.Reaches G (start e) c) (h : J e e) : Holds A J F N e c := by
  refine rs.invariant (I := Holds A J F N e) (fun c g hc => ?_) ⟨h, rfl⟩
  cases c with
  | running e s outer => exact holds_settle (turn e s outer g hc.1) hc.2
  | raised e s outer => exact holds_settle (unwind e s outer g hc.1) hc.2
  | done r s => exact hc
  | crashed c => trivial

end Activations

/-! ### What runs carry along -/

section Carries

variable {R : σ → σ → Prop}

/-- The configuration's state is `R`-related to `s₀`, and the activations that wait carry `R` along. -/
def Follows (R : σ → σ → Prop) (s₀ : σ) : Config σ ρ κ → Prop
  | .running _ s outer => R s₀ s ∧ ∀ a ∈ outer, ∀ r s, (a.resume r s).Along R s
  | .raised _ s outer => R s₀ s ∧ ∀ a ∈ outer, ∀ r s, (a.resume r s).Along R s
  | .done _ s => R s₀ s
  | .crashed _ => True

lemma follows_settle [IsTrans σ R] {s₀ e s : σ} {outer : List (Suspended σ ρ κ)}
    {o : Outcome σ ρ κ Unit} (hs : R s₀ s) (h : o.Along R s)
    (hw : ∀ a ∈ outer, ∀ r s, (a.resume r s).Along R s) : Follows R s₀ (settle e outer o) := by
  induction outer generalizing e o s with
  | nil =>
    cases o with
    | crash c => trivial
    | exit r s' => exact trans_of R hs h
    | enter s' k =>
      exact ⟨trans_of R hs h.1, fun a ha r s => by obtain rfl := List.mem_singleton.mp ha; exact h.2 r s⟩
    | _ => exact ⟨trans_of R hs h, hw⟩
  | cons a outer ih =>
    cases o with
    | crash c => trivial
    | exit r s' =>
      exact ih (trans_of R hs h) (hw a List.mem_cons_self r s') fun b hb => hw b (.tail a hb)
    | enter s' k =>
      refine ⟨trans_of R hs h.1, fun b hb r s => ?_⟩
      obtain rfl | hb := List.mem_cons.mp hb
      · exact h.2 r s
      · exact hw b hb r s
    | _ => exact ⟨trans_of R hs h, hw⟩

/-- If turns and unwinding carry a preorder along, so do runs. -/
lemma Reaches.follows [IsPreorder σ R] {M : Machine σ ρ κ} {G : Config σ ρ κ → Prop}
    (turn : ∀ s, (M.turn s).Along R s) (unwind : ∀ s, (M.unwind s).Along R s) {s₀ : σ} {c c'}
    (rs : M.Reaches G c c') (h : Follows R s₀ c) : Follows R s₀ c' := by
  refine rs.invariant (I := Follows R s₀) (fun c _ hc => ?_) h
  cases c with
  | running e s outer => exact follows_settle hc.1 (turn s) hc.2
  | raised e s outer => exact follows_settle hc.1 (unwind s) hc.2
  | done r s => exact hc
  | crashed c => trivial

lemma follows_start [IsPreorder σ R] (s : σ) : Follows (ρ := ρ) (κ := κ) R s (start s) :=
  ⟨refl_of R s, fun _ ha => (List.not_mem_nil ha).elim⟩

end Carries

lemma steps_succ (M : Machine σ ρ κ) (n : Nat) (c : Config σ ρ κ) :
    M.steps (n + 1) c = M.step (M.steps n c) := by
  induction n generalizing c with
  | zero => rfl
  | succ n ih => rw [steps, ih, steps]

lemma steps_add (M : Machine σ ρ κ) (m n : Nat) (c : Config σ ρ κ) :
    M.steps (m + n) c = M.steps n (M.steps m c) := by
  induction m generalizing c with
  | zero => rw [Nat.zero_add, steps]
  | succ m ih => rw [Nat.succ_add, steps, ih, steps]

@[simp] lemma steps_done (M : Machine σ ρ κ) (n : Nat) (r : ρ) (s : σ) : M.steps n (.done r s) = .done r s := by
  induction n with
  | zero => rfl
  | succ n ih => exact ih

@[simp] lemma steps_crashed (M : Machine σ ρ κ) (n : Nat) (c : κ) : M.steps n (.crashed c) = .crashed c := by
  induction n with
  | zero => rfl
  | succ n ih => exact ih

/-- What is computed under the guard is reached. -/
lemma reaches_steps_of (M : Machine σ ρ κ) {G : Config σ ρ κ → Prop} (n : Nat) {c : Config σ ρ κ}
    (h : ∀ i < n, G (M.steps i c)) : M.Reaches G c (M.steps n c) := by
  induction n with
  | zero => exact .refl
  | succ n ih =>
    exact (ih fun i hi => h i (Nat.lt_succ_of_lt hi)).tail ⟨h n (Nat.lt_succ_self n), (steps_succ M n c).symm⟩

/-- What is computed is reached. -/
lemma reaches_steps (M : Machine σ ρ κ) (n : Nat) (c : Config σ ρ κ) :
    M.Reaches (fun _ => True) c (M.steps n c) :=
  reaches_steps_of M n fun _ _ => trivial

end Machine
