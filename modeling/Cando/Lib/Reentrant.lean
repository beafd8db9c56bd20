import Mathlib.Logic.Function.Basic
import Mathlib.Tactic.Common

/-!
# Re-entrant locks

A re-entrant lock in two words: who owns it (0 when nobody does) and how many sections the owner has open. A party is
inside from the moment that it has written its identity into the owner word to the moment that it clears the word; in
between, its nesting goes up and down.
-/

/-- What a party knows of the lock: the two words, whether it is inside, and how many sections it has open. -/
structure LockView where
  owner : Nat
  depth : Nat
  inside : Bool
  nesting : Nat

/-- What a step of the party `me` may do. -/
inductive LockTurn (me : Nat) : LockView → LockView → Prop where
  | keep (v : LockView) : LockTurn me v v
  | claim (d : Nat) : LockTurn me ⟨0, d, false, 0⟩ ⟨me, d, true, 0⟩
  | enter (o d n : Nat) : LockTurn me ⟨o, d, true, n⟩ ⟨o, n + 1, true, n + 1⟩
  | leave (o d n : Nat) : LockTurn me ⟨o, d, true, n + 1⟩ ⟨o, n, true, n⟩
  | free (o d : Nat) : LockTurn me ⟨o, d, true, 0⟩ ⟨0, d, false, 0⟩

section

variable {π : Type} {ident : π → Nat} {owner depth : Nat} {inside inside' : π → Bool} {nesting nesting' : π → Nat}
  {p q : π} {v : LockView}

/-- The words say who is inside, and how deep. -/
structure Reentrant (ident : π → Nat) (owner depth : Nat) (inside : π → Bool) (nesting : π → Nat) : Prop where
  owner_iff : ∀ p, inside p = true ↔ owner = ident p
  depth_eq : ∀ p, inside p = true → depth = nesting p
  outside : ∀ p, inside p = false → nesting p = 0
  free : owner = 0 → depth = 0
  owned : owner = 0 ∨ ∃ p, owner = ident p

namespace Reentrant

lemma init (nonzero : ∀ p, ident p ≠ 0) : Reentrant ident 0 0 (fun _ => false) (fun _ => 0) where
  owner_iff p := ⟨by rintro ⟨⟩, fun e => absurd e.symm (nonzero p)⟩
  depth_eq p := by rintro ⟨⟩
  outside _ _ := rfl
  free _ := rfl
  owned := .inl rfl

/-- No two parties are inside. -/
lemma exclusive (r : Reentrant ident owner depth inside nesting) (distinct : Function.Injective ident)
    (hp : inside p = true) (hq : inside q = true) : p = q :=
  distinct (((r.owner_iff p).mp hp).symm.trans ((r.owner_iff q).mp hq))

/-- Who has a section open is inside. -/
lemma inside_of_nesting (r : Reentrant ident owner depth inside nesting) (deep : 0 < nesting p) : inside p = true := by
  cases h : inside p with
  | true => rfl
  | false =>
    have none := r.outside p h
    omega

/-- A free lock has nobody inside. -/
lemma empty (r : Reentrant ident 0 depth inside nesting) (nonzero : ∀ p, ident p ≠ 0) (p : π) : inside p = false := by
  cases h : inside p with
  | false => rfl
  | true => exact absurd ((r.owner_iff p).mp h).symm (nonzero p)

/-- A step of one party, while the others stay where they are. -/
lemma turn (r : Reentrant ident owner depth inside nesting) (distinct : Function.Injective ident)
    (nonzero : ∀ p, ident p ≠ 0) (t : LockTurn (ident p) ⟨owner, depth, inside p, nesting p⟩ v)
    (here : inside' p = v.inside ∧ nesting' p = v.nesting)
    (there : ∀ q, q ≠ p → inside' q = inside q ∧ nesting' q = nesting q) :
    Reentrant ident v.owner v.depth inside' nesting' := by
  -- of the parties other than `p` it only matters that none is inside when `p` is
  have alone : inside p = true → ∀ q, q ≠ p → inside q = false := by
    intro hp q ne
    cases hq : inside q with
    | false => rfl
    | true => exact absurd (r.exclusive distinct hq hp) ne
  generalize vp : inside p = a at t
  generalize np : nesting p = n at t
  obtain ⟨here_in, here_nest⟩ := here
  have parties : ∀ {P : π → Prop}, P p → (∀ q, q ≠ p → P q) → ∀ q, P q := by
    intro P hp hq q
    rcases eq_or_ne q p with rfl | ne
    · exact hp
    · exact hq q ne
  cases t with
  | keep =>
    have same : inside' = inside := funext (parties (here_in.trans vp.symm) fun q ne => (there q ne).1)
    have deep : nesting' = nesting := funext (parties (here_nest.trans np.symm) fun q ne => (there q ne).2)
    rw [same, deep]
    exact r
  | claim =>
    have others : ∀ q, q ≠ p → inside' q = false := fun q ne => (there q ne).1.trans (r.empty nonzero q)
    constructor
    · refine parties ⟨fun _ => rfl, fun _ => here_in⟩ fun q ne => ?_
      rw [others q ne]
      exact ⟨by rintro ⟨⟩, fun e => absurd (distinct e).symm ne⟩
    · refine parties (fun _ => ?_) fun q ne h => ?_
      · rw [here_nest]
        exact r.free rfl
      · rw [others q ne] at h
        cases h
    · refine parties (fun _ => here_nest) fun q ne _ => ?_
      rw [(there q ne).2]
      exact r.outside q (r.empty nonzero q)
    · intro e
      exact absurd e (nonzero p)
    · exact .inr ⟨p, rfl⟩
  | enter | leave =>
    have mine := (r.owner_iff p).mp vp
    have others : ∀ q, q ≠ p → inside' q = false := fun q ne => (there q ne).1.trans (alone vp q ne)
    constructor
    · refine parties ⟨fun _ => mine, fun _ => here_in⟩ fun q ne => ?_
      rw [others q ne]
      exact ⟨by rintro ⟨⟩, fun e => absurd (distinct (e.symm.trans mine)) ne⟩
    · refine parties (fun _ => here_nest.symm) fun q ne h => ?_
      rw [others q ne] at h
      cases h
    · refine parties (fun h => ?_) fun q ne _ => ?_
      · rw [here_in] at h
        cases h
      · rw [(there q ne).2]
        exact r.outside q (alone vp q ne)
    · intro e
      exact absurd (mine.symm.trans e) (nonzero p)
    · exact r.owned
  | free =>
    have others : ∀ q, q ≠ p → inside' q = false := fun q ne => (there q ne).1.trans (alone vp q ne)
    have none : ∀ q, inside' q = false := parties here_in others
    constructor
    · intro q
      rw [none q]
      exact ⟨by rintro ⟨⟩, fun e => absurd e.symm (nonzero q)⟩
    · intro q h
      rw [none q] at h
      cases h
    · refine parties (fun _ => here_nest) fun q ne _ => ?_
      rw [(there q ne).2]
      exact r.outside q (alone vp q ne)
    · intro _
      exact (r.depth_eq p vp).trans np
    · exact .inl rfl

/-- With nobody inside both words are zero. -/
lemma idle (r : Reentrant ident owner depth inside nesting) (none : ∀ p, inside p = false) :
    owner = 0 ∧ depth = 0 := by
  obtain free | ⟨p, mine⟩ := r.owned
  · exact ⟨free, r.free free⟩
  · have here := (r.owner_iff p).mpr mine
    rw [none p] at here
    cases here

end Reentrant

end
