import Mathlib.Logic.Function.Basic
import Mathlib.Tactic.Common

/-!
# Recycled slots

A pool has a fixed number of slots, and a slot that has been given back is given out again. Every time a slot is given
out it gets a new ticket, and a reference is a slot with the ticket under which it was got. A holder that keeps the
slot alone cannot tell whether the ticket has changed since.
-/

/-- A slot; `ticket` is for the statements only. -/
structure Slot (δ : Type) where
  active : Bool := false
  ticket : Nat := 0
  data : δ

/-- The slots by their numbers, and how many tickets have been given out. -/
structure Pool (δ : Type) where
  slots : Nat → Slot δ
  issued : Nat := 0

/-- A slot with the ticket under which it was got. -/
structure SlotRef where
  slot : Nat
  ticket : Nat
  deriving DecidableEq, Repr

/-- An access by the holder of a reference: under which ticket the slot was given out, if it was. -/
structure Touch where
  ref : SlotRef
  found : Option Nat
  deriving DecidableEq, Repr

/-- The access hit what the reference was got for, or nothing. -/
def Touch.Directed (t : Touch) : Prop := t.found = none ∨ t.found = some t.ref.ticket

namespace Pool

variable {δ : Type} {p p' : Pool δ} {r r' : SlotRef} {i : Nat}

/-- The first of `n` slots from `i` on that is not given out. -/
def firstFree (p : Pool δ) : (n i : Nat) → Option Nat
  | 0, _ => none
  | n + 1, i => if (p.slots i).active then p.firstFree n (i + 1) else some i

/-- The first free slot is given out with new contents. -/
def alloc (p : Pool δ) (size : Nat) (d : δ) : Option (SlotRef × Pool δ) :=
  (p.firstFree size 0).map fun i =>
    (⟨i, p.issued + 1⟩, ⟨Function.update p.slots i ⟨true, p.issued + 1, d⟩, p.issued + 1⟩)

/-- A slot is given back; its contents stay. -/
def free (p : Pool δ) (i : Nat) : Pool δ :=
  { p with slots := Function.update p.slots i { p.slots i with active := false } }

/-- The contents of a slot change. -/
def modify (p : Pool δ) (i : Nat) (f : δ → δ) : Pool δ :=
  { p with slots := Function.update p.slots i { p.slots i with data := f (p.slots i).data } }

/-- The ticket under which a slot is given out. -/
def holder (p : Pool δ) (i : Nat) : Option Nat := if (p.slots i).active then some (p.slots i).ticket else none

def touch (p : Pool δ) (r : SlotRef) : Touch := ⟨r, p.holder r.slot⟩

/-- Nobody has got the slot since. -/
def Holds (p : Pool δ) (r : SlotRef) : Prop := (p.slots r.slot).ticket = r.ticket

/-- Nobody has got the slot since, and it has not been given back. -/
def Owns (p : Pool δ) (r : SlotRef) : Prop := p.holder r.slot = some r.ticket

/-- The slot is somebody else's now. -/
def Lost (p : Pool δ) (r : SlotRef) : Prop := p.holder r.slot ≠ none ∧ p.holder r.slot ≠ some r.ticket

instance : Decidable (p.Lost r) := inferInstanceAs (Decidable (_ ∧ _))

lemma holder_some {k : Nat} : p.holder i = some k ↔ (p.slots i).active = true ∧ (p.slots i).ticket = k := by
  by_cases active : (p.slots i).active = true
  · rw [holder, if_pos active, Option.some.injEq]
    exact ⟨fun e => ⟨active, e⟩, fun e => e.2⟩
  · rw [holder, if_neg active]
    exact ⟨fun e => (by cases e), fun e => absurd e.1 active⟩

lemma holder_none : p.holder i = none ↔ (p.slots i).active = false := by
  by_cases active : (p.slots i).active = true
  · simp [holder, active]
  · simp [holder, active]

lemma Owns.holds (h : p.Owns r) : p.Holds r := (holder_some.mp h).2

/-- A slot that is active and not lost is owned. -/
lemma holds_of_active (active : (p.slots r.slot).active = true) (kept : ¬ p.Lost r) : p.Holds r := by
  by_contra lost
  apply kept
  constructor
  · rw [ne_eq, holder_none, active]
    simp
  · intro same
    exact lost (holder_some.mp same).2

lemma Holds.directed (h : p.Holds r) : (p.touch r).Directed := by
  by_cases active : (p.slots r.slot).active = true
  · exact .inr (holder_some.mpr ⟨active, h⟩)
  · exact .inl (holder_none.mpr (Bool.eq_false_iff.mpr active))

lemma firstFree_some {n : Nat} {j : Nat} (h : p.firstFree n i = some j) : p.holder j = none ∧ j < i + n := by
  induction n generalizing i with
  | zero => cases h
  | succ n ih =>
    rw [firstFree] at h
    split at h
    · obtain ⟨free, low⟩ := ih h
      exact ⟨free, by omega⟩
    case isFalse free =>
      cases h
      exact ⟨holder_none.mpr (Bool.eq_false_iff.mpr free), by omega⟩

/-- What a slot is that is given out. -/
lemma alloc_some {size : Nat} {d : δ} (h : p.alloc size d = some (r, p')) :
    p.firstFree size 0 = some r.slot ∧ p.holder r.slot = none ∧ p'.Owns r ∧
      ∀ i, i ≠ r.slot → p'.slots i = p.slots i := by
  obtain ⟨i, first, e⟩ := Option.map_eq_some_iff.mp h
  cases e
  refine ⟨first, (firstFree_some first).1, ?_, fun j ne => Function.update_of_ne ne ..⟩
  apply holder_some.mpr
  simp only [Function.update_self, and_self]

lemma Holds.alloc {size : Nat} {d : δ} (h : p.Holds r) (e : p.alloc size d = some (r', p')) (ne : r.slot ≠ r'.slot) :
    p'.Holds r := by
  obtain ⟨-, -, -, others⟩ := alloc_some e
  rw [Holds, others r.slot ne]
  exact h

/-- A slot that is owned is not given out. -/
lemma Owns.alloc {size : Nat} {d : δ} (h : p.Owns r) (e : p.alloc size d = some (r', p')) :
    p'.Owns r ∧ r.slot ≠ r'.slot := by
  obtain ⟨-, free, -, others⟩ := alloc_some e
  have ne : r.slot ≠ r'.slot := by
    intro same
    rw [← same, h] at free
    cases free
  refine ⟨?_, ne⟩
  rw [Owns, holder, others r.slot ne]
  exact h

lemma modify_slot (f : δ → δ) (j : Nat) :
    ((p.modify i f).slots j).active = (p.slots j).active ∧ ((p.modify i f).slots j).ticket = (p.slots j).ticket := by
  by_cases e : j = i
  · subst e
    simp only [modify, Function.update_self, and_self]
  · simp only [modify, Function.update_of_ne e, and_self]

lemma modify_holder (f : δ → δ) (j : Nat) : (p.modify i f).holder j = p.holder j := by
  rw [holder, holder, (modify_slot f j).1, (modify_slot f j).2]

lemma Holds.modify (h : p.Holds r) (f : δ → δ) : (p.modify i f).Holds r := (modify_slot f r.slot).2.trans h

lemma Owns.modify (h : p.Owns r) (f : δ → δ) : (p.modify i f).Owns r := (modify_holder f r.slot).trans h

lemma Holds.free (h : p.Holds r) : (p.free i).Holds r := by
  by_cases e : r.slot = i
  · subst e
    simp only [Holds, Pool.free, Function.update_self]
    exact h
  · simp only [Holds, Pool.free, Function.update_of_ne e]
    exact h

lemma Owns.free (h : p.Owns r) (ne : r.slot ≠ i) : (p.free i).Owns r := by
  simp only [Owns, holder, Pool.free, Function.update_of_ne ne]
  exact h

end Pool
