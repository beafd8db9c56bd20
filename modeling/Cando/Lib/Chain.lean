import Mathlib.Data.List.Nodup

/-!
# Chains of links

Nodes of an arbitrary type are threaded into a list by a successor function, as the slots of an array are
by the indices they store. A chain is a stretch of such a list; one that runs into a node it does not
contain is determined by its first node, hence finite and acyclic. A doubly linked list is a chain and
the reverse chain of its back links.
-/

/-- Following `next` from `i` visits the nodes of `l` in order and then arrives at `k`. -/
def Chain {α : Type*} (next : α → α) : α → List α → α → Prop
  | i, [], k => i = k
  | i, a :: l, k => i = a ∧ Chain next (next a) l k

namespace Chain

variable {α : Type*} {next next' : α → α} {i j k stop : α} {l r : List α}

@[simp] lemma nil_iff : Chain next i [] k ↔ i = k := Iff.rfl

@[simp] lemma cons_iff {a : α} : Chain next i (a :: l) k ↔ i = a ∧ Chain next (next a) l k := Iff.rfl

/-- A chain may be cut anywhere. -/
lemma append_iff : Chain next i (l ++ r) k ↔ ∃ j, Chain next i l j ∧ Chain next j r k := by
  induction l generalizing i with
  | nil => simp
  | cons a l ih => simp [ih, and_assoc]

lemma append (h : Chain next i l j) (h' : Chain next j r k) : Chain next i (l ++ r) k :=
  append_iff.mpr ⟨j, h, h'⟩

/-- Where a chain starts is read off its nodes. -/
lemma start (h : Chain next i l k) : i = l.headD k := by
  cases l with
  | nil => exact h
  | cons a l => exact h.1

/-- Only the links of the chain's own nodes matter. -/
lemma congr (h : Chain next i l k) (same : ∀ a ∈ l, next' a = next a) : Chain next' i l k := by
  induction l generalizing i with
  | nil => exact h
  | cons a l ih =>
    obtain ⟨e, h⟩ := h
    refine ⟨e, ?_⟩
    rw [same a (by simp)]
    exact ih h fun b mem => same b (List.mem_cons_of_mem _ mem)

/-- Changing the link of a node outside the chain leaves the chain. -/
lemma update [DecidableEq α] {a b : α} (h : Chain next i l k) (out : a ∉ l) :
    Chain (Function.update next a b) i l k := by
  refine h.congr fun c mem => ?_
  have ne : c ≠ a := fun e => out (e ▸ mem)
  exact Function.update_of_ne ne b next

/-- A new first node. -/
lemma push [DecidableEq α] {a : α} (h : Chain next i l k) (out : a ∉ l) :
    Chain (Function.update next a i) a (a :: l) k := by
  refine ⟨rfl, ?_⟩
  rw [Function.update_self]
  exact h.update out

/-- Two chains from one node to one that neither contains are equal. -/
lemma unique (h : Chain next i l stop) (h' : Chain next i r stop) (out : stop ∉ l) (out' : stop ∉ r) :
    l = r := by
  induction l generalizing i r with
  | nil =>
    cases r with
    | nil => rfl
    | cons b r =>
      have e : i = stop := h
      exact absurd (List.mem_cons.mpr (Or.inl (e.symm.trans h'.1))) out'
  | cons a l ih =>
    cases r with
    | nil =>
      have e : i = stop := h'
      exact absurd (List.mem_cons.mpr (Or.inl (e.symm.trans h.1))) out
    | cons b r =>
      obtain ⟨rfl, h⟩ := h
      obtain ⟨rfl, h'⟩ := h'
      have tails := ih h h' (fun m => out (List.mem_cons_of_mem _ m))
        (fun m => out' (List.mem_cons_of_mem _ m))
      rw [tails]

/-- A chain that runs into a node it does not contain is acyclic. -/
lemma nodup (h : Chain next i l stop) (out : stop ∉ l) : l.Nodup := by
  induction l generalizing i with
  | nil => exact List.nodup_nil
  | cons a l ih =>
    obtain ⟨rfl, rest⟩ := h
    have out' : stop ∉ l := fun m => out (List.mem_cons_of_mem _ m)
    refine List.nodup_cons.mpr ⟨fun again => ?_, ih rest out'⟩
    -- the chain from the second visit on is as long as the one from the first visit on
    obtain ⟨l₁, l₂, rfl⟩ := List.append_of_mem again
    obtain ⟨j, _, back⟩ := append_iff.mp rest
    obtain ⟨rfl, back⟩ := back
    have here : Chain next j (j :: l₂) stop := ⟨rfl, back⟩
    have there : Chain next j (j :: (l₁ ++ j :: l₂)) stop := ⟨rfl, rest⟩
    have e := here.unique there (fun m => out (by simp_all)) out
    have len := congrArg List.length e
    simp only [List.length_cons, List.length_append] at len
    omega

/-- A chain with a new link out of its last node. -/
lemma redirect {p : α} (h : Chain next i (l ++ [p]) k) (next' : α → α) (same : ∀ a ∈ l, next' a = next a) :
    Chain next' i (l ++ [p]) (next' p) := by
  obtain ⟨j, front, rfl, _⟩ := append_iff.mp h
  exact (front.congr same).append ⟨rfl, rfl⟩

/-- Linking past a node takes it out. -/
lemma bypass [DecidableEq α] {p a : α} (h : Chain next i (l ++ p :: a :: r) k)
    (nodup : (l ++ p :: a :: r).Nodup) : Chain (Function.update next p (next a)) i (l ++ p :: r) k := by
  obtain ⟨j, front, rfl, e, back⟩ := append_iff.mp h
  rw [List.nodup_append] at nodup
  obtain ⟨_, tail, apart⟩ := nodup
  have outL : j ∉ l := fun m => apart j m j (by simp) rfl
  have outR : j ∉ r := fun m => (List.nodup_cons.mp tail).1 (List.mem_cons_of_mem _ m)
  refine (front.update outL).append ⟨rfl, ?_⟩
  rw [Function.update_self]
  exact back.update outR

/-- The first node of a chain, or where it arrives. -/
lemma head_eq (h : Chain next i l k) : i = l.headD k := by
  cases l with
  | nil => exact h
  | cons a l => exact h.1

end Chain
