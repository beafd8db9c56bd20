import Mathlib.Data.List.Perm.Basic
import Mathlib.Data.List.ReduceOption
import Mathlib.Data.Nat.Find

/-!
# Linear probing

A hash table with open addressing whose entries are never deleted: an array of cells, each free or taken by
an entry. The search for a key starts at its home cell and goes from cell to cell, around the end of the
array, until it meets the key or a free cell. `Placed` is the invariant by which it finds every key: the way
from a key's home to its cell leads over taken cells only. It survives a new entry in the free cell where the
search for its key ended, and a new entry under a key in the cell of the old one.
-/

namespace LinearProbing

variable {α κ : Type*}

/-- The cell `d` turns after cell `h`. -/
def spot (n h d : Nat) : Nat := (h + d) % n

/-- The first cell from `i` on at which the search stops, if it does so in so many turns. -/
def search (n : Nat) (stop : Nat → Bool) : (turns i : Nat) → Option Nat
  | 0, _ => none
  | turns + 1, i => if stop i then some i else search n stop turns ((i + 1) % n)

/-- The entry in cell `i`. -/
def entry (cells : List (Option α)) (i : Nat) : Option α := (cells[i]?).join

/-- The search from `h` on meets cell `i` after taken cells only. -/
def Exposed (cells : List (Option α)) (h i : Nat) : Prop :=
  ∃ d < cells.length, spot cells.length h d = i ∧
    ∀ e < d, entry cells (spot cells.length h e) ≠ none

/-- No two entries have the same key, and each is exposed to the search for it. -/
structure Placed (key : α → κ) (hash : κ → Nat) (cells : List (Option α)) : Prop where
  distinct : ∀ i j a b, entry cells i = some a → entry cells j = some b → key a = key b → i = j
  reached : ∀ i a, entry cells i = some a → Exposed cells (hash (key a)) i

variable {n h i j d : Nat} {stop : Nat → Bool} {cells : List (Option α)} {a b : α} {key : α → κ} {hash : κ → Nat}
  {k : κ}

lemma spot_lt (pos : 0 < n) : spot n h d < n := Nat.mod_lt _ pos

lemma spot_succ : (spot n h d + 1) % n = spot n h (d + 1) := by
  rw [spot, spot, Nat.mod_add_mod, Nat.add_assoc]

/-- The search comes everywhere. -/
lemma exists_spot (h : Nat) (lt : i < n) : ∃ d < n, spot n h d = i := by
  have pos : 0 < n := by omega
  refine ⟨(i + (n - h % n)) % n, Nat.mod_lt _ pos, ?_⟩
  have home := Nat.mod_lt h pos
  have round : h % n + (i + (n - h % n)) = i + n := by omega
  rw [spot, Nat.add_mod_mod, ← Nat.mod_add_mod, round, Nat.add_mod_right, Nat.mod_eq_of_lt lt]

lemma search_run (m extra : Nat) (here : stop (spot n h (d + m)) = true)
    (before : ∀ e < d + m, d ≤ e → stop (spot n h e) = false) :
    search n stop (m + 1 + extra) (spot n h d) = some (spot n h (d + m)) := by
  induction m generalizing d with
  | zero =>
    rw [Nat.add_zero] at here
    rw [Nat.zero_add, Nat.add_comm, search, if_pos here, Nat.add_zero]
  | succ m ih =>
    have go := before d (by omega) (Nat.le_refl d)
    have turns : m + 1 + 1 + extra = (m + 1 + extra) + 1 := by omega
    have next : d + (m + 1) = (d + 1) + m := by omega
    rw [turns, search, if_neg (by simp [go]), spot_succ, next]
    rw [next] at here
    exact ih here fun e lt le => before e (by omega) (by omega)

/-- A search in a circle of cells one of which stops it ends at the first such cell. -/
lemma search_spec (stop : Nat → Bool) (h : Nat) (some_stop : ∃ i < n, stop i = true) :
    ∃ d < n, search n stop n (h % n) = some (spot n h d) ∧ stop (spot n h d) = true ∧
      ∀ e < d, stop (spot n h e) = false := by
  obtain ⟨i, lt, stops⟩ := some_stop
  obtain ⟨d, ltd, rfl⟩ := exists_spot h lt
  have ex : ∃ d, stop (spot n h d) = true := ⟨d, stops⟩
  have ltn : Nat.find ex < n := Nat.lt_of_le_of_lt (Nat.find_min' ex stops) ltd
  have before : ∀ e < Nat.find ex, stop (spot n h e) = false := fun e lt =>
    Bool.eq_false_iff.mpr (Nat.find_min ex lt)
  refine ⟨Nat.find ex, ltn, ?_, Nat.find_spec ex, before⟩
  have here : stop (spot n h (0 + Nat.find ex)) = true := (Nat.zero_add _).symm ▸ Nat.find_spec ex
  have run := search_run (d := 0) (Nat.find ex) (n - Nat.find ex - 1) here fun e lt _ => before e (by omega)
  have turns : Nat.find ex + 1 + (n - Nat.find ex - 1) = n := by omega
  rwa [turns, Nat.zero_add] at run

lemma lt_of_entry (e : entry cells i = some a) : i < cells.length := by
  by_contra far
  simp [entry, List.getElem?_eq_none (Nat.le_of_not_lt far)] at e

lemma entry_set (lt : i < cells.length) (x : Option α) :
    entry (cells.set i x) j = if i = j then x else entry cells j := by
  rw [entry, List.getElem?_set]
  by_cases e : i = j
  · subst e
    simp [lt]
  · simp [e, entry]

lemma entry_replicate : entry (List.replicate n (none : Option α)) i = none := by
  rw [entry, List.getElem?_replicate]
  split <;> rfl

/-- Taking a cell closes no way. -/
lemma Exposed.set (lt : i < cells.length) (o : Exposed cells h j) (a : α) : Exposed (cells.set i (some a)) h j := by
  obtain ⟨d, ltd, at_d, way⟩ := o
  refine ⟨d, by simpa using ltd, by simpa using at_d, fun e lte => ?_⟩
  rw [List.length_set, entry_set lt]
  split
  · nofun
  · exact way e lte

lemma placed_replicate (n : Nat) : Placed key hash (List.replicate n none) where
  distinct i j a b e := by simp [entry_replicate] at e
  reached i a e := by simp [entry_replicate] at e

/-- A new key in a free cell to which its home leads. -/
lemma Placed.insert (v : Placed key hash cells) (lt : i < cells.length) (o : Exposed cells (hash (key a)) i)
    (absent : ∀ j b, entry cells j = some b → key b ≠ key a) : Placed key hash (cells.set i (some a)) where
  distinct j l b c ej el same := by
    rw [entry_set lt] at ej el
    split at ej <;> split at el <;> rename_i ej' el'
    · exact ej'.symm.trans el'
    · cases ej
      exact absurd same.symm (absent l c el)
    · cases el
      exact absurd same (absent j b ej)
    · exact v.distinct j l b c ej el same
  reached j b ej := by
    rw [entry_set lt] at ej
    split at ej
    · rename_i here
      subst here
      cases ej
      exact o.set lt a
    · exact (v.reached j b ej).set lt a

/-- A new entry for a key that is there. -/
lemma Placed.overwrite (v : Placed key hash cells) (old : entry cells i = some a) (same : key b = key a) :
    Placed key hash (cells.set i (some b)) where
  distinct j l c c' ej el e := by
    rw [entry_set (lt_of_entry old)] at ej el
    split at ej <;> split at el <;> rename_i ej' el'
    · exact ej'.symm.trans el'
    · cases ej
      exact ej'.symm.trans (v.distinct i l a c' old el (same.symm.trans e))
    · cases el
      exact (v.distinct j i c a ej old (e.trans same)).trans el'
    · exact v.distinct j l c c' ej el e
  reached j c ej := by
    rw [entry_set (lt_of_entry old)] at ej
    split at ej
    · rename_i here
      subst here
      cases ej
      exact same ▸ (v.reached i a old).set (lt_of_entry old) b
    · exact (v.reached j c ej).set (lt_of_entry old) b

/-- The entries are those of the taken cells, in the order of the array. -/
lemma mem_reduceOption : a ∈ cells.reduceOption ↔ ∃ i, entry cells i = some a := by
  rw [List.reduceOption_mem_iff, List.mem_iff_getElem?]
  constructor
  · rintro ⟨i, e⟩
    exact ⟨i, by rw [entry, e]; rfl⟩
  · rintro ⟨i, e⟩
    exact ⟨i, Option.join_eq_some_iff.mp e⟩

/-- The keys of a table are pairwise distinct. -/
lemma Placed.nodup (v : Placed key hash cells) : (cells.reduceOption.map key).Nodup := by
  rw [List.Nodup, List.pairwise_map, List.reduceOption, List.pairwise_filterMap, List.pairwise_iff_getElem]
  intro i j lti ltj lt a ea b eb same
  have ei : entry cells i = some a := by rw [entry, List.getElem?_eq_getElem lti]; exact ea
  have ej : entry cells j = some b := by rw [entry, List.getElem?_eq_getElem ltj]; exact eb
  have e := v.distinct i j a b ei ej same
  omega

/-- One entry more. -/
lemma perm_insert (free : entry cells i = none) (lt : i < cells.length) (a : α) :
    (cells.set i (some a)).reduceOption.Perm (a :: cells.reduceOption) := by
  obtain ⟨l, r, e, _, e'⟩ : ∃ l r, cells = l ++ cells[i] :: r ∧ l.length = i ∧
    cells.set i (some a) = l ++ some a :: r :=
    List.exists_of_set lt
  have none_here : cells[i] = none := by simpa [entry, List.getElem?_eq_getElem lt] using free
  rw [none_here] at e
  rw [e', e]
  simp [List.reduceOption_append, List.reduceOption_cons_of_some, List.reduceOption_cons_of_none]

/-- As many entries as before. -/
lemma length_overwrite (old : entry cells i = some a) (b : α) :
    (cells.set i (some b)).reduceOption.length = cells.reduceOption.length := by
  have lt := lt_of_entry old
  obtain ⟨l, r, e, _, e'⟩ : ∃ l r, cells = l ++ cells[i] :: r ∧ l.length = i ∧
    cells.set i (some b) = l ++ some b :: r :=
    List.exists_of_set lt
  have here : cells[i] = some a := by simpa [entry, List.getElem?_eq_getElem lt] using old
  rw [here] at e
  rw [e', e]
  simp [List.reduceOption_append, List.reduceOption_cons_of_some]

/-- Fewer entries than cells leave a cell free. -/
lemma exists_free (few : cells.reduceOption.length < cells.length) :
    ∃ i < cells.length, entry cells i = none := by
  by_contra full
  simp only [not_exists, not_and] at full
  have all_some : ∀ x ∈ cells, x.isSome := fun x m => by
    obtain ⟨i, lt, rfl⟩ := List.mem_iff_getElem.mp m
    exact Option.isSome_iff_ne_none.mpr fun e => full i lt (by simp [entry, List.getElem?_eq_getElem lt, e])
  have all := List.reduceOption_length_eq_iff.mpr all_some
  omega

/-- The search for a key ends, at its entry or, if it has none, at a free cell that is exposed to it. -/
lemma Placed.search_key [DecidableEq κ] (v : Placed key hash cells) (k : κ)
    (free : ∃ i < cells.length, entry cells i = none) :
    ∃ i < cells.length,
      search cells.length (fun j => (entry cells j).all (key · = k)) cells.length (hash k % cells.length) = some i ∧
      Exposed cells (hash k) i ∧
      ((∃ a, entry cells i = some a ∧ key a = k) ∨
        entry cells i = none ∧ ∀ j b, entry cells j = some b → key b ≠ k) := by
  obtain ⟨i₀, lt₀, e₀⟩ := free
  obtain ⟨d, lt, found, stops, before⟩ := search_spec (n := cells.length)
    (fun j => (entry cells j).all (key · = k)) (hash k) ⟨i₀, lt₀, by simp [e₀]⟩
  have pos : 0 < cells.length := by omega
  have way : ∀ e < d, entry cells (spot cells.length (hash k) e) ≠ none := fun e lte none_here => by
    have go := before e lte
    simp [none_here] at go
  refine ⟨_, spot_lt pos, found, ⟨d, lt, rfl, way⟩, ?_⟩
  cases here : entry cells (spot cells.length (hash k) d) with
  | some a =>
    refine Or.inl ⟨a, rfl, ?_⟩
    simpa [here] using stops
  | none =>
    refine Or.inr ⟨rfl, fun j b ej same => ?_⟩
    -- the way to the key's entry would lead over the free cell, or the search over the entry
    obtain ⟨d', lt', at_j, way'⟩ := v.reached j b ej
    rw [same] at at_j way'
    by_cases le : d' < d
    · have go := before d' le
      simp [at_j, ej, same] at go
    · by_cases e : d' = d
      · subst e
        rw [at_j, ej] at here
        cases here
      · exact way' d (by omega) here

/-- The search for a free cell ends at one that is open. -/
lemma search_free (h : Nat) (free : ∃ i < cells.length, entry cells i = none) :
    ∃ i < cells.length, search cells.length (fun j => (entry cells j).isNone) cells.length (h % cells.length) =
      some i ∧ Exposed cells h i ∧ entry cells i = none := by
  obtain ⟨i₀, lt₀, e₀⟩ := free
  obtain ⟨d, lt, found, stops, before⟩ := search_spec (n := cells.length)
    (fun j => (entry cells j).isNone) h ⟨i₀, lt₀, by simp [e₀]⟩
  have pos : 0 < cells.length := by omega
  refine ⟨_, spot_lt pos, found, ⟨d, lt, rfl, fun e lte none_here => ?_⟩, by simpa using stops⟩
  have go := before e lte
  simp [none_here] at go

end LinearProbing
