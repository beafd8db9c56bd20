import Mathlib.Data.List.Nodup

/-!
# Insertion-ordered maps

A finite map as the list of its entries, oldest first, no key twice. Inserting a key that is there keeps its
position; a new key goes last, and so does one that was erased and comes back.
-/

namespace OrderedMap

variable {κ α : Type*}

/-- No key occurs twice. -/
def Distinct (m : List (κ × α)) : Prop := (m.map (·.1)).Nodup

variable {m l r : List (κ × α)} {k : κ} {v w : α}

/-- Around an entry, its key does not occur. -/
lemma Distinct.middle (h : Distinct (l ++ (k, v) :: r)) : k ∉ l.map (·.1) ∧ k ∉ r.map (·.1) := by
  rw [Distinct, List.map_append, List.map_cons, List.nodup_middle, List.nodup_cons] at h
  exact ⟨fun mem => h.1 (List.mem_append_left _ mem), fun mem => h.1 (List.mem_append_right _ mem)⟩

variable [DecidableEq κ]

/-- The value of a key. -/
def find (m : List (κ × α)) (k : κ) : Option α := (m.find? fun e => e.1 = k).map (·.2)

/-- The value of a key set or changed. -/
def insert (m : List (κ × α)) (k : κ) (v : α) : List (κ × α) :=
  if k ∈ m.map (·.1) then m.map fun e => if e.1 = k then (k, v) else e else m ++ [(k, v)]

/-- A key taken out. -/
def erase (m : List (κ × α)) (k : κ) : List (κ × α) := m.filter fun e => e.1 ≠ k

lemma find_none (h : k ∉ m.map (·.1)) : find m k = none := by
  have out : m.find? (fun e => e.1 = k) = none := by
    refine List.find?_eq_none.mpr fun e mem eq => h ?_
    have key : e.1 = k := by simpa using eq
    exact key ▸ List.mem_map_of_mem mem
  simp [find, out]

lemma find_middle (h : Distinct (l ++ (k, v) :: r)) : find (l ++ (k, v) :: r) k = some v := by
  have out := find_none h.middle.1
  simp only [find, Option.map_eq_none_iff] at out
  simp [find, List.find?_append, out]

/-- A key that is found has an entry. -/
lemma exists_middle (h : find m k = some v) : ∃ l r, m = l ++ (k, v) :: r := by
  obtain ⟨e, found, rfl⟩ := Option.map_eq_some_iff.mp h
  have key : e.1 = k := by simpa using List.find?_some found
  obtain ⟨l, r, split⟩ := List.append_of_mem (List.mem_of_find?_eq_some found)
  exact ⟨l, r, by rw [split, ← key]⟩

lemma insert_new (h : k ∉ m.map (·.1)) : insert m k v = m ++ [(k, v)] := if_neg h

lemma map_other (h : k ∉ m.map (·.1)) : (m.map fun e => if e.1 = k then (k, v) else e) = m := by
  have same : ∀ e ∈ m, (if e.1 = k then (k, v) else e) = e := by
    intro e mem
    have ne : e.1 ≠ k := fun eq => h (eq ▸ List.mem_map_of_mem mem)
    exact if_neg ne
  exact (List.map_congr_left same).trans (List.map_id' m)

lemma insert_middle (h : Distinct (l ++ (k, v) :: r)) :
    insert (l ++ (k, v) :: r) k w = l ++ (k, w) :: r := by
  obtain ⟨left, right⟩ := h.middle
  rw [insert, if_pos (by simp), List.map_append, List.map_cons, if_pos rfl, map_other left,
    map_other right]

/-- Inserting new entries one after the other puts them behind the others. -/
lemma foldl_insert {es m : List (κ × α)} (h : Distinct (m ++ es)) :
    es.foldl (fun m e => insert m e.1 e.2) m = m ++ es := by
  induction es generalizing m with
  | nil => exact (List.append_nil m).symm
  | cons e es ih =>
    obtain ⟨k, v⟩ := e
    rw [List.foldl_cons, insert_new h.middle.1, ih]
    · exact List.append_assoc _ _ _
    · rwa [List.append_assoc]

lemma erase_other (h : k ∉ m.map (·.1)) : erase m k = m := by
  refine List.filter_eq_self.mpr fun e mem => ?_
  have ne : e.1 ≠ k := fun eq => h (eq ▸ List.mem_map_of_mem mem)
  simpa using ne

lemma erase_middle (h : Distinct (l ++ (k, v) :: r)) : erase (l ++ (k, v) :: r) k = l ++ r := by
  obtain ⟨left, right⟩ := h.middle
  have e₁ := erase_other left
  have e₂ := erase_other right
  have gone : ((k, v) :: r).filter (fun e => e.1 ≠ k) = r.filter fun e => e.1 ≠ k :=
    List.filter_cons_of_neg (by simp)
  simp only [erase] at e₁ e₂ ⊢
  rw [List.filter_append, gone, e₁, e₂]

/-! ### Merging -/

/-- Entries inserted one after the other. -/
def insertAll (m es : List (κ × α)) : List (κ × α) := es.foldl (fun m e => insert m e.1 e.2) m

/-- Maps merged from left to right. -/
def union (m : List (κ × α)) (ms : List (List (κ × α))) : List (κ × α) := ms.foldl insertAll m

lemma keys_insert (m : List (κ × α)) (k : κ) (v : α) :
    (insert m k v).map (·.1) = if k ∈ m.map (·.1) then m.map (·.1) else m.map (·.1) ++ [k] := by
  rw [insert]
  split
  · rw [List.map_map]
    refine List.map_congr_left fun e _ => ?_
    by_cases eq : e.1 = k
    · simp [eq]
    · simp [eq]
  · simp

lemma Distinct.insert (h : Distinct m) (k : κ) (v : α) : Distinct (insert m k v) := by
  rw [Distinct, keys_insert]
  split
  · exact h
  · rename_i new
    have apart : ∀ a ∈ m.map (·.1), ∀ b ∈ [k], a ≠ b := by
      rintro a mem b one rfl
      exact new (List.mem_singleton.mp one ▸ mem)
    exact List.nodup_append.mpr ⟨h, List.nodup_singleton k, apart⟩

lemma find_insert (h : Distinct m) (k : κ) (v : α) (k' : κ) :
    find (insert m k v) k' = if k' = k then some v else find m k' := by
  by_cases mem : k ∈ m.map (·.1)
  · obtain ⟨⟨key, old⟩, inside, rfl⟩ := List.mem_map.mp mem
    obtain ⟨l, r, rfl⟩ := List.append_of_mem inside
    have after := h.insert key v
    rw [insert_middle h] at after ⊢
    split
    · rename_i same
      exact same ▸ find_middle after
    · rename_i other
      have skip : ¬ key = k' := fun eq => other eq.symm
      simp [find, List.find?_append, skip]
  · have after := h.insert k v
    rw [insert_new mem] at after ⊢
    split
    · rename_i same
      subst same
      exact find_middle after
    · rename_i other
      have skip : ¬ k = k' := fun eq => other eq.symm
      simp [find, List.find?_append, skip]

lemma Distinct.insertAll (h : Distinct m) (es : List (κ × α)) : Distinct (insertAll m es) := by
  induction es generalizing m with
  | nil => exact h
  | cons e es ih => exact ih (h.insert e.1 e.2)

lemma eraseDups_of_nodup {l : List κ} (h : l.Nodup) : l.eraseDups = l := by
  induction l with
  | nil => rfl
  | cons a l ih =>
    obtain ⟨out, rest⟩ := List.nodup_cons.mp h
    have stays : (l.filter fun b => !b == a) = l := by
      refine List.filter_eq_self.mpr fun b mem => ?_
      have ne : b ≠ a := fun eq => out (eq ▸ mem)
      simpa using ne
    rw [List.eraseDups_cons, stays, ih rest]

/-- The keys come in the order in which they come first. -/
lemma keys_insertAll (h : Distinct m) (es : List (κ × α)) :
    (insertAll m es).map (·.1) = (m.map (·.1) ++ es.map (·.1)).eraseDups := by
  induction es generalizing m with
  | nil =>
    rw [List.map_nil, List.append_nil, eraseDups_of_nodup h]
    rfl
  | cons e es ih =>
    have step := ih (h.insert e.1 e.2)
    rw [keys_insert] at step
    refine step.trans ?_
    split
    · rename_i old
      rw [List.eraseDups_append, List.eraseDups_append, List.map_cons, List.cons_removeAll,
        if_neg (by simpa using old)]
    · rw [List.append_assoc]
      rfl

lemma find_insertAll (h : Distinct m) {es : List (κ × α)} (h' : Distinct es) (k : κ) :
    find (insertAll m es) k = (find es k).or (find m k) := by
  induction es generalizing m with
  | nil => rfl
  | cons e es ih =>
    obtain ⟨out, rest⟩ := List.nodup_cons.mp h'
    refine (ih (h.insert e.1 e.2) rest).trans ?_
    rw [find_insert h]
    by_cases same : k = e.1
    · have later : find es k = none := find_none (same ▸ out)
      have here : find (e :: es) k = some e.2 := by simp [find, same]
      rw [later, here, if_pos same]
      rfl
    · have skip : ¬ e.1 = k := fun eq => same eq.symm
      have behind : find (e :: es) k = find es k := by simp [find, skip]
      rw [behind, if_neg same]

lemma union_eq (m : List (κ × α)) (ms : List (List (κ × α))) : union m ms = insertAll m ms.flatten := by
  rw [union, insertAll, List.foldl_flatten]
  rfl

/-- A union's keys: the first map's, then each new one where it first comes. -/
lemma keys_union (h : Distinct m) (ms : List (List (κ × α))) :
    (union m ms).map (·.1) = (m.map (·.1) ++ ms.flatMap (·.map (·.1))).eraseDups := by
  rw [union_eq, keys_insertAll h, List.map_flatten, List.flatMap_def]

/-- A key's value in a union is that in the last map that has the key. -/
lemma find_union (h : Distinct m) {ms : List (List (κ × α))} (hs : ∀ s ∈ ms, Distinct s) (k : κ) :
    find (union m ms) k = (m :: ms).reverse.findSome? (find · k) := by
  induction ms generalizing m with
  | nil => simp [union]
  | cons s ms ih =>
    have rest := ih (h.insertAll s) fun t mem => hs t (List.mem_cons_of_mem _ mem)
    refine rest.trans ?_
    have last := find_insertAll h (hs s List.mem_cons_self) k
    simp only [List.reverse_cons, List.findSome?_append, List.findSome?_singleton, last, Option.or_assoc]

end OrderedMap
