import Cando.Lib.Chain
import Mathlib.Logic.Function.Basic

/-!
# The handle table

`core/handle.c`: the indirection table behind every `HandleIndex`. A slot that is not live holds, in its
pointer field, the index of the next free slot, so the free list is threaded through the table itself; an
operation is `none` where an assertion of the source fails. What the table is for is a finite map from
handles to slots: `liveSlot`, on which every operation acts at one handle. The lock is not modelled.
-/

namespace Cando

/-- `CANDO_INVALID_HANDLE`. -/
def invalidHandle : Nat := 4294967295

/-- A `CandoHandleSlot`. -/
structure HandleSlot where
  ptr : Nat
  live : Bool
  marked : Bool
  deriving DecidableEq, Repr

/-- `slot_next_free`: the pointer field, cut to an index. -/
def HandleSlot.nextFree (s : HandleSlot) : Nat := s.ptr % 4294967296

/-- A `CandoHandleTable`. -/
structure HandleTable where
  slots : List HandleSlot
  capacity : Nat
  count : Nat
  freeHead : Nat
  deriving DecidableEq, Repr

/-- A free slot that links to `next`. -/
def freeSlot (next : Nat) : HandleSlot := ⟨next, false, false⟩

/-- `n` new slots from index `i` on, each linked to the one after it and the last one to `last`: the loop
that `cando_handle_table_init` and `handle_table_grow` share. -/
def freshSlots (last : Nat) : (i n : Nat) → List HandleSlot
  | _, 0 => []
  | _, 1 => [freeSlot last]
  | i, n + 2 => freeSlot (i + 1) :: freshSlots last (i + 1) (n + 1)

namespace HandleTable

/-- `cando_handle_table_init`. -/
def init (initialCap : Nat) : HandleTable :=
  let cap := if initialCap = 0 then 256 else initialCap
  ⟨freshSlots invalidHandle 0 cap, cap, 0, 0⟩

/-- `handle_table_grow`. From 2^31 slots on the doubled capacity wraps: to zero, where `cando_realloc` aborts,
or to less than there is, and the new slots lie outside the array. -/
def grow (t : HandleTable) : Option HandleTable :=
  if t.capacity < 2147483648 then
    some { t with
      slots := t.slots ++ freshSlots t.freeHead t.capacity t.capacity
      capacity := 2 * t.capacity
      freeHead := t.capacity }
  else none

/-- `cando_handle_alloc`. -/
def alloc (t : HandleTable) (ptr : Nat) : Option (Nat × HandleTable) := do
  let t ← if t.freeHead = invalidHandle then t.grow else some t
  let idx := t.freeHead
  let s ← t.slots[idx]?
  some (idx, { t with
    slots := t.slots.set idx ⟨ptr, true, false⟩
    freeHead := s.nextFree
    count := (t.count + 1) % 4294967296 })

/-- The slot behind a handle, where the assertions on it hold: it is in the table and live. -/
def liveSlot (t : HandleTable) (idx : Nat) : Option HandleSlot :=
  if idx < t.capacity then (t.slots[idx]?).filter (·.live) else none

/-- `cando_handle_get`. -/
def get (t : HandleTable) (idx : Nat) : Option Nat := (t.liveSlot idx).map (·.ptr)

/-- `cando_handle_set`. -/
def set (t : HandleTable) (idx ptr : Nat) : Option HandleTable :=
  (t.liveSlot idx).map fun s => { t with slots := t.slots.set idx { s with ptr := ptr } }

/-- `cando_handle_free`. -/
def free (t : HandleTable) (idx : Nat) : Option HandleTable :=
  (t.liveSlot idx).map fun _ =>
    { t with
      slots := t.slots.set idx (freeSlot t.freeHead)
      freeHead := idx
      count := (t.count + 4294967295) % 4294967296 }

/-- `cando_handle_mark`. -/
def mark (t : HandleTable) (idx : Nat) : Option HandleTable :=
  (t.liveSlot idx).map fun s => { t with slots := t.slots.set idx { s with marked := true } }

/-- `cando_handle_clear_marks`. -/
def clearMarks (t : HandleTable) : HandleTable :=
  { t with slots := t.slots.map fun s => { s with marked := false } }

/-- `cando_handle_is_marked`. -/
def isMarked (t : HandleTable) (idx : Nat) : Option Bool := (t.liveSlot idx).map (·.marked)

/-! ### The free list -/

/-- The link out of a slot. -/
def link (t : HandleTable) (i : Nat) : Nat := ((t.slots[i]?).map (·.nextFree)).getD invalidHandle

/-- The table is well formed, with free list `free`: following the links from the head visits exactly the
slots that are not live. -/
structure Inv (t : HandleTable) (free : List Nat) : Prop where
  length : t.slots.length = t.capacity
  bound : t.capacity ≤ invalidHandle
  chain : Chain t.link t.freeHead free invalidHandle
  mem : ∀ i, i ∈ free ↔ ∃ s, t.slots[i]? = some s ∧ s.live = false
  count : t.count = t.slots.countP (·.live)

variable {t t' : HandleTable} {free : List Nat} {i j p : Nat} {s : HandleSlot}

namespace Inv

lemma liveSlot_eq (v : t.Inv free) (i : Nat) : t.liveSlot i = (t.slots[i]?).filter (·.live) := by
  by_cases h : i < t.capacity
  · simp [liveSlot, h]
  · have e : t.slots[i]? = none := List.getElem?_eq_none (by rw [v.length]; omega)
    simp [liveSlot, h, e]

lemma lt_capacity (v : t.Inv free) (m : i ∈ free) : i < t.capacity := by
  obtain ⟨s, e, _⟩ := (v.mem i).mp m
  have := (List.getElem?_eq_some_iff.mp e).1
  rwa [v.length] at this

lemma invalid_not_mem (v : t.Inv free) : invalidHandle ∉ free := fun m =>
  absurd (v.lt_capacity m) (Nat.not_lt.mpr v.bound)

lemma freeHead_lt (v : t.Inv free) : t.freeHead < 4294967296 := by
  rw [v.chain.head_eq]
  have bound := v.bound
  simp only [invalidHandle] at bound
  cases free with
  | nil => decide
  | cons a l =>
    have lt := v.lt_capacity (List.mem_cons_self (l := l) (a := a))
    simp only [List.headD_cons]
    omega

lemma nodup (v : t.Inv free) : free.Nodup := v.chain.nodup v.invalid_not_mem

lemma liveSlot_none_of_mem (v : t.Inv free) (m : i ∈ free) : t.liveSlot i = none := by
  obtain ⟨s, e, dead⟩ := (v.mem i).mp m
  simp [v.liveSlot_eq, e, Option.filter, dead]

/-- A slot that is not live is in the free list. -/
lemma mem_iff (v : t.Inv free) : i ∈ free ↔ i < t.capacity ∧ t.liveSlot i = none := by
  constructor
  · exact fun m => ⟨v.lt_capacity m, v.liveSlot_none_of_mem m⟩
  · intro ⟨lt, e⟩
    have lt' : i < t.slots.length := by rw [v.length]; exact lt
    refine (v.mem i).mpr ⟨t.slots[i], List.getElem?_eq_getElem lt', ?_⟩
    rw [v.liveSlot_eq, List.getElem?_eq_getElem lt'] at e
    simpa [Option.filter] using e

end Inv

/-- What a live handle gives: its slot in the array. -/
lemma Inv.of_liveSlot (v : t.Inv free) (h : t.liveSlot i = some s) :
    i < t.slots.length ∧ t.slots[i]? = some s ∧ s.live = true ∧ i ∉ free := by
  have out : i ∉ free := fun m => by simp [v.liveSlot_none_of_mem m] at h
  rw [v.liveSlot_eq, Option.filter_eq_some_iff] at h
  exact ⟨(List.getElem?_eq_some_iff.mp h.1).1, h.1, h.2, out⟩

/-! ### What each operation does to the map -/

lemma link_set (h : i < t.slots.length) (c hd : Nat) :
    HandleTable.link { t with slots := t.slots.set i s, count := c, freeHead := hd } =
      Function.update t.link i s.nextFree := by
  funext j
  by_cases e : j = i
  · subst e
    simp [link, h]
  · have ne : i ≠ j := fun h => e h.symm
    simp [link, Function.update_of_ne e, List.getElem?_set_ne ne]

lemma liveSlot_set (h : i < t.slots.length) (len : t.slots.length = t.capacity) (c hd : Nat) :
    HandleTable.liveSlot { t with slots := t.slots.set i s, count := c, freeHead := hd } =
      Function.update t.liveSlot i (if s.live then some s else none) := by
  funext j
  by_cases e : j = i
  · subst e
    rw [Function.update_self]
    cases l : s.live <;> simp [liveSlot, h, len ▸ h, Option.filter, l]
  · have ne : i ≠ j := fun h => e h.symm
    rw [Function.update_of_ne e]
    simp [liveSlot, List.getElem?_set_ne ne]

/-- Rewriting a live slot, which stays live. -/
lemma Inv.rewrite (v : t.Inv free) (h : t.liveSlot i = some s) (s' : HandleSlot) (live : s'.live = true) :
    HandleTable.Inv { t with slots := t.slots.set i s' } free ∧
      HandleTable.liveSlot { t with slots := t.slots.set i s' } =
        Function.update t.liveSlot i (some s') := by
  obtain ⟨lt, get, was, out⟩ := v.of_liveSlot h
  refine ⟨⟨by simpa using v.length, v.bound, ?_, fun j => ?_, ?_⟩, ?_⟩
  · have e := link_set (s := s') lt t.count t.freeHead
    have kept := v.chain.update (b := s'.nextFree) out
    rwa [← e] at kept
  · by_cases e : j = i
    · subst e
      simp [out, lt, live]
    · have ne : i ≠ j := fun h => e h.symm
      simpa [List.getElem?_set_ne ne] using v.mem j
  · have gets := (List.getElem?_eq_some_iff.mp get).2
    have pos : 0 < t.slots.countP (·.live) := by
      refine List.countP_pos_iff.mpr ⟨s, List.mem_of_getElem? get, was⟩
    simp only [List.countP_set lt, gets, was, live, if_true, v.count]
    omega
  · have e := liveSlot_set (s := s') lt v.length t.count t.freeHead
    simpa [live] using e

/-- `cando_handle_set` stores the pointer at its handle. -/
lemma Inv.set_spec (v : t.Inv free) (h : t.liveSlot i = some s) : ∃ t', t.set i p = some t' ∧
    t'.Inv free ∧ t'.liveSlot = Function.update t.liveSlot i (some { s with ptr := p }) ∧
    t'.capacity = t.capacity := by
  have live : s.live = true := (v.of_liveSlot h).2.2.1
  obtain ⟨v', e⟩ := v.rewrite h { s with ptr := p } live
  exact ⟨_, by simp [HandleTable.set, h], v', e, rfl⟩

/-- `cando_handle_mark` marks its handle. -/
lemma Inv.mark_spec (v : t.Inv free) (h : t.liveSlot i = some s) : ∃ t', t.mark i = some t' ∧
    t'.Inv free ∧ t'.liveSlot = Function.update t.liveSlot i (some { s with marked := true }) ∧
    t'.capacity = t.capacity := by
  have live : s.live = true := (v.of_liveSlot h).2.2.1
  obtain ⟨v', e⟩ := v.rewrite h { s with marked := true } live
  exact ⟨_, by simp [HandleTable.mark, h], v', e, rfl⟩

/-- `cando_handle_clear_marks` clears every mark and changes nothing else. -/
lemma Inv.clearMarks_spec (v : t.Inv free) : t.clearMarks.Inv free ∧
    ∀ i, t.clearMarks.liveSlot i = (t.liveSlot i).map fun s => { s with marked := false } := by
  have links : t.clearMarks.link = t.link := by
    funext j
    simp only [link, clearMarks, List.getElem?_map, Option.map_map]
    rfl
  refine ⟨⟨by simpa [clearMarks] using v.length, v.bound, ?_, fun j => ?_, ?_⟩, fun i => ?_⟩
  · rw [links]
    exact v.chain
  · rw [v.mem j]
    simp only [clearMarks, List.getElem?_map, Option.map_eq_some_iff]
    constructor
    · rintro ⟨s, e, dead⟩
      exact ⟨_, ⟨s, e, rfl⟩, dead⟩
    · rintro ⟨_, ⟨s, e, rfl⟩, dead⟩
      exact ⟨s, e, dead⟩
  · simp only [clearMarks, List.countP_map, v.count]
    rfl
  · simp only [liveSlot, clearMarks, List.getElem?_map]
    split
    · cases e : t.slots[i]? with
      | none => rfl
      | some s => cases l : s.live <;> simp [Option.filter, l]
    · rfl

/-- `cando_handle_free` takes its handle out of the map and puts the slot first on the free list. -/
lemma Inv.free_spec (v : t.Inv free) (h : t.liveSlot i = some s) : ∃ t', t.free i = some t' ∧
    t'.Inv (i :: free) ∧ t'.liveSlot = Function.update t.liveSlot i none ∧
    t'.capacity = t.capacity := by
  obtain ⟨lt, get, was, out⟩ := v.of_liveSlot h
  have headLt := v.freeHead_lt
  have e : t.free i = some { t with
      slots := t.slots.set i (freeSlot t.freeHead), freeHead := i,
      count := (t.count + 4294967295) % 4294967296 } := by simp [HandleTable.free, h]
  refine ⟨_, e, ⟨?_, v.bound, ?_, fun j => ?_, ?_⟩, ?_, rfl⟩
  · simpa using v.length
  · have e := link_set (s := freeSlot t.freeHead) lt ((t.count + 4294967295) % 4294967296) i
    have next : (freeSlot t.freeHead).nextFree = t.freeHead := Nat.mod_eq_of_lt headLt
    rw [next] at e
    have pushed := v.chain.push out
    rwa [← e] at pushed
  · by_cases e : j = i
    · subst e
      simp [lt, freeSlot]
    · have ne : i ≠ j := fun h => e h.symm
      simpa [List.getElem?_set_ne ne, e] using v.mem j
  · have gets := (List.getElem?_eq_some_iff.mp get).2
    have pos : 0 < t.slots.countP (·.live) :=
      List.countP_pos_iff.mpr ⟨s, List.mem_of_getElem? get, was⟩
    have le : t.slots.countP (·.live) ≤ t.slots.length := List.countP_le_length
    have := v.length
    have bound := v.bound
    simp only [invalidHandle] at bound
    simp only [List.countP_set lt, gets, was, freeSlot, if_true, v.count, Bool.false_eq_true, if_false]
    omega
  · have e := liveSlot_set (s := freeSlot t.freeHead) lt v.length
      ((t.count + 4294967295) % 4294967296) i
    simpa [freeSlot] using e

/-! ### New slots -/

@[simp] lemma freshSlots_length {last k n : Nat} : (freshSlots last k n).length = n := by
  fun_induction freshSlots last k n <;> simp_all

lemma freshSlots_get {last a n k : Nat} (h : k < n) :
    (freshSlots last a n)[k]? = some (freeSlot (if k + 1 < n then a + k + 1 else last)) := by
  fun_induction freshSlots last a n generalizing k with
  | case1 => omega
  | case2 =>
    have e : k = 0 := by omega
    simp [e]
  | case3 a n ih =>
    cases k with
    | zero => simp
    | succ k =>
      have e := ih (k := k) (by omega)
      have pos : a + 1 + k + 1 = a + (k + 1) + 1 := by omega
      simp only [List.getElem?_cons_succ, e, pos, Nat.succ_eq_add_one, Nat.add_lt_add_iff_right]

lemma freshSlots_dead {last a n : Nat} : ∀ s ∈ freshSlots last a n, s.live = false := by
  intro s m
  obtain ⟨k, e⟩ := List.mem_iff_getElem?.mp m
  have lt : k < n := by simpa using (List.getElem?_eq_some_iff.mp e).1
  rw [freshSlots_get lt] at e
  exact (Option.some.inj e) ▸ rfl

/-- Links that go up one by one and leave the last of `n` nodes for `last` make a chain. -/
lemma range_chain {f : Nat → Nat} {last a n : Nat} (pos : 0 < n)
    (links : ∀ k < n, f (a + k) = if k + 1 < n then a + k + 1 else last) :
    Chain f a (List.range' a n) last := by
  induction n generalizing a with
  | zero => omega
  | succ n ih =>
    have first := links 0 pos
    cases n with
    | zero => exact ⟨rfl, by simpa using first⟩
    | succ n =>
      refine ⟨rfl, ?_⟩
      have next : f a = a + 1 := by simpa using first
      rw [next]
      refine ih (by omega) fun k lt => ?_
      have e := links (k + 1) (by omega)
      have shift : a + (k + 1) = a + 1 + k := by omega
      simpa [shift] using e

/-- `n` new slots in front of the free list. -/
lemma Inv.extend (v : t.Inv free) {n : Nat} (pos : 0 < n) (bound : t.capacity + n ≤ invalidHandle) :
    HandleTable.Inv ⟨t.slots ++ freshSlots t.freeHead t.capacity n, t.capacity + n, t.count, t.capacity⟩
      (List.range' t.capacity n ++ free) := by
  have old : ∀ j < t.capacity, (t.slots ++ freshSlots t.freeHead t.capacity n)[j]? = t.slots[j]? :=
    fun j lt => List.getElem?_append_left (by rw [v.length]; exact lt)
  have new : ∀ k < n, (t.slots ++ freshSlots t.freeHead t.capacity n)[t.capacity + k]? =
      some (freeSlot (if k + 1 < n then t.capacity + k + 1 else t.freeHead)) := by
    intro k lt
    rw [List.getElem?_append_right (by rw [v.length]; omega), v.length, Nat.add_sub_cancel_left]
    exact freshSlots_get lt
  have small : invalidHandle < 4294967296 := by decide
  refine ⟨by simp [v.length], bound, ?_, fun j => ?_, ?_⟩
  · refine Chain.append (range_chain pos fun k lt => ?_) (v.chain.congr fun j m => ?_)
    · have head := v.freeHead_lt
      simp only [link, new k lt, Option.map_some, Option.getD_some, freeSlot, HandleSlot.nextFree]
      refine Nat.mod_eq_of_lt ?_
      split <;> omega
    · simp only [link, old j (v.lt_capacity m)]
  · rw [List.mem_append, List.mem_range', v.mem j]
    by_cases lt : j < t.capacity
    · simp only [old j lt]
      refine ⟨fun h => h.resolve_left ?_, Or.inr⟩
      rintro ⟨k, _, rfl⟩
      omega
    · have out : t.slots[j]? = none := List.getElem?_eq_none (by rw [v.length]; omega)
      simp only [out, reduceCtorEq, false_and, exists_false, or_false]
      constructor
      · rintro ⟨k, inside, rfl⟩
        exact ⟨_, by simpa using new k inside, rfl⟩
      · rintro ⟨s, e, _⟩
        have bound := (List.getElem?_eq_some_iff.mp e).1
        simp only [List.length_append, v.length, freshSlots_length] at bound
        exact ⟨j - t.capacity, by omega, by omega⟩
  · have dead : (freshSlots t.freeHead t.capacity n).countP (·.live) = 0 := by
      refine List.countP_eq_zero.mpr fun s m => ?_
      simp [freshSlots_dead s m]
    simp only [List.countP_append, dead, v.count, Nat.add_zero]

/-- The table as it is initialised has every slot on its free list. -/
lemma init_inv (cap : Nat) (h : cap ≤ invalidHandle) : ∃ free, (init cap).Inv free ∧
    0 < (init cap).capacity ∧ ∀ i, (init cap).liveSlot i = none := by
  have empty : HandleTable.Inv ⟨[], 0, 0, invalidHandle⟩ [] :=
    ⟨rfl, by decide, rfl, by simp, rfl⟩
  have size : (if cap = 0 then 256 else cap) ≤ invalidHandle := by
    split
    · decide
    · exact h
  have pos : 0 < if cap = 0 then 256 else cap := by split <;> omega
  have v := empty.extend pos (by simpa using size)
  simp only [List.nil_append, Nat.zero_add] at v
  refine ⟨_, v, pos, fun i => ?_⟩
  have e : (init cap).liveSlot i = ((init cap).slots[i]?).filter (·.live) := v.liveSlot_eq i
  cases get : (init cap).slots[i]? with
  | none => simpa [get] using e
  | some s =>
    have dead := freshSlots_dead s (List.mem_of_getElem? get)
    simpa [get, Option.filter, dead] using e

/-! ### Allocation -/

/-- `handle_table_grow` leaves the map as it is and a free slot to take. -/
lemma Inv.grow_spec (v : t.Inv free) (pos : 0 < t.capacity) (small : t.capacity < 2147483648) :
    ∃ t' free', t.grow = some t' ∧ t'.Inv free' ∧ t'.liveSlot = t.liveSlot ∧
      t'.freeHead ≠ invalidHandle ∧ t.capacity ≤ t'.capacity := by
  have bound : t.capacity + t.capacity ≤ invalidHandle := by
    simp only [invalidHandle]
    omega
  have v' := v.extend pos bound
  rw [← Nat.two_mul] at v'
  refine ⟨_, _, by simp only [HandleTable.grow, small, if_true], v', ?_, ?_, ?_⟩
  · funext i
    rw [v'.liveSlot_eq, v.liveSlot_eq]
    by_cases lt : i < t.slots.length
    · rw [List.getElem?_append_left lt]
    · have out : t.slots[i]? = none := List.getElem?_eq_none (by omega)
      rw [List.getElem?_append_right (by omega), out]
      cases get : (freshSlots t.freeHead t.capacity t.capacity)[i - t.slots.length]? with
      | none => rfl
      | some s =>
        have dead := freshSlots_dead s (List.mem_of_getElem? get)
        simp [Option.filter, dead]
  · simp only [invalidHandle]
    omega
  · simp only
    omega

/-- Taking the first free slot. -/
lemma Inv.take_spec (v : t.Inv free) (ne : t.freeHead ≠ invalidHandle) :
    ∃ t' free', t.alloc p = some (t.freeHead, t') ∧ t'.Inv free' ∧ t.liveSlot t.freeHead = none ∧
      t'.liveSlot = Function.update t.liveSlot t.freeHead (some ⟨p, true, false⟩) ∧
      t'.capacity = t.capacity := by
  obtain ⟨rest, e⟩ : ∃ rest, free = t.freeHead :: rest := by
    cases free with
    | nil => exact absurd v.chain ne
    | cons a rest => exact ⟨rest, by rw [v.chain.1]⟩
  have chain := v.chain
  rw [e] at chain
  have first : t.freeHead ∈ free := by simp [e]
  obtain ⟨s, get, dead⟩ := (v.mem _).mp first
  have lt := (List.getElem?_eq_some_iff.mp get).1
  have gets := (List.getElem?_eq_some_iff.mp get).2
  have nodup := v.nodup
  rw [e, List.nodup_cons] at nodup
  have next : t.link t.freeHead = s.nextFree := by simp [link, get]
  have e' : t.alloc p = some (t.freeHead, { t with
      slots := t.slots.set t.freeHead ⟨p, true, false⟩, freeHead := s.nextFree,
      count := (t.count + 1) % 4294967296 }) := by simp [HandleTable.alloc, ne, get]
  refine ⟨_, rest, e', ⟨?_, v.bound, ?_, fun j => ?_, ?_⟩, v.liveSlot_none_of_mem first, ?_, rfl⟩
  · simpa using v.length
  · have links := link_set (s := ⟨p, true, false⟩) lt ((t.count + 1) % 4294967296) s.nextFree
    have kept := chain.2.update (b := (HandleSlot.mk p true false).nextFree) nodup.1
    rw [next] at kept
    rwa [← links] at kept
  · by_cases ej : j = t.freeHead
    · subst ej
      simp [lt, nodup.1]
    · have ne : t.freeHead ≠ j := fun h => ej h.symm
      have m := v.mem j
      simp only [e, List.mem_cons, ej, false_or] at m
      simpa [List.getElem?_set_ne ne] using m
  · have le : t.slots.countP (·.live) + 1 ≤ t.slots.length := by
      have pos : 0 < t.slots.countP fun s => !s.live :=
        List.countP_pos_iff.mpr ⟨s, List.mem_of_getElem? get, by simp [dead]⟩
      have split := List.length_eq_countP_add_countP (·.live) (l := t.slots)
      simp only [Bool.not_eq_true, Bool.decide_eq_false] at split
      omega
    have := v.length
    have bound := v.bound
    simp only [invalidHandle] at bound
    simp only [List.countP_set lt, gets, dead, if_true, v.count, Bool.false_eq_true, if_false]
    omega
  · have e := liveSlot_set (s := ⟨p, true, false⟩) lt v.length ((t.count + 1) % 4294967296) s.nextFree
    simpa using e

/-- `cando_handle_alloc` puts a handle that was not live into the map. -/
lemma Inv.alloc_spec (v : t.Inv free) (pos : 0 < t.capacity) (small : t.capacity < 2147483648) :
    ∃ i t' free', t.alloc p = some (i, t') ∧ t'.Inv free' ∧ t.liveSlot i = none ∧ i ≠ invalidHandle ∧
      t'.liveSlot = Function.update t.liveSlot i (some ⟨p, true, false⟩) ∧
      t.capacity ≤ t'.capacity := by
  by_cases full : t.freeHead = invalidHandle
  · obtain ⟨u, free', grown, v', same, ne, le⟩ := v.grow_spec pos small
    obtain ⟨t', free'', e, v'', dead, live, cap⟩ := v'.take_spec (p := p) ne
    refine ⟨_, t', free'', ?_, v'', same ▸ dead, ne, same ▸ live, cap ▸ le⟩
    simp only [HandleTable.alloc, full, if_true, grown]
    simp only [HandleTable.alloc, ne, if_false] at e
    exact e
  · obtain ⟨t', free', e, v', dead, live, cap⟩ := v.take_spec (p := p) full
    exact ⟨_, t', free', e, v', dead, full, live, Nat.le_of_eq cap.symm⟩

/-- An allocation that succeeds, whatever the capacity. -/
lemma Inv.alloc_some (v : t.Inv free) (pos : 0 < t.capacity) (h : t.alloc p = some (i, t')) :
    ∃ free', t'.Inv free' ∧ t.liveSlot i = none ∧ i ≠ invalidHandle ∧
      t'.liveSlot = Function.update t.liveSlot i (some ⟨p, true, false⟩) ∧
      t.capacity ≤ t'.capacity := by
  by_cases full : t.freeHead = invalidHandle
  · have small : t.capacity < 2147483648 := by
      by_contra big
      simp [HandleTable.alloc, full, HandleTable.grow, big] at h
    obtain ⟨j, u, free', e, v', rest⟩ := v.alloc_spec (p := p) pos small
    obtain ⟨rfl, rfl⟩ : j = i ∧ u = t' := by simpa [e] using h
    exact ⟨free', v', rest⟩
  · obtain ⟨u, free', e, v', dead, live, cap⟩ := v.take_spec (p := p) full
    obtain ⟨rfl, rfl⟩ : t.freeHead = i ∧ u = t' := by simpa [e] using h
    exact ⟨free', v', dead, full, live, Nat.le_of_eq cap.symm⟩

/-! ### Histories -/

/-- An operation on the table. -/
inductive HandleOp where
  | alloc (ptr : Nat)
  | set (idx ptr : Nat)
  | free (idx : Nat)
  deriving DecidableEq, Repr

/-- What happened: the operation, with the handle that an allocation returned. -/
inductive HandleEvent where
  | alloc (ptr idx : Nat)
  | set (idx ptr : Nat)
  | free (idx : Nat)
  deriving DecidableEq, Repr

/-- One operation. -/
def perform (t : HandleTable) : HandleOp → Option (HandleEvent × HandleTable)
  | .alloc p => (t.alloc p).map fun (i, t') => (.alloc p i, t')
  | .set i p => (t.set i p).map fun t' => (.set i p, t')
  | .free i => (t.free i).map fun t' => (.free i, t')

/-- A history from one table to another; the latest event comes first, and the capacity is below 2^31
throughout. -/
inductive History : HandleTable → List HandleEvent → HandleTable → Prop where
  | nil {t : HandleTable} : t.capacity < 2147483648 → History t [] t
  | cons {t u t' : HandleTable} {es : List HandleEvent} {e : HandleEvent} (op : HandleOp) :
      History t es u → u.perform op = some (e, t') →
      t'.capacity < 2147483648 → History t (e :: es) t'

/-- The pointer most recently stored for a handle by the allocation that returned it or by a set; none
when it was freed since, or was never given out. -/
def lastStored : List HandleEvent → Nat → Option Nat
  | [], _ => none
  | .alloc p i :: es, j => if j = i then some p else lastStored es j
  | .set i p :: es, j => if j = i then some p else lastStored es j
  | .free i :: es, j => if j = i then none else lastStored es j

/-- What one operation preserves: the table stays well formed, and its map keeps the pointers that were
stored last. -/
lemma Inv.perform_spec (v : t.Inv free) (pos : 0 < t.capacity) (small : t.capacity < 2147483648)
    {es : List HandleEvent} (stored : ∀ i, t.get i = lastStored es i) {op : HandleOp} {e : HandleEvent}
    (h : t.perform op = some (e, t')) :
    (∃ free', t'.Inv free') ∧ 0 < t'.capacity ∧ ∀ i, t'.get i = lastStored (e :: es) i := by
  cases op with
  | alloc p =>
    obtain ⟨i, u, free', ea, v', _, _, live, le⟩ := v.alloc_spec (p := p) pos small
    simp only [perform, ea, Option.map_some, Option.some.injEq, Prod.mk.injEq] at h
    obtain ⟨rfl, rfl⟩ := h
    refine ⟨⟨free', v'⟩, by omega, fun j => ?_⟩
    by_cases ej : j = i
    · simp [HandleTable.get, live, lastStored, ej]
    · simpa [HandleTable.get, live, lastStored, ej] using stored j
  | set i p =>
    obtain ⟨u, es', rfl, rfl⟩ : ∃ u, t.set i p = some u ∧ HandleEvent.set i p = e ∧ u = t' := by
      simpa [perform] using h
    obtain ⟨s, live⟩ : ∃ s, t.liveSlot i = some s := by
      simp only [HandleTable.set, Option.map_eq_some_iff] at es'
      obtain ⟨s, live, _⟩ := es'
      exact ⟨s, live⟩
    obtain ⟨u', e', v', map, cap⟩ := v.set_spec (p := p) live
    obtain rfl : u' = u := Option.some.inj (e'.symm.trans es')
    refine ⟨⟨free, v'⟩, by omega, fun j => ?_⟩
    by_cases ej : j = i
    · simp [HandleTable.get, map, lastStored, ej]
    · simpa [HandleTable.get, map, lastStored, ej] using stored j
  | free i =>
    obtain ⟨u, es', rfl, rfl⟩ : ∃ u, t.free i = some u ∧ HandleEvent.free i = e ∧ u = t' := by
      simpa [perform] using h
    obtain ⟨s, live⟩ : ∃ s, t.liveSlot i = some s := by
      simp only [HandleTable.free, Option.map_eq_some_iff] at es'
      obtain ⟨s, live, _⟩ := es'
      exact ⟨s, live⟩
    obtain ⟨u', e', v', map, cap⟩ := v.free_spec live
    obtain rfl : u' = u := Option.some.inj (e'.symm.trans es')
    refine ⟨⟨_, v'⟩, by omega, fun j => ?_⟩
    by_cases ej : j = i
    · simp [HandleTable.get, map, lastStored, ej]
    · simpa [HandleTable.get, map, lastStored, ej] using stored j

/-- Every history from an initialised table keeps it well formed. -/
lemma History.inv {cap : Nat} {es : List HandleEvent} (hist : History (init cap) es t) :
    (∃ free, t.Inv free) ∧ 0 < t.capacity ∧ t.capacity < 2147483648 ∧
      ∀ i, t.get i = lastStored es i := by
  induction hist with
  | nil small =>
    have le : cap ≤ invalidHandle := by
      simp only [init, invalidHandle] at small ⊢
      split at small <;> omega
    obtain ⟨free, v, pos, dead⟩ := init_inv cap le
    exact ⟨⟨free, v⟩, pos, small, fun i => by simp [HandleTable.get, dead, lastStored]⟩
  | cons _ _ step small ih =>
    obtain ⟨⟨free, v⟩, pos, small', stored⟩ := ih
    obtain ⟨inv', pos', stored'⟩ := v.perform_spec pos small' stored step
    exact ⟨inv', pos', small, stored'⟩

/-- After any history, with any number of growths: the free list is finite and acyclic and holds exactly the
slots that are not live; the count is the number of live slots; an allocation succeeds with a valid handle
that is not live; and a live handle gives the pointer last stored for it. -/
theorem history_sound {cap : Nat} {es : List HandleEvent} (hist : History (init cap) es t) :
    (∃ free, Chain t.link t.freeHead free invalidHandle ∧ free.Nodup ∧
      ∀ i, i ∈ free ↔ ∃ s, t.slots[i]? = some s ∧ s.live = false) ∧
    t.count = t.slots.countP (·.live) ∧
    (∀ p, ∃ i t', t.alloc p = some (i, t') ∧ t.liveSlot i = none ∧ i ≠ invalidHandle ∧
      t'.get i = some p) ∧
    ∀ i s, t.slots[i]? = some s → s.live = true →
      ∃ p, t.get i = some p ∧ lastStored es i = some p ∧
        (∀ q, (t.set i q).isSome) ∧ (t.free i).isSome := by
  obtain ⟨⟨free, v⟩, pos, small, stored⟩ := hist.inv
  refine ⟨⟨free, v.chain, v.nodup, v.mem⟩, v.count, fun p => ?_, fun i s get live => ?_⟩
  · obtain ⟨i, t', _, e, _, dead, valid, map, _⟩ := v.alloc_spec (p := p) pos small
    exact ⟨i, t', e, dead, valid, by simp [HandleTable.get, map]⟩
  · have slot : t.liveSlot i = some s := by simp [v.liveSlot_eq, get, live, Option.filter]
    have got : t.get i = some s.ptr := by simp [HandleTable.get, slot]
    refine ⟨s.ptr, got, stored i ▸ got, fun q => ?_, ?_⟩
    · simp [HandleTable.set, slot]
    · simp [HandleTable.free, slot]

/-- A table of one slot that grows, frees and reuses its first slot and rewrites its second. -/
theorem history_sound_growth : ∃ es t, History (init 1) es t ∧ t.capacity = 2 ∧
    lastStored es 1 = some 5 ∧ t.count = t.slots.countP (·.live) ∧
    (∃ free, Chain t.link t.freeHead free invalidHandle ∧ free.Nodup) ∧ t.get 1 = some 5 := by
  have h₀ : History (init 1) [] (init 1) := .nil (by decide)
  have h₁ := h₀.cons (.alloc 7) rfl (by decide)
  have h₂ := h₁.cons (.alloc 8) rfl (by decide)
  have h₃ := h₂.cons (.free 0) rfl (by decide)
  have h₄ := h₃.cons (.alloc 9) rfl (by decide)
  have h₅ := h₄.cons (.set 1 5) rfl (by decide)
  obtain ⟨⟨free, chain, nodup, _⟩, count, _, stored⟩ := history_sound h₅
  obtain ⟨p, got, last, _⟩ := stored 1 _ rfl rfl
  exact ⟨_, _, h₅, rfl, rfl, count, ⟨free, chain, nodup⟩, rfl⟩

end HandleTable

end Cando
