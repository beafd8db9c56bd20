import Cando.Object.HashTable
import Mathlib.Algebra.Ring.Nat

/-!
# Traversals that write

`cdo_object_foreach` holds the index of the next slot while its callback runs. A callback that writes to the object,
if only to fields that are there, may make `cdo_object_rawset` rehash: the slots are numbered anew. The traversal goes
on in order exactly where the rehash leaves the fields behind the first in their slots.
-/

namespace Cando

variable {ν β : Type}

/-- What a callback of `cdo_object_foreach` does: what it makes of `ud`, the fields it writes to the object, and
whether to go on. -/
structure CallbackEffect (ν β : Type) where
  ud : β
  writes : List (Nat × CdoValue ν × Nat) := []
  cont : Bool := true

/-- A `CdoIterFn` that may write to the object. -/
abbrev WritingFn (ν β : Type) : Type := β → HashTable ν → SlotKey → CdoValue ν → Nat → CallbackEffect ν β

/-- Called with fields of these keys it goes on, and writes to fields of these keys alone. -/
def WritingFn.Overwrites (fn : WritingFn ν β) (keys : List Nat) : Prop :=
  ∀ ud t key val flags, key ∈ keys → (fn ud t (.string key) val flags).cont = true ∧
    ∀ w ∈ (fn ud t (.string key) val flags).writes, w.1 ∈ keys

/-- The callback with a log of the keys it is called with. -/
def WritingFn.logged (fn : WritingFn ν β) : WritingFn ν (β × List SlotKey) := fun ud t key val flags =>
  let effect := fn ud.1 t key val flags
  ⟨(effect.ud, ud.2 ++ [key]), effect.writes, effect.cont⟩

namespace HashTable

/-- Writes to the fields, one after the other. -/
def rawsetAll (t : HashTable ν) : List (Nat × CdoValue ν × Nat) → Option (HashTable ν)
  | [] => some t
  | (key, val, flags) :: writes => do
    let (_, t) ← t.rawset key val flags
    rawsetAll t writes

/-- The loop of `cdo_object_foreach` from slot `idx` on. -/
def foreachWriting (fn : WritingFn ν β) : (turns idx : Nat) → β → HashTable ν → Option (β × HashTable ν)
  | 0, _, _, _ => none
  | turns + 1, idx, ud, t =>
    if idx = noSlot then some (ud, t)
    else do
      let s ← t.slots[idx]?
      let effect := fn ud t s.key s.value s.flags
      let t ← t.rawsetAll effect.writes
      if effect.cont then foreachWriting fn turns s.fifoNext effect.ud t else some (effect.ud, t)

/-- A rehash, where one comes, leaves the fields behind the first in their slots. -/
def KeepsSlots (t : HashTable ν) : Prop :=
  t.readonly = true ∨ t.fieldCount = 0 ∨ ∃ t', t.ensureCapacity = some t' ∧
    ∀ i key, keyAt t.slots i = .string key → i ≠ t.fifoHead → keyAt t'.slots i = .string key

end HashTable

/-! ### Tables up to values -/

/-- A slot without its value. -/
def HashSlot.erase (s : HashSlot ν) : HashSlot ν := { s with value := .null, flags := 0 }

/-- A table without its values. -/
def HashTable.erase (t : HashTable ν) : HashTable ν := { t with slots := t.slots.map HashSlot.erase }

section Erase

variable {slots : List (HashSlot ν)} {i : Nat}

lemma keyAt_erase : keyAt (slots.map HashSlot.erase) = keyAt slots := by
  funext i
  rw [keyAt, keyAt, List.getElem?_map, Option.map_map]
  rfl

lemma nextAt_erase : nextAt (slots.map HashSlot.erase) = nextAt slots := by
  funext i
  rw [nextAt, nextAt, List.getElem?_map, Option.map_map]
  rfl

lemma prevAt_erase : prevAt (slots.map HashSlot.erase) = prevAt slots := by
  funext i
  rw [prevAt, prevAt, List.getElem?_map, Option.map_map]
  rfl

lemma setNext_erase (next : Nat) :
    setNext (slots.map HashSlot.erase) i next = (setNext slots i next).map (·.map HashSlot.erase) := by
  rw [setNext, setNext, List.getElem?_map]
  cases slots[i]? with
  | none => rfl
  | some s =>
    simp only [Option.map_some, List.map_set]
    rfl

lemma findEmpty_erase (turns h : Nat) : findEmpty (slots.map HashSlot.erase) turns h = findEmpty slots turns h := by
  induction turns generalizing h with
  | zero => rfl
  | succ turns ih =>
    rw [findEmpty, findEmpty, List.getElem?_map]
    cases slots[h]? with
    | none => rfl
    | some s =>
      simp only [Option.map_some, Option.bind_eq_bind, Option.bind_some, nextSlot, List.length_map, ih]
      rfl

lemma place_erase (slots : List (HashSlot ν)) (head tail h key : Nat) (value : CdoValue ν) (flags : Nat) :
    place (slots.map HashSlot.erase) head tail h key .null 0 =
      (place slots head tail h key value flags).map fun r => (r.1.map HashSlot.erase, r.2) := by
  rw [place, place, List.getElem?_map]
  cases slots[h]? with
  | none => rfl
  | some s =>
    have filled : (slots.map HashSlot.erase).set h ⟨.string key, .null, 0, tail, noSlot⟩ =
        (slots.set h ⟨.string key, value, flags, tail, noSlot⟩).map HashSlot.erase := by
      rw [List.map_set]
      rfl
    simp only [Option.map_some, Option.bind_eq_bind, Option.bind_some, filled]
    split
    · rfl
    · rw [setNext_erase]
      cases setNext (slots.set h ⟨.string key, value, flags, tail, noSlot⟩) tail h <;> rfl

lemma rehashLoop_erase (old slots : List (HashSlot ν)) (turns idx head tail : Nat) :
    rehashLoop (old.map HashSlot.erase) turns idx (slots.map HashSlot.erase) head tail =
      (rehashLoop old turns idx slots head tail).map fun r => (r.1.map HashSlot.erase, r.2) := by
  induction turns generalizing idx slots head tail with
  | zero => rfl
  | succ turns ih =>
    rw [rehashLoop, rehashLoop, List.getElem?_map]
    split
    · rfl
    · cases old[idx]? with
      | none => rfl
      | some s =>
        obtain ⟨key, value, flags, prev, next⟩ := s
        cases key with
        | string key =>
          simp only [Option.map_some, Option.bind_eq_bind, Option.bind_some, HashSlot.erase, homeSlot,
            List.length_map, findEmpty_erase]
          cases findEmpty slots slots.length (ptrHash key &&& (slots.length - 1)) with
          | none => rfl
          | some h =>
            simp only [Option.bind_some]
            have filled := place_erase slots head tail h key value flags
            cases placed : place slots head tail h key value flags with
            | none =>
              rw [placed] at filled
              simp only [filled]
              rfl
            | some r =>
              rw [placed] at filled
              simp only [filled, Option.map_some, Option.bind_some]
              exact ih r.1 next r.2 h
        | null => rfl
        | tombstone => rfl

/-- The shape of the slot array does not depend on the values. -/
lemma Layout.of_erase {slots' : List (HashSlot ν)} {head tail : Nat} {order : List Nat}
    (v : Layout slots head tail order) (same : slots'.map HashSlot.erase = slots.map HashSlot.erase) :
    Layout slots' head tail order := by
  have len : slots'.length = slots.length := by simpa using congrArg List.length same
  have keys : keyAt slots' = keyAt slots := by rw [← keyAt_erase, same, keyAt_erase]
  have nexts : nextAt slots' = nextAt slots := by rw [← nextAt_erase, same, nextAt_erase]
  have prevs : prevAt slots' = prevAt slots := by rw [← prevAt_erase, same, prevAt_erase]
  have way : slotFrom slots' = slotFrom slots := by
    funext key d
    rw [slotFrom, slotFrom, len]
  exact ⟨len ▸ v.bound, nexts ▸ v.forward, prevs ▸ v.backward, keys ▸ v.live, keys ▸ v.distinct,
    by rw [keys, way, len]; exact v.path⟩

end Erase

namespace HashTable

variable {t t' u : HashTable ν} {m : FieldMap ν} {order : List Nat} {i key : Nat}

lemma rehash_erase (t : HashTable ν) (newCap : Nat) : t.erase.rehash newCap = (t.rehash newCap).map erase := by
  have fresh : (List.replicate newCap (emptySlot (ν := ν))).map HashSlot.erase = List.replicate newCap emptySlot := by
    rw [List.map_replicate]
    rfl
  rw [rehash, rehash]
  split
  · have loop := rehashLoop_erase t.slots (List.replicate newCap emptySlot) (t.slots.length + 1)
      t.fifoHead noSlot noSlot
    rw [fresh] at loop
    simp only [erase, List.length_map, loop]
    cases rehashLoop t.slots (t.slots.length + 1) t.fifoHead (List.replicate newCap emptySlot) noSlot noSlot <;> rfl
  · rfl

lemma ensureCapacity_erase (t : HashTable ν) : t.erase.ensureCapacity = t.ensureCapacity.map erase := by
  have len : t.erase.slots.length = t.slots.length := List.length_map _
  have fields : t.erase.fieldCount = t.fieldCount := rfl
  have tombs : t.erase.tombstoneCount = t.tombstoneCount := rfl
  simp only [ensureCapacity, len, fields, tombs]
  split
  · cases doubled t.fieldCount 32 (if t.slots.length = 0 then 8 else u32 (t.slots.length * 2)) with
    | none => rfl
    | some newCap => exact rehash_erase t newCap
  · rfl

lemma keyAt_eq (same : u.erase = t.erase) : keyAt u.slots = keyAt t.slots := by
  have slots : u.slots.map HashSlot.erase = t.slots.map HashSlot.erase := congrArg HashTable.slots same
  rw [← keyAt_erase, slots, keyAt_erase]

lemma nextAt_eq (same : u.erase = t.erase) : nextAt u.slots = nextAt t.slots := by
  have slots : u.slots.map HashSlot.erase = t.slots.map HashSlot.erase := congrArg HashTable.slots same
  rw [← nextAt_erase, slots, nextAt_erase]

lemma Inv.of_erase (v : t.Inv order) (same : u.erase = t.erase) : u.Inv order := by
  have slots : u.slots.map HashSlot.erase = t.slots.map HashSlot.erase := congrArg HashTable.slots same
  have len : u.slots.length = t.slots.length := by simpa using congrArg List.length slots
  have head : u.fifoHead = t.fifoHead :=
    (congrArg HashTable.fifoHead same : u.erase.fifoHead = t.erase.fifoHead)
  have tail : u.fifoTail = t.fifoTail :=
    (congrArg HashTable.fifoTail same : u.erase.fifoTail = t.erase.fifoTail)
  have fields : u.fieldCount = t.fieldCount :=
    (congrArg HashTable.fieldCount same : u.erase.fieldCount = t.erase.fieldCount)
  have tombs : u.tombstoneCount = t.tombstoneCount :=
    (congrArg HashTable.tombstoneCount same : u.erase.tombstoneCount = t.erase.tombstoneCount)
  refine ⟨?_, ?_, ?_, ?_, ?_⟩
  · rw [head, tail]
    exact v.layout.of_erase slots
  · rw [len]
    exact v.pow
  · rw [fields]
    exact v.fields
  · rw [tombs, v.tombs]
    exact (countKeys_congr len (keyAt_eq same) _).symm
  · rw [fields, tombs, len]
    exact v.load

/-- Past 2^31 the capacity is zero and stays so. -/
lemma doubled_zero {fieldCount turns newCap : Nat} (run : doubled fieldCount turns 0 = some newCap) : newCap = 0 := by
  induction turns with
  | zero => cases run
  | succ turns ih =>
    rw [doubled] at run
    split at run
    · exact ih run
    · exact (Option.some.inj run).symm

/-- What the loop over the capacities ends with: nothing, or a larger power of two. -/
lemma doubled_spec {fieldCount turns newCap k : Nat} (le : k ≤ 31)
    (run : doubled fieldCount turns (2 ^ k) = some newCap) :
    newCap = 0 ∨ ∃ j, k ≤ j ∧ j ≤ 31 ∧ newCap = 2 ^ j := by
  induction turns generalizing k with
  | zero => cases run
  | succ turns ih =>
    rw [doubled] at run
    split at run
    · obtain rfl | lt := Nat.eq_or_lt_of_le le
      · exact .inl (doubled_zero run)
      · have pow : 2 ^ (k + 1) ≤ 2 ^ 31 := Nat.pow_le_pow_right (by decide) lt
        have small : 2 ^ (k + 1) < 4294967296 := Nat.lt_of_le_of_lt pow (by decide)
        rw [← Nat.pow_succ, u32_eq small] at run
        obtain zero | ⟨j, low, high, eq⟩ := ih lt run
        · exact .inl zero
        · exact .inr ⟨j, by omega, high, eq⟩
    · exact .inr ⟨k, Nat.le_refl k, le, (Option.some.inj run).symm⟩

lemma doubled_stop {fieldCount turns cap newCap : Nat} (run : doubled fieldCount turns cap = some newCap) :
    ¬ u32 (newCap * 3) < u32 ((fieldCount + 1) * 4) := by
  induction turns generalizing cap with
  | zero => cases run
  | succ turns ih =>
    rw [doubled] at run
    split at run
    · exact ih run
    · cases run
      assumption

/-- A table that is not to grow has room for one more field; the products in 32 bits do not hide that it has none. -/
lemma Inv.room_of_not_full (v : t.Inv order) (keep : ¬ (t.slots.length = 0 ∨
    u32 (t.slots.length * 3) < u32 (u32 (t.fieldCount + t.tombstoneCount + 1) * 4))) :
    t.slots.length.isPowerOfTwo ∧ (t.fieldCount + t.tombstoneCount + 1) * 4 ≤ t.slots.length * 3 := by
  rw [not_or] at keep
  have load := v.load
  have bound := v.layout.bound
  rw [noSlot] at bound
  obtain ⟨k, eq⟩ := v.pow.resolve_left keep.1
  refine ⟨⟨k, eq⟩, ?_⟩
  have enough := keep.2
  by_cases small : k ≤ 30
  · have pow : 2 ^ k ≤ 2 ^ 30 := Nat.pow_le_pow_right (by decide) small
    rw [← eq] at pow
    have used : u32 (t.fieldCount + t.tombstoneCount + 1) = t.fieldCount + t.tombstoneCount + 1 := u32_eq (by omega)
    rw [used, u32_eq (by omega), u32_eq (by omega)] at enough
    omega
  · have pow : 2 ^ 31 ≤ 2 ^ k := Nat.pow_le_pow_right (by decide) (Nat.lt_of_not_le small)
    have le : k ≤ 31 := by
      by_contra high
      have more : 2 ^ 32 ≤ 2 ^ k := Nat.pow_le_pow_right (by decide) (Nat.lt_of_not_le high)
      rw [← eq] at more
      omega
    have more : 2 ^ k ≤ 2 ^ 31 := Nat.pow_le_pow_right (by decide) le
    rw [← eq] at pow more
    rw [u32, u32, u32] at enough
    omega

/-- Where `obj_ensure_capacity` comes back, the fields are as they were, and it has nothing more to do: there is room
for one more. -/
lemma Inv.ensureCapacity_some (v : t.Inv order) (run : t.ensureCapacity = some t') : ∃ order',
    t'.Inv order' ∧ order'.map (fieldAt t'.slots) = order.map (fieldAt t.slots) ∧ t'.readonly = t.readonly ∧
      t'.ensureCapacity = some t' ∧ t'.slots.length.isPowerOfTwo ∧
      (t'.fieldCount + t'.tombstoneCount + 1) * 4 ≤ t'.slots.length * 3 := by
  have step := run
  rw [ensureCapacity] at step
  split at step
  · rename_i full
    obtain ⟨newCap, turned, rehashed⟩ := Option.bind_eq_some_iff.mp step
    have asserted : 0 < newCap := by
      rw [rehash] at rehashed
      split at rehashed
      · rename_i h
        exact h.1
      · cases rehashed
    obtain ⟨k, start, le, room⟩ : ∃ k, (if t.slots.length = 0 then 8 else u32 (t.slots.length * 2)) = 2 ^ k ∧ k ≤ 31 ∧
        (t.fieldCount + 1) * 4 ≤ 2 ^ k * 3 := by
      have load := v.load
      have bound := v.layout.bound
      rcases v.pow with zero | ⟨k, eq⟩
      · exact ⟨3, if_pos zero, by decide, by omega⟩
      · have pos : 0 < 2 ^ k := Nat.pow_pos (by decide)
        have le : k ≤ 31 := by
          by_contra high
          have pow : 2 ^ 32 ≤ 2 ^ k := Nat.pow_le_pow_right (by decide) (Nat.lt_of_not_le high)
          rw [eq, noSlot] at bound
          omega
        obtain rfl | lt := Nat.eq_or_lt_of_le le
        · -- a table of 2^31 slots cannot grow: the loop does not leave zero
          rw [eq] at turned
          exact absurd (doubled_zero turned) (Nat.ne_of_gt asserted)
        · have pow : 2 ^ (k + 1) ≤ 2 ^ 31 := Nat.pow_le_pow_right (by decide) lt
          have small : 2 ^ (k + 1) < 4294967296 := Nat.lt_of_le_of_lt pow (by decide)
          refine ⟨k + 1, ?_, lt, ?_⟩
          · rw [if_neg (by omega), eq, ← Nat.pow_succ, u32_eq small]
          · rw [Nat.pow_succ]
            omega
    rw [start] at turned
    obtain zero | ⟨j, low, high, rfl⟩ := doubled_spec le turned
    · omega
    have pow : 2 ^ j ≤ 2 ^ 31 := Nat.pow_le_pow_right (by decide) high
    have more : 2 ^ k ≤ 2 ^ j := Nat.pow_le_pow_right (by decide) low
    have bound : 2 ^ j < noSlot := Nat.lt_of_le_of_lt pow (by decide)
    obtain ⟨t₁, order', run₁, v', len, fields, ro, count, clean⟩ := v.rehash_spec ⟨j, rfl⟩ bound (by omega)
    obtain rfl := Option.some.inj (run₁.symm.trans rehashed)
    have roomy : (t₁.fieldCount + t₁.tombstoneCount + 1) * 4 ≤ t₁.slots.length * 3 := by
      rw [count, clean, len]
      omega
    refine ⟨order', v', fields, ro, ?_, len ▸ ⟨j, rfl⟩, roomy⟩
    have enough := doubled_stop turned
    have used : u32 (u32 (t₁.fieldCount + t₁.tombstoneCount + 1) * 4) = u32 ((t.fieldCount + 1) * 4) := by
      rw [count, clean, u32, u32, u32, Nat.mod_mul_mod]
    rw [ensureCapacity, len]
    simp only [used]
    rw [if_neg (by rintro (zero | short); exacts [absurd zero (Nat.ne_of_gt asserted), enough short])]
  · rename_i keep
    cases step
    exact ⟨order, v, rfl, rfl, run, v.room_of_not_full keep⟩

/-- A write to a field that is there changes at most the slots that `obj_ensure_capacity` numbers anew, and values. -/
lemma Inv.rawset_live (v : u.Inv order) (writable : u.readonly ≠ true) (live : keyAt u.slots i = .string key)
    (ensured : u.ensureCapacity = some t') (val : CdoValue ν) (flags : Nat) : ∃ ok u',
      u.rawset key val flags = some (ok, u') ∧ u'.erase = t'.erase := by
  obtain ⟨order', v', fields, -, -⟩ := v.ensureCapacity_some ensured
  have member : key ∈ (order'.map (fieldAt t'.slots)).map (·.1) := by
    obtain ⟨l, r, s, rfl, -, -, here, -⟩ := v.live_spec live
    rw [fields, List.map_append, List.map_cons, here]
    simp
  obtain ⟨f, inside, rfl⟩ := List.mem_map.mp member
  obtain ⟨j, ordered, rfl⟩ := List.mem_map.mp inside
  obtain ⟨l, r, s, rfl, get, found, -, -⟩ := v'.live_spec (v'.layout.fieldAt_key ordered)
  by_cases static : isStatic s.flags = true
  · refine ⟨false, t', ?_, rfl⟩
    simp only [rawset, writable, Bool.false_eq_true, if_false, ensured, found, get, static, if_true,
      Option.bind_eq_bind, Option.bind_some]
  · refine ⟨true, { t' with slots := t'.slots.set j { s with value := val, flags := flags } }, ?_, ?_⟩
    · simp only [rawset, writable, Bool.false_eq_true, if_false, ensured, found, get, static, Option.bind_eq_bind,
        Option.bind_some]
    · have same : (t'.slots.set j { s with value := val, flags := flags }).map HashSlot.erase =
          t'.slots.map HashSlot.erase := by
        rw [List.map_set]
        have erased : (t'.slots.map HashSlot.erase)[j]? = some s.erase := by rw [List.getElem?_map, get]; rfl
        obtain ⟨lt, eq⟩ := List.getElem?_eq_some_iff.mp erased
        have here : HashSlot.erase { s with value := val, flags := flags } = (t'.slots.map HashSlot.erase)[j] := eq.symm
        rw [here, List.set_getElem_self]
      simp only [erase, same]

/-! ### A callback that overwrites -/

/-- The keys of the fields, in order. -/
def keys (t : HashTable ν) (order : List Nat) : List Nat := (order.map (fieldAt t.slots)).map (·.1)

lemma Inv.keys_string (v : t.Inv order) : (keys t order).map SlotKey.string = order.map (keyAt t.slots) := by
  rw [keys, List.map_map, List.map_map]
  exact List.map_congr_left fun i m => (v.layout.fieldAt_key m).symm

lemma Inv.exists_key (v : t.Inv order) (ordered : i ∈ order) : ∃ k ∈ keys t order, keyAt t.slots i = .string k :=
  ⟨(fieldAt t.slots i).1, List.mem_map_of_mem (List.mem_map_of_mem ordered), v.layout.fieldAt_key ordered⟩

/-- What `t` becomes when a field of it is written that is there. -/
def Held (t t' : HashTable ν) : Prop :=
  t.readonly = true ∧ t' = t ∨ t.readonly = false ∧ t.ensureCapacity = some t'

/-- Up to values the table is still `t`, or already `t'`. -/
def Stays (t t' u : HashTable ν) : Prop := u.erase = t.erase ∨ u.erase = t'.erase

lemma Inv.held (v : t.Inv order) (held : Held t t') : ∃ order', t'.Inv order' ∧ keys t' order' = keys t order ∧
    t'.readonly = t.readonly := by
  obtain ⟨-, rfl⟩ | ⟨-, ensured⟩ := held
  · exact ⟨order, v, rfl, rfl⟩
  · obtain ⟨order', v', fields, ro, -⟩ := v.ensureCapacity_some ensured
    exact ⟨order', v', by rw [keys, keys, fields], ro⟩

lemma ensureCapacity_eq (same : u.erase = t.erase) (ensured : t.ensureCapacity = some t') : ∃ u',
    u.ensureCapacity = some u' ∧ u'.erase = t'.erase := by
  have both : u.ensureCapacity.map erase = some t'.erase := by
    rw [← ensureCapacity_erase, same, ensureCapacity_erase, ensured]
    rfl
  exact Option.map_eq_some_iff.mp both

lemma Inv.exists_live (v : t.Inv order) (mem : key ∈ keys t order) : ∃ i, keyAt t.slots i = .string key := by
  obtain ⟨f, inside, rfl⟩ := List.mem_map.mp mem
  obtain ⟨i, ordered, rfl⟩ := List.mem_map.mp inside
  exact ⟨i, v.layout.fieldAt_key ordered⟩

/-- A write to a field that is there. -/
lemma Inv.rawset_stays (v : t.Inv order) (held : Held t t') (mem : key ∈ keys t order) (stays : Stays t t' u)
    (val : CdoValue ν) (flags : Nat) : ∃ ok u', u.rawset key val flags = some (ok, u') ∧ Stays t t' u' := by
  obtain ⟨order', v', same_keys, ro'⟩ := v.held held
  have ro : u.readonly = t.readonly := by
    obtain same | same := stays
    · exact (congrArg HashTable.readonly same : u.erase.readonly = t.erase.readonly)
    · exact (congrArg HashTable.readonly same : u.erase.readonly = t'.erase.readonly).trans ro'
  obtain ⟨readonly, rfl⟩ | ⟨writable, ensured⟩ := held
  · refine ⟨false, u, ?_, stays⟩
    rw [rawset, if_pos (ro.trans readonly)]
  · have free : u.readonly ≠ true := by simp [ro, writable]
    obtain ⟨-, -, -, -, settled, -⟩ := v.ensureCapacity_some ensured
    obtain same | same := stays
    · obtain ⟨i, live⟩ := v.exists_live mem
      obtain ⟨u', ensured', after⟩ := ensureCapacity_eq same ensured
      obtain ⟨ok, u₁, run, same₁⟩ := (v.of_erase same).rawset_live free (keyAt_eq same ▸ live) ensured' val flags
      exact ⟨ok, u₁, run, .inr (same₁.trans after)⟩
    · obtain ⟨i, live⟩ := v'.exists_live (same_keys ▸ mem)
      obtain ⟨u', ensured', after⟩ := ensureCapacity_eq same settled
      obtain ⟨ok, u₁, run, same₁⟩ := (v'.of_erase same).rawset_live free (keyAt_eq same ▸ live) ensured' val flags
      exact ⟨ok, u₁, run, .inr (same₁.trans after)⟩

lemma Inv.rawsetAll_stays (v : t.Inv order) (held : Held t t') {writes : List (Nat × CdoValue ν × Nat)}
    (mem : ∀ w ∈ writes, w.1 ∈ keys t order) (stays : Stays t t' u) : ∃ u', u.rawsetAll writes = some u' ∧
      Stays t t' u' := by
  induction writes generalizing u with
  | nil => exact ⟨u, rfl, stays⟩
  | cons w writes ih =>
    obtain ⟨ok, u₁, run, stays₁⟩ := v.rawset_stays held (mem w List.mem_cons_self) stays w.2.1 w.2.2
    obtain ⟨u', rest, stays'⟩ := ih (fun w m => mem w (List.mem_cons_of_mem _ m)) stays₁
    refine ⟨u', ?_, stays'⟩
    rw [rawsetAll, run]
    exact rest

/-- One turn of the loop. -/
lemma foreachWriting_turn (fn : WritingFn ν β) (ud : β) {turns idx : Nat} {s : HashSlot ν} (inside : idx ≠ noSlot)
    (get : u.slots[idx]? = some s) (written : u.rawsetAll (fn ud u s.key s.value s.flags).writes = some t')
    (goes_on : (fn ud u s.key s.value s.flags).cont = true) :
    foreachWriting fn (turns + 1) idx ud u =
      foreachWriting fn turns s.fifoNext (fn ud u s.key s.value s.flags).ud t' := by
  simp only [foreachWriting, inside, if_false, get, Option.bind_eq_bind, Option.bind_some, written, goes_on, if_true]

/-- The traversal goes through slots that `t` and `t'` have in common. -/
lemma Inv.foreachWriting_rest (v : t.Inv order) (held : Held t t') {fn : WritingFn ν β}
    (overwrites : fn.Overwrites (keys t order)) {rest : List Nat} {idx : Nat}
    (chain : Chain (nextAt t.slots) idx rest noSlot) (chain' : Chain (nextAt t'.slots) idx rest noSlot)
    (kept : ∀ i ∈ rest, i ∈ order ∧ keyAt t'.slots i = keyAt t.slots i) (stays : Stays t t' u) (ud : β)
    (log : List SlotKey) : ∃ turns ud' u',
      foreachWriting fn.logged turns idx (ud, log) u = some ((ud', log ++ rest.map (keyAt t.slots)), u') := by
  induction rest generalizing idx ud log u with
  | nil =>
    obtain rfl : idx = noSlot := chain
    exact ⟨1, ud, u, by simp [foreachWriting]⟩
  | cons i rest ih =>
    obtain ⟨rfl, chain⟩ := chain
    obtain ⟨-, chain'⟩ := chain'
    obtain ⟨ordered, same_key⟩ := kept idx List.mem_cons_self
    have inside : idx ≠ noSlot := fun e => v.layout.noSlot_not_mem (e ▸ ordered)
    have key_eq : keyAt u.slots idx = keyAt t.slots idx := by
      obtain same | same := stays
      · rw [keyAt_eq same]
      · rw [keyAt_eq same, same_key]
    have next_eq : nextAt u.slots idx = nextAt t.slots idx := by
      obtain same | same := stays
      · rw [nextAt_eq same]
      · rw [nextAt_eq same, chain'.start, chain.start]
    have lt : idx < u.slots.length := by
      apply lt_of_keyAt
      rw [key_eq, v.layout.fieldAt_key ordered]
      exact SlotKey.noConfusion
    obtain ⟨s, get, key, next, -, -⟩ := exists_slot lt
    obtain ⟨k, known, live⟩ := v.exists_key ordered
    have string : s.key = .string k := key.trans (key_eq.trans live)
    obtain ⟨goes_on, mem⟩ := overwrites ud u k s.value s.flags known
    rw [← string] at goes_on mem
    obtain ⟨u₁, written, stays₁⟩ := v.rawsetAll_stays held mem stays
    rw [next_eq] at next
    obtain ⟨turns, ud', u', run⟩ := ih (next ▸ chain) (by rw [next, chain.start, ← chain'.start]; exact chain')
      (fun j m => kept j (List.mem_cons_of_mem _ m)) stays₁ (fn ud u s.key s.value s.flags).ud (log ++ [s.key])
    refine ⟨turns + 1, ud', u', ?_⟩
    rw [foreachWriting_turn fn.logged (ud, log) inside get written goes_on]
    refine run.trans ?_
    rw [List.map_cons, ← key_eq, ← key, List.append_assoc, List.singleton_append]

/-- Slots that hold in `t'` the keys that the others hold in `t`. -/
lemma Inv.nodes_eq {order' : List Nat} (v : t.Inv order) (v' : t'.Inv order') {l l' : List Nat}
    (same : l'.map (keyAt t'.slots) = l.map (keyAt t.slots)) (kept : ∀ i ∈ l, i ∈ order ∧
      keyAt t'.slots i = keyAt t.slots i) :
    l' = l := by
  induction l generalizing l' with
  | nil => exact List.map_eq_nil_iff.mp same
  | cons i l ih =>
    obtain ⟨i', l', rfl, here, rest⟩ := List.map_eq_cons_iff.mp same
    obtain ⟨ordered, key_eq⟩ := kept i List.mem_cons_self
    obtain ⟨k, live⟩ := (v.layout.live i).mp ordered
    have first : i' = i := v'.layout.distinct i' i k (here.trans live) (key_eq.trans live)
    rw [first, ih rest fun j m => kept j (List.mem_cons_of_mem _ m)]

/-- The fields are visited in order where a rehash leaves those behind the first in their slots. -/
lemma Inv.visits_of_keepsSlots (v : t.Inv order) (keeps : t.KeepsSlots) {fn : WritingFn ν β}
    (overwrites : fn.Overwrites (keys t order)) (ud : β) : ∃ turns ud' t',
      foreachWriting fn.logged turns t.fifoHead (ud, []) t = some ((ud', order.map (keyAt t.slots)), t') := by
  cases order with
  | nil =>
    have empty : t.fifoHead = noSlot := v.layout.forward
    exact ⟨1, ud, t, by simp [foreachWriting, empty]⟩
  | cons i is =>
    obtain ⟨t', held, kept⟩ : ∃ t', Held t t' ∧ ∀ j ∈ is, keyAt t'.slots j = keyAt t.slots j := by
      cases ro : t.readonly with
      | true => exact ⟨t, .inl ⟨ro, rfl⟩, fun _ _ => rfl⟩
      | false =>
        obtain readonly | none | ⟨t', ensured, kept⟩ := keeps
        · rw [ro] at readonly
          cases readonly
        · rw [v.fields] at none
          cases none
        · refine ⟨t', .inr ⟨ro, ensured⟩, fun j m => ?_⟩
          obtain ⟨k, live⟩ := (v.layout.live j).mp (List.mem_cons_of_mem _ m)
          have behind : j ≠ t.fifoHead := by
            rintro rfl
            rw [v.layout.forward.1] at m
            exact (List.nodup_cons.mp v.layout.nodup).1 m
          rw [live, kept j k live behind]
    obtain ⟨order', v', same_keys, -⟩ := v.held held
    obtain ⟨head, chain⟩ := v.layout.forward
    -- behind the first field both lists run through the same slots
    have keys_eq : order'.map (keyAt t'.slots) = (i :: is).map (keyAt t.slots) := by
      rw [← v'.keys_string, same_keys, v.keys_string]
    obtain ⟨i', is', rfl, -, tails⟩ := List.map_eq_cons_iff.mp keys_eq
    have inner : ∀ j ∈ is, j ∈ i :: is ∧ keyAt t'.slots j = keyAt t.slots j :=
      fun j m => ⟨List.mem_cons_of_mem _ m, kept j m⟩
    obtain rfl := v.nodes_eq v' tails inner
    obtain ⟨-, chain'⟩ := v'.layout.forward
    have member : i ∈ i :: is' := List.mem_cons_self
    have inside : i ≠ noSlot := fun e => v.layout.noSlot_not_mem (e ▸ member)
    obtain ⟨s, get, key, next, -, -⟩ := exists_slot (v.layout.lt member)
    obtain ⟨k, known, live⟩ := v.exists_key member
    obtain ⟨goes_on, mem⟩ := overwrites ud t k s.value s.flags known
    rw [← live, ← key] at goes_on mem
    obtain ⟨u, written, stays⟩ := v.rawsetAll_stays held mem (.inl rfl)
    obtain ⟨turns, ud', u', run⟩ := v.foreachWriting_rest held overwrites (next ▸ chain)
      (by rw [next, chain.start, ← chain'.start]; exact chain') inner stays
      (fn ud t s.key s.value s.flags).ud ([] ++ [s.key])
    refine ⟨turns + 1, ud', u', ?_⟩
    rw [head, foreachWriting_turn fn.logged (ud, []) inside get written goes_on]
    refine run.trans ?_
    rw [List.map_cons, ← key, List.nil_append, List.singleton_append]

/-! ### A rehash that moves a field -/

/-- What a turn of a loop that came back has done. -/
lemma foreachWriting_inv {fn : WritingFn ν β} {turns idx : Nat} {ud : β} {r : β × HashTable ν} (inside : idx ≠ noSlot)
    (always : ∀ ud t key val flags, (fn ud t key val flags).cont = true)
    (run : foreachWriting fn turns idx ud u = some r) : ∃ turns' s u', u.slots[idx]? = some s ∧
      u.rawsetAll (fn ud u s.key s.value s.flags).writes = some u' ∧
      foreachWriting fn turns' s.fifoNext (fn ud u s.key s.value s.flags).ud u' = some r := by
  cases turns with
  | zero => cases run
  | succ turns =>
    rw [foreachWriting, if_neg inside] at run
    obtain ⟨s, get, run⟩ := Option.bind_eq_some_iff.mp run
    obtain ⟨u', written, run⟩ := Option.bind_eq_some_iff.mp run
    rw [if_pos (always _ _ _ _ _)] at run
    exact ⟨turns, s, u', get, written, run⟩

/-- The log only grows. -/
lemma foreachWriting_log {fn : WritingFn ν β} (always : ∀ ud t key val flags, (fn ud t key val flags).cont = true)
    {turns idx : Nat} {ud ud' : β} {log log' : List SlotKey} {u' : HashTable ν}
    (run : foreachWriting fn.logged turns idx (ud, log) u = some ((ud', log'), u')) : log <+: log' := by
  induction turns generalizing idx ud log u with
  | zero => cases run
  | succ turns ih =>
    rw [foreachWriting] at run
    split at run
    · cases run
      exact List.prefix_refl _
    · obtain ⟨s, get, run⟩ := Option.bind_eq_some_iff.mp run
      obtain ⟨u₁, written, run⟩ := Option.bind_eq_some_iff.mp run
      have goes_on : (fn.logged (ud, log) u s.key s.value s.flags).cont = true := always ud u s.key s.value s.flags
      rw [if_pos goes_on] at run
      exact (List.prefix_append _ _).trans (ih run)

/-- The callback that writes to the field `key` when it is called with the key `spot`. -/
def writeOn (spot : SlotKey) (key : Nat) : WritingFn ν Unit := fun _ _ visited _ _ =>
  ⟨(), if visited = spot then [(key, .null, 0)] else [], true⟩

/-- Before its key comes, the callback leaves the table as it is. -/
lemma Inv.run_front (v : t.Inv order) {spot : SlotKey} {l rest : List Nat} {turns idx : Nat} {log : List SlotKey}
    {r : (Unit × List SlotKey) × HashTable ν} (chain : Chain (nextAt t.slots) idx (l ++ rest) noSlot)
    (inside : ∀ i ∈ l, i ∈ order) (quiet : ∀ i ∈ l, keyAt t.slots i ≠ spot)
    (run : foreachWriting (writeOn spot key).logged turns idx ((), log) t = some r) : ∃ turns' idx',
      Chain (nextAt t.slots) idx' rest noSlot ∧
      foreachWriting (writeOn spot key).logged turns' idx' ((), log ++ l.map (keyAt t.slots)) t = some r := by
  induction l generalizing turns idx log with
  | nil => exact ⟨turns, idx, chain, by simpa using run⟩
  | cons i l ih =>
    obtain ⟨rfl, chain⟩ := chain
    have ordered := inside idx List.mem_cons_self
    obtain ⟨turns₁, s, u, get, written, run⟩ := foreachWriting_inv
      (fun e => v.layout.noSlot_not_mem (e ▸ ordered)) (fun _ _ _ _ _ => rfl) run
    obtain ⟨s', get', key_eq, next, -, -⟩ := exists_slot (v.layout.lt ordered)
    obtain rfl := Option.some.inj (get.symm.trans get')
    have none : (writeOn (ν := ν) spot key () t s.key s.value s.flags).writes = [] := by
      rw [writeOn, if_neg (key_eq ▸ quiet idx List.mem_cons_self)]
    change t.rawsetAll (writeOn (ν := ν) spot key () t s.key s.value s.flags).writes = some u at written
    rw [none] at written
    obtain rfl := Option.some.inj written
    obtain ⟨turns', idx', chain', run'⟩ := ih (next ▸ chain) (fun j m => inside j (List.mem_cons_of_mem _ m))
      (fun j m => quiet j (List.mem_cons_of_mem _ m)) run
    refine ⟨turns', idx', chain', ?_⟩
    rw [List.map_cons, ← key_eq]
    simpa using run'

/-- If every callback that overwrites visits the fields in order, a rehash leaves those behind the first where they
are. -/
lemma Inv.keepsSlots_of_visits (v : t.Inv order)
    (visits : ∀ fn : WritingFn ν Unit, fn.Overwrites (keys t order) → ∃ turns ud' t',
      foreachWriting fn.logged turns t.fifoHead ((), []) t = some ((ud', order.map (keyAt t.slots)), t')) :
    t.KeepsSlots := by
  by_contra moves
  rw [KeepsSlots, not_or, not_or] at moves
  obtain ⟨writable, some_field, moves⟩ := moves
  cases order with
  | nil => exact some_field v.fields
  | cons first is =>
    have member : first ∈ first :: is := List.mem_cons_self
    obtain ⟨key, known, live⟩ := v.exists_key member
    have overwrites (spot : SlotKey) : (writeOn spot key : WritingFn ν Unit).Overwrites (keys t (first :: is)) := by
      refine fun ud u visited val flags _ => ⟨rfl, fun w mem => ?_⟩
      rw [writeOn] at mem
      split at mem
      · obtain rfl := List.mem_singleton.mp mem
        exact known
      · cases mem
    cases ensured : t.ensureCapacity with
    | none =>
      -- the write at the first field does not come back
      obtain ⟨turns, ud', u', run⟩ := visits _ (overwrites (.string key))
      rw [v.layout.forward.1] at run
      obtain ⟨turns', s, u, get, written, -⟩ := foreachWriting_inv
        (fun e => v.layout.noSlot_not_mem (e ▸ member)) (fun _ _ _ _ _ => rfl) run
      obtain ⟨s', get', key_eq, -⟩ := exists_slot (v.layout.lt member)
      obtain rfl := Option.some.inj (get.symm.trans get')
      have writes : (writeOn (ν := ν) (.string key) key () t s.key s.value s.flags).writes = [(key, .null, 0)] := by
        rw [writeOn, if_pos (key_eq.trans live)]
      change t.rawsetAll (writeOn (ν := ν) (.string key) key () t s.key s.value s.flags).writes = some u at written
      rw [writes, rawsetAll, rawset, if_neg writable, ensured] at written
      cases written
    | some t' =>
      have moved : ∃ i k, keyAt t.slots i = .string k ∧ i ≠ t.fifoHead ∧ keyAt t'.slots i ≠ .string k := by
        by_contra none
        refine moves ⟨t', ensured, fun i k live behind => ?_⟩
        by_contra other
        exact none ⟨i, k, live, behind, other⟩
      obtain ⟨i, k, live_i, behind, other⟩ := moved
      have later : i ∈ is := by
        obtain rfl | later := List.mem_cons.mp ((v.layout.live i).mpr ⟨k, live_i⟩)
        · exact absurd v.layout.forward.1.symm behind
        · exact later
      -- `j` is the field before the one that moves
      obtain ⟨front, rest, cut⟩ := List.append_of_mem later
      obtain ⟨l, j, joined⟩ : ∃ l j, first :: front = l ++ [j] := by
        obtain e | ⟨l, j, e⟩ := List.eq_nil_or_concat' (first :: front)
        · cases e
        · exact ⟨l, j, e⟩
      have all : first :: is = l ++ j :: i :: rest := by
        rw [cut, ← List.cons_append, joined, List.append_assoc, List.singleton_append]
      rw [all] at v visits overwrites
      have j_mem : j ∈ l ++ j :: i :: rest := by simp
      have i_mem : i ∈ l ++ j :: i :: rest := by simp
      have quiet : ∀ n ∈ l, keyAt t.slots n ≠ keyAt t.slots j := by
        intro n m e
        obtain ⟨kj, live_j⟩ := (v.layout.live j).mp j_mem
        have same : n = j := v.layout.distinct n j kj (e.trans live_j) live_j
        have apart := List.nodup_append.mp v.layout.nodup
        exact apart.2.2 n m j List.mem_cons_self same
      obtain ⟨turns, ud', u', run⟩ := visits _ (overwrites (keyAt t.slots j))
      obtain ⟨turns₁, idx, chain, run⟩ := v.run_front v.layout.forward
        (fun n m => List.mem_append_left _ m) quiet run
      obtain ⟨rfl, succ, -⟩ := chain
      -- the write there rehashes, and the traversal goes on at the old slot of the next field
      obtain ⟨turns₂, s, u₁, get, written, run⟩ := foreachWriting_inv
        (fun e => v.layout.noSlot_not_mem (e ▸ j_mem)) (fun _ _ _ _ _ => rfl) run
      obtain ⟨s', get', key_eq, next, -⟩ := exists_slot (v.layout.lt j_mem)
      obtain rfl := Option.some.inj (get.symm.trans get')
      have writes : (writeOn (ν := ν) (keyAt t.slots idx) key () t s.key s.value s.flags).writes
        = [(key, .null, 0)] := by
        rw [writeOn, if_pos key_eq]
      change t.rawsetAll (writeOn (ν := ν) (keyAt t.slots idx) key () t s.key s.value s.flags).writes
        = some u₁ at written
      obtain ⟨ok, u₂, wrote, same⟩ := v.rawset_live writable live ensured .null 0
      rw [writes, rawsetAll, wrote] at written
      obtain rfl := Option.some.inj written
      rw [next, succ] at run
      obtain ⟨turns₃, s₂, u₃, get₂, -, run⟩ := foreachWriting_inv
        (fun e => v.layout.noSlot_not_mem (e ▸ i_mem)) (fun _ _ _ _ _ => rfl) run
      have visited : s₂.key = keyAt t'.slots i := by
        rw [← keyAt_eq same, keyAt, get₂]
        rfl
      have grown : [] ++ l.map (keyAt t.slots) ++ [s.key] ++ [s₂.key] <+: (l ++ idx :: i :: rest).map (keyAt t.slots) :=
        foreachWriting_log (fun _ _ _ _ _ => rfl) run
      obtain ⟨tail, log_eq⟩ := grown
      rw [List.map_append, List.map_cons, List.map_cons, key_eq, visited, live_i] at log_eq
      simp only [List.nil_append, List.append_assoc, List.cons_append, List.append_cancel_left_eq,
        List.cons.injEq, true_and] at log_eq
      exact other log_eq.1

/-- `cdo_object_foreach` on a plain object, with any callback that only overwrites fields that are there, visits each
field of the start once, in order of insertion, if and only if the object is readonly or empty or its next rehash, if
it is due, leaves the fields behind the first in their slots. -/
theorem foreach_overwriting_iff (rep : t.Repr m) :
    (∀ (β : Type) (fn : WritingFn ν β) (ud : β), fn.Overwrites (m.fields.map (·.1)) → ∃ turns ud' t',
      foreachWriting fn.logged turns t.fifoHead (ud, []) t = some ((ud', m.fields.map fun f => .string f.1), t')) ↔
    t.KeepsSlots := by
  obtain ⟨-, order, v, fields⟩ := rep
  have known : m.fields.map (·.1) = keys t order := by rw [← fields, keys]
  have visited : m.fields.map (fun f => SlotKey.string f.1) = order.map (keyAt t.slots) := by
    rw [← v.keys_string, ← known, List.map_map]
    rfl
  rw [known, visited]
  exact ⟨fun visits => v.keepsSlots_of_visits fun fn overwrites => visits Unit fn () overwrites,
    fun keeps β fn ud overwrites => v.visits_of_keepsSlots keeps overwrites ud⟩

/-- Two runs of a traversal that come back are the same. -/
lemma foreachWriting_det {fn : WritingFn ν β} {turns turns' idx : Nat} {ud : β} {r r' : β × HashTable ν}
    (run : foreachWriting fn turns idx ud u = some r) (run' : foreachWriting fn turns' idx ud u = some r') :
      r = r' := by
  induction turns generalizing turns' idx ud u with
  | zero => cases run
  | succ turns ih =>
    cases turns' with
    | zero => cases run'
    | succ turns' =>
      rw [foreachWriting] at run run'
      split at run
      · rename_i stop
        rw [if_pos stop] at run'
        exact Option.some.inj (run.symm.trans run')
      · rename_i inside
        rw [if_neg inside] at run'
        obtain ⟨s, get, run⟩ := Option.bind_eq_some_iff.mp run
        obtain ⟨u₁, written, run⟩ := Option.bind_eq_some_iff.mp run
        simp only [get, written, Option.bind_eq_bind, Option.bind_some] at run'
        split at run
        · rename_i goes_on
          rw [if_pos goes_on] at run'
          exact ih run run'
        · rename_i stops
          rw [if_neg stops] at run'
          exact Option.some.inj (run.symm.trans run')

/-- The fields after some writes. -/
def setAll (m : FieldMap ν) (writes : List (Nat × CdoValue ν × Nat)) : FieldMap ν :=
  writes.foldl (fun m w => (m.perform (.set w.1 w.2.1 w.2.2)).2) m

/-- Writes from a reachable object on, through small tables. -/
lemma Run.rawsetAll {writes : List (Nat × CdoValue ν × Nat)} (reached : Run t m) (run : t.rawsetAll writes = some t')
    (small : ∀ n ≤ writes.length, (t.rawsetAll (writes.take n)).all (·.slots.length < 268435456)) :
    Run t' (setAll m writes) := by
  induction writes generalizing t m with
  | nil =>
    cases run
    exact reached
  | cons w writes ih =>
    obtain ⟨⟨ok, t₁⟩, first, rest⟩ := Option.bind_eq_some_iff.mp run
    have bound : t₁.slots.length < 268435456 := by
      have one := small 1 (Nat.succ_le_succ (Nat.zero_le _))
      simpa [HashTable.rawsetAll, first] using one
    have next : Run t₁ (m.perform (.set w.1 w.2.1 w.2.2)).2 := reached.step first bound
    refine ih next rest fun n le => ?_
    have longer := small (n + 1) (Nat.succ_le_succ le)
    simpa [HashTable.rawsetAll, first] using longer

/-- `assign_field` where the object is assigned to itself. -/
def assignField : WritingFn ν Unit := fun _ _ key val _ => ⟨(), [(key.address, val, 0)], true⟩

/-- New fields `true` with these keys. -/
def trueFields (keys : List Nat) : List (Nat × CdoValue Nat × Nat) := keys.map fun key => (key, .bool true, 0)

/-- Three fields in eight slots leave room for a fourth: a callback may set them all to null. -/
theorem foreach_overwriting_three : ∃ (t : HashTable Nat) (m : FieldMap Nat), Run t m ∧ ∃ turns ud' t',
    foreachWriting (WritingFn.logged fun n _ _ _ _ => ⟨n + 1, [(64, .null, 0), (128, .null, 0), (192, .null, 0)], true⟩)
      turns t.fifoHead (0, []) t = some ((ud', [.string 64, .string 128, .string 192]), t') := by
  obtain ⟨t, run⟩ : ∃ t, ({} : HashTable Nat).rawsetAll (trueFields [64, 128, 192]) = some t :=
    Option.isSome_iff_exists.mp (by decide +kernel)
  have reached := Run.new.rawsetAll run (by decide +kernel)
  have room : (({} : HashTable Nat).rawsetAll (trueFields [64, 128, 192])).all fun t => t.ensureCapacity = some t := by
    decide +kernel
  rw [run] at room
  have keeps : t.KeepsSlots := .inr (.inr ⟨t, of_decide_eq_true room, fun _ _ live _ => live⟩)
  refine ⟨t, _, reached, (foreach_overwriting_iff reached.repr.2).mpr keeps Nat _ 0 ?_⟩
  have known : ∀ w ∈ ([(64, .null, 0), (128, .null, 0), (192, .null, 0)] : List (Nat × CdoValue Nat × Nat)),
      w.1 ∈ (setAll {} (trueFields [64, 128, 192])).fields.map (·.1) := by decide
  exact fun _ _ _ _ _ _ => ⟨rfl, known⟩

/-- An object of six fields assigned to itself: two of them are not visited. -/
theorem foreach_assign_self : ∃ (t : HashTable Nat) (m : FieldMap Nat), Run t m ∧
    (assignField (ν := Nat)).Overwrites (m.fields.map (·.1)) ∧ ¬ ∃ turns ud' t',
      foreachWriting (assignField (ν := Nat)).logged turns t.fifoHead ((), []) t =
        some ((ud', m.fields.map fun f => .string f.1), t') := by
  obtain ⟨t, run⟩ : ∃ t, ({} : HashTable Nat).rawsetAll (trueFields [64, 128, 192, 256, 320, 384]) = some t :=
    Option.isSome_iff_exists.mp (by decide +kernel)
  have reached := Run.new.rawsetAll run (by decide +kernel)
  have log : ((({} : HashTable Nat).rawsetAll (trueFields [64, 128, 192, 256, 320, 384])).bind fun t =>
      foreachWriting assignField.logged 7 t.fifoHead ((), []) t).map (·.1.2) =
      some [.string 64, .string 256, .string 320, .string 384] := by decide +kernel
  rw [run] at log
  obtain ⟨⟨ud, visited⟩, came_back, e⟩ := Option.map_eq_some_iff.mp log
  refine ⟨t, _, reached, ?_, fun ⟨turns, ud', t', other⟩ => ?_⟩
  · exact fun _ _ key _ _ known => ⟨rfl, fun w mem => List.mem_singleton.mp mem ▸ known⟩
  · have same : [.string 64, .string 256, .string 320, .string 384] =
        (setAll {} (trueFields [64, 128, 192, 256, 320, 384])).fields.map fun f => SlotKey.string f.1 :=
      e.symm.trans (congrArg (fun r => r.1.2) (foreachWriting_det came_back other))
    exact absurd same (by decide)

end HashTable

end Cando
