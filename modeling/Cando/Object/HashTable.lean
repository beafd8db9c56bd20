import Cando.Lib.Chain
import Cando.Lib.OrderedMap
import Cando.Object.Object
import Mathlib.Data.Nat.Find
import Mathlib.Logic.Function.Basic

/-!
# The fields of an object

The hash table of `object/object.c`: open addressing with linear probing and tombstones, overlaid with a doubly
linked list through slot indices that keeps the order of insertion. A key is the address of its interned
string. An operation is `none` where an assertion fails, an index lies outside the slot array or a loop does
not end. What the table is for is an insertion-ordered map.
-/

namespace Cando

/-- `UINT32_MAX`, which is no slot's index. -/
def noSlot : Nat := 4294967295

/-- A value kept in a `u32`. -/
def u32 (n : Nat) : Nat := n % 4294967296

/-- `FIELD_STATIC` is set. -/
def isStatic (flags : Nat) : Bool := flags &&& 1 != 0

/-- The key of a slot: empty, deleted, or an interned string. -/
inductive SlotKey where
  | null
  | tombstone
  | string (p : Nat)
  deriving DecidableEq, Repr

/-- `ptr_hash`. -/
@[irreducible] def ptrHash (key : Nat) : Nat :=
  let p := key ^^^ (key >>> 16)
  let p := (p * 0x45d9f3b) % 18446744073709551616
  let p := p ^^^ (p >>> 16)
  u32 p

/-- An `ObjSlot`. -/
structure HashSlot (ν : Type) where
  key : SlotKey
  value : CdoValue ν
  flags : Nat
  fifoPrev : Nat
  fifoNext : Nat
  deriving DecidableEq, Repr

/-- The part of a plain `CdoObject` that holds its fields; `slot_cap` is the length of `slots`. -/
structure HashTable (ν : Type) where
  readonly : Bool := false
  slots : List (HashSlot ν) := []
  fieldCount : Nat := 0
  tombstoneCount : Nat := 0
  fifoHead : Nat := noSlot
  fifoTail : Nat := noSlot
  deriving DecidableEq, Repr

variable {ν : Type}

/-- A slot of a new array. -/
def emptySlot : HashSlot ν := ⟨.null, .null, 0, noSlot, noSlot⟩

/-- A slot whose field was deleted. -/
def tombstoneSlot : HashSlot ν := ⟨.tombstone, .null, 0, noSlot, noSlot⟩

/-- A write to `slots[i].fifo_next`. -/
def setNext (slots : List (HashSlot ν)) (i next : Nat) : Option (List (HashSlot ν)) :=
  (slots[i]?).map fun s => slots.set i { s with fifoNext := next }

/-- A write to `slots[i].fifo_prev`. -/
def setPrev (slots : List (HashSlot ν)) (i prev : Nat) : Option (List (HashSlot ν)) :=
  (slots[i]?).map fun s => slots.set i { s with fifoPrev := prev }

/-- The slot after `h`, around the end of the array. -/
def nextSlot (slots : List (HashSlot ν)) (h : Nat) : Nat := (h + 1) &&& (slots.length - 1)

/-- The slot where the search for a key starts. -/
def homeSlot (slots : List (HashSlot ν)) (key : Nat) : Nat := ptrHash key &&& (slots.length - 1)

/-- The loop of `obj_lookup` at slot `h`, with the first tombstone it has met: the slot of the key, and where
the key would go. -/
def probe (slots : List (HashSlot ν)) (key start : Nat) : (turns h : Nat) → (tomb : Option Nat) →
    Option (Option Nat × Option Nat)
  | 0, _, _ => none
  | turns + 1, h, tomb => do
    let s ← slots[h]?
    if s.key = .string key then some (some h, some h)
    else if s.key = .null then some (none, some (tomb.getD h))
    else
      let tomb := if s.key = .tombstone then some (tomb.getD h) else tomb
      let h := nextSlot slots h
      if h = start then some (none, tomb) else probe slots key start turns h tomb

/-- The writes with which `obj_rehash` and `cdo_object_rawset` fill slot `h` and put it last in the order. -/
def place (slots : List (HashSlot ν)) (head tail h key : Nat) (value : CdoValue ν) (flags : Nat) :
    Option (List (HashSlot ν) × Nat) := do
  let _ ← slots[h]?
  let slots := slots.set h ⟨.string key, value, flags, tail, noSlot⟩
  if head = noSlot then some (slots, h)
  else do
    let slots ← setNext slots tail h
    some (slots, head)

/-- The writes with which `cdo_object_rawdelete` takes slot `idx` out of the order and deletes its field. -/
def unlink (slots : List (HashSlot ν)) (head tail idx : Nat) (s : HashSlot ν) :
    Option (List (HashSlot ν) × Nat × Nat) := do
  let (slots, head) ← (if s.fifoPrev ≠ noSlot
    then (setNext slots s.fifoPrev s.fifoNext).map fun slots => (slots, head)
    else some (slots, s.fifoNext))
  let (slots, tail) ← (if s.fifoNext ≠ noSlot
    then (setPrev slots s.fifoNext s.fifoPrev).map fun slots => (slots, tail)
    else some (slots, s.fifoPrev))
  some (slots.set idx tombstoneSlot, head, tail)

/-- The inner loop of `obj_rehash`: the first empty slot from `h` on. -/
def findEmpty (slots : List (HashSlot ν)) : (turns h : Nat) → Option Nat
  | 0, _ => none
  | turns + 1, h => do
    let s ← slots[h]?
    if s.key = .null then some h else findEmpty slots turns (nextSlot slots h)

/-- The loop of `obj_rehash` over the old slots in order, from index `idx` on: the new slots with their head
and tail. -/
def rehashLoop (old : List (HashSlot ν)) : (turns idx : Nat) → (slots : List (HashSlot ν)) →
    (head tail : Nat) → Option (List (HashSlot ν) × Nat × Nat)
  | 0, _, _, _, _ => none
  | turns + 1, idx, slots, head, tail =>
    if idx = noSlot then some (slots, head, tail)
    else do
      let s ← old[idx]?
      match s.key with
      | .string key =>
        let h ← findEmpty slots slots.length (homeSlot slots key)
        let (slots, head) ← place slots head tail h key s.value s.flags
        rehashLoop old turns s.fifoNext slots head h
      | _ => none

namespace HashTable

/-- `obj_lookup`. -/
def lookup (t : HashTable ν) (key : Nat) : Option (Option Nat × Option Nat) :=
  if t.slots.length = 0 then some (none, none)
  else
    let h := homeSlot t.slots key
    probe t.slots key h t.slots.length h none

/-- `obj_rehash`. -/
def rehash (t : HashTable ν) (newCap : Nat) : Option (HashTable ν) :=
  if 0 < newCap ∧ newCap &&& (newCap - 1) = 0 then do
    let (slots, head, tail) ← rehashLoop t.slots (t.slots.length + 1) t.fifoHead
      (List.replicate newCap emptySlot) noSlot noSlot
    some { t with slots, fifoHead := head, fifoTail := tail, tombstoneCount := 0 }
  else none

/-- The loop of `obj_ensure_capacity`. -/
def doubled (fieldCount : Nat) : (turns newCap : Nat) → Option Nat
  | 0, _ => none
  | turns + 1, newCap =>
    if u32 (newCap * 3) < u32 ((fieldCount + 1) * 4) then doubled fieldCount turns (u32 (newCap * 2))
    else some newCap

/-- `obj_ensure_capacity`. -/
def ensureCapacity (t : HashTable ν) : Option (HashTable ν) :=
  let cap := t.slots.length
  let used := u32 (t.fieldCount + t.tombstoneCount + 1)
  if cap = 0 ∨ u32 (cap * 3) < u32 (used * 4) then do
    let newCap ← doubled t.fieldCount 32 (if cap = 0 then 8 else u32 (cap * 2))
    t.rehash newCap
  else some t

/-- `cdo_object_rawget`. -/
def rawget (t : HashTable ν) (key : Nat) : Option (Option (CdoValue ν)) := do
  let (found, _) ← t.lookup key
  match found with
  | some idx => do
    let s ← t.slots[idx]?
    some (some s.value)
  | none => some none

/-- `cdo_object_rawset`. -/
def rawset (t : HashTable ν) (key : Nat) (val : CdoValue ν) (flags : Nat) :
    Option (Bool × HashTable ν) :=
  if t.readonly then some (false, t)
  else do
    let t ← t.ensureCapacity
    let (found, insertAt) ← t.lookup key
    match found with
    | some idx => do
      let s ← t.slots[idx]?
      if isStatic s.flags then some (false, t)
      else some (true, { t with slots := t.slots.set idx { s with value := val, flags := flags } })
    | none => do
      let h ← insertAt
      let s ← t.slots[h]?
      let tombs := if s.key = .tombstone then u32 (t.tombstoneCount + 4294967295) else t.tombstoneCount
      let (slots, head) ← place t.slots t.fifoHead t.fifoTail h key val flags
      some (true, { t with
        slots, fifoHead := head, fifoTail := h
        tombstoneCount := tombs
        fieldCount := u32 (t.fieldCount + 1) })

/-- `cdo_object_rawdelete`. -/
def rawdelete (t : HashTable ν) (key : Nat) : Option (Bool × HashTable ν) :=
  if t.readonly then some (false, t)
  else do
    let (found, _) ← t.lookup key
    match found with
    | none => some (false, t)
    | some idx => do
      let s ← t.slots[idx]?
      if isStatic s.flags then some (false, t)
      else do
        let (slots, head, tail) ← unlink t.slots t.fifoHead t.fifoTail idx s
        some (true, { t with
          slots, fifoHead := head, fifoTail := tail
          fieldCount := u32 (t.fieldCount + 4294967295)
          tombstoneCount := u32 (t.tombstoneCount + 1) })

/-- The loop of `cdo_object_foreach` with a callback on keys, values and flags that says whether to go on. -/
def foreachLoop {β : Type} (slots : List (HashSlot ν)) (fn : β → SlotKey → CdoValue ν → Nat → β × Bool) :
    (turns idx : Nat) → β → Option β
  | 0, _, _ => none
  | turns + 1, idx, acc =>
    if idx = noSlot then some acc
    else do
      let s ← slots[idx]?
      let (acc, cont) := fn acc s.key s.value s.flags
      if cont then foreachLoop slots fn turns s.fifoNext acc else some acc

/-- `cdo_object_foreach`. -/
def foreach {β : Type} (t : HashTable ν) (fn : β → SlotKey → CdoValue ν → Nat → β × Bool) (acc : β) :
    Option β :=
  foreachLoop t.slots fn (t.slots.length + 1) t.fifoHead acc

/-- `cdo_object_length`. -/
def length (t : HashTable ν) : Nat := t.fieldCount

end HashTable

/-! ### The slot array as a list of fields -/

section Slots

variable {slots slots' : List (HashSlot ν)} {i j k : Nat} {s : HashSlot ν}

def keyAt (slots : List (HashSlot ν)) (i : Nat) : SlotKey := ((slots[i]?).map (·.key)).getD .null

def nextAt (slots : List (HashSlot ν)) (i : Nat) : Nat := ((slots[i]?).map (·.fifoNext)).getD noSlot

def prevAt (slots : List (HashSlot ν)) (i : Nat) : Nat := ((slots[i]?).map (·.fifoPrev)).getD noSlot

/-- The address of a string key. -/
def SlotKey.address : SlotKey → Nat
  | .string p => p
  | _ => 0

/-- The field in a slot: its key, its value and its flags. -/
def HashSlot.field (s : HashSlot ν) : Nat × CdoValue ν × Nat := (s.key.address, s.value, s.flags)

def fieldAt (slots : List (HashSlot ν)) (i : Nat) : Nat × CdoValue ν × Nat :=
  ((slots[i]?).map (·.field)).getD emptySlot.field

lemma lt_of_keyAt (h : keyAt slots i ≠ .null) : i < slots.length := by
  by_contra out
  have none : slots[i]? = none := List.getElem?_eq_none (by omega)
  exact h (by simp [keyAt, none])

lemma exists_slot (h : i < slots.length) : ∃ s, slots[i]? = some s ∧ s.key = keyAt slots i ∧
    s.fifoNext = nextAt slots i ∧ s.fifoPrev = prevAt slots i ∧ s.field = fieldAt slots i := by
  have e := List.getElem?_eq_getElem h
  exact ⟨slots[i], e, by simp [keyAt, e], by simp [nextAt, e], by simp [prevAt, e],
    by simp [fieldAt, e]⟩

lemma keyAt_set (h : i < slots.length) :
    keyAt (slots.set i s) = Function.update (keyAt slots) i s.key := by
  funext j
  by_cases e : j = i
  · simp [keyAt, e, h]
  · simp [keyAt, Function.update_of_ne e, List.getElem?_set_ne (Ne.symm e)]

lemma nextAt_set (h : i < slots.length) :
    nextAt (slots.set i s) = Function.update (nextAt slots) i s.fifoNext := by
  funext j
  by_cases e : j = i
  · simp [nextAt, e, h]
  · simp [nextAt, Function.update_of_ne e, List.getElem?_set_ne (Ne.symm e)]

lemma prevAt_set (h : i < slots.length) :
    prevAt (slots.set i s) = Function.update (prevAt slots) i s.fifoPrev := by
  funext j
  by_cases e : j = i
  · simp [prevAt, e, h]
  · simp [prevAt, Function.update_of_ne e, List.getElem?_set_ne (Ne.symm e)]

lemma fieldAt_set (h : i < slots.length) :
    fieldAt (slots.set i s) = Function.update (fieldAt slots) i s.field := by
  funext j
  by_cases e : j = i
  · simp [fieldAt, e, h]
  · simp [fieldAt, Function.update_of_ne e, List.getElem?_set_ne (Ne.symm e)]

/-- A write to a list link changes that link alone. -/
lemma setNext_spec (h : i < slots.length) (n : Nat) : ∃ slots', setNext slots i n = some slots' ∧
    slots'.length = slots.length ∧ keyAt slots' = keyAt slots ∧
    nextAt slots' = Function.update (nextAt slots) i n ∧ prevAt slots' = prevAt slots ∧
    fieldAt slots' = fieldAt slots := by
  obtain ⟨s, get, key, _, prev, field⟩ := exists_slot h
  refine ⟨slots.set i { s with fifoNext := n }, by simp [setNext, get], by simp, ?_, nextAt_set h, ?_, ?_⟩
  · rw [keyAt_set h]
    exact key ▸ Function.update_eq_self i _
  · rw [prevAt_set h]
    exact prev ▸ Function.update_eq_self i _
  · rw [fieldAt_set h]
    exact field ▸ Function.update_eq_self i _

lemma setPrev_spec (h : i < slots.length) (n : Nat) : ∃ slots', setPrev slots i n = some slots' ∧
    slots'.length = slots.length ∧ keyAt slots' = keyAt slots ∧
    nextAt slots' = nextAt slots ∧ prevAt slots' = Function.update (prevAt slots) i n ∧
    fieldAt slots' = fieldAt slots := by
  obtain ⟨s, get, key, next, _, field⟩ := exists_slot h
  refine ⟨slots.set i { s with fifoPrev := n }, by simp [setPrev, get], by simp, ?_, ?_, prevAt_set h, ?_⟩
  · rw [keyAt_set h]
    exact key ▸ Function.update_eq_self i _
  · rw [nextAt_set h]
    exact next ▸ Function.update_eq_self i _
  · rw [fieldAt_set h]
    exact field ▸ Function.update_eq_self i _

/-- The slot at distance `d` from where the search for a key starts. -/
def slotFrom (slots : List (HashSlot ν)) (key d : Nat) : Nat :=
  (ptrHash key + d) % slots.length

/-- The slot array is well formed, with its live slots in the order `order`: the list runs through them forward
and backward, their keys are distinct, and no empty slot stands between a key and where its search starts. -/
structure Layout (slots : List (HashSlot ν)) (head tail : Nat) (order : List Nat) : Prop where
  bound : slots.length < noSlot
  forward : Chain (nextAt slots) head order noSlot
  backward : Chain (prevAt slots) tail order.reverse noSlot
  live : ∀ i, i ∈ order ↔ ∃ k, keyAt slots i = .string k
  distinct : ∀ i j k, keyAt slots i = .string k → keyAt slots j = .string k → i = j
  path : ∀ i k, keyAt slots i = .string k →
    ∃ e < slots.length, slotFrom slots k e = i ∧ ∀ d < e, keyAt slots (slotFrom slots k d) ≠ .null

variable {head tail : Nat} {order : List Nat}

namespace Layout

lemma lt (v : Layout slots head tail order) (m : i ∈ order) : i < slots.length := by
  obtain ⟨k, e⟩ := (v.live i).mp m
  exact lt_of_keyAt (by simp [e])

lemma noSlot_not_mem (v : Layout slots head tail order) : noSlot ∉ order := fun m =>
  absurd (v.lt m) (by have := v.bound; omega)

lemma nodup (v : Layout slots head tail order) : order.Nodup := v.forward.nodup v.noSlot_not_mem

lemma fieldAt_key (v : Layout slots head tail order) (m : i ∈ order) :
    keyAt slots i = .string (fieldAt slots i).1 := by
  obtain ⟨k, e⟩ := (v.live i).mp m
  obtain ⟨s, _, key, _, _, field⟩ := exists_slot (v.lt m)
  rw [← field, e, HashSlot.field, key, e]
  rfl

/-- The fields, in order. -/
lemma fields_distinct (v : Layout slots head tail order) : OrderedMap.Distinct (order.map (fieldAt slots)) := by
  rw [OrderedMap.Distinct, List.map_map]
  refine List.Nodup.map_on (fun i m j m' e => ?_) v.nodup
  have e₁ := v.fieldAt_key m
  have e₂ := v.fieldAt_key m'
  have same : (fieldAt slots i).1 = (fieldAt slots j).1 := e
  rw [same] at e₁
  exact v.distinct i j _ e₁ e₂

lemma not_mem_fields (v : Layout slots head tail order) (h : ∀ i, keyAt slots i ≠ .string k) :
    k ∉ (order.map (fieldAt slots)).map (·.1) := by
  intro m
  simp only [List.map_map, List.mem_map, Function.comp_apply] at m
  obtain ⟨i, m, rfl⟩ := m
  exact h i (v.fieldAt_key m)

end Layout

/-- The search for a key arrives at slot `i` without meeting an empty slot before. -/
def Open (slots : List (HashSlot ν)) (key i : Nat) : Prop :=
  ∃ e < slots.length, slotFrom slots key e = i ∧ ∀ d < e, keyAt slots (slotFrom slots key d) ≠ .null

/-- What is not empty stays so: the searches keep their way. -/
lemma Open.mono {key : Nat} (o : Open slots key i) (len : slots'.length = slots.length)
    (kept : ∀ j, keyAt slots j ≠ .null → keyAt slots' j ≠ .null) : Open slots' key i := by
  have same : ∀ d, slotFrom slots' key d = slotFrom slots key d := fun d => by simp [slotFrom, len]
  obtain ⟨e, lt, here, way⟩ := o
  refine ⟨e, len ▸ lt, (same e).trans here, fun d lt => ?_⟩
  rw [same]
  exact kept _ (way d lt)

/-- Filling a free slot on the way of an absent key puts its field last. -/
lemma Layout.place_spec (v : Layout slots head tail order) {h key : Nat} (lt : h < slots.length)
    (free : h ∉ order) (absent : ∀ i, keyAt slots i ≠ .string key) (way : Open slots key h)
    (val : CdoValue ν) (flags : Nat) : ∃ slots' head',
      place slots head tail h key val flags = some (slots', head') ∧
      Layout slots' head' h (order ++ [h]) ∧ slots'.length = slots.length ∧
      (order ++ [h]).map (fieldAt slots') = order.map (fieldAt slots) ++ [(key, val, flags)] ∧
      keyAt slots' = Function.update (keyAt slots) h (.string key) := by
  obtain ⟨s, get, _⟩ := exists_slot lt
  have lt' : h < (slots.set h ⟨.string key, val, flags, tail, noSlot⟩).length := by simpa using lt
  -- the array with the slot filled and the old tail linked to it
  obtain ⟨slots', head', e, len, keys, forward, prevs, fields⟩ : ∃ slots' head',
      place slots head tail h key val flags = some (slots', head') ∧ slots'.length = slots.length ∧
      keyAt slots' = Function.update (keyAt slots) h (.string key) ∧
      Chain (nextAt slots') head' (order ++ [h]) noSlot ∧
      prevAt slots' = Function.update (prevAt slots) h tail ∧
      fieldAt slots' = Function.update (fieldAt slots) h (key, val, flags) := by
    have next := nextAt_set (s := ⟨.string key, val, flags, tail, noSlot⟩) lt
    rcases List.eq_nil_or_concat' order with rfl | ⟨l, p, rfl⟩
    · obtain rfl : head = noSlot := v.forward
      refine ⟨slots.set h ⟨.string key, val, flags, tail, noSlot⟩, h, by simp [place, get], by simp,
        keyAt_set lt, ?_, prevAt_set lt, fieldAt_set lt⟩
      simp [next]
    · have back := v.backward
      simp only [List.reverse_append, List.reverse_cons, List.reverse_nil, List.nil_append,
        List.singleton_append, Chain.cons_iff] at back
      obtain ⟨rfl, _⟩ := back
      have inside : head ≠ noSlot := by
        intro e
        have first := v.forward.head_eq
        cases l with
        | nil => exact v.noSlot_not_mem (by simp_all)
        | cons a l => exact v.noSlot_not_mem (by simp_all)
      have tailLt : tail < (slots.set h ⟨.string key, val, flags, tail, noSlot⟩).length := by
        simpa using v.lt (i := tail) (by simp)
      obtain ⟨slots', e, len, keys, nexts, prevs, fields⟩ := setNext_spec tailLt h
      refine ⟨slots', head, by simp [place, get, inside, e], by simp [len], by rw [keys, keyAt_set lt], ?_,
        by rw [prevs, prevAt_set lt], by rw [fields, fieldAt_set lt]; rfl⟩
      have nodup := v.nodup
      rw [List.nodup_append] at nodup
      have ne : h ≠ tail := fun e => free (by simp [e])
      have turned := v.forward.redirect (nextAt slots') fun a m => by
        have ne₁ : a ≠ tail := nodup.2.2 a m tail (by simp)
        have ne₂ : a ≠ h := fun e => free (by simp [← e, m])
        rw [nexts, Function.update_of_ne ne₁, next, Function.update_of_ne ne₂]
      have toNew : nextAt slots' tail = h := by rw [nexts, Function.update_self]
      have last : nextAt slots' h = noSlot := by
        rw [nexts, Function.update_of_ne ne, next, Function.update_self]
      rw [toNew] at turned
      exact turned.append ⟨rfl, last⟩
  have notNull : ∀ j, keyAt slots j ≠ .null → keyAt slots' j ≠ .null := by
    intro j ne
    by_cases ej : j = h
    · simp [keys, ej]
    · simpa [keys, ej] using ne
  refine ⟨slots', head', e, ⟨len ▸ v.bound, forward, ?_, fun i => ?_, fun i j k ei ej => ?_, fun i k ei => ?_⟩,
    len, ?_, keys⟩
  · rw [List.reverse_append, prevs]
    exact v.backward.push (by simpa using free)
  · rw [List.mem_append, List.mem_singleton, v.live, keys]
    by_cases ei : i = h
    · simp [ei]
    · simp [ei]
  · rw [keys] at ei ej
    by_cases hi : i = h <;> by_cases hj : j = h
    · rw [hi, hj]
    · simp only [hi, Function.update_self, SlotKey.string.injEq] at ei
      rw [Function.update_of_ne hj] at ej
      exact absurd ej (ei ▸ absent j)
    · simp only [hj, Function.update_self, SlotKey.string.injEq] at ej
      rw [Function.update_of_ne hi] at ei
      exact absurd ei (ej ▸ absent i)
    · rw [Function.update_of_ne hi] at ei
      rw [Function.update_of_ne hj] at ej
      exact v.distinct i j k ei ej
  · rw [keys] at ei
    by_cases hi : i = h
    · simp only [hi, Function.update_self, SlotKey.string.injEq] at ei
      subst hi ei
      exact way.mono len notNull
    · rw [Function.update_of_ne hi] at ei
      exact Open.mono (v.path i k ei) len notNull
  · rw [List.map_append, fields]
    have old : order.map (Function.update (fieldAt slots) h (key, val, flags)) =
        order.map (fieldAt slots) := by
      refine List.map_congr_left fun i m => Function.update_of_ne ?_ _ _
      exact fun e => free (e ▸ m)
    rw [old, List.map_singleton, Function.update_self]

/-- Changing the value and flags of a live slot keeps its field's position. -/
lemma Layout.rewrite_spec {l r : List Nat} (v : Layout slots head tail (l ++ i :: r))
    (get : slots[i]? = some s) (val : CdoValue ν) (flags : Nat) :
    Layout (slots.set i { s with value := val, flags := flags }) head tail (l ++ i :: r) ∧
    (l ++ i :: r).map (fieldAt (slots.set i { s with value := val, flags := flags })) =
      l.map (fieldAt slots) ++ ((fieldAt slots i).1, val, flags) :: r.map (fieldAt slots) ∧
    keyAt (slots.set i { s with value := val, flags := flags }) = keyAt slots := by
  have lt : i < slots.length := v.lt (by simp)
  obtain ⟨s', get', key, next, prev, field⟩ := exists_slot lt
  obtain rfl : s = s' := Option.some.inj (get.symm.trans get')
  have keys : keyAt (slots.set i { s with value := val, flags := flags }) = keyAt slots := by
    rw [keyAt_set lt]
    exact key ▸ Function.update_eq_self i _
  have nexts : nextAt (slots.set i { s with value := val, flags := flags }) = nextAt slots := by
    rw [nextAt_set lt]
    exact next ▸ Function.update_eq_self i _
  have prevs : prevAt (slots.set i { s with value := val, flags := flags }) = prevAt slots := by
    rw [prevAt_set lt]
    exact prev ▸ Function.update_eq_self i _
  refine ⟨⟨by simpa using v.bound, nexts ▸ v.forward, prevs ▸ v.backward, fun j => keys ▸ v.live j,
    fun a b k => keys ▸ v.distinct a b k, fun j k e => ?_⟩, ?_, keys⟩
  · rw [keys] at e
    exact Open.mono (v.path j k e) (by simp) fun a ne => keys ▸ ne
  · have nodup := v.nodup
    rw [List.nodup_middle, List.nodup_cons, List.mem_append, not_or] at nodup
    have other : ∀ {order : List Nat}, i ∉ order →
        order.map (fieldAt (slots.set i { s with value := val, flags := flags })) =
          order.map (fieldAt slots) := by
      intro order out
      rw [fieldAt_set lt]
      refine List.map_congr_left fun j m => Function.update_of_ne ?_ _ _
      exact fun e => out (e ▸ m)
    have here : fieldAt (slots.set i { s with value := val, flags := flags }) i =
        ((fieldAt slots i).1, val, flags) := by
      rw [fieldAt_set lt, Function.update_self, ← field]
      rfl
    rw [List.map_append, List.map_cons, other nodup.1.1, other nodup.1.2, here]

/-- Deleting a live slot takes its field out. -/
lemma Layout.unlink_spec {l r : List Nat} (v : Layout slots head tail (l ++ i :: r))
    (get : slots[i]? = some s) : ∃ slots' head' tail',
      unlink slots head tail i s = some (slots', head', tail') ∧
      Layout slots' head' tail' (l ++ r) ∧ slots'.length = slots.length ∧
      (l ++ r).map (fieldAt slots') = (l ++ r).map (fieldAt slots) ∧
      keyAt slots' = Function.update (keyAt slots) i .tombstone := by
  have lt : i < slots.length := v.lt (by simp)
  obtain ⟨s', get', key, next, prev, field⟩ := exists_slot lt
  obtain rfl : s = s' := Option.some.inj (get.symm.trans get')
  have nodup := v.nodup
  have forward := v.forward
  have backward := v.backward
  rw [List.reverse_append, List.reverse_cons, List.append_assoc, List.singleton_append] at backward
  have nodup' : (r.reverse ++ i :: l.reverse).Nodup := by
    have e : (l ++ i :: r).reverse = r.reverse ++ i :: l.reverse := by simp
    exact e ▸ List.nodup_reverse.mpr nodup
  -- the link from the slot before
  obtain ⟨slots₁, head', e₁, len₁, keys₁, prevs₁, fields₁, forward₁⟩ : ∃ slots₁ head',
      (if s.fifoPrev ≠ noSlot then (setNext slots s.fifoPrev s.fifoNext).map fun slots => (slots, head)
        else some (slots, s.fifoNext)) = some (slots₁, head') ∧ slots₁.length = slots.length ∧
      keyAt slots₁ = keyAt slots ∧ prevAt slots₁ = prevAt slots ∧ fieldAt slots₁ = fieldAt slots ∧
      Chain (nextAt slots₁) head' (l ++ r) noSlot := by
    obtain ⟨_, _, _, before⟩ := Chain.append_iff.mp backward
    have first := before.head_eq
    rcases List.eq_nil_or_concat' l with rfl | ⟨l, p, rfl⟩
    · have none : s.fifoPrev = noSlot := by simpa [prev] using first
      refine ⟨slots, s.fifoNext, by simp [none], rfl, rfl, rfl, rfl, ?_⟩
      exact next ▸ forward.2
    · have some : s.fifoPrev = p := by simpa [prev] using first
      have inside : p ≠ noSlot := fun e => v.noSlot_not_mem (by simp [← e])
      obtain ⟨slots₁, e, len, keys, nexts, prevs, fields⟩ := setNext_spec (v.lt (i := p) (by simp)) s.fifoNext
      refine ⟨slots₁, head, by simp [some, inside, e], len, keys, prevs, fields, ?_⟩
      rw [nexts, next, List.append_assoc, List.singleton_append]
      rw [List.append_assoc, List.singleton_append] at forward nodup
      exact forward.bypass nodup
  -- the link from the slot after
  obtain ⟨slots₂, tail', e₂, len₂, keys₂, nexts₂, fields₂, backward₂⟩ : ∃ slots₂ tail',
      (if s.fifoNext ≠ noSlot then (setPrev slots₁ s.fifoNext s.fifoPrev).map fun slots => (slots, tail)
        else some (slots₁, s.fifoPrev)) = some (slots₂, tail') ∧ slots₂.length = slots.length ∧
      keyAt slots₂ = keyAt slots ∧ nextAt slots₂ = nextAt slots₁ ∧ fieldAt slots₂ = fieldAt slots ∧
      Chain (prevAt slots₂) tail' (r.reverse ++ l.reverse) noSlot := by
    obtain ⟨_, _, _, after⟩ := Chain.append_iff.mp forward
    have first := after.head_eq
    cases r with
    | nil =>
      have none : s.fifoNext = noSlot := by simpa [next] using first
      refine ⟨slots₁, s.fifoPrev, by simp [none], len₁, keys₁, rfl, fields₁, ?_⟩
      rw [prevs₁, prev]
      exact backward.2
    | cons q r =>
      have some : s.fifoNext = q := by simpa [next] using first
      have inside : q ≠ noSlot := fun e => v.noSlot_not_mem (by simp [← e])
      obtain ⟨slots₂, e, len, keys, nexts, prevs, fields⟩ :=
        setPrev_spec (len₁ ▸ v.lt (i := q) (by simp)) s.fifoPrev
      refine ⟨slots₂, tail, by simp [some, inside, e], len.trans len₁, keys.trans keys₁, nexts,
        fields.trans fields₁, ?_⟩
      rw [prevs, prevs₁, prev, List.reverse_cons, List.append_assoc, List.singleton_append]
      rw [List.reverse_cons, List.append_assoc, List.singleton_append] at backward nodup'
      exact backward.bypass nodup'
  have lt₂ : i < slots₂.length := len₂ ▸ lt
  have keys : keyAt (slots₂.set i tombstoneSlot) = Function.update (keyAt slots) i .tombstone := by
    rw [keyAt_set lt₂, keys₂]
    rfl
  rw [List.nodup_middle, List.nodup_cons] at nodup
  have out := nodup.1
  have notNull : ∀ j, keyAt slots j ≠ .null → keyAt (slots₂.set i tombstoneSlot) j ≠ .null := by
    intro j ne
    by_cases ej : j = i
    · simp [keys, ej]
    · simpa [keys, ej] using ne
  refine ⟨slots₂.set i tombstoneSlot, head', tail', ?_, ⟨by simpa [len₂] using v.bound, ?_, ?_, fun j => ?_,
    fun a b k ea eb => ?_, fun j k e => ?_⟩, by simpa using len₂, ?_, keys⟩
  · simp only [unlink, e₁, e₂, Option.bind_eq_bind, Option.bind_some]
  · rw [nextAt_set lt₂, nexts₂]
    exact forward₁.update out
  · rw [prevAt_set lt₂, List.reverse_append]
    exact backward₂.update (by simpa [or_comm] using out)
  · have m := v.live j
    by_cases ej : j = i
    · subst ej
      simpa [keys] using out
    · simpa [keys, ej] using m
  · have ne : ∀ {c : Nat}, keyAt (slots₂.set i tombstoneSlot) c = .string k →
        keyAt slots c = .string k := by
      intro c e
      by_cases ec : c = i
      · simp [keys, ec] at e
      · simpa [keys, ec] using e
    exact v.distinct a b k (ne ea) (ne eb)
  · have ej : j ≠ i := fun ej => by simp [keys, ej] at e
    rw [keys, Function.update_of_ne ej] at e
    exact Open.mono (v.path j k e) (by simp [len₂]) notNull
  · rw [fieldAt_set lt₂, fields₂]
    refine List.map_congr_left fun j m => Function.update_of_ne ?_ _ _
    exact fun e => out (e ▸ m)

end Slots

/-! ### Probing -/

section Probing

variable {slots : List (HashSlot ν)} {i h key d e : Nat}

lemma land_mask {n : Nat} (pow : n.isPowerOfTwo) (x : Nat) : x &&& (n - 1) = x % n := by
  obtain ⟨k, rfl⟩ := pow
  exact Nat.and_two_pow_sub_one_eq_mod x k

lemma homeSlot_eq (pow : slots.length.isPowerOfTwo) : homeSlot slots key = slotFrom slots key 0 := by
  rw [homeSlot, land_mask pow, slotFrom, Nat.add_zero]

lemma nextSlot_eq (pow : slots.length.isPowerOfTwo) :
    nextSlot slots (slotFrom slots key d) = slotFrom slots key (d + 1) := by
  rw [nextSlot, land_mask pow, slotFrom, slotFrom, Nat.mod_add_mod, Nat.add_assoc]

lemma slotFrom_lt (key d : Nat) (pow : slots.length.isPowerOfTwo) : slotFrom slots key d < slots.length :=
  Nat.mod_lt _ (Nat.pos_of_isPowerOfTwo pow)

/-- The search does not come round before it has been everywhere. -/
lemma slotFrom_ne (pos : 0 < d) (lt : d < slots.length) : slotFrom slots key d ≠ slotFrom slots key 0 := by
  intro e
  have e' : (ptrHash key + d) % slots.length = (ptrHash key + 0) % slots.length := e
  have zero := Nat.sub_mod_eq_zero_of_mod_eq e'
  rw [Nat.add_zero, Nat.add_sub_cancel_left, Nat.mod_eq_of_lt lt] at zero
  omega

/-- The search comes everywhere. -/
lemma exists_slotFrom (key : Nat) (lt : i < slots.length) : ∃ d < slots.length, slotFrom slots key d = i := by
  have pos : 0 < slots.length := by omega
  refine ⟨(i + (slots.length - ptrHash key % slots.length)) % slots.length, Nat.mod_lt _ pos, ?_⟩
  have home := Nat.mod_lt (ptrHash key) pos
  have round : ptrHash key % slots.length + (i + (slots.length - ptrHash key % slots.length)) =
      i + slots.length := by omega
  rw [slotFrom, Nat.add_mod_mod, ← Nat.mod_add_mod, round, Nat.add_mod_right, Nat.mod_eq_of_lt lt]

/-- The first slot of the search that is empty or holds the key. -/
lemma exists_first (key : Nat)
    (some : ∃ i < slots.length, keyAt slots i = .null ∨ keyAt slots i = .string key) :
    ∃ e < slots.length,
      (keyAt slots (slotFrom slots key e) = .null ∨ keyAt slots (slotFrom slots key e) = .string key) ∧
      ∀ d < e, keyAt slots (slotFrom slots key d) ≠ .null ∧
        keyAt slots (slotFrom slots key d) ≠ .string key := by
  obtain ⟨i, lt, stop⟩ := some
  obtain ⟨d, ltd, rfl⟩ := exists_slotFrom key lt
  have ex : ∃ d, keyAt slots (slotFrom slots key d) = .null ∨
      keyAt slots (slotFrom slots key d) = .string key := ⟨d, stop⟩
  refine ⟨Nat.find ex, Nat.lt_of_le_of_lt (Nat.find_min' ex stop) ltd, Nat.find_spec ex, fun d lt => ?_⟩
  exact not_or.mp (Nat.find_min ex lt)

/-- A turn of the loop of `obj_lookup` at a slot that does not end it. -/
lemma probe_turn (pow : slots.length.isPowerOfTwo) (lt : d + 1 < slots.length)
    (go : keyAt slots (slotFrom slots key d) ≠ .null ∧ keyAt slots (slotFrom slots key d) ≠ .string key)
    (turns : Nat) (tomb : Option Nat) :
    probe slots key (slotFrom slots key 0) (turns + 1) (slotFrom slots key d) tomb =
      probe slots key (slotFrom slots key 0) turns (slotFrom slots key (d + 1))
        (if keyAt slots (slotFrom slots key d) = .tombstone then some (tomb.getD (slotFrom slots key d))
          else tomb) := by
  obtain ⟨s, get, keyS, _⟩ := exists_slot (slotFrom_lt key d pow)
  have ne : slotFrom slots key (d + 1) ≠ slotFrom slots key 0 := slotFrom_ne (by omega) lt
  simp only [probe, get, keyS, go.1, go.2, if_false, Option.bind_eq_bind, Option.bind_some,
    nextSlot_eq pow, ne]

/-- The loop of `obj_lookup` up to the key. -/
lemma probe_found (n extra : Nat) (pow : slots.length.isPowerOfTwo) (lt : e < slots.length)
    (here : keyAt slots (slotFrom slots key e) = .string key)
    (before : ∀ d < e, keyAt slots (slotFrom slots key d) ≠ .null ∧
      keyAt slots (slotFrom slots key d) ≠ .string key) (at_ : d + n = e)
    (tomb : Option Nat) :
    probe slots key (slotFrom slots key 0) (n + 1 + extra) (slotFrom slots key d) tomb =
      some (some (slotFrom slots key e), some (slotFrom slots key e)) := by
  induction n generalizing d tomb with
  | zero =>
    obtain rfl : d = e := at_
    obtain ⟨s, get, keyS, _⟩ := exists_slot (slotFrom_lt key d pow)
    simp [Nat.add_comm 1 extra, probe, get, keyS, here]
  | succ n ih =>
    have fuel : n + 1 + 1 + extra = (n + 1 + extra) + 1 := by omega
    rw [fuel, probe_turn pow (by omega) (before d (by omega))]
    exact ih (by omega) _

/-- The loop of `obj_lookup` up to an empty slot: the first tombstone on the way, or the empty slot. -/
lemma probe_absent (n extra : Nat) (pow : slots.length.isPowerOfTwo) (lt : e < slots.length)
    (here : keyAt slots (slotFrom slots key e) = .null)
    (before : ∀ d < e, keyAt slots (slotFrom slots key d) ≠ .null ∧
      keyAt slots (slotFrom slots key d) ≠ .string key) (at_ : d + n = e)
    (tomb : Option Nat)
    (met : ∀ h, tomb = some h → ∃ c < d, slotFrom slots key c = h ∧ keyAt slots h = .tombstone) :
    ∃ c ≤ e, probe slots key (slotFrom slots key 0) (n + 1 + extra) (slotFrom slots key d) tomb =
      some (none, some (slotFrom slots key c)) ∧
      (keyAt slots (slotFrom slots key c) = .tombstone ∨ keyAt slots (slotFrom slots key c) = .null) := by
  induction n generalizing d tomb with
  | zero =>
    obtain rfl : d = e := at_
    have found : probe slots key (slotFrom slots key 0) (0 + 1 + extra) (slotFrom slots key d) tomb =
        some (none, some (tomb.getD (slotFrom slots key d))) := by
      obtain ⟨s, get, keyS, _⟩ := exists_slot (slotFrom_lt key d pow)
      have other : SlotKey.null ≠ .string key := nofun
      rw [Nat.zero_add, Nat.add_comm, probe]
      simp only [get, keyS, here, other, if_false, if_true, Option.bind_eq_bind, Option.bind_some]
    cases tomb with
    | none =>
      rw [Option.getD_none] at found
      exact ⟨d, Nat.le_refl d, found, Or.inr here⟩
    | some h =>
      obtain ⟨c, lt, rfl, dead⟩ := met h rfl
      rw [Option.getD_some] at found
      exact ⟨c, by omega, found, Or.inl dead⟩
  | succ n ih =>
    have fuel : n + 1 + 1 + extra = (n + 1 + extra) + 1 := by omega
    rw [fuel, probe_turn pow (by omega) (before d (by omega))]
    refine ih (by omega) _ fun h eq => ?_
    by_cases dead : keyAt slots (slotFrom slots key d) = .tombstone
    · simp only [dead, if_true, Option.some.injEq] at eq
      cases tomb with
      | none =>
        rw [Option.getD_none] at eq
        exact ⟨d, by omega, eq, eq ▸ dead⟩
      | some h' =>
        rw [Option.getD_some] at eq
        obtain ⟨c, lt, here, dead⟩ := met h' rfl
        exact ⟨c, by omega, here.trans eq, eq ▸ dead⟩
    · simp only [dead, if_false] at eq
      obtain ⟨c, lt, here, dead⟩ := met h eq
      exact ⟨c, by omega, here, dead⟩

/-- The inner loop of `obj_rehash` up to an empty slot. -/
lemma findEmpty_run (n extra : Nat) (pow : slots.length.isPowerOfTwo)
    (here : keyAt slots (slotFrom slots key e) = .null)
    (before : ∀ d < e, keyAt slots (slotFrom slots key d) ≠ .null) (at_ : d + n = e) :
    findEmpty slots (n + 1 + extra) (slotFrom slots key d) = some (slotFrom slots key e) := by
  induction n generalizing d with
  | zero =>
    obtain rfl : d = e := at_
    obtain ⟨s, get, keyS, _⟩ := exists_slot (slotFrom_lt key d pow)
    rw [Nat.zero_add, Nat.add_comm, findEmpty]
    simp only [get, keyS, here, if_true, Option.bind_eq_bind, Option.bind_some]
  | succ n ih =>
    obtain ⟨s, get, keyS, _⟩ := exists_slot (slotFrom_lt key d pow)
    have ne := before d (by omega)
    have fuel : n + 1 + 1 + extra = (n + 1 + extra) + 1 := by omega
    rw [fuel, findEmpty]
    simp only [get, keyS, ne, if_false, Option.bind_eq_bind, Option.bind_some, nextSlot_eq pow]
    exact ih (by omega)

variable {head tail : Nat} {order : List Nat}

/-- Where some slot is empty, the search for an absent key ends at a free slot on its way. -/
lemma exists_empty (empty : ∃ i < slots.length, keyAt slots i = .null)
    (absent : ∀ i, keyAt slots i ≠ .string key) :
    ∃ e < slots.length, keyAt slots (slotFrom slots key e) = .null ∧
      ∀ d < e, keyAt slots (slotFrom slots key d) ≠ .null ∧
        keyAt slots (slotFrom slots key d) ≠ .string key := by
  obtain ⟨i, lt, null⟩ := empty
  obtain ⟨e, lt', stop, before⟩ := exists_first key ⟨i, lt, Or.inl null⟩
  exact ⟨e, lt', stop.resolve_right (absent _), before⟩

/-- The inner loop of `obj_rehash` finds an empty slot if there is one. -/
lemma findEmpty_spec (pow : slots.length.isPowerOfTwo)
    (empty : ∃ i < slots.length, keyAt slots i = .null) (absent : ∀ i, keyAt slots i ≠ .string key) :
    ∃ h < slots.length, findEmpty slots slots.length (homeSlot slots key) = some h ∧
      keyAt slots h = .null ∧ Open slots key h := by
  obtain ⟨e, lt, null, before⟩ := exists_empty empty absent
  have run := findEmpty_run e (slots.length - e - 1) pow null
    (fun d lt => (before d lt).1) (Nat.zero_add e)
  have fuel : e + 1 + (slots.length - e - 1) = slots.length := by omega
  rw [fuel, ← homeSlot_eq pow] at run
  exact ⟨_, slotFrom_lt _ _ pow, run, null, e, lt, rfl, fun d lt => (before d lt).1⟩

/-- `obj_lookup` finds the slot of a live key. -/
lemma Layout.lookup_found {t : HashTable ν} (v : Layout t.slots head tail order)
    (pow : t.slots.length.isPowerOfTwo) (live : keyAt t.slots i = .string key) :
    t.lookup key = some (some i, some i) := by
  have pos : t.slots.length ≠ 0 := Nat.ne_of_gt (Nat.pos_of_isPowerOfTwo pow)
  obtain ⟨e₁, lt₁, rfl, way⟩ := v.path i key live
  obtain ⟨e, lt, stop, before⟩ := exists_first key
    ⟨_, slotFrom_lt key e₁ pow, Or.inr live⟩
  -- the first stop is not after the slot of the key, and no empty slot comes before that
  have le : e ≤ e₁ := by
    by_contra gt
    exact (before e₁ (by omega)).2 live
  have here : keyAt t.slots (slotFrom t.slots key e) = .string key := by
    rcases stop with null | here
    · rcases Nat.lt_or_eq_of_le le with lt' | rfl
      · exact absurd null (way e lt')
      · exact live
    · exact here
  have run := probe_found e (t.slots.length - e - 1) pow lt here before
    (Nat.zero_add e) none
  have fuel : e + 1 + (t.slots.length - e - 1) = t.slots.length := by omega
  rw [fuel, v.distinct _ _ key here live] at run
  simp only [HashTable.lookup, pos, if_false, homeSlot_eq pow]
  exact run

/-- `obj_lookup` of an absent key gives a free slot to put it in. -/
lemma Layout.lookup_absent {t : HashTable ν} (v : Layout t.slots head tail order)
    (pow : t.slots.length.isPowerOfTwo) (empty : ∃ i < t.slots.length, keyAt t.slots i = .null)
    (absent : ∀ i, keyAt t.slots i ≠ .string key) :
    ∃ h < t.slots.length, t.lookup key = some (none, some h) ∧ h ∉ order ∧ Open t.slots key h ∧
      (keyAt t.slots h = .tombstone ∨ keyAt t.slots h = .null) := by
  have pos : t.slots.length ≠ 0 := Nat.ne_of_gt (Nat.pos_of_isPowerOfTwo pow)
  obtain ⟨e, lt, null, before⟩ := exists_empty empty absent
  obtain ⟨c, le, run, free⟩ := probe_absent e (t.slots.length - e - 1) pow lt null before
    (Nat.zero_add e) none nofun
  have fuel : e + 1 + (t.slots.length - e - 1) = t.slots.length := by omega
  rw [fuel] at run
  refine ⟨slotFrom t.slots key c, slotFrom_lt _ _ pow, ?_, fun m => ?_, ?_, free⟩
  · simp only [HashTable.lookup, pos, if_false, homeSlot_eq pow]
    exact run
  · obtain ⟨k, e⟩ := (v.live _).mp m
    rcases free with dead | null <;> simp_all
  · exact ⟨c, by omega, rfl, fun d lt => (before d (by omega)).1⟩

end Probing

/-! ### Counting -/

section Counting

variable {slots : List (HashSlot ν)} {head tail : Nat} {order : List Nat}

/-- The slots with a key of some kind. -/
def countKeys (slots : List (HashSlot ν)) (p : SlotKey → Bool) : Nat := slots.countP fun s => p s.key

def SlotKey.isString : SlotKey → Bool
  | .string _ => true
  | _ => false

lemma countKeys_eq (p : SlotKey → Bool) :
    countKeys slots p = (List.range slots.length).countP fun i => p (keyAt slots i) := by
  have e : slots = (List.range slots.length).map fun i => (slots[i]?).getD emptySlot := by
    refine List.ext_getElem (by simp) fun i lt _ => ?_
    simp [List.getElem?_eq_getElem lt]
  have key : ∀ i, ((slots[i]?).getD emptySlot).key = keyAt slots i := by
    intro i
    cases get : slots[i]? <;> simp [keyAt, get, emptySlot]
  rw [countKeys]
  conv_lhs => rw [e]
  rw [List.countP_map]
  refine List.countP_congr fun i _ => ?_
  rw [Function.comp_apply, key]

lemma countKeys_congr {slots' : List (HashSlot ν)} (len : slots'.length = slots.length)
    (keys : keyAt slots' = keyAt slots) (p : SlotKey → Bool) : countKeys slots' p = countKeys slots p := by
  rw [countKeys_eq, countKeys_eq, len, keys]

/-- The live slots are those of the order. -/
lemma Layout.count_live (v : Layout slots head tail order) :
    countKeys slots SlotKey.isString = order.length := by
  rw [countKeys_eq, List.countP_eq_length_filter]
  refine List.Perm.length_eq ?_
  refine (List.perm_ext_iff_of_nodup (List.nodup_range.filter _) v.nodup).mpr fun i => ?_
  rw [List.mem_filter, List.mem_range]
  constructor
  · rintro ⟨_, live⟩
    refine (v.live i).mpr ?_
    cases e : keyAt slots i <;> simp_all [SlotKey.isString]
  · intro m
    obtain ⟨k, e⟩ := (v.live i).mp m
    exact ⟨v.lt m, by simp [e, SlotKey.isString]⟩

/-- With fewer live and deleted slots than there are, some slot is empty. -/
lemma Layout.exists_null (v : Layout slots head tail order)
    (room : order.length + countKeys slots (· == .tombstone) < slots.length) :
    ∃ i < slots.length, keyAt slots i = .null := by
  by_contra full
  have full : ∀ i < slots.length, keyAt slots i ≠ .null := fun i lt null => full ⟨i, lt, null⟩
  have all : ∀ s ∈ slots, s.key ≠ .null := by
    intro s m
    obtain ⟨i, lt, rfl⟩ := List.getElem_of_mem m
    simpa [keyAt, List.getElem?_eq_getElem lt] using full i lt
  have split := List.length_eq_countP_add_countP (fun s : HashSlot ν => s.key.isString) (l := slots)
  have rest : slots.countP (fun s => ¬ s.key.isString = true) = slots.countP fun s => s.key == .tombstone := by
    refine List.countP_congr fun s m => ?_
    have := all s m
    cases e : s.key <;> simp_all [SlotKey.isString]
  have live := v.count_live
  simp only [countKeys] at room live
  simp only [Bool.not_eq_true, Bool.decide_eq_false] at split rest
  omega

lemma countP_update {l : List Nat} (nodup : l.Nodup) {h : Nat} (m : h ∈ l) (f : Nat → SlotKey)
    (k : SlotKey) (p : SlotKey → Bool) :
    l.countP (fun i => p (Function.update f h k i)) + (if p (f h) then 1 else 0) =
      l.countP (fun i => p (f i)) + if p k then 1 else 0 := by
  obtain ⟨l₁, l₂, rfl⟩ := List.append_of_mem m
  rw [List.nodup_middle, List.nodup_cons, List.mem_append, not_or] at nodup
  have other : ∀ {l : List Nat}, h ∉ l →
      l.countP (fun i => p (Function.update f h k i)) = l.countP fun i => p (f i) := by
    intro l out
    refine List.countP_congr fun i m => ?_
    have ne : i ≠ h := fun e => out (e ▸ m)
    rw [Function.update_of_ne ne]
  simp only [List.countP_append, List.countP_cons, Function.update_self, other nodup.1.1,
    other nodup.1.2]
  omega

/-- The tombstones after one slot's key has changed. -/
lemma countKeys_update {slots' : List (HashSlot ν)} {h : Nat} {k : SlotKey} (lt : h < slots.length)
    (len : slots'.length = slots.length) (keys : keyAt slots' = Function.update (keyAt slots) h k)
    (p : SlotKey → Bool) :
    countKeys slots' p + (if p (keyAt slots h) then 1 else 0) =
      countKeys slots p + if p k then 1 else 0 := by
  rw [countKeys_eq, countKeys_eq, keys, len]
  exact countP_update List.nodup_range (List.mem_range.mpr lt) _ _ _

end Counting

/-! ### Rehashing -/

section Rehashing

variable {slots : List (HashSlot ν)} {head tail : Nat} {order : List Nat}

/-- A slot array of empty slots. -/
lemma layout_empty {n : Nat} (bound : n < noSlot) :
    Layout (List.replicate n (emptySlot (ν := ν))) noSlot noSlot [] := by
  have null : ∀ i, keyAt (List.replicate n (emptySlot (ν := ν))) i = .null := by
    intro i
    simp only [keyAt, List.getElem?_replicate]
    split <;> rfl
  refine ⟨by simpa using bound, rfl, rfl, fun i => ?_, fun i j k e => ?_, fun i k e => ?_⟩
  · simp [null]
  · simp [null] at e
  · simp [null] at e

/-- The loop of `obj_rehash` puts the fields of the rest of the old order behind those of the new one. -/
lemma rehashLoop_spec (old : List (HashSlot ν)) {rest : List Nat} (turns : Nat) {idx : Nat}
    (chain : Chain (nextAt old) idx rest noSlot)
    (inOld : ∀ i ∈ rest, i < old.length ∧ i ≠ noSlot ∧ ∃ k, keyAt old i = .string k)
    (v : Layout slots head tail order) (pow : slots.length.isPowerOfTwo)
    (clean : countKeys slots (· == .tombstone) = 0)
    (room : order.length + rest.length < slots.length)
    (fresh : OrderedMap.Distinct (order.map (fieldAt slots) ++ rest.map (fieldAt old)))
    (enough : rest.length < turns) : ∃ slots' head' tail' order',
      rehashLoop old turns idx slots head tail = some (slots', head', tail') ∧
      Layout slots' head' tail' order' ∧ slots'.length = slots.length ∧
      order'.map (fieldAt slots') = order.map (fieldAt slots) ++ rest.map (fieldAt old) ∧
      countKeys slots' (· == .tombstone) = 0 := by
  induction rest generalizing turns idx slots head tail order with
  | nil =>
    obtain rfl : idx = noSlot := chain
    obtain ⟨turns, rfl⟩ : ∃ n, turns = n + 1 := ⟨turns - 1, by simp at enough; omega⟩
    exact ⟨slots, head, tail, order, by simp [rehashLoop], v, rfl, by simp, clean⟩
  | cons i rest ih =>
    obtain ⟨rfl, chain⟩ := chain
    obtain ⟨turns, rfl⟩ : ∃ n, turns = n + 1 := ⟨turns - 1, by simp at enough; omega⟩
    obtain ⟨lt, inside, key, live⟩ := inOld idx (by simp)
    obtain ⟨s, get, keyS, next, _, field⟩ := exists_slot lt
    have first : fieldAt old idx = (key, s.value, s.flags) := by
      rw [← field, HashSlot.field, keyS, live]
      rfl
    rw [List.map_cons, first] at fresh
    have absent : ∀ j, keyAt slots j ≠ .string key := by
      intro j e
      have m := (v.live j).mpr ⟨key, e⟩
      have keyJ := v.fieldAt_key m
      rw [e, SlotKey.string.injEq] at keyJ
      refine fresh.middle.1 ?_
      rw [List.map_map]
      exact keyJ ▸ List.mem_map_of_mem (f := Prod.fst ∘ fieldAt slots) m
    simp only [List.length_cons] at room enough
    have empty := v.exists_null (by omega)
    obtain ⟨h, ltH, found, null, way⟩ := findEmpty_spec pow empty absent
    have free : h ∉ order := by
      intro m
      obtain ⟨k, e⟩ := (v.live h).mp m
      simp [null] at e
    obtain ⟨slots₁, head₁, placed, v₁, len₁, fields₁, keys₁⟩ :=
      v.place_spec ltH free absent way s.value s.flags
    have clean₁ : countKeys slots₁ (· == .tombstone) = 0 := by
      have e := countKeys_update ltH len₁ keys₁ (· == .tombstone)
      simpa [null, clean] using e
    obtain ⟨slots', head', tail', order', run, v', len, fields, clean'⟩ :=
      ih turns chain (fun j m => inOld j (List.mem_cons_of_mem _ m)) v₁ (len₁ ▸ pow) clean₁
        (by simp only [List.length_append, List.length_singleton]; omega)
        (by rw [fields₁]; simpa using fresh) (by omega)
    refine ⟨slots', head', tail', order', ?_, v', len.trans len₁, ?_, clean'⟩
    · rw [← next] at run
      simp [rehashLoop, inside, get, keyS, live, found, placed, run]
    · rw [fields, fields₁, List.map_cons, first, List.append_assoc, List.singleton_append]

end Rehashing

namespace HashTable

variable {t t' : HashTable ν} {order : List Nat} {key : Nat}

/-- The table is well formed, with its fields in the order `order`. -/
structure Inv (t : HashTable ν) (order : List Nat) : Prop where
  layout : Layout t.slots t.fifoHead t.fifoTail order
  pow : t.slots.length = 0 ∨ t.slots.length.isPowerOfTwo
  fields : t.fieldCount = order.length
  tombs : t.tombstoneCount = countKeys t.slots (· == .tombstone)
  load : (t.fieldCount + t.tombstoneCount) * 4 ≤ t.slots.length * 3

lemma inv_new : Inv ({} : HashTable ν) [] :=
  ⟨layout_empty (n := 0) (by decide), Or.inl rfl, rfl, rfl, Nat.zero_le _⟩

/-- `obj_rehash` to a capacity that leaves room for one more field. -/
lemma Inv.rehash_spec (v : t.Inv order) {newCap : Nat} (pow : newCap.isPowerOfTwo)
    (bound : newCap < noSlot) (room : (t.fieldCount + 1) * 4 ≤ newCap * 3) : ∃ t' order',
      t.rehash newCap = some t' ∧ t'.Inv order' ∧ t'.slots.length = newCap ∧
      order'.map (fieldAt t'.slots) = order.map (fieldAt t.slots) ∧ t'.readonly = t.readonly ∧
      t'.fieldCount = t.fieldCount ∧ t'.tombstoneCount = 0 := by
  have len : (List.replicate newCap (emptySlot (ν := ν))).length = newCap := List.length_replicate
  have clean : countKeys (List.replicate newCap (emptySlot (ν := ν))) (· == .tombstone) = 0 := by
    refine List.countP_eq_zero.mpr fun s m => ?_
    rw [List.eq_of_mem_replicate m]
    exact Bool.false_ne_true
  have count := v.fields
  have le : order.length ≤ t.slots.length := v.layout.count_live ▸ List.countP_le_length
  obtain ⟨slots', head', tail', order', run, v', len', fields, clean'⟩ :=
    rehashLoop_spec t.slots (t.slots.length + 1) v.layout.forward
      (fun i m => ⟨v.layout.lt m, fun e => v.layout.noSlot_not_mem (e ▸ m), (v.layout.live i).mp m⟩)
      (layout_empty bound) (len.symm ▸ pow) clean (by rw [len]; simp only [List.length_nil]; omega)
      (by simpa using v.layout.fields_distinct) (by omega)
  rw [List.map_nil, List.nil_append] at fields
  have sizes : order'.length = order.length := by simpa using congrArg List.length fields
  have asserted : 0 < newCap ∧ newCap &&& (newCap - 1) = 0 :=
    ⟨Nat.pos_of_isPowerOfTwo pow, by rw [land_mask pow, Nat.mod_self]⟩
  refine ⟨{ t with slots := slots', fifoHead := head', fifoTail := tail', tombstoneCount := 0 }, order',
    by simp [rehash, asserted, run], ⟨v', Or.inr ?_, ?_, clean'.symm, ?_⟩, len'.trans len, fields, rfl, rfl,
    rfl⟩
  · exact (len'.trans len).symm ▸ pow
  · exact count.trans sizes.symm
  · simp only [len', len]
    omega

lemma u32_eq {n : Nat} (h : n < 4294967296) : u32 n = n := Nat.mod_eq_of_lt h

/-- `obj_ensure_capacity` finds room for one more field, or it moves the fields to a table of twice as many slots,
without tombstones. -/
lemma Inv.ensureCapacity_cases (v : t.Inv order) (small : t.slots.length < 268435456) :
    (t.ensureCapacity = some t ∧ t.slots.length.isPowerOfTwo ∧
      (t.fieldCount + t.tombstoneCount + 1) * 4 ≤ t.slots.length * 3) ∨
    ∃ t' order', t.ensureCapacity = some t' ∧ t'.Inv order' ∧
      order'.map (fieldAt t'.slots) = order.map (fieldAt t.slots) ∧ t'.readonly = t.readonly ∧
      t'.fieldCount = t.fieldCount ∧ t'.tombstoneCount = 0 ∧ t'.slots.length.isPowerOfTwo ∧
      t'.slots.length ≤ 268435456 ∧ (t.fieldCount + 1) * 4 ≤ t'.slots.length * 3 ∧
      t'.slots.length * 3 ≤ max 24 ((t.fieldCount + t.tombstoneCount + 1) * 8) := by
  have load := v.load
  have used : u32 (t.fieldCount + t.tombstoneCount + 1) = t.fieldCount + t.tombstoneCount + 1 :=
    u32_eq (by omega)
  have need : u32 ((t.fieldCount + t.tombstoneCount + 1) * 4) = (t.fieldCount + t.tombstoneCount + 1) * 4 :=
    u32_eq (by omega)
  have have_ : u32 (t.slots.length * 3) = t.slots.length * 3 := u32_eq (by omega)
  by_cases grow : t.slots.length = 0 ∨
    u32 (t.slots.length * 3) < u32 (u32 (t.fieldCount + t.tombstoneCount + 1) * 4)
  · right
    -- the doubled capacity is large enough at once, so the inner loop does not turn
    obtain ⟨cap, choice, pow, bound, room, least⟩ : ∃ cap,
        (if t.slots.length = 0 then 8 else u32 (t.slots.length * 2)) = cap ∧ cap.isPowerOfTwo ∧
        cap ≤ 268435456 ∧ (t.fieldCount + 1) * 4 ≤ cap * 3 ∧
        cap * 3 ≤ max 24 ((t.fieldCount + t.tombstoneCount + 1) * 8) := by
      rcases v.pow with zero | pow
      · exact ⟨8, by simp [zero], ⟨3, rfl⟩, by decide, by omega, le_max_left _ _⟩
      · have pos := Nat.pos_of_isPowerOfTwo pow
        have le : t.slots.length * 2 ≤ 268435456 := by
          obtain ⟨k, e⟩ := pow
          have lt : k < 28 := by
            by_contra ge
            have big := Nat.pow_le_pow_right (n := 2) (by decide) (Nat.not_lt.mp ge)
            rw [← e] at big
            exact absurd small (Nat.not_lt.mpr big)
          have half := Nat.pow_le_pow_right (n := 2) (by decide) (Nat.le_of_lt_succ lt)
          rw [← e] at half
          exact Nat.mul_le_mul_right 2 half
        refine ⟨t.slots.length * 2, ?_, Nat.isPowerOfTwo_mul_two_of_isPowerOfTwo pow, le, by omega, ?_⟩
        · rw [if_neg (by omega), u32_eq (by omega)]
        · rw [used, need, have_] at grow
          omega
    have stop : doubled t.fieldCount 32 cap = some cap := by
      have e₁ : u32 (cap * 3) = cap * 3 := u32_eq (by omega)
      have e₂ : u32 ((t.fieldCount + 1) * 4) = (t.fieldCount + 1) * 4 := u32_eq (by omega)
      rw [doubled, e₁, e₂, if_neg (by omega)]
    obtain ⟨t', order', run, v', len, fields, ro, count, clean⟩ := v.rehash_spec pow
      (Nat.lt_of_le_of_lt bound (by decide)) room
    refine ⟨t', order', ?_, v', fields, ro, count, clean, len.symm ▸ pow, len.symm ▸ bound, len.symm ▸ room,
      len.symm ▸ least⟩
    simp only [ensureCapacity, grow, if_true, choice, stop, run, Option.bind_eq_bind, Option.bind_some]
  · left
    have keep : t.ensureCapacity = some t := by simp only [ensureCapacity, grow, if_false]
    rw [not_or] at grow
    rw [used, need, have_] at grow
    exact ⟨keep, v.pow.resolve_left grow.1, by omega⟩

/-- `obj_ensure_capacity` leaves room for one more field and the fields as they are. -/
lemma Inv.ensureCapacity_spec (v : t.Inv order) (small : t.slots.length < 268435456) : ∃ t' order',
      t.ensureCapacity = some t' ∧ t'.Inv order' ∧
      order'.map (fieldAt t'.slots) = order.map (fieldAt t.slots) ∧ t'.readonly = t.readonly ∧
      t'.fieldCount = t.fieldCount ∧ t'.slots.length.isPowerOfTwo ∧ t'.slots.length ≤ 268435456 ∧
      (t'.fieldCount + t'.tombstoneCount + 1) * 4 ≤ t'.slots.length * 3 := by
  obtain ⟨keep, pow, room⟩ | ⟨t', order', run, v', fields, ro, count, clean, pow, bound, room, -⟩ :=
    v.ensureCapacity_cases small
  · exact ⟨t, order, keep, v, rfl, rfl, rfl, pow, Nat.le_of_lt small, room⟩
  · refine ⟨t', order', run, v', fields, ro, count, pow, bound, ?_⟩
    rw [count, clean]
    exact room

end HashTable

/-! ### Operations on the fields -/

/-- What the hash table is for: the fields of an object in order of insertion. -/
structure FieldMap (ν : Type) where
  readonly : Bool := false
  fields : List (Nat × CdoValue ν × Nat) := []

/-- An operation on an object's fields. -/
inductive FieldOp (ν : Type) where
  | set (key : Nat) (val : CdoValue ν) (flags : Nat)
  | delete (key : Nat)
  | setReadonly (ro : Bool)

namespace FieldMap

/-- What an operation answers and does: a readonly object, a static field and the deletion of an absent one are
refused. -/
def perform (m : FieldMap ν) : FieldOp ν → Bool × FieldMap ν
  | .setReadonly ro => (true, { m with readonly := ro })
  | .set key val flags =>
    if m.readonly then (false, m)
    else if (OrderedMap.find m.fields key).any fun f => isStatic f.2 then (false, m)
    else (true, { m with fields := OrderedMap.insert m.fields key (val, flags) })
  | .delete key =>
    if m.readonly then (false, m)
    else if (OrderedMap.find m.fields key).all fun f => isStatic f.2 then (false, m)
    else (true, { m with fields := OrderedMap.erase m.fields key })

/-- The visits of a callback, in order, until it says to stop. -/
def foreach {β : Type} (fn : β → SlotKey → CdoValue ν → Nat → β × Bool) :
    List (Nat × CdoValue ν × Nat) → β → β
  | [], acc => acc
  | (key, val, flags) :: fields, acc =>
    if (fn acc (.string key) val flags).2 then foreach fn fields (fn acc (.string key) val flags).1
    else (fn acc (.string key) val flags).1

end FieldMap

namespace HashTable

variable {t t' : HashTable ν} {order : List Nat} {key : Nat} {m : FieldMap ν}

/-- `cdo_object_set_readonly` and the raw accesses, with what they return. -/
def perform (t : HashTable ν) : FieldOp ν → Option (Bool × HashTable ν)
  | .setReadonly ro => some (true, { t with readonly := ro })
  | .set key val flags => t.rawset key val flags
  | .delete key => t.rawdelete key

/-- The table is well formed and holds the fields of `m`. -/
def Repr (t : HashTable ν) (m : FieldMap ν) : Prop :=
  t.readonly = m.readonly ∧ ∃ order, t.Inv order ∧ order.map (fieldAt t.slots) = m.fields

/-- A live key is found in its slot, and its field is the one the map gives. -/
lemma Inv.live_spec (v : t.Inv order) {i : Nat} (live : keyAt t.slots i = .string key) :
    ∃ l r s, order = l ++ i :: r ∧ t.slots[i]? = some s ∧ t.lookup key = some (some i, some i) ∧
      fieldAt t.slots i = (key, s.value, s.flags) ∧
      OrderedMap.find (order.map (fieldAt t.slots)) key = some (s.value, s.flags) := by
  have m : i ∈ order := (v.layout.live i).mpr ⟨key, live⟩
  obtain ⟨s, get, keyS, _, _, field⟩ := exists_slot (v.layout.lt m)
  have pow : t.slots.length.isPowerOfTwo := v.pow.resolve_left (Nat.ne_of_gt (by
    have := v.layout.lt m
    omega))
  have here : fieldAt t.slots i = (key, s.value, s.flags) := by
    rw [← field, HashSlot.field, keyS, live]
    rfl
  obtain ⟨l, r, rfl⟩ := List.append_of_mem m
  refine ⟨l, r, s, rfl, get, v.layout.lookup_found pow live, here, ?_⟩
  have distinct := v.layout.fields_distinct
  rw [List.map_append, List.map_cons, here] at distinct ⊢
  exact OrderedMap.find_middle distinct

/-- An absent key is not found, in the table or in the map. -/
lemma Inv.absent_spec (v : t.Inv order) (absent : ∀ i, keyAt t.slots i ≠ .string key) :
    (∃ h, t.lookup key = some (none, h)) ∧ OrderedMap.find (order.map (fieldAt t.slots)) key = none := by
  refine ⟨?_, OrderedMap.find_none (v.layout.not_mem_fields absent)⟩
  rcases v.pow with zero | pow
  · exact ⟨none, by simp [HashTable.lookup, zero]⟩
  · have pos := Nat.pos_of_isPowerOfTwo pow
    have load := v.load
    obtain ⟨h, _, found, _⟩ := v.layout.lookup_absent pow
      (v.layout.exists_null (by rw [← v.tombs, ← v.fields]; omega)) absent
    exact ⟨_, found⟩

/-- `cdo_object_rawget` gives what the map gives. -/
lemma Inv.rawget_spec (v : t.Inv order) (key : Nat) :
    t.rawget key = some ((OrderedMap.find (order.map (fieldAt t.slots)) key).map (·.1)) := by
  by_cases live : ∃ i, keyAt t.slots i = .string key
  · obtain ⟨i, live⟩ := live
    obtain ⟨_, _, s, _, get, found, _, find⟩ := v.live_spec live
    simp [rawget, found, get, find]
  · rw [not_exists] at live
    obtain ⟨⟨h, found⟩, find⟩ := v.absent_spec live
    simp [rawget, found, find]

/-- `cdo_object_foreach` visits what the map's traversal visits. -/
lemma Inv.foreach_spec (v : t.Inv order) {β : Type} (fn : β → SlotKey → CdoValue ν → Nat → β × Bool)
    (acc : β) : t.foreach fn acc = some (FieldMap.foreach fn (order.map (fieldAt t.slots)) acc) := by
  have loop : ∀ (rest : List Nat) (idx turns : Nat) (acc : β), Chain (nextAt t.slots) idx rest noSlot →
      (∀ i ∈ rest, i ∈ order) → rest.length < turns →
      foreachLoop t.slots fn turns idx acc =
        some (FieldMap.foreach fn (rest.map (fieldAt t.slots)) acc) := by
    intro rest
    induction rest with
    | nil =>
      rintro idx turns acc chain _ enough
      obtain rfl : idx = noSlot := chain
      obtain ⟨turns, rfl⟩ : ∃ n, turns = n + 1 := ⟨turns - 1, by simp at enough; omega⟩
      simp [foreachLoop, FieldMap.foreach]
    | cons i rest ih =>
      rintro idx turns acc ⟨rfl, chain⟩ mem enough
      obtain ⟨turns, rfl⟩ : ∃ n, turns = n + 1 := ⟨turns - 1, by simp at enough; omega⟩
      have m := mem idx (by simp)
      obtain ⟨s, get, keyS, next, _, field⟩ := exists_slot (v.layout.lt m)
      obtain ⟨k, live⟩ := (v.layout.live idx).mp m
      have inside : idx ≠ noSlot := fun e => v.layout.noSlot_not_mem (e ▸ m)
      have here : fieldAt t.slots idx = (k, s.value, s.flags) := by
        rw [← field, HashSlot.field, keyS, live]
        rfl
      have goOn := ih s.fifoNext turns (fn acc (.string k) s.value s.flags).1 (next ▸ chain)
        (fun j m => mem j (List.mem_cons_of_mem _ m)) (by simp only [List.length_cons] at enough; omega)
      rw [List.map_cons, here, FieldMap.foreach]
      simp only [foreachLoop, inside, if_false, get, Option.bind_eq_bind, Option.bind_some, keyS, live]
      by_cases cont : (fn acc (.string k) s.value s.flags).2 = true
      · simp only [cont, if_true, goOn]
      · simp only [cont]
        rfl
  have le : order.length ≤ t.slots.length := v.layout.count_live ▸ List.countP_le_length
  exact loop order t.fifoHead (t.slots.length + 1) acc v.layout.forward (fun _ m => m) (by omega)

/-- `cdo_object_rawset` once `obj_ensure_capacity` has left room for one more field. -/
lemma Repr.rawset_ensured (rep : t.Repr m) (readonly : m.readonly ≠ true) {t₁ : HashTable ν} {order₁ : List Nat}
    (ensured : t.ensureCapacity = some t₁) (v₁ : t₁.Inv order₁)
    (fields₁ : order₁.map (fieldAt t₁.slots) = m.fields) (ro₁ : t₁.readonly = t.readonly)
    (pow : t₁.slots.length.isPowerOfTwo)
    (room : (t₁.fieldCount + t₁.tombstoneCount + 1) * 4 ≤ t₁.slots.length * 3) (key : Nat) (val : CdoValue ν)
    (flags : Nat) : ∃ t',
      t.rawset key val flags = some ((m.perform (.set key val flags)).1, t') ∧
      t'.Repr (m.perform (.set key val flags)).2 ∧ t'.slots.length = t₁.slots.length ∧
      t'.tombstoneCount ≤ t₁.tombstoneCount := by
  have ro := rep.1
  have writable : t.readonly ≠ true := ro ▸ readonly
  have bound := v₁.layout.bound
  rw [noSlot] at bound
  have count := v₁.fields
  have tombs := v₁.tombs
  by_cases live : ∃ i, keyAt t₁.slots i = .string key
  · obtain ⟨i, live⟩ := live
    obtain ⟨l, r, s, rfl, get, found, here, find⟩ := v₁.live_spec live
    rw [fields₁] at find
    by_cases static : isStatic s.flags = true
    · refine ⟨t₁, ?_, ?_, rfl, le_rfl⟩
      · simp [rawset, FieldMap.perform, writable, readonly, ensured, found, get, find, static]
      · simpa [FieldMap.perform, readonly, find, static] using
          ⟨ro₁.trans ro, _, v₁, fields₁⟩
    · obtain ⟨layout, fields', keys⟩ := v₁.layout.rewrite_spec get val flags
      refine ⟨{ t₁ with slots := t₁.slots.set i { s with value := val, flags := flags } }, ?_,
        ?_, List.length_set, le_rfl⟩
      · simp [rawset, FieldMap.perform, writable, readonly, ensured, found, get, find, static]
      · have inv : HashTable.Inv { t₁ with slots := t₁.slots.set i { s with value := val, flags := flags } }
            (l ++ i :: r) := by
          refine ⟨layout, ?_, v₁.fields, ?_, ?_⟩
          · rw [List.length_set]
            exact v₁.pow
          · exact tombs.trans (countKeys_congr List.length_set keys _).symm
          · simpa using v₁.load
        have distinct := v₁.layout.fields_distinct
        rw [List.map_append, List.map_cons, here] at distinct
        have inserted := OrderedMap.insert_middle (w := (val, flags)) distinct
        rw [here] at fields'
        rw [← here, ← List.map_cons, ← List.map_append, fields₁] at inserted
        refine ⟨?_, l ++ i :: r, inv, ?_⟩
        · simpa [FieldMap.perform, readonly, find, static] using ro₁.trans ro
        · simp only [FieldMap.perform, readonly, find, static, Option.any_some, if_false,
            Bool.false_eq_true, inserted]
          exact fields'
  · rw [not_exists] at live
    obtain ⟨_, find⟩ := v₁.absent_spec live
    have unknown := v₁.layout.not_mem_fields live
    rw [fields₁] at find unknown
    obtain ⟨h, lt, found, free, way, key₁⟩ := v₁.layout.lookup_absent pow
      (v₁.layout.exists_null (by omega)) live
    obtain ⟨s, get, keyS, _⟩ := exists_slot lt
    obtain ⟨slots', head', placed, layout, len, fields', keys⟩ :=
      v₁.layout.place_spec lt free live way val flags
    have tombs' := countKeys_update lt len keys (· == .tombstone)
    have counted : u32 (t₁.fieldCount + 1) = order₁.length + 1 := by rw [u32_eq (by omega), count]
    have tombsNow : (if s.key = .tombstone then u32 (t₁.tombstoneCount + 4294967295)
        else t₁.tombstoneCount) = countKeys slots' (· == .tombstone) := by
      rcases key₁ with dead | null
      · simp only [dead] at tombs'
        rw [keyS, dead, if_pos rfl, u32]
        simp at tombs'
        omega
      · simp only [null] at tombs'
        rw [keyS, null, if_neg (by rintro ⟨⟩)]
        simp at tombs'
        omega
    have le : countKeys slots' (· == .tombstone) ≤ t₁.tombstoneCount := by
      rw [tombs]
      have : (SlotKey.string key == SlotKey.tombstone) = false := rfl
      simp only [this, Bool.false_eq_true, if_false] at tombs'
      omega
    refine ⟨{ t₁ with
        slots := slots', fifoHead := head', fifoTail := h,
        tombstoneCount := countKeys slots' (· == .tombstone), fieldCount := order₁.length + 1 }, ?_, ?_, len, le⟩
    · simp only [rawset, writable, if_false, ensured, found, get, placed, tombsNow, counted,
        Option.bind_eq_bind, Option.bind_some, FieldMap.perform, readonly, find, Option.any_none,
        Bool.false_eq_true]
    · refine ⟨?_, order₁ ++ [h], ⟨layout, ?_, by simp, rfl, ?_⟩, ?_⟩
      · simpa [FieldMap.perform, readonly, find] using ro₁.trans ro
      · exact Or.inr (len.symm ▸ pow)
      · simp only [len]
        omega
      · simp only [FieldMap.perform, readonly, find, Option.any_none, Bool.false_eq_true, if_false,
          OrderedMap.insert_new unknown, fields', fields₁]

/-- `cdo_object_rawset` does to the table what the map's operation does. -/
lemma Repr.rawset_spec (rep : t.Repr m) (small : t.slots.length < 268435456) (key : Nat)
    (val : CdoValue ν) (flags : Nat) : ∃ t',
      t.rawset key val flags = some ((m.perform (.set key val flags)).1, t') ∧
      t'.Repr (m.perform (.set key val flags)).2 := by
  obtain ⟨ro, order, v, fields⟩ := rep
  by_cases readonly : m.readonly = true
  · refine ⟨t, ?_, ?_⟩
    · simp [rawset, FieldMap.perform, ro, readonly]
    · simpa [FieldMap.perform, readonly] using ⟨ro, order, v, fields⟩
  · obtain ⟨t₁, order₁, ensured, v₁, fields₁, ro₁, _, pow, _, room⟩ := v.ensureCapacity_spec small
    obtain ⟨t', run, rep', -, -⟩ := Repr.rawset_ensured ⟨ro, order, v, fields⟩ readonly ensured v₁
      (fields₁.trans fields) ro₁ pow room key val flags
    exact ⟨t', run, rep'⟩

/-- `cdo_object_rawdelete` does to the table what the map's operation does. -/
lemma Repr.rawdelete_spec (rep : t.Repr m) (key : Nat) : ∃ t',
      t.rawdelete key = some ((m.perform (.delete key)).1, t') ∧
      t'.Repr (m.perform (.delete key)).2 ∧ t'.slots.length = t.slots.length := by
  obtain ⟨ro, order, v, fields⟩ := rep
  by_cases readonly : m.readonly = true
  · refine ⟨t, ?_, ?_, rfl⟩
    · simp [rawdelete, FieldMap.perform, ro, readonly]
    · simpa [FieldMap.perform, readonly] using ⟨ro, order, v, fields⟩
  have writable : t.readonly ≠ true := ro ▸ readonly
  by_cases live : ∃ i, keyAt t.slots i = .string key
  · obtain ⟨i, live⟩ := live
    obtain ⟨l, r, s, rfl, get, found, here, find⟩ := v.live_spec live
    rw [fields] at find
    by_cases static : isStatic s.flags = true
    · refine ⟨t, ?_, ?_, rfl⟩
      · simp [rawdelete, FieldMap.perform, writable, readonly, found, get, find, static]
      · simpa [FieldMap.perform, readonly, find, static] using ⟨ro, _, v, fields⟩
    · obtain ⟨slots', head', tail', unlinked, layout, len, fields', keys⟩ := v.layout.unlink_spec get
      have lt : i < t.slots.length := v.layout.lt (by simp)
      have tombs' := countKeys_update lt len keys (· == .tombstone)
      have alive : (SlotKey.string key == SlotKey.tombstone) = false := rfl
      simp only [live, alive, Bool.false_eq_true, if_false, beq_self_eq_true, if_true] at tombs'
      have load := v.load
      have bound := v.layout.bound
      rw [noSlot] at bound
      have count := v.fields
      have tombs := v.tombs
      have total : (l ++ i :: r).length = (l ++ r).length + 1 := by
        simp only [List.length_append, List.length_cons]
        omega
      have counted : u32 (t.fieldCount + 4294967295) = (l ++ r).length := by
        rw [u32]
        omega
      have tombsNow : u32 (t.tombstoneCount + 1) = countKeys slots' (· == .tombstone) := by
        rw [u32_eq (by omega)]
        omega
      refine ⟨{ t with
          slots := slots', fifoHead := head', fifoTail := tail', fieldCount := (l ++ r).length,
          tombstoneCount := countKeys slots' (· == .tombstone) }, ?_, ?_, len⟩
      · simp only [rawdelete, writable, if_false, found, get, static, unlinked, counted, tombsNow,
          Option.bind_eq_bind, Option.bind_some, FieldMap.perform, readonly, find, Option.all_some,
          Bool.false_eq_true]
      · have distinct := v.layout.fields_distinct
        rw [List.map_append, List.map_cons, here] at distinct
        have erased := OrderedMap.erase_middle distinct
        rw [← here, ← List.map_cons, ← List.map_append, fields, ← List.map_append, ← fields'] at erased
        refine ⟨?_, l ++ r, ⟨layout, len.symm ▸ v.pow, rfl, rfl, ?_⟩, ?_⟩
        · simpa [FieldMap.perform, readonly, find, static] using ro
        · simp only [len]
          omega
        · simp only [FieldMap.perform, readonly, find, static, Option.all_some, if_false,
            Bool.false_eq_true, erased]
  · rw [not_exists] at live
    obtain ⟨⟨h, found⟩, find⟩ := v.absent_spec live
    rw [fields] at find
    refine ⟨t, ?_, ?_, rfl⟩
    · simp [rawdelete, FieldMap.perform, writable, readonly, found, find]
    · simpa [FieldMap.perform, readonly, find] using ⟨ro, order, v, fields⟩

/-- Each operation on a table answers and does what the map's operation does. -/
lemma Repr.perform_spec (rep : t.Repr m) (small : t.slots.length < 268435456) (op : FieldOp ν) :
    ∃ t', t.perform op = some ((m.perform op).1, t') ∧ t'.Repr (m.perform op).2 := by
  cases op with
  | set key val flags => exact rep.rawset_spec small key val flags
  | delete key =>
    obtain ⟨t', e, rep', _⟩ := rep.rawdelete_spec key
    exact ⟨t', e, rep'⟩
  | setReadonly ro =>
    obtain ⟨_, order, v, fields⟩ := rep
    exact ⟨_, rfl, rfl, order, ⟨v.layout, v.pow, v.fields, v.tombs, v.load⟩, fields⟩

/-- A plain object and the map of its fields, after any operations from a new object on that leave fewer than
2^28 slots. -/
inductive Run : HashTable ν → FieldMap ν → Prop where
  | new : Run {} {}
  | step {t t' : HashTable ν} {m : FieldMap ν} {op : FieldOp ν} {r : Bool} : Run t m →
      t.perform op = some (r, t') → t'.slots.length < 268435456 → Run t' (m.perform op).2

lemma Run.repr (run : Run t m) : t.slots.length < 268435456 ∧ t.Repr m := by
  induction run with
  | new => exact ⟨Nat.succ_pos _, rfl, [], inv_new, rfl⟩
  | @step t t' m op r _ e small ih =>
    obtain ⟨u, e', rep⟩ := ih.2.perform_spec ih.1 op
    obtain ⟨_, rfl⟩ : _ ∧ u = t' := by simpa using e'.symm.trans e
    exact ⟨small, rep⟩

/-- A plain object's hash table refines its insertion-ordered map: the list visits each live slot once, forward
and backward, in the map's order; keys are distinct, each live one is found and every search ends; the counts
are those of the slots; reads, traversals and the length are the map's. Every further operation succeeds and
answers what the map's does, which it then represents; a refused one leaves the map as it is. -/
theorem run_refines (run : Run t m) :
    (∃ order, Chain (nextAt t.slots) t.fifoHead order noSlot ∧
      Chain (prevAt t.slots) t.fifoTail order.reverse noSlot ∧ order.Nodup ∧
      (∀ i, i ∈ order ↔ ∃ k, keyAt t.slots i = .string k) ∧
      order.map (fieldAt t.slots) = m.fields) ∧
    OrderedMap.Distinct m.fields ∧
    (∀ i k, keyAt t.slots i = .string k → t.lookup k = some (some i, some i)) ∧
    (∀ k, (t.lookup k).isSome) ∧
    t.fieldCount = countKeys t.slots SlotKey.isString ∧
    t.tombstoneCount = countKeys t.slots (· == .tombstone) ∧
    (∀ k, t.rawget k = some ((OrderedMap.find m.fields k).map (·.1))) ∧
    (∀ (β : Type) (fn : β → SlotKey → CdoValue ν → Nat → β × Bool) acc,
      t.foreach fn acc = some (FieldMap.foreach fn m.fields acc)) ∧
    t.length = m.fields.length ∧
    ∀ op, ∃ t', t.perform op = some ((m.perform op).1, t') ∧ t'.Repr (m.perform op).2 ∧
      ((m.perform op).1 = false → (m.perform op).2 = m) := by
  obtain ⟨small, rep⟩ := run.repr
  obtain ⟨_, order, v, fields⟩ := rep
  refine ⟨⟨order, v.layout.forward, v.layout.backward, v.layout.nodup, v.layout.live, fields⟩,
    fields ▸ v.layout.fields_distinct, fun i k live => ?_, fun k => ?_, ?_, v.tombs, fun k => ?_,
    fun β fn acc => ?_, ?_, fun op => ?_⟩
  · obtain ⟨_, _, _, _, _, found, _⟩ := v.live_spec live
    exact found
  · by_cases live : ∃ i, keyAt t.slots i = .string k
    · obtain ⟨i, live⟩ := live
      obtain ⟨_, _, _, _, _, found, _⟩ := v.live_spec live
      simp [found]
    · obtain ⟨⟨h, found⟩, _⟩ := v.absent_spec (not_exists.mp live)
      simp [found]
  · exact v.fields.trans v.layout.count_live.symm
  · exact fields ▸ v.rawget_spec k
  · exact fields ▸ v.foreach_spec fn acc
  · rw [← fields, List.length_map]
    exact v.fields
  · obtain ⟨t', e, rep'⟩ := run.repr.2.perform_spec small op
    refine ⟨t', e, rep', fun refused => ?_⟩
    cases op with
    | setReadonly ro => cases refused
    | set key val flags =>
      simp only [FieldMap.perform] at refused ⊢
      split at refused <;> rename_i ro
      · rw [if_pos ro]
      · split at refused <;> rename_i static
        · rw [if_neg ro, if_pos static]
        · cases refused
    | delete key =>
      simp only [FieldMap.perform] at refused ⊢
      split at refused <;> rename_i ro
      · rw [if_pos ro]
      · split at refused <;> rename_i static
        · rw [if_neg ro, if_pos static]
        · cases refused

/-- Two fields of which the first is deleted and set again: it is now the last. -/
theorem run_refines_reinsert : ∃ (t : HashTable Nat) (m : FieldMap Nat), Run t m ∧
    m.fields = [(128, .null, 0), (64, .bool false, 1)] ∧ t.length = 2 ∧
    t.rawget 64 = some (some (.bool false)) ∧
    ∃ t', t.perform (.set 64 .null 0) = some (false, t') ∧ t'.Repr m := by
  have ops : ((perform ({} : HashTable Nat) (.set 64 (.bool true) 0)).bind fun x =>
      (x.2.perform (.set 128 .null 0)).bind fun y => (y.2.perform (.delete 64)).bind fun z =>
      (z.2.perform (.set 64 (.bool false) 1)).map fun w =>
        [x.2.slots.length, y.2.slots.length, z.2.slots.length, w.2.slots.length]) =
      some [8, 8, 8, 8] := by decide +kernel
  simp only [Option.bind_eq_some_iff, Option.map_eq_some_iff, List.cons.injEq] at ops
  obtain ⟨⟨_, t₁⟩, e₁, ⟨_, t₂⟩, e₂, ⟨_, t₃⟩, e₃, ⟨_, t⟩, e₄, l₁, l₂, l₃, l₄, _⟩ := ops
  have run := (((Run.new.step e₁ (l₁ ▸ by decide)).step e₂ (l₂ ▸ by decide)).step e₃
    (l₃ ▸ by decide)).step e₄ (l₄ ▸ by decide)
  obtain ⟨_, _, _, _, _, _, reads, _, length, next⟩ := run_refines run
  obtain ⟨t', e, rep, same⟩ := next (.set 64 .null 0)
  exact ⟨t, _, run, by decide, length.trans (by decide), (reads 64).trans (by decide), t',
    e, same (by decide) ▸ rep⟩

end HashTable

/-! ### The interpreter's objects -/

namespace FieldMap

variable {m : FieldMap ν} {name : Nat → Str} {key : Nat}

/-- The field as the interpreter's object has it; `name` gives the text of an interned string. -/
def toSlot (name : Nat → Str) (f : Nat × CdoValue ν × Nat) : ObjSlot ν := ⟨name f.1, f.2.1, isStatic f.2.2⟩

/-- The plain object with these fields. -/
def toObject (name : Nat → Str) (m : FieldMap ν) : CdoObject ν :=
  { readonly := m.readonly, slots := m.fields.map (toSlot name) }

/-- Strings are interned, so comparing addresses is comparing texts. -/
lemma find_toSlot (m : FieldMap ν) (key : Nat) (interned : Function.Injective name) :
    (m.fields.map (toSlot name)).find? (·.key == name key) =
      (m.fields.find? fun f => f.1 = key).map (toSlot name) := by
  rw [List.find?_map]
  congr 2
  funext f
  have same : (name f.1 = name key) = (f.1 = key) := propext interned.eq_iff
  simp only [Function.comp_apply, toSlot, beq_eq_decide, same]

/-- Reading a field of the map is reading it of the object. -/
lemma rawget_toObject (interned : Function.Injective name) :
    (m.toObject name).rawget (name key) = (OrderedMap.find m.fields key).map (·.1) := by
  simp only [CdoObject.rawget, toObject, if_true, find_toSlot m key interned, OrderedMap.find, Option.map_map]
  rfl

/-- Setting a field of the map is setting it of the object. -/
lemma rawset_toObject (interned : Function.Injective name) (val : CdoValue ν) (flags : Nat) :
    ((m.perform (.set key val flags)).2).toObject name =
      (m.toObject name).rawset (name key) val (isStatic flags) := by
  by_cases ro : m.readonly = true
  · simp [perform, CdoObject.rawset, toObject, ro]
  have found := find_toSlot m key interned
  cases e : m.fields.find? fun f => f.1 = key with
  | none =>
    have out : key ∉ m.fields.map (·.1) := by
      intro mem
      obtain ⟨f, mem', rfl⟩ := List.mem_map.mp mem
      simpa using List.find?_eq_none.mp e f mem'
    rw [e] at found
    simp [perform, CdoObject.rawset, toObject, ro, OrderedMap.find, e, found,
      OrderedMap.insert_new out, toSlot]
  | some f =>
    have mem : key ∈ m.fields.map (·.1) := by
      have eq : f.1 = key := by simpa using List.find?_some e
      exact eq ▸ List.mem_map_of_mem (List.mem_of_find?_eq_some e)
    rw [e] at found
    by_cases static : isStatic f.2.2 = true
    · simp [perform, CdoObject.rawset, toObject, ro, OrderedMap.find, e, found, static, toSlot]
    · have inserted : (OrderedMap.insert m.fields key (val, flags)).map (toSlot name) =
          (m.fields.map (toSlot name)).map fun s =>
            if s.key == name key then ⟨name key, val, isStatic flags⟩ else s := by
        rw [OrderedMap.insert, if_pos mem, List.map_map, List.map_map]
        refine List.map_congr_left fun g _ => ?_
        by_cases eq : g.1 = key
        · simp [toSlot, eq]
        · simp [toSlot, eq, interned.eq_iff]
      have slot : (toSlot name f).isStatic = isStatic f.2.2 := rfl
      simp only [perform, CdoObject.rawset, toObject, ro, if_false, OrderedMap.find, e, found, static,
        slot, Option.map_some, Option.any_some, Bool.false_eq_true, inserted]

end FieldMap

/-- A table that represents a map reads, at the interpreter's level, as the map's object does, and a raw set
leads to the object that the interpreter's raw set gives. -/
theorem HashTable.Repr.toObject {t : HashTable ν} {m : FieldMap ν} (rep : t.Repr m)
    (small : t.slots.length < 268435456) {name : Nat → Str} (interned : Function.Injective name) :
    (∀ k, t.rawget k = some ((m.toObject name).rawget (name k))) ∧
    ∀ k val flags, ∃ t' m' r, t.rawset k val flags = some (r, t') ∧ t'.Repr m' ∧
      m'.toObject name = (m.toObject name).rawset (name k) val (isStatic flags) := by
  refine ⟨fun k => ?_, fun k val flags => ?_⟩
  · obtain ⟨_, order, v, fields⟩ := rep
    rw [FieldMap.rawget_toObject interned, ← fields]
    exact v.rawget_spec k
  · obtain ⟨t', e, rep'⟩ := rep.rawset_spec small k val flags
    exact ⟨t', _, _, e, rep', FieldMap.rawset_toObject interned val flags⟩

end Cando
