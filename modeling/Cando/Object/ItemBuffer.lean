import Cando.Object.HashTable
import Mathlib.Algebra.Ring.Nat
import Mathlib.Data.List.Induction
import Mathlib.Tactic.NormNum

/-!
# The elements of an array

The buffer of `object/array.c` and of `arr_pop` (`lib/array.c`): the first `items_len` cells hold the elements, the
others are stale or have never been written. An operation is `none` where it leaves the buffer, does not end, uses a
cell that was never written or releases a string that the array does not hold. What the buffer is for is a list.
-/

namespace Cando

variable {ν : Type}

/-- The part of an array's `CdoObject` that holds its elements; `items_cap` is the length of `items`, and a cell that
was never written is `none`. -/
structure ItemBuffer (ν : Type) where
  readonly : Bool := false
  items : List (Option (CdoValue ν)) := []
  itemsLen : Nat := 0
  deriving DecidableEq, Repr

/-- `cando_realloc` of the cells. -/
def reallocItems (items : List (Option (CdoValue ν))) (newCap : Nat) : List (Option (CdoValue ν)) :=
  items.take newCap ++ List.replicate (newCap - items.length) none

/-- A write to `items[i]`. -/
def setItem (items : List (Option (CdoValue ν))) (i : Nat) (c : Option (CdoValue ν)) :
    Option (List (Option (CdoValue ν))) :=
  if i < items.length then some (items.set i c) else none

/-- The loop of `cdo_array_insert` that shifts the elements from `idx` on to the right. -/
def shiftRight (idx : Nat) : (i : Nat) → List (Option (CdoValue ν)) → Option (List (Option (CdoValue ν)))
  | 0, items => some items
  | i + 1, items =>
    if idx < i + 1 then do
      let c ← items[i]?
      let items ← setItem items (i + 1) c
      shiftRight idx i items
    else some items

/-- The loop of `cdo_array_remove` that shifts the elements behind index `i` to the left. -/
def shiftLeft (itemsLen : Nat) : (turns i : Nat) → List (Option (CdoValue ν)) →
    Option (List (Option (CdoValue ν)))
  | 0, _, _ => none
  | turns + 1, i, items =>
    if i + 1 < itemsLen then do
      let c ← items[i + 1]?
      let items ← setItem items i c
      shiftLeft itemsLen turns (i + 1) items
    else some items

/-- The loops of `cdo_array_rawset_idx` that write null from index `i` on. -/
def fillNull (bound : Nat) : (turns i : Nat) → List (Option (CdoValue ν)) → Option (List (Option (CdoValue ν)))
  | 0, _, _ => none
  | turns + 1, i, items =>
    if i < bound then do
      let items ← setItem items i (some .null)
      fillNull bound turns (i + 1) items
    else some items

/-- The loop of `cdo_array_rawset_idx` over the capacities. -/
def doubledPast (idx : Nat) : (turns newCap : Nat) → Option Nat
  | 0, _ => none
  | turns + 1, newCap => if newCap ≤ idx then doubledPast idx turns (u32 (newCap * 2)) else some newCap

/-- `cdo_value_release` does nothing to what is in the cell: a string would be given up. -/
def releasable : Option (CdoValue ν) → Bool
  | none | some (.string _) => false
  | some _ => true

namespace ItemBuffer

/-- The growth of `cdo_array_push` and `cdo_array_insert`. -/
def grow (a : ItemBuffer ν) : ItemBuffer ν :=
  if a.items.length ≤ a.itemsLen then
    { a with items := reallocItems a.items (if a.items.length = 0 then 8 else u32 (a.items.length * 2)) }
  else a

/-- `cdo_array_push`. -/
def push (a : ItemBuffer ν) (val : CdoValue ν) : Option (Bool × ItemBuffer ν) :=
  if a.readonly then some (false, a)
  else do
    let items ← setItem a.grow.items a.itemsLen (some val)
    some (true, { a with items, itemsLen := u32 (a.itemsLen + 1) })

/-- `cdo_array_rawget_idx`. -/
def rawgetIdx (a : ItemBuffer ν) (idx : Nat) : Option (Option (CdoValue ν)) :=
  if idx < a.itemsLen then do
    let cell ← a.items[idx]?
    let val ← cell
    some (some val)
  else some none

/-- The growth of `cdo_array_rawset_idx`. -/
def reserve (a : ItemBuffer ν) (idx : Nat) : Option (List (Option (CdoValue ν))) :=
  let cap := a.items.length
  if cap ≤ idx then do
    let newCap ← doubledPast idx 33 (if cap = 0 then 8 else cap)
    fillNull newCap (newCap + 1) cap (reallocItems a.items newCap)
  else some a.items

/-- `cdo_array_rawset_idx`. -/
def rawsetIdx (a : ItemBuffer ν) (idx : Nat) (val : CdoValue ν) : Option (Bool × ItemBuffer ν) :=
  if a.readonly then some (false, a)
  else do
    let items ← a.reserve idx
    let items ← (if a.itemsLen ≤ idx then fillNull idx (idx + 1) a.itemsLen items else some items)
    let old ← items[idx]?
    if idx < a.itemsLen ∨ releasable old then do
      let items ← setItem items idx (some val)
      some (true, { a with items, itemsLen := if a.itemsLen ≤ idx then u32 (idx + 1) else a.itemsLen })
    else none

/-- `cdo_array_insert`. -/
def insert (a : ItemBuffer ν) (idx : Nat) (val : CdoValue ν) : Option (Bool × ItemBuffer ν) :=
  if a.readonly then some (false, a)
  else do
    let idx := if a.itemsLen < idx then a.itemsLen else idx
    let items ← shiftRight idx a.itemsLen a.grow.items
    let items ← setItem items idx (some val)
    some (true, { a with items, itemsLen := u32 (a.itemsLen + 1) })

/-- `cdo_array_remove` of an element that is handed to the caller. -/
def remove (a : ItemBuffer ν) (idx : Nat) : Option (Option (CdoValue ν) × ItemBuffer ν) :=
  if a.readonly ∨ a.itemsLen ≤ idx then some (none, a)
  else do
    let cell ← a.items[idx]?
    let out ← cell
    let items ← shiftLeft a.itemsLen a.itemsLen idx a.items
    some (some out, { a with items, itemsLen := u32 (a.itemsLen + 4294967295) })

/-- The locked section of `arr_pop`. -/
def pop (a : ItemBuffer ν) : Option (CdoValue ν × ItemBuffer ν) := do
  let itemsLen := u32 (a.itemsLen + 4294967295)
  let cell ← a.items[itemsLen]?
  let val ← cell
  some (val, { a with itemsLen })

end ItemBuffer

/-! ### The loops -/

section Loops

variable {l m r items : List (Option (CdoValue ν))} {c : Option (CdoValue ν)} {i : Nat}

lemma setItem_middle (l : List (Option (CdoValue ν))) (c d : Option (CdoValue ν)) (r : List (Option (CdoValue ν))) :
    setItem (l ++ c :: r) l.length d = some (l ++ d :: r) := by
  have inside : l.length < (l ++ c :: r).length := by simp
  have written : (l ++ c :: r).set l.length d = l ++ d :: r := by simp
  rw [setItem, if_pos inside, written]

lemma getElem?_middle {α : Type} (l : List α) (x : α) (r : List α) : (l ++ x :: r)[l.length]? = some x := by simp

/-- A list is cut at one of its indices. -/
lemma exists_middle {α : Type} {l : List α} {i : Nat} (h : i < l.length) :
    ∃ front x back, l = front ++ x :: back ∧ front.length = i :=
  ⟨l.take i, l[i], l.drop (i + 1), by simp, by simp; omega⟩

lemma shiftRight_spec (l m : List (Option (CdoValue ν))) (c : Option (CdoValue ν)) (r : List (Option (CdoValue ν))) :
    ∃ x, shiftRight l.length (l ++ m).length (l ++ m ++ c :: r) = some (l ++ x :: (m ++ r)) := by
  induction m using List.reverseRecOn generalizing c r with
  | nil =>
    have done : ∀ (i : Nat) (items : List (Option (CdoValue ν))), shiftRight i i items = some items := by
      intro i items
      cases i with
      | zero => rfl
      | succ i => exact if_neg (Nat.lt_irrefl _)
    exact ⟨c, by simpa using done l.length (l ++ c :: r)⟩
  | append_singleton m y ih =>
    obtain ⟨x, rest⟩ := ih y (y :: r)
    have last : (l ++ (m ++ [y])).length = (l ++ m).length + 1 := by
      simp only [List.length_append, List.length_singleton]
      omega
    have more : l.length < (l ++ m).length + 1 := by
      simp only [List.length_append]
      omega
    have shape : l ++ (m ++ [y]) ++ c :: r = l ++ m ++ y :: c :: r := by simp
    have read : (l ++ m ++ y :: c :: r)[(l ++ m).length]? = some y := getElem?_middle _ _ _
    have write : setItem (l ++ m ++ y :: c :: r) ((l ++ m).length + 1) y = some (l ++ m ++ y :: y :: r) := by
      have here := setItem_middle (l ++ m ++ [y]) c y r
      simpa [Nat.add_assoc] using here
    refine ⟨x, ?_⟩
    rw [shape, last, shiftRight, if_pos more, read, Option.bind_eq_bind, Option.bind_some, write,
      Option.bind_eq_bind, Option.bind_some, rest]
    simp

lemma shiftLeft_spec (l : List (Option (CdoValue ν))) (c : Option (CdoValue ν)) (m r : List (Option (CdoValue ν)))
    (turns : Nat) : ∃ x, shiftLeft (l.length + (m.length + 1)) (m.length + (turns + 1)) l.length (l ++ c :: (m ++ r)) =
      some (l ++ m ++ x :: r) := by
  induction m generalizing l c with
  | nil =>
    have turned : ([] : List (Option (CdoValue ν))).length + (turns + 1) = turns + 1 := Nat.zero_add _
    refine ⟨c, ?_⟩
    rw [turned, shiftLeft, if_neg (by simp)]
    simp
  | cons y m ih =>
    obtain ⟨x, rest⟩ := ih (l ++ [y]) y
    have more : l.length + 1 < l.length + ((y :: m).length + 1) := by simp
    have read : (l ++ c :: (y :: m ++ r))[l.length + 1]? = some y := by simp
    have turned : (y :: m).length + (turns + 1) = m.length + (turns + 1) + 1 := by
      simp only [List.length_cons]
      omega
    refine ⟨x, ?_⟩
    rw [turned, shiftLeft, if_pos more, read, Option.bind_eq_bind, Option.bind_some, setItem_middle,
      Option.bind_eq_bind, Option.bind_some]
    have sizes : (l ++ [y]).length + (m.length + 1) = l.length + ((y :: m).length + 1) := by
      simp only [List.length_append, List.length_cons, List.length_nil]
      omega
    rw [sizes, List.length_append, List.length_singleton] at rest
    simpa using rest

lemma fillNull_spec (l m r : List (Option (CdoValue ν))) (turns : Nat) :
    fillNull (l.length + m.length) (m.length + (turns + 1)) l.length (l ++ (m ++ r)) =
      some (l ++ (List.replicate m.length (some .null) ++ r)) := by
  induction m generalizing l with
  | nil =>
    have turned : ([] : List (Option (CdoValue ν))).length + (turns + 1) = turns + 1 := Nat.zero_add _
    rw [turned, fillNull, if_neg (by simp)]
    simp
  | cons y m ih =>
    have rest := ih (l ++ [some .null])
    have more : l.length < l.length + (y :: m).length := by simp
    have turned : (y :: m).length + (turns + 1) = m.length + (turns + 1) + 1 := by
      simp only [List.length_cons]
      omega
    rw [turned, fillNull, if_pos more, List.cons_append, setItem_middle, Option.bind_eq_bind, Option.bind_some]
    have sizes : (l ++ [some CdoValue.null]).length + m.length = l.length + (y :: m).length := by
      simp only [List.length_append, List.length_cons, List.length_nil]
      omega
    rw [sizes, List.length_append, List.length_singleton] at rest
    simpa [List.replicate_succ] using rest

/-- The doubling ends past the index. -/
lemma doubledPast_spec {idx : Nat} (small : idx < 2147483648) (turns : Nat) {cap : Nat} (bound : cap < 4294967296)
    (enough : idx < cap * 2 ^ turns) : ∃ newCap, doubledPast idx (turns + 1) cap = some newCap ∧ idx < newCap ∧
      newCap < 4294967296 := by
  induction turns generalizing cap with
  | zero =>
    rw [Nat.pow_zero, Nat.mul_one] at enough
    exact ⟨cap, if_neg (Nat.not_le_of_lt enough), enough, bound⟩
  | succ turns ih =>
    by_cases more : cap ≤ idx
    · have double : u32 (cap * 2) = cap * 2 := Nat.mod_eq_of_lt (by omega)
      rw [Nat.pow_succ, Nat.mul_comm (2 ^ turns) 2, ← Nat.mul_assoc] at enough
      obtain ⟨newCap, run, past, bound'⟩ := ih (by omega) enough
      refine ⟨newCap, ?_, past, bound'⟩
      rw [doubledPast, if_pos more, double, run]
    · exact ⟨cap, if_neg more, Nat.lt_of_not_le more, bound⟩

end Loops

/-! ### The list of the elements -/

/-- An element written, over a gap of nulls if the index lies behind the end. -/
def writeAt (items : List (CdoValue ν)) (idx : Nat) (val : CdoValue ν) : List (CdoValue ν) :=
  if idx < items.length then items.set idx val
  else items ++ List.replicate (idx - items.length) .null ++ [val]

/-- An element inserted, at the end if the index lies behind it. -/
def insertAt (items : List (CdoValue ν)) (idx : Nat) (val : CdoValue ν) : List (CdoValue ν) :=
  items.take idx ++ val :: items.drop idx

namespace ItemBuffer

variable {a : ItemBuffer ν} {items : List (CdoValue ν)} {idx : Nat}

/-- The buffer holds the elements. -/
structure Repr (a : ItemBuffer ν) (items : List (CdoValue ν)) : Prop where
  cells : ∃ rest, a.items = items.map some ++ rest
  len : a.itemsLen = items.length
  bound : a.items.length < 4294967296

lemma Repr.len_le (rep : a.Repr items) : items.length ≤ a.items.length := by
  obtain ⟨rest, cells⟩ := rep.cells
  simp [cells]

/-- The cell of an element. -/
lemma Repr.cell (rep : a.Repr items) (h : idx < items.length) : a.items[idx]? = some (some items[idx]) := by
  obtain ⟨rest, cells⟩ := rep.cells
  have inside : idx < (items.map some).length := by rwa [List.length_map]
  rw [cells, List.getElem?_append_left inside, List.getElem?_map, List.getElem?_eq_getElem h]
  rfl

/-- Growing leaves the elements, and where it leaves room there is a cell for a new one. -/
lemma Repr.grow_spec (rep : a.Repr items) (room : items.length < a.grow.items.length) : ∃ c rest,
    a.grow.items = items.map some ++ c :: rest ∧ a.grow.items.length < 4294967296 := by
  obtain ⟨rest, cells⟩ := rep.cells
  have len := rep.len
  have le := rep.len_le
  have sizes := congrArg List.length cells
  simp only [List.length_append, List.length_map] at sizes
  by_cases full : a.items.length ≤ a.itemsLen
  · have none_left : rest = [] := List.eq_nil_of_length_eq_zero (by omega)
    obtain ⟨newCap, e⟩ : ∃ n, (if a.items.length = 0 then 8 else u32 (a.items.length * 2)) = n := ⟨_, rfl⟩
    have grown : a.grow.items = reallocItems a.items newCap := by
      rw [grow, if_pos full, ← e]
    have below : newCap < 4294967296 := by
      rw [← e]
      split
      · decide
      · exact Nat.mod_lt _ (by decide)
    have total : a.grow.items.length = newCap := by
      rw [grown, reallocItems, List.length_append, List.length_take, List.length_replicate]
      omega
    obtain ⟨n, more⟩ : ∃ n, newCap = a.items.length + (n + 1) := ⟨newCap - a.items.length - 1, by omega⟩
    refine ⟨none, List.replicate n none, ?_, total ▸ below⟩
    rw [grown, more, reallocItems, List.take_of_length_le (Nat.le_add_right _ _), Nat.add_sub_cancel_left, cells,
      none_left, List.append_nil, List.replicate_succ]
  · cases rest with
    | nil =>
      rw [List.length_nil] at sizes
      omega
    | cons c rest =>
      rw [grow, if_neg full]
      exact ⟨c, rest, cells, rep.bound⟩

/-- The buffer has a cell for a new element. -/
lemma Repr.grow_room (rep : a.Repr items) (small : items.length < 2147483648) :
    items.length < a.grow.items.length := by
  have len := rep.len
  have le := rep.len_le
  rw [grow]
  split
  · simp only [reallocItems, List.length_append, List.length_take, List.length_replicate]
    split
    · omega
    · have double : u32 (a.items.length * 2) = a.items.length * 2 := Nat.mod_eq_of_lt (by omega)
      omega
  · omega

lemma Repr.push_grown (rep : a.Repr items) (writable : a.readonly = false)
    (room : items.length < a.grow.items.length) (val : CdoValue ν) :
    ∃ a', a.push val = some (true, a') ∧ a'.Repr (items ++ [val]) ∧ a'.readonly = a.readonly := by
  obtain ⟨c, rest, cells, bound⟩ := rep.grow_spec room
  have write : setItem a.grow.items a.itemsLen (some val) = some (items.map some ++ some val :: rest) := by
    rw [cells, rep.len, ← List.length_map (f := some), setItem_middle]
  refine ⟨{ a with items := items.map some ++ some val :: rest, itemsLen := u32 (a.itemsLen + 1) }, ?_, ?_, rfl⟩
  · simp only [push, writable, write, Bool.false_eq_true, if_false, Option.bind_eq_bind, Option.bind_some]
  · refine ⟨⟨rest, by simp⟩, ?_, ?_⟩
    · rw [rep.len, HashTable.u32_eq (by omega), List.length_append, List.length_singleton]
    · simpa [cells] using bound

lemma Repr.push_spec (rep : a.Repr items) (writable : a.readonly = false) (small : items.length < 2147483648)
    (val : CdoValue ν) : ∃ a', a.push val = some (true, a') ∧ a'.Repr (items ++ [val]) ∧ a'.readonly = a.readonly :=
  rep.push_grown writable (rep.grow_room small) val

lemma Repr.rawgetIdx_spec (rep : a.Repr items) (idx : Nat) : a.rawgetIdx idx = some items[idx]? := by
  rw [rawgetIdx, rep.len]
  by_cases h : idx < items.length
  · rw [if_pos h, rep.cell h, List.getElem?_eq_getElem h]
    rfl
  · rw [if_neg h, List.getElem?_eq_none (Nat.le_of_not_lt h)]

lemma Repr.insert_grown (rep : a.Repr items) (writable : a.readonly = false)
    (room : items.length < a.grow.items.length) (idx : Nat) (val : CdoValue ν) :
    ∃ a', a.insert idx val = some (true, a') ∧ a'.Repr (insertAt items idx val) ∧ a'.readonly = a.readonly := by
  obtain ⟨c, rest, cells, bound⟩ := rep.grow_spec room
  have place : (if a.itemsLen < idx then a.itemsLen else idx) = ((items.take idx).map some).length := by
    rw [List.length_map, List.length_take, rep.len]
    split <;> omega
  have halves : items.map some = (items.take idx).map some ++ (items.drop idx).map some := by
    rw [← List.map_append, List.take_append_drop]
  have total : a.itemsLen = ((items.take idx).map some ++ (items.drop idx).map some).length := by
    rw [← halves, List.length_map, rep.len]
  obtain ⟨x, shift⟩ := shiftRight_spec ((items.take idx).map some) ((items.drop idx).map some) c rest
  rw [← total, ← halves, ← cells] at shift
  refine ⟨{ a with
    items := (items.take idx).map some ++ some val :: ((items.drop idx).map some ++ rest)
    itemsLen := u32 (a.itemsLen + 1) }, ?_, ⟨⟨rest, by simp [insertAt]⟩, ?_, ?_⟩, rfl⟩
  · simp only [insert, writable, place, shift, setItem_middle, Bool.false_eq_true, if_false, Option.bind_eq_bind,
      Option.bind_some]
  · change u32 (a.itemsLen + 1) = _
    rw [rep.len, HashTable.u32_eq (by omega), insertAt, List.length_append, List.length_cons, List.length_take,
      List.length_drop]
    omega
  · have sizes := congrArg List.length cells
    simp only [List.length_append, List.length_map, List.length_cons, List.length_take, List.length_drop] at sizes ⊢
    omega

lemma Repr.insert_spec (rep : a.Repr items) (writable : a.readonly = false) (small : items.length < 2147483648)
    (idx : Nat) (val : CdoValue ν) : ∃ a', a.insert idx val = some (true, a') ∧ a'.Repr (insertAt items idx val) ∧
      a'.readonly = a.readonly :=
  rep.insert_grown writable (rep.grow_room small) idx val

/-- The capacity is made larger than the index; a new cell holds null. -/
lemma Repr.reserve_past (rep : a.Repr items)
    (past : a.items.length ≤ idx → ∃ newCap,
      doubledPast idx 33 (if a.items.length = 0 then 8 else a.items.length) = some newCap ∧ idx < newCap ∧
      newCap < 4294967296) : ∃ rest,
    a.reserve idx = some (items.map some ++ rest) ∧ idx < (items.map some ++ rest).length ∧
    (items.map some ++ rest).length < 4294967296 ∧
    (a.items.length ≤ idx → (items.map some ++ rest)[idx]? = some (some .null)) ∧
    (idx < a.items.length → (items.map some ++ rest)[idx]? = a.items[idx]?) := by
  obtain ⟨rest, cells⟩ := rep.cells
  rw [reserve]
  by_cases more : a.items.length ≤ idx
  · obtain ⟨newCap, doubled, past, below⟩ := past more
    have length : (List.replicate (newCap - a.items.length) (none : Option (CdoValue ν))).length =
        newCap - a.items.length := List.length_replicate
    have filled := fillNull_spec a.items (List.replicate (newCap - a.items.length) none) [] a.items.length
    have upTo : a.items.length + (newCap - a.items.length) = newCap := by omega
    have turns : newCap - a.items.length + (a.items.length + 1) = newCap + 1 := by omega
    rw [length, upTo, turns, List.append_nil, List.append_nil] at filled
    have grown : reallocItems a.items newCap = a.items ++ List.replicate (newCap - a.items.length) none := by
      rw [reallocItems, List.take_of_length_le (by omega)]
    have shape : items.map some ++ (rest ++ List.replicate (newCap - a.items.length) (some .null)) =
        a.items ++ List.replicate (newCap - a.items.length) (some .null) := by rw [cells, List.append_assoc]
    refine ⟨rest ++ List.replicate (newCap - a.items.length) (some .null), ?_⟩
    rw [shape, if_pos more, doubled, Option.bind_eq_bind, Option.bind_some, grown, filled, List.length_append,
      List.length_replicate, upTo]
    refine ⟨rfl, past, below, ?_, ?_⟩
    · intro _
      rw [List.getElem?_append_right more, List.getElem?_replicate, if_pos (by omega)]
    · intro inside
      omega
  · rw [if_neg more]
    refine ⟨rest, congrArg some cells, ?_, ?_, ?_, ?_⟩
    · rw [← cells]
      omega
    · rw [← cells]
      exact rep.bound
    · intro outside
      exact absurd outside more
    · intro _
      rw [cells]

/-- Below 2^31 the doubling ends. -/
lemma Repr.past_of_small (rep : a.Repr items) (small : idx < 2147483648) (_ : a.items.length ≤ idx) : ∃ newCap,
    doubledPast idx 33 (if a.items.length = 0 then 8 else a.items.length) = some newCap ∧ idx < newCap ∧
      newCap < 4294967296 := by
  have bound := rep.bound
  have enough : idx < (if a.items.length = 0 then 8 else a.items.length) * 2 ^ 32 := by
    have pow : (2 : Nat) ^ 32 = 4294967296 := by norm_num
    rw [pow]
    split <;> omega
  have start : (if a.items.length = 0 then 8 else a.items.length) < 4294967296 := by split <;> omega
  exact doubledPast_spec small 32 start enough

lemma Repr.reserve_spec (rep : a.Repr items) (small : idx < 2147483648) : ∃ rest,
    a.reserve idx = some (items.map some ++ rest) ∧ idx < (items.map some ++ rest).length ∧
    (items.map some ++ rest).length < 4294967296 ∧
    (a.items.length ≤ idx → (items.map some ++ rest)[idx]? = some (some .null)) ∧
    (idx < a.items.length → (items.map some ++ rest)[idx]? = a.items[idx]?) :=
  rep.reserve_past (rep.past_of_small small)

/-- A write for which the capacity suffices or can be made to, and that gives nothing up behind the last element. -/
lemma Repr.rawsetIdx_past (rep : a.Repr items) (writable : a.readonly = false)
    (past : a.items.length ≤ idx → ∃ newCap,
      doubledPast idx 33 (if a.items.length = 0 then 8 else a.items.length) = some newCap ∧ idx < newCap ∧
      newCap < 4294967296)
    (fits : idx < items.length ∨ a.items.length ≤ idx ∨ ∃ c, a.items[idx]? = some c ∧ releasable c = true)
    (val : CdoValue ν) : ∃ a', a.rawsetIdx idx val = some (true, a') ∧ a'.Repr (writeAt items idx val) ∧
      a'.readonly = a.readonly := by
  obtain ⟨rest, reserved, past, bound, new, old⟩ := rep.reserve_past past
  by_cases h : idx < items.length
  · -- an element is overwritten
    obtain ⟨l, v, m, rfl, rfl⟩ := exists_middle h
    have within : ¬ a.itemsLen ≤ l.length := by
      rw [rep.len]
      omega
    have inside : l.length < a.itemsLen ∨ releasable (some v) = true := .inl (Nat.lt_of_not_le within)
    have shape : (l ++ v :: m).map some ++ rest = l.map some ++ some v :: (m.map some ++ rest) := by simp
    have read : (l.map some ++ some v :: (m.map some ++ rest))[l.length]? = some (some v) := by
      rw [← List.length_map (f := some), getElem?_middle]
    have write : setItem (l.map some ++ some v :: (m.map some ++ rest)) l.length (some val) =
        some (l.map some ++ some val :: (m.map some ++ rest)) := by
      rw [← List.length_map (f := some), setItem_middle]
    have after : writeAt (l ++ v :: m) l.length val = l ++ val :: m := by
      rw [writeAt, if_pos h]
      simp
    rw [after]
    refine ⟨{ a with items := l.map some ++ some val :: (m.map some ++ rest) }, ?_, ⟨⟨rest, by simp⟩, ?_, ?_⟩, rfl⟩
    · simp only [rawsetIdx, writable, reserved, within, Bool.false_eq_true, if_false, Option.bind_eq_bind,
        Option.bind_some, shape, read, inside, if_true, write]
    · simpa using rep.len
    · simpa using bound
  · -- the list is extended
    have behind : a.itemsLen ≤ idx := rep.len ▸ Nat.le_of_not_lt h
    have offset : idx - items.length < rest.length := by
      rw [List.length_append, List.length_map] at past
      omega
    obtain ⟨m, c, r, rfl, gap⟩ := exists_middle offset
    have filled := fillNull_spec (items.map some) m (c :: r) items.length
    have upTo : items.length + m.length = idx := by omega
    have turns : m.length + (items.length + 1) = idx + 1 := by omega
    rw [List.length_map, upTo, turns, ← rep.len] at filled
    have front : (items.map some ++ List.replicate m.length (some CdoValue.null)).length = idx := by
      simp
      omega
    have shape : items.map some ++ (List.replicate m.length (some .null) ++ c :: r) =
        items.map some ++ List.replicate m.length (some .null) ++ c :: r := (List.append_assoc _ _ _).symm
    have read := getElem?_middle (items.map some ++ List.replicate m.length (some .null)) c r
    have write := setItem_middle (items.map some ++ List.replicate m.length (some .null)) c (some val) r
    rw [front] at read write
    have unread : (items.map some ++ (m ++ c :: r))[idx]? = some c := by
      have here := getElem?_middle (items.map some ++ m) c r
      have len : (items.map some ++ m).length = idx := by
        simp only [List.length_append, List.length_map]
        omega
      rwa [len, List.append_assoc] at here
    have held : idx < a.itemsLen ∨ releasable c = true := by
      right
      rcases fits with inside | outside | ⟨d, cell, plain⟩
      · exact absurd inside h
      · have null := new outside
        rw [unread] at null
        cases null
        rfl
      · have same := old (List.getElem?_eq_some_iff.mp cell).1
        rw [unread, cell] at same
        cases same
        exact plain
    have after : writeAt items idx val = items ++ List.replicate m.length CdoValue.null ++ [val] := by
      rw [writeAt, if_neg h, gap]
    rw [after]
    refine ⟨{ a with
      items := items.map some ++ List.replicate m.length (some .null) ++ some val :: r
      itemsLen := u32 (idx + 1) }, ?_, ⟨⟨r, by simp⟩, ?_, ?_⟩, rfl⟩
    · simp only [rawsetIdx, writable, reserved, behind, Bool.false_eq_true, if_false, if_true, Option.bind_eq_bind,
        Option.bind_some, filled, shape, read, held, write]
    · have next : u32 (idx + 1) = idx + 1 := HashTable.u32_eq (by omega)
      simp only [next, List.length_append, List.length_replicate, List.length_singleton, upTo]
    · simp only [List.length_append, List.length_map, List.length_cons, List.length_replicate] at bound ⊢
      omega

lemma Repr.rawsetIdx_spec (rep : a.Repr items) (writable : a.readonly = false) (small : idx < 2147483648)
    (fits : idx < items.length ∨ a.items.length ≤ idx ∨ ∃ c, a.items[idx]? = some c ∧ releasable c = true)
    (val : CdoValue ν) : ∃ a', a.rawsetIdx idx val = some (true, a') ∧ a'.Repr (writeAt items idx val) ∧
      a'.readonly = a.readonly :=
  rep.rawsetIdx_past writable (rep.past_of_small small) fits val

lemma Repr.remove_spec (rep : a.Repr items) (writable : a.readonly = false) (idx : Nat) : ∃ a',
    a.remove idx = some (items[idx]?, a') ∧ a'.Repr (items.eraseIdx idx) ∧ a'.readonly = a.readonly := by
  by_cases h : idx < items.length
  · obtain ⟨l, v, m, rfl, rfl⟩ := exists_middle h
    obtain ⟨rest, cells⟩ := rep.cells
    have len := rep.len
    rw [List.length_append, List.length_cons] at len
    have cell := rep.cell h
    obtain ⟨x, shift⟩ := shiftLeft_spec (l.map some) (some v) (m.map some) rest l.length
    have turns : (m.map some).length + (l.length + 1) = a.itemsLen := by
      rw [List.length_map]
      omega
    have shape : l.map some ++ some v :: (m.map some ++ rest) = a.items := by simp [cells]
    rw [turns, shape, List.length_map, List.length_map, ← len] at shift
    have inside : ¬ (a.readonly = true ∨ a.itemsLen ≤ l.length) := by
      rw [writable, len]
      simp
    refine ⟨{ a with items := l.map some ++ m.map some ++ x :: rest, itemsLen := u32 (a.itemsLen + 4294967295) },
      ?_, ⟨⟨x :: rest, ?_⟩, ?_, ?_⟩, rfl⟩
    · simp only [remove, inside, cell, shift, if_false, Option.bind_eq_bind, Option.bind_some]
      simp
    · simp [List.eraseIdx_append_of_length_le]
    · have bound := rep.bound
      have le := rep.len_le
      simp only [List.length_append, List.length_cons] at le
      simp only [u32, List.eraseIdx_append_of_length_le, Nat.le_refl, Nat.sub_self, List.eraseIdx_cons_zero,
        List.length_append]
      omega
    · have bound := rep.bound
      simp only [← shape, List.length_append, List.length_map, List.length_cons] at bound ⊢
      omega
  · have outside : a.readonly = true ∨ a.itemsLen ≤ idx := .inr (rep.len ▸ Nat.le_of_not_lt h)
    refine ⟨a, ?_, ?_, rfl⟩
    · rw [remove, if_pos outside, List.getElem?_eq_none (Nat.le_of_not_lt h)]
    · rw [List.eraseIdx_of_length_le (Nat.le_of_not_lt h)]
      exact rep

/-- `arr_pop` on an array that has elements. -/
lemma Repr.pop_spec {val : CdoValue ν} (rep : a.Repr (items ++ [val])) : ∃ a', a.pop = some (val, a') ∧ a'.Repr items ∧
    a'.readonly = a.readonly := by
  have len := rep.len
  have le := rep.len_le
  have bound := rep.bound
  rw [List.length_append, List.length_singleton] at len le
  have last : u32 (a.itemsLen + 4294967295) = items.length := by
    rw [u32]
    omega
  have cell : a.items[items.length]? = some (some val) := by
    have inside : items.length < (items ++ [val]).length := by simp
    simpa using rep.cell inside
  refine ⟨{ a with itemsLen := items.length }, ?_, ⟨?_, rfl, bound⟩, rfl⟩
  · simp only [pop, last, cell, Option.bind_eq_bind, Option.bind_some]
  · obtain ⟨rest, cells⟩ := rep.cells
    exact ⟨some val :: rest, by simp [cells]⟩

end ItemBuffer

end Cando
