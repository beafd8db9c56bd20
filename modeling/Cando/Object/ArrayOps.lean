import Cando.Object.ItemBuffer

/-!
# Histories of an array

The operations on an array that change it, with `array.pop` and `array.splice` of `lib/array.c`, against the same
operations on the list of its elements. Over a whole history they agree as long as no write lands behind the last
element on a cell that was never written or holds a stale string; past index 2^31 a write doubles the capacity for
ever.
-/

namespace Cando

variable {ν : Type}

namespace ItemBuffer

/-- The cells of the elements. -/
def contents (a : ItemBuffer ν) : List (Option (CdoValue ν)) := a.items.take a.itemsLen

/-- `arr_pop`. -/
def arrPop (a : ItemBuffer ν) : Option (CdoValue ν × ItemBuffer ν) :=
  if a.itemsLen = 0 then some (.null, a) else a.pop

/-- The loop of `arr_splice`, with the array of the removed elements. -/
def spliceLoop (start : Nat) : (turns : Nat) → (obj result : ItemBuffer ν) →
    Option (ItemBuffer ν × ItemBuffer ν)
  | 0, obj, result => some (obj, result)
  | turns + 1, obj, result => do
    let (removed, obj) ← obj.remove start
    match removed with
    | some val => do
      let (_, result) ← result.push val
      spliceLoop start turns obj result
    | none => spliceLoop start turns obj result

/-- `arr_splice`; an argument that is no number is `none`. -/
def arrSplice (a : ItemBuffer ν) (start count : Option Nat) : Option (ItemBuffer ν × ItemBuffer ν) :=
  let arrLen := a.itemsLen
  let start := start.getD 0
  let start := if arrLen < start then arrLen else start
  let count := match count with
    | some count => if arrLen - start < count then arrLen - start else count
    | none => arrLen - start
  spliceLoop start count a {}

end ItemBuffer

/-- An operation that changes an array. -/
inductive ArrayOp (ν : Type) where
  | push (val : CdoValue ν)
  | insert (idx : Nat) (val : CdoValue ν)
  | remove (idx : Nat)
  | rawsetIdx (idx : Nat) (val : CdoValue ν)
  | pop
  | splice (start count : Option Nat)
  deriving DecidableEq, Repr

/-- What an operation returns. -/
inductive ArrayResult (ν : Type) where
  | done (ok : Bool)
  | removed (val : Option (CdoValue ν))
  | popped (val : CdoValue ν)
  | array (cells : List (Option (CdoValue ν)))
  deriving DecidableEq, Repr

namespace ItemBuffer

/-- An operation on the array. -/
def perform (a : ItemBuffer ν) : ArrayOp ν → Option (ArrayResult ν × ItemBuffer ν)
  | .push val => (a.push val).map fun r => (.done r.1, r.2)
  | .insert idx val => (a.insert idx val).map fun r => (.done r.1, r.2)
  | .remove idx => (a.remove idx).map fun r => (.removed r.1, r.2)
  | .rawsetIdx idx val => (a.rawsetIdx idx val).map fun r => (.done r.1, r.2)
  | .pop => a.arrPop.map fun r => (.popped r.1, r.2)
  | .splice start count => (a.arrSplice start count).map fun r => (.array r.2.contents, r.1)

/-- A history of operations. -/
def history (a : ItemBuffer ν) : List (ArrayOp ν) → Option (List (ArrayResult ν) × ItemBuffer ν)
  | [] => some ([], a)
  | op :: ops => do
    let (result, a) ← a.perform op
    let (results, a) ← history a ops
    some (result :: results, a)

end ItemBuffer

/-! ### The same on a list -/

namespace ArrayOp

/-- An operation on the list of the elements. -/
def onList : ArrayOp ν → List (CdoValue ν) → ArrayResult ν × List (CdoValue ν)
  | .push val, items => (.done true, items ++ [val])
  | .insert idx val, items => (.done true, insertAt items idx val)
  | .remove idx, items => (.removed items[idx]?, items.eraseIdx idx)
  | .rawsetIdx idx val, items => (.done true, writeAt items idx val)
  | .pop, items => (.popped (items.getLastD .null), items.dropLast)
  | .splice start count, items =>
    let rest := items.drop (start.getD 0)
    let removed := rest.take (count.getD rest.length)
    (.array (removed.map some), items.take (start.getD 0) ++ rest.drop (count.getD rest.length))

/-- The length and the index are below 2^31. -/
def Small (items : List (CdoValue ν)) (op : ArrayOp ν) : Prop :=
  items.length < 2147483648 ∧ match op with
    | .insert idx _ | .remove idx | .rawsetIdx idx _ => idx < 2147483648
    | _ => True

/-- Of the cell that a write behind the last element finds there nothing is given up. -/
def Fits (a : ItemBuffer ν) : ArrayOp ν → Prop
  | .rawsetIdx idx _ => idx < a.itemsLen ∨ a.items.length ≤ idx ∨ ∃ c ∈ a.items[idx]?, releasable c = true
  | _ => True

/-- A history on the list. -/
def listHistory (items : List (CdoValue ν)) : List (ArrayOp ν) → List (ArrayResult ν) × List (CdoValue ν)
  | [] => ([], items)
  | op :: ops =>
    let (result, items) := op.onList items
    let (results, items) := listHistory items ops
    (result :: results, items)

/-- Lengths and indices stay below 2^31. -/
def AllSmall (items : List (CdoValue ν)) : List (ArrayOp ν) → Prop
  | [] => True
  | op :: ops => op.Small items ∧ AllSmall (op.onList items).2 ops

/-- Every write of a history finds a cell of which nothing is given up. -/
def AllFit (a : ItemBuffer ν) : List (ArrayOp ν) → Prop
  | [] => True
  | op :: ops => op.Fits a ∧ ∀ r ∈ a.perform op, AllFit r.2 ops

instance (items : List (CdoValue ν)) : (op : ArrayOp ν) → Decidable (op.Small items)
  | .push _ | .pop | .splice _ _ => inferInstanceAs (Decidable (_ ∧ True))
  | .insert _ _ | .remove _ | .rawsetIdx _ _ => inferInstanceAs (Decidable (_ ∧ _))

instance (a : ItemBuffer ν) : (op : ArrayOp ν) → Decidable (op.Fits a)
  | .rawsetIdx _ _ => inferInstanceAs (Decidable (_ ∨ _ ∨ _))
  | .push _ | .insert _ _ | .remove _ | .pop | .splice _ _ => inferInstanceAs (Decidable True)

instance decidableAllSmall : (items : List (CdoValue ν)) → (ops : List (ArrayOp ν)) → Decidable (AllSmall items ops)
  | _, [] => inferInstanceAs (Decidable True)
  | items, op :: ops =>
    have := decidableAllSmall (op.onList items).2 ops
    inferInstanceAs (Decidable (op.Small items ∧ AllSmall (op.onList items).2 ops))

instance decidableAllFit : (a : ItemBuffer ν) → (ops : List (ArrayOp ν)) → Decidable (AllFit a ops)
  | _, [] => inferInstanceAs (Decidable True)
  | a, op :: ops =>
    have := fun a => decidableAllFit a ops
    inferInstanceAs (Decidable (op.Fits a ∧ ∀ r ∈ a.perform op, AllFit r.2 ops))

end ArrayOp

/-! ### One operation -/

section Operations

variable {a : ItemBuffer ν} {items : List (CdoValue ν)}

namespace ItemBuffer

lemma repr_new : ({} : ItemBuffer ν).Repr [] := ⟨⟨[], rfl⟩, rfl, Nat.succ_pos _⟩

lemma Repr.contents_eq (rep : a.Repr items) : a.contents = items.map some := by
  obtain ⟨rest, cells⟩ := rep.cells
  rw [contents, cells, rep.len, ← List.length_map (f := some), List.take_left']
  rfl

/-- `arr_pop`. -/
lemma Repr.arrPop_spec (rep : a.Repr items) : ∃ a', a.arrPop = some (items.getLastD .null, a') ∧
    a'.Repr items.dropLast ∧ a'.readonly = a.readonly := by
  rw [arrPop, rep.len]
  rcases List.eq_nil_or_concat' items with rfl | ⟨front, val, rfl⟩
  · exact ⟨a, rfl, rep, rfl⟩
  · obtain ⟨a', popped, rep', same⟩ := rep.pop_spec
    have some_left : (front ++ [val]).length ≠ 0 := by simp
    refine ⟨a', ?_, ?_, same⟩
    · rw [if_neg some_left, popped, List.getLastD_concat]
    · rwa [List.dropLast_concat]

/-- The removed elements go over, one after the other. -/
lemma Repr.spliceLoop_spec {front done : List (CdoValue ν)} (removed : List (CdoValue ν)) {back : List (CdoValue ν)}
    {result : ItemBuffer ν} (rep : a.Repr (front ++ (removed ++ back))) (writable : a.readonly = false)
    (rep_result : result.Repr done) (writable_result : result.readonly = false)
    (small : done.length + removed.length ≤ 2147483648) : ∃ a' result',
      spliceLoop front.length removed.length a result = some (a', result') ∧ a'.Repr (front ++ back) ∧
      a'.readonly = false ∧ result'.Repr (done ++ removed) := by
  induction removed generalizing a result done with
  | nil =>
    rw [List.nil_append] at rep
    rw [List.append_nil]
    exact ⟨a, result, rfl, rep, writable, rep_result⟩
  | cons val removed ih =>
    rw [List.length_cons] at small
    obtain ⟨a₁, cut, rep₁, same₁⟩ := rep.remove_spec writable front.length
    obtain ⟨result₁, pushed, rep₂, same₂⟩ := rep_result.push_spec writable_result (by omega) val
    have first : (front ++ (val :: removed ++ back))[front.length]? = some val := by simp
    have left : (front ++ (val :: removed ++ back)).eraseIdx front.length = front ++ (removed ++ back) := by
      rw [List.eraseIdx_append_of_length_le (Nat.le_refl _), Nat.sub_self]
      rfl
    rw [first] at cut
    rw [left] at rep₁
    have length : (done ++ [val]).length + removed.length ≤ 2147483648 := by
      rw [List.length_append, List.length_singleton]
      omega
    obtain ⟨a', result', rest, rep', writable', rep_result'⟩ :=
      ih rep₁ (same₁.trans writable) rep₂ (same₂.trans writable_result) length
    refine ⟨a', result', ?_, rep', writable', ?_⟩
    · rw [List.length_cons, spliceLoop]
      simp only [cut, pushed, rest, Option.bind_eq_bind, Option.bind_some]
    · rwa [List.append_assoc, List.singleton_append] at rep_result'

/-- `arr_splice`. -/
lemma Repr.arrSplice_spec (rep : a.Repr items) (writable : a.readonly = false) (small : items.length < 2147483648)
    (start count : Option Nat) : ∃ a' result, a.arrSplice start count = some (a', result) ∧
      a'.Repr (ArrayOp.onList (.splice start count) items).2 ∧ a'.readonly = false ∧
      .array result.contents = (ArrayOp.onList (.splice start count) items).1 := by
  generalize hs : start.getD 0 = s
  generalize hr : items.drop s = rest
  have rest_length : rest.length = items.length - s := hr ▸ List.length_drop
  have place : (if a.itemsLen < s then a.itemsLen else s) = (items.take s).length := by
    rw [List.length_take, rep.len]
    split <;> omega
  have turns : (match count with
      | some count => if a.itemsLen - (items.take s).length < count then a.itemsLen - (items.take s).length else count
      | none => a.itemsLen - (items.take s).length) = (rest.take (count.getD rest.length)).length := by
    cases count with
    | none =>
      simp only [List.length_take, rep.len, Option.getD_none, rest_length]
      omega
    | some count =>
      simp only [List.length_take, rep.len, Option.getD_some, rest_length]
      split <;> omega
  generalize hn : count.getD rest.length = n at turns
  have parts : items = items.take s ++ (rest.take n ++ rest.drop n) := by
    rw [List.take_append_drop, ← hr, List.take_append_drop]
  have fits : ([] : List (CdoValue ν)).length + (rest.take n).length ≤ 2147483648 := by
    rw [List.length_nil, List.length_take]
    omega
  rw [parts] at rep
  obtain ⟨a', result, run, rep', writable', rep_result⟩ :=
    Repr.spliceLoop_spec (rest.take n) rep writable repr_new rfl fits
  refine ⟨a', result, ?_, ?_, writable', ?_⟩
  · simp only [arrSplice, hs, place, turns, run]
  · simp only [ArrayOp.onList, hs, hr, hn]
    exact rep'
  · simp only [ArrayOp.onList, hs, hr, hn]
    rw [rep_result.contents_eq, List.nil_append]

/-- Writing nulls below an index leaves the cell there. -/
lemma fillNull_get {bound turns i j : Nat} {cells cells' : List (Option (CdoValue ν))}
    (filled : fillNull bound turns i cells = some cells') (above : bound ≤ j) : cells'[j]? = cells[j]? := by
  induction turns generalizing i cells with
  | zero => cases filled
  | succ turns ih =>
    rw [fillNull] at filled
    split at filled
    · rename_i more
      obtain ⟨next, written, rest⟩ := Option.bind_eq_some_iff.mp filled
      rw [setItem] at written
      split at written
      · cases written
        rw [ih rest, List.getElem?_set_ne (by omega)]
      · cases written
    · cases filled
      rfl

/-- A write on a cell of which something would be given up. -/
lemma Repr.rawsetIdx_blocked {idx : Nat} (rep : a.Repr items) (writable : a.readonly = false) (small : idx < 2147483648)
    {val : CdoValue ν} (misfit : ¬ ArrayOp.Fits a (.rawsetIdx idx val)) : a.rawsetIdx idx val = none := by
  rw [ArrayOp.Fits, not_or, not_or] at misfit
  obtain ⟨behind, inside, held⟩ := misfit
  obtain ⟨rest, reserved, -, -, -, old⟩ := rep.reserve_spec small
  have cell := old (Nat.lt_of_not_le inside)
  simp only [rawsetIdx, writable, reserved, Nat.le_of_not_lt behind, Bool.false_eq_true, if_false, if_true,
    Option.bind_eq_bind, Option.bind_some]
  cases filled : fillNull idx (idx + 1) a.itemsLen (items.map some ++ rest) with
  | none => rfl
  | some cells =>
    rw [Option.bind_some, fillNull_get filled (Nat.le_refl idx), cell]
    cases found : a.items[idx]? with
    | none => rfl
    | some c =>
      have kept : ¬ (idx < a.itemsLen ∨ releasable c = true) := by
        rintro (inside | free)
        · exact behind inside
        · exact held ⟨c, found, free⟩
      rw [Option.bind_some, if_neg kept]

/-- An operation on the array is the operation on the list. -/
lemma Repr.perform_spec (rep : a.Repr items) (writable : a.readonly = false) {op : ArrayOp ν} (small : op.Small items)
    (fits : op.Fits a) : ∃ a', a.perform op = some ((op.onList items).1, a') ∧ a'.Repr (op.onList items).2 ∧
      a'.readonly = false := by
  cases op with
  | push val =>
    obtain ⟨a', run, rep', same⟩ := rep.push_spec writable small.1 val
    exact ⟨a', by rw [perform, run]; rfl, rep', same.trans writable⟩
  | insert idx val =>
    obtain ⟨a', run, rep', same⟩ := rep.insert_spec writable small.1 idx val
    exact ⟨a', by rw [perform, run]; rfl, rep', same.trans writable⟩
  | remove idx =>
    obtain ⟨a', run, rep', same⟩ := rep.remove_spec writable idx
    exact ⟨a', by rw [perform, run]; rfl, rep', same.trans writable⟩
  | rawsetIdx idx val =>
    rw [ArrayOp.Fits, rep.len] at fits
    obtain ⟨a', run, rep', same⟩ := rep.rawsetIdx_spec writable small.2 fits val
    exact ⟨a', by rw [perform, run]; rfl, rep', same.trans writable⟩
  | pop =>
    obtain ⟨a', run, rep', same⟩ := rep.arrPop_spec
    exact ⟨a', by rw [perform, run]; rfl, rep', same.trans writable⟩
  | splice start count =>
    obtain ⟨a', result, run, rep', same, returned⟩ := rep.arrSplice_spec writable small.1 start count
    exact ⟨a', by rw [perform, run, ← returned]; rfl, rep', same⟩

/-- An operation that is performed has found a cell of which nothing is given up. -/
lemma Repr.fits_of_perform (rep : a.Repr items) (writable : a.readonly = false) {op : ArrayOp ν}
    (small : op.Small items)
    {result : ArrayResult ν} {a' : ItemBuffer ν} (run : a.perform op = some (result, a')) : op.Fits a := by
  cases op with
  | rawsetIdx idx val =>
    by_contra misfit
    rw [perform, rep.rawsetIdx_blocked writable small.2 misfit] at run
    cases run
  | _ => trivial

/-- The operations on an array refine those on the list of its elements: over every history from any writable array
on, with lengths and indices below 2^31, the elements and all results are those of the list, and the length stays
within the capacity, if and only if no write finds a cell behind the last element that was never written or holds a
stale string. -/
theorem history_refines_iff (rep : a.Repr items) (writable : a.readonly = false) (ops : List (ArrayOp ν))
    (small : ArrayOp.AllSmall items ops) :
    (∃ a', a.history ops = some ((ArrayOp.listHistory items ops).1, a') ∧ a'.Repr (ArrayOp.listHistory items ops).2 ∧
      a'.itemsLen ≤ a'.items.length) ↔ ArrayOp.AllFit a ops := by
  induction ops generalizing a items with
  | nil =>
    have within : a.itemsLen ≤ a.items.length := rep.len ▸ rep.len_le
    exact ⟨fun _ => trivial, fun _ => ⟨a, rfl, rep, within⟩⟩
  | cons op ops ih =>
    obtain ⟨now, later⟩ := small
    constructor
    · rintro ⟨a', run, rep', within⟩
      obtain ⟨⟨result, a₁⟩, first, rest⟩ := Option.bind_eq_some_iff.mp run
      have fits := rep.fits_of_perform writable now first
      obtain ⟨a₂, first', rep₁, writable₁⟩ := rep.perform_spec writable now fits
      obtain ⟨-, rfl⟩ := Prod.mk.inj (Option.some.inj (first'.symm.trans first))
      obtain ⟨⟨results, a₃⟩, rest', last⟩ := Option.bind_eq_some_iff.mp rest
      obtain ⟨heads, rfl⟩ := Prod.mk.inj (Option.some.inj last)
      have same : results = (ArrayOp.listHistory (op.onList items).2 ops).1 := (List.cons.inj heads).2
      refine ⟨fits, fun r again => ?_⟩
      obtain rfl := Option.some.inj (first'.symm.trans again)
      exact (ih rep₁ writable₁ later).mp ⟨a₃, same ▸ rest', rep', within⟩
    · rintro ⟨fits, rest⟩
      obtain ⟨a₁, first, rep₁, writable₁⟩ := rep.perform_spec writable now fits
      obtain ⟨a', run, rep', within⟩ := (ih rep₁ writable₁ later).mpr (rest _ first)
      refine ⟨a', ?_, rep', within⟩
      simp only [history, first, run, Option.bind_eq_bind, Option.bind_some, ArrayOp.listHistory]

/-- A history across a growth, with a gap, a pop, a splice and a remove behind the end. -/
theorem history_refines_growth : ∃ a' : ItemBuffer Nat,
    ({} : ItemBuffer Nat).history [.push (.number 1), .insert 5 (.number 2), .rawsetIdx 8 (.number 3), .pop,
      .splice (some 1) (some 2), .remove 6] =
      some ([.done true, .done true, .done true, .popped (.number 3), .array [some (.number 2), some .null],
        .removed none], a') ∧
    a'.Repr [.number 1, .null, .null, .null, .null, .null] ∧ a'.itemsLen ≤ a'.items.length :=
  (history_refines_iff repr_new rfl _ (by decide)).mpr (by decide)

/-- One element, and a write behind it: the cell was never written. -/
theorem history_unwritten : ¬ ∀ ops : List (ArrayOp Nat), ArrayOp.AllSmall [] ops →
    ∃ a', ({} : ItemBuffer Nat).history ops = some ((ArrayOp.listHistory [] ops).1, a') ∧
      a'.Repr (ArrayOp.listHistory [] ops).2 ∧ a'.itemsLen ≤ a'.items.length := by
  intro refines
  obtain ⟨a', run, -⟩ := refines [.push (.number 1), .rawsetIdx 1 (.number 2)] (by decide)
  have stuck : ({} : ItemBuffer Nat).history [.push (.number 1), .rawsetIdx 1 (.number 2)] = none := by decide
  rw [stuck] at run
  cases run

/-! ### Capacities -/

/-- No capacity yet, or eight doubled some times within 32 bits. -/
def Capacity (cap : Nat) : Prop := cap = 0 ∨ ∃ k ≤ 28, cap = 8 * 2 ^ k

lemma Capacity.le {cap : Nat} (h : Capacity cap) : cap ≤ 2147483648 := by
  obtain rfl | ⟨k, le, rfl⟩ := h
  · exact Nat.zero_le _
  · have pow : 2 ^ k ≤ 2 ^ 28 := Nat.pow_le_pow_right (by decide) le
    exact Nat.mul_le_mul_left 8 pow

/-- The doubled capacity, in 32 bits. -/
lemma Capacity.double {cap : Nat} (h : Capacity cap) : Capacity (u32 (cap * 2)) := by
  obtain rfl | ⟨k, le, rfl⟩ := h
  · exact .inl rfl
  · obtain rfl | lt := Nat.eq_or_lt_of_le le
    · exact .inl rfl
    · have pow : 2 ^ (k + 1) ≤ 2 ^ 28 := Nat.pow_le_pow_right (by decide) lt
      have small : 8 * 2 ^ (k + 1) < 4294967296 := Nat.lt_of_le_of_lt (Nat.mul_le_mul_left 8 pow) (by decide)
      refine .inr ⟨k + 1, lt, ?_⟩
      rw [Nat.mul_assoc, ← Nat.pow_succ]
      exact HashTable.u32_eq small

lemma capacity_start {cap : Nat} (h : Capacity cap) : Capacity (if cap = 0 then 8 else cap) := by
  split
  · exact .inr ⟨0, Nat.zero_le _, rfl⟩
  · exact h

lemma Capacity.doubledPast {cap idx turns newCap : Nat} (h : Capacity cap)
    (run : doubledPast idx turns cap = some newCap) : Capacity newCap := by
  induction turns generalizing cap with
  | zero => cases run
  | succ turns ih =>
    rw [Cando.doubledPast] at run
    split at run
    · exact ih h.double run
    · cases run
      exact h

/-- No capacity passes an index from 2^31 on: the loop does not end. -/
lemma Capacity.endless {cap idx : Nat} (h : Capacity cap) (high : 2147483648 ≤ idx) (turns : Nat) :
    Cando.doubledPast idx turns cap = none := by
  induction turns generalizing cap with
  | zero => rfl
  | succ turns ih => rw [Cando.doubledPast, if_pos (Nat.le_trans h.le high), ih h.double]

/-! The loops keep the number of cells. -/

section Lengths

variable {cells cells' : List (Option (CdoValue ν))} {c : Option (CdoValue ν)} {idx i n turns bound : Nat}

lemma setItem_some (h : setItem cells i c = some cells') : i < cells.length ∧ cells'.length = cells.length := by
  rw [setItem] at h
  split at h
  · cases h
    exact ⟨‹_›, List.length_set⟩
  · cases h

lemma shiftRight_length (h : shiftRight idx n cells = some cells') : cells'.length = cells.length := by
  induction n generalizing cells with
  | zero =>
    cases h
    rfl
  | succ n ih =>
    rw [shiftRight] at h
    split at h
    · obtain ⟨c, -, h⟩ := Option.bind_eq_some_iff.mp h
      obtain ⟨next, written, rest⟩ := Option.bind_eq_some_iff.mp h
      exact (ih rest).trans (setItem_some written).2
    · cases h
      rfl

lemma shiftLeft_length (h : shiftLeft n turns i cells = some cells') : cells'.length = cells.length := by
  induction turns generalizing i cells with
  | zero => cases h
  | succ turns ih =>
    rw [shiftLeft] at h
    split at h
    · obtain ⟨c, -, h⟩ := Option.bind_eq_some_iff.mp h
      obtain ⟨next, written, rest⟩ := Option.bind_eq_some_iff.mp h
      exact (ih rest).trans (setItem_some written).2
    · cases h
      rfl

lemma fillNull_length (h : fillNull bound turns i cells = some cells') : cells'.length = cells.length := by
  induction turns generalizing i cells with
  | zero => cases h
  | succ turns ih =>
    rw [fillNull] at h
    split at h
    · obtain ⟨next, written, rest⟩ := Option.bind_eq_some_iff.mp h
      exact (ih rest).trans (setItem_some written).2
    · cases h
      rfl

lemma reallocItems_length : (reallocItems cells n).length = n := by
  rw [reallocItems, List.length_append, List.length_take, List.length_replicate]
  omega

/-- The element shifted last, or the new one, needs a cell behind the others. -/
lemma shiftRight_room (shifted : shiftRight idx n cells = some cells') (le : idx ≤ n) (inside : idx < cells'.length) :
    n < cells.length := by
  cases n with
  | zero =>
    cases shifted
    omega
  | succ n =>
    rw [shiftRight] at shifted
    split at shifted
    · obtain ⟨c, -, shifted⟩ := Option.bind_eq_some_iff.mp shifted
      obtain ⟨next, written, -⟩ := Option.bind_eq_some_iff.mp shifted
      exact (setItem_some written).1
    · cases shifted
      omega

end Lengths

lemma Capacity.grow (cap : Capacity a.items.length) : Capacity a.grow.items.length := by
  rw [ItemBuffer.grow]
  split
  · rw [reallocItems_length]
    split
    · exact .inr ⟨0, Nat.zero_le _, rfl⟩
    · exact cap.double
  · exact cap

/-- A full buffer of 2^31 cells does not grow. -/
lemma Repr.small_of_grow (rep : a.Repr items) (cap : Capacity a.items.length)
    (room : a.itemsLen < a.grow.items.length) : items.length < 2147483648 := by
  have le := cap.le
  have within := rep.len_le
  rw [grow] at room
  split at room
  · rename_i full
    rw [rep.len] at full
    rw [reallocItems_length] at room
    by_contra large
    have two : a.items.length = 2147483648 := by omega
    rw [two] at room
    cases room
  · rw [rep.len] at room
    omega

/-- The buffer holds a list, and its capacity is one of those. -/
def Sound (a : ItemBuffer ν) : Prop := (∃ items, a.Repr items) ∧ Capacity a.items.length

variable {a' : ItemBuffer ν} {ok : Bool} {idx : Nat} {val : CdoValue ν}

lemma Sound.push (sound : a.Sound) (run : a.push val = some (ok, a')) : a'.Sound := by
  obtain ⟨⟨items, rep⟩, cap⟩ := sound
  cases ro : a.readonly with
  | true =>
    rw [ItemBuffer.push, if_pos ro] at run
    cases run
    exact ⟨⟨items, rep⟩, cap⟩
  | false =>
    have step := run
    rw [ItemBuffer.push, if_neg (by simp [ro])] at step
    obtain ⟨cells, written, last⟩ := Option.bind_eq_some_iff.mp step
    obtain ⟨inside, length⟩ := setItem_some written
    obtain ⟨a₁, run₁, rep', -⟩ := rep.push_spec ro (rep.small_of_grow cap inside) val
    obtain ⟨-, rfl⟩ := Prod.mk.inj (Option.some.inj (run₁.symm.trans run))
    cases last
    exact ⟨⟨_, rep'⟩, length ▸ cap.grow⟩

lemma Sound.insert (sound : a.Sound) (run : a.insert idx val = some (ok, a')) : a'.Sound := by
  obtain ⟨⟨items, rep⟩, cap⟩ := sound
  cases ro : a.readonly with
  | true =>
    rw [ItemBuffer.insert, if_pos ro] at run
    cases run
    exact ⟨⟨items, rep⟩, cap⟩
  | false =>
    have step := run
    rw [ItemBuffer.insert, if_neg (by simp [ro])] at step
    obtain ⟨cells, shifted, step⟩ := Option.bind_eq_some_iff.mp step
    obtain ⟨cells', written, last⟩ := Option.bind_eq_some_iff.mp step
    obtain ⟨inside, length⟩ := setItem_some written
    have le : (if a.itemsLen < idx then a.itemsLen else idx) ≤ a.itemsLen := by split <;> omega
    have room := shiftRight_room shifted le inside
    obtain ⟨a₁, run₁, rep', -⟩ := rep.insert_spec ro (rep.small_of_grow cap room) idx val
    obtain ⟨-, rfl⟩ := Prod.mk.inj (Option.some.inj (run₁.symm.trans run))
    cases last
    exact ⟨⟨_, rep'⟩, length ▸ shiftRight_length shifted ▸ cap.grow⟩

lemma Sound.remove {removed : Option (CdoValue ν)} (sound : a.Sound) (run : a.remove idx = some (removed, a')) :
    a'.Sound := by
  obtain ⟨⟨items, rep⟩, cap⟩ := sound
  by_cases refused : a.readonly = true ∨ a.itemsLen ≤ idx
  · rw [ItemBuffer.remove, if_pos refused] at run
    cases run
    exact ⟨⟨items, rep⟩, cap⟩
  · have step := run
    rw [ItemBuffer.remove, if_neg refused] at step
    obtain ⟨cell, -, step⟩ := Option.bind_eq_some_iff.mp step
    obtain ⟨out, -, step⟩ := Option.bind_eq_some_iff.mp step
    obtain ⟨cells, shifted, last⟩ := Option.bind_eq_some_iff.mp step
    have ro : a.readonly = false := by simpa using (not_or.mp refused).1
    obtain ⟨a₁, run₁, rep', -⟩ := rep.remove_spec ro idx
    obtain ⟨-, rfl⟩ := Prod.mk.inj (Option.some.inj (run₁.symm.trans run))
    cases last
    exact ⟨⟨_, rep'⟩, shiftLeft_length shifted ▸ cap⟩

/-- The capacity that is made for an index. -/
lemma Capacity.reserve {cells : List (Option (CdoValue ν))} (cap : Capacity a.items.length)
    (run : a.reserve idx = some cells) : Capacity cells.length ∧ idx < 2147483648 := by
  have le := cap.le
  rw [ItemBuffer.reserve] at run
  split at run
  · obtain ⟨newCap, doubled, filled⟩ := Option.bind_eq_some_iff.mp run
    have start := capacity_start cap
    refine ⟨?_, ?_⟩
    · rw [fillNull_length filled, reallocItems_length]
      exact start.doubledPast doubled
    · by_contra high
      rw [start.endless (Nat.le_of_not_lt high)] at doubled
      cases doubled
  · cases run
    exact ⟨cap, by omega⟩

lemma Sound.rawsetIdx (sound : a.Sound) (run : a.rawsetIdx idx val = some (ok, a')) : a'.Sound := by
  obtain ⟨⟨items, rep⟩, cap⟩ := sound
  cases ro : a.readonly with
  | true =>
    rw [ItemBuffer.rawsetIdx, if_pos ro] at run
    cases run
    exact ⟨⟨items, rep⟩, cap⟩
  | false =>
    have step := run
    rw [ItemBuffer.rawsetIdx, if_neg (by simp [ro])] at step
    obtain ⟨cells, reserved, step⟩ := Option.bind_eq_some_iff.mp step
    obtain ⟨cap', small⟩ := cap.reserve reserved
    obtain ⟨filled, gap, step⟩ := Option.bind_eq_some_iff.mp step
    obtain ⟨old, -, step⟩ := Option.bind_eq_some_iff.mp step
    have fits : ArrayOp.Fits a (.rawsetIdx idx val) := by
      by_contra misfit
      rw [rep.rawsetIdx_blocked ro small misfit] at run
      cases run
    rw [ArrayOp.Fits, rep.len] at fits
    obtain ⟨a₁, run₁, rep', -⟩ := rep.rawsetIdx_spec ro small fits val
    obtain ⟨-, rfl⟩ := Prod.mk.inj (Option.some.inj (run₁.symm.trans run))
    have same : filled.length = cells.length := by
      split at gap
      · exact fillNull_length gap
      · cases gap
        rfl
    split at step
    · obtain ⟨cells', written, last⟩ := Option.bind_eq_some_iff.mp step
      cases last
      exact ⟨⟨_, rep'⟩, (setItem_some written).2.trans same ▸ cap'⟩
    · cases step

lemma Sound.arrPop {popped : CdoValue ν} (sound : a.Sound) (run : a.arrPop = some (popped, a')) : a'.Sound := by
  obtain ⟨⟨items, rep⟩, cap⟩ := sound
  obtain ⟨a₁, run₁, rep', -⟩ := rep.arrPop_spec
  obtain ⟨-, rfl⟩ := Prod.mk.inj (Option.some.inj (run₁.symm.trans run))
  have same : a₁.items = a.items := by
    rw [ItemBuffer.arrPop] at run
    split at run
    · cases run
      rfl
    · obtain ⟨cell, -, step⟩ := Option.bind_eq_some_iff.mp run
      obtain ⟨out, -, last⟩ := Option.bind_eq_some_iff.mp step
      cases last
      rfl
  exact ⟨⟨_, rep'⟩, same ▸ cap⟩

lemma Sound.spliceLoop {start turns : Nat} {result result' : ItemBuffer ν} (sound : a.Sound)
    (run : spliceLoop start turns a result = some (a', result')) : a'.Sound := by
  induction turns generalizing a result with
  | zero =>
    cases run
    exact sound
  | succ turns ih =>
    obtain ⟨⟨removed, a₁⟩, cut, rest⟩ := Option.bind_eq_some_iff.mp run
    cases removed with
    | none => exact ih (sound.remove cut) rest
    | some val =>
      obtain ⟨⟨ok, result₁⟩, -, rest⟩ := Option.bind_eq_some_iff.mp rest
      exact ih (sound.remove cut) rest

lemma Sound.perform {op : ArrayOp ν} {result : ArrayResult ν} (sound : a.Sound)
    (run : a.perform op = some (result, a')) : a'.Sound := by
  cases op with
  | push val =>
    obtain ⟨⟨ok, a₁⟩, done, e⟩ := Option.map_eq_some_iff.mp run
    cases e
    exact sound.push done
  | insert idx val =>
    obtain ⟨⟨ok, a₁⟩, done, e⟩ := Option.map_eq_some_iff.mp run
    cases e
    exact sound.insert done
  | remove idx =>
    obtain ⟨⟨removed, a₁⟩, done, e⟩ := Option.map_eq_some_iff.mp run
    cases e
    exact sound.remove done
  | rawsetIdx idx val =>
    obtain ⟨⟨ok, a₁⟩, done, e⟩ := Option.map_eq_some_iff.mp run
    cases e
    exact sound.rawsetIdx done
  | pop =>
    obtain ⟨⟨popped, a₁⟩, done, e⟩ := Option.map_eq_some_iff.mp run
    cases e
    exact sound.arrPop done
  | splice start count =>
    obtain ⟨⟨a₁, result⟩, done, e⟩ := Option.map_eq_some_iff.mp run
    cases e
    exact sound.spliceLoop done

/-- The arrays that operations make of a new one, with the readonly flag set and cleared in between. -/
inductive Reached : ItemBuffer ν → Prop where
  | new : Reached {}
  | perform {a a' : ItemBuffer ν} {op : ArrayOp ν} {result : ArrayResult ν} (reached : Reached a)
      (run : a.perform op = some (result, a')) : Reached a'
  | setReadonly {a : ItemBuffer ν} (reached : Reached a) (ro : Bool) : Reached { a with readonly := ro }

lemma Reached.sound (reached : Reached a) : a.Sound := by
  induction reached with
  | new => exact ⟨⟨[], repr_new⟩, .inl rfl⟩
  | perform _ run ih => exact ih.perform run
  | setReadonly _ ro ih =>
    obtain ⟨⟨items, rep⟩, cap⟩ := ih
    exact ⟨⟨items, rep.cells, rep.len, rep.bound⟩, cap⟩

/-- When an indexed write comes back. -/
lemma Reached.rawsetIdx_isSome (reached : Reached a) (rep : a.Repr items) (idx : Nat) (val : CdoValue ν) :
    (a.rawsetIdx idx val).isSome ↔
      a.readonly = true ∨ idx < 2147483648 ∧ ArrayOp.Fits a (.rawsetIdx idx val) := by
  obtain ⟨-, cap⟩ := reached.sound
  cases writable : a.readonly with
  | true => simp [ItemBuffer.rawsetIdx, writable]
  | false =>
    constructor
    · intro ended
      obtain ⟨r, run⟩ := Option.isSome_iff_exists.mp ended
      have small : idx < 2147483648 := by
        rw [ItemBuffer.rawsetIdx, if_neg (by simp [writable])] at run
        obtain ⟨cells, reserved, -⟩ := Option.bind_eq_some_iff.mp run
        exact (cap.reserve reserved).2
      refine Or.inr ⟨small, ?_⟩
      by_contra misfit
      rw [rep.rawsetIdx_blocked writable small misfit] at run
      cases run
    · rintro (no | ⟨small, fits⟩)
      · cases no
      · rw [ArrayOp.Fits, rep.len] at fits
        obtain ⟨a', run, -⟩ := rep.rawsetIdx_spec writable small fits val
        rw [run]
        rfl

lemma writeAt_length (items : List (CdoValue ν)) (idx : Nat) (val : CdoValue ν) :
    (writeAt items idx val).length = max items.length (idx + 1) := by
  rw [writeAt]
  split
  · rw [List.length_set]
    omega
  · rw [List.length_append, List.length_append, List.length_replicate, List.length_singleton]
    omega

/-- `cdo_array_rawset_idx` on a writable array and any index: it ends with the list written and its length
`max(len, idx + 1)`, or fails and leaves the array, if and only if the index is below 2^31 and nothing is given up of a
cell that it finds behind the last element; from 2^31 on the loop over the capacities does not end. -/
theorem rawsetIdx_extends_iff (reached : Reached a) (rep : a.Repr items) (writable : a.readonly = false) (idx : Nat)
    (val : CdoValue ν) :
    (((∃ a', a.rawsetIdx idx val = some (true, a') ∧ a'.Repr (writeAt items idx val) ∧
        a'.itemsLen = max items.length (idx + 1)) ∨ a.rawsetIdx idx val = some (false, a)) ↔
      idx < 2147483648 ∧ ArrayOp.Fits a (.rawsetIdx idx val)) ∧
    (2147483648 ≤ idx → a.items.length ≤ idx ∧
      ∀ turns, Cando.doubledPast idx turns (if a.items.length = 0 then 8 else a.items.length) = none) := by
  obtain ⟨-, cap⟩ := reached.sound
  refine ⟨⟨fun ended => ?_, fun ⟨small, fits⟩ => ?_⟩, fun high => ?_⟩
  · obtain ⟨ok, a', run⟩ : ∃ ok a', a.rawsetIdx idx val = some (ok, a') := by
      obtain ⟨a', run, -⟩ | run := ended
      · exact ⟨true, a', run⟩
      · exact ⟨false, a, run⟩
    have small : idx < 2147483648 := by
      rw [ItemBuffer.rawsetIdx, if_neg (by simp [writable])] at run
      obtain ⟨cells, reserved, -⟩ := Option.bind_eq_some_iff.mp run
      exact (cap.reserve reserved).2
    refine ⟨small, ?_⟩
    by_contra misfit
    rw [rep.rawsetIdx_blocked writable small misfit] at run
    cases run
  · rw [ArrayOp.Fits, rep.len] at fits
    obtain ⟨a', run, rep', -⟩ := rep.rawsetIdx_spec writable small fits val
    exact .inl ⟨a', run, rep', rep'.len.trans (writeAt_length items idx val)⟩
  · exact ⟨Nat.le_trans cap.le high, (capacity_start cap).endless high⟩

/-- The third element of a new array. -/
theorem rawsetIdx_extends_new : ∃ a', ({} : ItemBuffer Nat).rawsetIdx 2 (.number 1) = some (true, a') ∧
    a'.Repr [.null, .null, .number 1] ∧ a'.itemsLen = 3 := by
  have ended := (rawsetIdx_extends_iff (ν := Nat) .new repr_new rfl 2 (.number 1)).1.mpr ⟨by decide, by decide⟩
  obtain written | refused := ended
  · exact written
  · exact absurd (congrArg (Option.map Prod.fst) refused) (by decide)

/-- A write at index 2^31 of a new array does not come back. -/
theorem rawsetIdx_endless : ¬ ((∃ a', ({} : ItemBuffer Nat).rawsetIdx 2147483648 (.number 1) = some (true, a') ∧
    a'.Repr (writeAt [] 2147483648 (.number 1)) ∧ a'.itemsLen = max 0 (2147483648 + 1)) ∨
    ({} : ItemBuffer Nat).rawsetIdx 2147483648 (.number 1) = some (false, {})) := by
  have eight : Capacity 8 := .inr ⟨0, Nat.zero_le _, rfl⟩
  have turning : ({} : ItemBuffer Nat).reserve 2147483648 = none := by
    simp only [ItemBuffer.reserve, List.length_nil, Nat.zero_le, if_true, eight.endless (Nat.le_refl _)]
    rfl
  have stuck : ({} : ItemBuffer Nat).rawsetIdx 2147483648 (.number 1) = none := by
    rw [ItemBuffer.rawsetIdx, if_neg Bool.false_ne_true, turning]
    rfl
  rw [stuck]
  rintro (⟨a', run, -⟩ | run) <;> cases run

end ItemBuffer

end Operations

end Cando
