import Cando.Lib.Linearizable
import Cando.Object.ItemBuffer

/-!
# A shared array and a shared object

What threads do at the same time to an array (`object/array.c`, `arr_pop` of `lib/array.c`) and to an object
(`object/object.c`). A step is a locked section or a read without the lock: `arr_pop` tests the length before it takes
the lock, and `cdo_object_foreach` lets the lock go while it passes a slot to the callback. A read through a pointer
into a slot array that has been replaced is undefined.
-/

namespace Cando

variable {ν β : Type}

/-- What the threads share: the elements of the array and the fields of the object. A new slot array has another length
than the old one; `generation` counts them. -/
structure SharedObjects (ν : Type) where
  array : ItemBuffer ν := {}
  table : HashTable ν := {}
  generation : Nat := 0

/-- The operations that are one locked section. -/
inductive LockedOp (ν : Type) where
  | push (val : CdoValue ν)
  | insert (idx : Nat) (val : CdoValue ν)
  | remove (idx : Nat)
  | get (idx : Nat)
  | set (idx : Nat) (val : CdoValue ν)
  | rawset (key : Nat) (val : CdoValue ν) (flags : Nat)
  | rawget (key : Nat)
  | rawdelete (key : Nat)

/-- A `CdoIterFn`, with what it makes of `ud` and whether to go on. -/
abbrev IterFn (ν β : Type) : Type := β → SlotKey → CdoValue ν → Nat → β × Bool

inductive ObjectOp (ν β : Type) where
  | locked (op : LockedOp ν)
  | pop
  | foreach (fn : IterFn ν β) (ud : β)

inductive ObjectResult (ν β : Type) where
  | done (ok : Bool)
  | value (v : Option (CdoValue ν))
  | ended (ud : β)
  deriving DecidableEq, Repr

/-- A place in an operation; a pointer to a slot is its generation and its index. -/
inductive ObjectPc (ν β : Type) where
  | locked (op : LockedOp ν)
  /-- `obj->items_len == 0` -/
  | popTest
  | popSection
  | foreachHead (fn : IterFn ν β) (ud : β)
  /-- `s->key` -/
  | readKey (fn : IterFn ν β) (generation idx next : Nat) (ud : β)
  /-- `s->flags` -/
  | readFlags (fn : IterFn ν β) (generation idx next : Nat) (key : SlotKey) (ud : β)
  /-- the callback, which reads the value -/
  | callback (fn : IterFn ν β) (generation idx next : Nat) (key : SlotKey) (flags : Nat) (ud : β)
  | foreachNext (fn : IterFn ν β) (idx : Nat) (ud : β)
  | foreachStop (ud : β)

namespace SharedObjects

/-- The object after an operation on its fields. -/
def withTable (s : SharedObjects ν) (t : HashTable ν) : SharedObjects ν :=
  { s with
    table := t
    generation := if t.slots.length = s.table.slots.length then s.generation else s.generation + 1 }

/-- An operation that is one locked section. -/
def locked (s : SharedObjects ν) : LockedOp ν → Option (SharedObjects ν × ObjectResult ν β)
  | .push val => (s.array.push val).map fun r => ({ s with array := r.2 }, .done r.1)
  | .insert idx val => (s.array.insert idx val).map fun r => ({ s with array := r.2 }, .done r.1)
  | .remove idx => (s.array.remove idx).map fun r => ({ s with array := r.2 }, .value r.1)
  | .get idx => (s.array.rawgetIdx idx).map fun v => (s, .value v)
  | .set idx val => (s.array.rawsetIdx idx val).map fun r => ({ s with array := r.2 }, .done r.1)
  | .rawset key val flags => (s.table.rawset key val flags).map fun r => (s.withTable r.2, .done r.1)
  | .rawget key => (s.table.rawget key).map fun v => (s, .value v)
  | .rawdelete key => (s.table.rawdelete key).map fun r => (s.withTable r.2, .done r.1)

/-- `*s` for a pointer `s` to a slot. -/
def slotAt (s : SharedObjects ν) (generation idx : Nat) : Option (HashSlot ν) :=
  if generation = s.generation then s.table.slots[idx]? else none

/-- The head of the loop of `cdo_object_foreach`, up to where the lock is released. -/
def foreachTurn (s : SharedObjects ν) (fn : IterFn ν β) (idx : Nat) (ud : β) :
    Option (SharedObjects ν × (ObjectPc ν β ⊕ ObjectResult ν β)) :=
  if idx = noSlot then some (s, .inr (.ended ud))
  else (s.table.slots[idx]?).map fun slot => (s, .inl (.readKey fn s.generation idx slot.fifoNext ud))

def act (s : SharedObjects ν) : ObjectPc ν β → Option (SharedObjects ν × (ObjectPc ν β ⊕ ObjectResult ν β))
  | .locked op => (s.locked op).map fun r => (r.1, .inr r.2)
  | .popTest => some (s, if s.array.itemsLen = 0 then .inr (.value (some .null)) else .inl .popSection)
  | .popSection => s.array.pop.map fun r => ({ s with array := r.2 }, .inr (.value (some r.1)))
  | .foreachHead fn ud => s.foreachTurn fn s.table.fifoHead ud
  | .readKey fn g idx next ud => (s.slotAt g idx).map fun slot => (s, .inl (.readFlags fn g idx next slot.key ud))
  | .readFlags fn g idx next key ud =>
    (s.slotAt g idx).map fun slot => (s, .inl (.callback fn g idx next key slot.flags ud))
  | .callback fn g idx next key flags ud =>
    (s.slotAt g idx).map fun slot =>
      let r := fn ud key slot.value flags
      (s, .inl (if r.2 then .foreachNext fn next r.1 else .foreachStop r.1))
  | .foreachNext fn idx ud => s.foreachTurn fn idx ud
  | .foreachStop ud => some (s, .inr (.ended ud))

end SharedObjects

/-- The operations on the shared array and the shared object. -/
def sharedObjects (ν β : Type) : Sections (SharedObjects ν) (ObjectOp ν β) (ObjectPc ν β) (ObjectResult ν β) where
  enter
    | .locked op => .locked op
    | .pop => .popTest
    | .foreach fn ud => .foreachHead fn ud
  act := SharedObjects.act

/-- What they are for: a list and an insertion-ordered map. -/
structure ListAndMap (ν : Type) where
  readonly : Bool := false
  items : List (CdoValue ν) := []
  fields : FieldMap ν := {}

namespace ListAndMap

def locked (a : ListAndMap ν) : LockedOp ν → ObjectResult ν β × ListAndMap ν
  | .push val => if a.readonly then (.done false, a) else (.done true, { a with items := a.items ++ [val] })
  | .insert idx val =>
    if a.readonly then (.done false, a) else (.done true, { a with items := insertAt a.items idx val })
  | .remove idx =>
    if a.readonly then (.value none, a) else (.value a.items[idx]?, { a with items := a.items.eraseIdx idx })
  | .get idx => (.value a.items[idx]?, a)
  | .set idx val => if a.readonly then (.done false, a) else (.done true, { a with items := writeAt a.items idx val })
  | .rawset key val flags =>
    let r := a.fields.perform (.set key val flags)
    (.done r.1, { a with fields := r.2 })
  | .rawget key => (.value ((OrderedMap.find a.fields.fields key).map (·.1)), a)
  | .rawdelete key =>
    let r := a.fields.perform (.delete key)
    (.done r.1, { a with fields := r.2 })

/-- The list and the map as a sequential object; the list answers null when it is popped empty. -/
def sequential (ν β : Type) : SequentialObject (ListAndMap ν) (ObjectOp ν β) (ObjectResult ν β) where
  apply a
    | .locked op => a.locked op
    | .pop => (.value (some (a.items.getLast?.getD .null)), { a with items := a.items.dropLast })
    | .foreach fn ud => (.ended (FieldMap.foreach fn a.fields.fields ud), a)

end ListAndMap

namespace SharedObjects

/-- The buffer holds the list and the table the map. -/
structure Repr (s : SharedObjects ν) (a : ListAndMap ν) : Prop where
  readonly : s.array.readonly = a.readonly
  array : s.array.Repr a.items
  table : s.table.Repr a.fields

end SharedObjects

/-! ### The steps that do no harm -/

/-- Lengths, indices and capacities are small, and a write behind the last element finds nothing to release. -/
def LockedOp.fits (s : SharedObjects ν) : LockedOp ν → Bool
  | .push _ | .insert _ _ => s.array.readonly || s.array.itemsLen < 2147483648
  | .set idx _ => s.array.readonly || idx < 2147483648 &&
      (idx < s.array.itemsLen || s.array.items.length ≤ idx || (s.array.items[idx]?).any releasable)
  | .rawset _ _ _ | .rawdelete _ => s.table.slots.length < 268435456
  | _ => true

/-- The operation is a write to the fields: a `cdo_object_rawset` of a writable object, or a `cdo_object_rawdelete` of a
field that is there. -/
def LockedOp.writes (t : HashTable ν) : LockedOp ν → Bool
  | .rawset _ _ _ => !t.readonly
  | .rawdelete key => !t.readonly && (t.rawget key).any Option.isSome
  | _ => false

/-- A `cdo_object_foreach` that is still going to read slots. -/
def ObjectPc.visits : ObjectPc ν β → Bool
  | .readKey _ _ _ _ _ | .readFlags _ _ _ _ _ _ | .callback _ _ _ _ _ _ _ => true
  | .foreachNext _ idx _ => idx != noSlot
  | _ => false

/-- The calls on the shared array and the shared object. -/
abbrev ObjectCalls (ν β : Type) : Type := Calls (SharedObjects ν) (ObjectOp ν β) (ObjectPc ν β) (ObjectResult ν β)

/-- No pop takes an element from the empty array, sizes are small, and no field is written while a
`cdo_object_foreach` is on its way. -/
def harmless (S : ObjectCalls ν β) : CallAct (ObjectOp ν β) → Bool
  | .call _ => true
  | .step k => (S.place k).all fun
    | .locked op => op.fits S.shared &&
        !(op.writes S.shared.table && S.calls.any fun c => c.stage.elim ObjectPc.visits fun _ => false)
    | .popSection => S.shared.array.itemsLen != 0
    | _ => true

/-! ### The operations take effect at points -/

namespace SharedObjects

variable {s s' : SharedObjects ν} {a : ListAndMap ν}

lemma Repr.withArray (rep : s.Repr a) {b : ItemBuffer ν} {items : List (CdoValue ν)} (array : b.Repr items)
    (same : b.readonly = s.array.readonly) : Repr { s with array := b } { a with items } :=
  ⟨same.trans rep.readonly, array, rep.table⟩

/-- A write to the array, which a readonly one refuses. -/
lemma Repr.write_spec (rep : s.Repr a) {x : Option (Bool × ItemBuffer ν)} {items : List (CdoValue ν)}
    {y : ObjectResult ν β × ListAndMap ν}
    (expected : y = if a.readonly then (.done false, a) else (.done true, { a with items }))
    (refused : s.array.readonly = true → x = some (false, s.array))
    (written : s.array.readonly = false → ∃ b, x = some (true, b) ∧ b.Repr items ∧ b.readonly = s.array.readonly) :
    ∃ s', x.map (fun r => ({ s with array := r.2 }, .done r.1)) = some (s', y.1) ∧ s'.Repr y.2 := by
  subst expected
  by_cases readonly : a.readonly = true
  · rw [if_pos readonly, refused (rep.readonly.trans readonly)]
    exact ⟨s, rfl, rep⟩
  · rw [if_neg readonly]
    obtain ⟨b, rfl, array, same⟩ := written (rep.readonly.trans (Bool.eq_false_iff.mpr readonly))
    exact ⟨_, rfl, rep.withArray array same⟩

/-- A locked section does what the operation does to the list or the map. -/
lemma Repr.locked_spec (rep : s.Repr a) {op : LockedOp ν} (fits : op.fits s = true) : ∃ s',
    s.locked op = some (s', (a.locked op : ObjectResult ν β × ListAndMap ν).1) ∧
      s'.Repr (a.locked op : ObjectResult ν β × ListAndMap ν).2 := by
  have ⟨ro, array, table⟩ := rep
  have len := array.len
  cases op with
  | push val =>
    apply rep.write_spec rfl
    · intro readonly
      exact if_pos readonly
    · intro writable
      have small : a.items.length < 2147483648 := by simpa [LockedOp.fits, writable, len] using fits
      exact array.push_spec writable small val
  | insert idx val =>
    apply rep.write_spec rfl
    · intro readonly
      exact if_pos readonly
    · intro writable
      have small : a.items.length < 2147483648 := by simpa [LockedOp.fits, writable, len] using fits
      exact array.insert_spec writable small idx val
  | set idx val =>
    apply rep.write_spec rfl
    · intro readonly
      exact if_pos readonly
    · intro writable
      have bounds : idx < 2147483648 ∧ (idx < a.items.length ∨ s.array.items.length ≤ idx ∨
          ∃ c, s.array.items[idx]? = some c ∧ releasable c = true) := by
        simpa [LockedOp.fits, writable, len, Option.any_eq_true, or_assoc] using fits
      exact array.rawsetIdx_spec writable bounds.1 bounds.2 val
  | remove idx =>
    by_cases readonly : a.readonly = true
    · have refused : s.array.remove idx = some (none, s.array) := if_pos (.inl (ro.trans readonly))
      rw [locked, refused, ListAndMap.locked, if_pos readonly]
      exact ⟨s, rfl, rep⟩
    · have writable : s.array.readonly = false := ro.trans (Bool.eq_false_iff.mpr readonly)
      obtain ⟨b, removed, array', same⟩ := array.remove_spec writable idx
      rw [locked, removed, ListAndMap.locked, if_neg readonly]
      exact ⟨_, rfl, rep.withArray array' same⟩
  | get idx =>
    rw [locked, array.rawgetIdx_spec idx]
    exact ⟨s, rfl, rep⟩
  | rawset key val flags =>
    have small : s.table.slots.length < 268435456 := by simpa [LockedOp.fits] using fits
    obtain ⟨t, written, table'⟩ := table.rawset_spec small key val flags
    rw [locked, written]
    exact ⟨_, rfl, ro, array, table'⟩
  | rawget key =>
    obtain ⟨-, order, inv, fields⟩ := table
    have read := inv.rawget_spec key
    rw [fields] at read
    rw [locked, read]
    exact ⟨s, rfl, rep⟩
  | rawdelete key =>
    have small : s.table.slots.length < 268435456 := by simpa [LockedOp.fits] using fits
    obtain ⟨t, deleted, table', -⟩ := table.rawdelete_spec key
    rw [locked, deleted]
    exact ⟨_, rfl, ro, array, table'⟩

/-- What a pointer or an index says is about the same slots. -/
def SameSlots (s s' : SharedObjects ν) : Prop := s'.table.slots = s.table.slots ∧ s'.generation = s.generation

lemma sameSlots_withTable (s : SharedObjects ν) : SameSlots s (s.withTable s.table) := ⟨rfl, if_pos rfl⟩

/-- An operation that does not write the fields leaves the slots as they are. -/
lemma locked_frame {op : LockedOp ν} {r : ObjectResult ν β} (step : s.locked op = some (s', r))
    (reads : op.writes s.table = false) : SameSlots s s' := by
  cases op with
  | push val | insert idx val | set idx val | remove idx | get idx | rawget key =>
    obtain ⟨x, -, e⟩ := Option.map_eq_some_iff.mp step
    cases e
    exact ⟨rfl, rfl⟩
  | rawset key val flags =>
    have readonly : s.table.readonly = true := by simpa [LockedOp.writes] using reads
    have refused : s.table.rawset key val flags = some (false, s.table) := if_pos readonly
    rw [locked, refused] at step
    cases step
    exact s.sameSlots_withTable
  | rawdelete key =>
    by_cases readonly : s.table.readonly = true
    · have refused : s.table.rawdelete key = some (false, s.table) := if_pos readonly
      rw [locked, refused] at step
      cases step
      exact s.sameSlots_withTable
    · have absent : (s.table.rawget key).any Option.isSome = false := by
        simpa [LockedOp.writes, readonly] using reads
      obtain ⟨⟨b, t⟩, deleted, e⟩ := Option.map_eq_some_iff.mp step
      rw [HashTable.rawdelete, if_neg readonly] at deleted
      obtain ⟨⟨found, h⟩, looked, deleted⟩ := Option.bind_eq_some_iff.mp deleted
      cases found with
      | none =>
        cases deleted
        cases e
        exact s.sameSlots_withTable
      | some idx =>
        obtain ⟨slot, here, -⟩ := Option.bind_eq_some_iff.mp deleted
        simp [HashTable.rawget, looked, here] at absent

/-- A step that does not write the fields leaves the slots as they are. -/
lemma act_frame {pc : ObjectPc ν β} {out : ObjectPc ν β ⊕ ObjectResult ν β} (step : s.act pc = some (s', out))
    (reads : ∀ op, pc = .locked op → op.writes s.table = false) : SameSlots s s' := by
  cases pc with
  | locked op =>
    obtain ⟨⟨t, r⟩, locked_step, e⟩ := Option.map_eq_some_iff.mp step
    cases e
    exact locked_frame locked_step (reads op rfl)
  | popTest | foreachStop ud =>
    cases step
    exact ⟨rfl, rfl⟩
  | popSection =>
    obtain ⟨x, -, e⟩ := Option.map_eq_some_iff.mp step
    cases e
    exact ⟨rfl, rfl⟩
  | readKey fn g idx next ud | readFlags fn g idx next key ud | callback fn g idx next key flags ud =>
    obtain ⟨x, -, e⟩ := Option.map_eq_some_iff.mp step
    cases e
    exact ⟨rfl, rfl⟩
  | foreachHead fn ud | foreachNext fn idx ud =>
    simp only [act, foreachTurn] at step
    split at step
    · cases step
      exact ⟨rfl, rfl⟩
    · obtain ⟨x, -, e⟩ := Option.map_eq_some_iff.mp step
      cases e
      exact ⟨rfl, rfl⟩

end SharedObjects

namespace ObjectOp

open HashTable (foreachLoop)

/-- A call that has not taken effect. -/
inductive Opn : ObjectOp ν β → ObjectPc ν β → Prop where
  | locked (op : LockedOp ν) : Opn (.locked op) (.locked op)
  | popTest : Opn .pop .popTest
  | popSection : Opn .pop .popSection
  | foreachHead (fn : IterFn ν β) (ud : β) : Opn (.foreach fn ud) (.foreachHead fn ud)

/-- A `cdo_object_foreach` that took effect at its first section: what is left of its loop ends with the result. -/
inductive Settled (s : SharedObjects ν) : ObjectOp ν β → ObjectPc ν β → ObjectResult ν β → Prop where
  | readKey {fn : IterFn ν β} {ud₀ ud b : β} {turns idx : Nat} {slot : HashSlot ν} (inside : idx ≠ noSlot)
      (here : s.table.slots[idx]? = some slot) (loop : foreachLoop s.table.slots fn turns idx ud = some b) :
      Settled s (.foreach fn ud₀) (.readKey fn s.generation idx slot.fifoNext ud) (.ended b)
  | readFlags {fn : IterFn ν β} {ud₀ ud b : β} {turns idx : Nat} {slot : HashSlot ν} (inside : idx ≠ noSlot)
      (here : s.table.slots[idx]? = some slot) (loop : foreachLoop s.table.slots fn turns idx ud = some b) :
      Settled s (.foreach fn ud₀) (.readFlags fn s.generation idx slot.fifoNext slot.key ud) (.ended b)
  | callback {fn : IterFn ν β} {ud₀ ud b : β} {turns idx : Nat} {slot : HashSlot ν} (inside : idx ≠ noSlot)
      (here : s.table.slots[idx]? = some slot) (loop : foreachLoop s.table.slots fn turns idx ud = some b) :
      Settled s (.foreach fn ud₀) (.callback fn s.generation idx slot.fifoNext slot.key slot.flags ud) (.ended b)
  | foreachNext {fn : IterFn ν β} {ud₀ ud b : β} {turns idx : Nat}
      (loop : foreachLoop s.table.slots fn turns idx ud = some b) :
      Settled s (.foreach fn ud₀) (.foreachNext fn idx ud) (.ended b)
  | foreachStop {fn : IterFn ν β} {ud₀ b : β} : Settled s (.foreach fn ud₀) (.foreachStop b) (.ended b)

variable {s s' : SharedObjects ν} {a : ListAndMap ν} {op : ObjectOp ν β} {pc : ObjectPc ν β} {r : ObjectResult ν β}

/-- The head of the loop of `cdo_object_foreach`. -/
lemma turn_spec {fn : IterFn ν β} (ud₀ : β) {ud b : β} {turns idx : Nat}
    (loop : foreachLoop s.table.slots fn turns idx ud = some b) : ∃ out, s.foreachTurn fn idx ud = some (s, out) ∧
      Promise (Settled s (.foreach fn ud₀)) (.ended b) out := by
  cases turns with
  | zero => cases loop
  | succ turns =>
    by_cases out : idx = noSlot
    · have done : some ud = some b := by simpa [foreachLoop, out] using loop
      cases done
      exact ⟨_, if_pos out, .returns⟩
    · have more := loop
      rw [foreachLoop, if_neg out] at more
      obtain ⟨slot, here, -⟩ := Option.bind_eq_some_iff.mp more
      rw [SharedObjects.foreachTurn, if_neg out, here]
      exact ⟨_, rfl, .goes (.readKey out here loop)⟩

/-- The steps of a `cdo_object_foreach` after its first section. -/
lemma Settled.step (settled : Settled s op pc r) : ∃ out, s.act pc = some (s, out) ∧ Promise (Settled s op) r out := by
  cases settled with
  | @readKey fn ud₀ ud b turns idx slot inside here loop =>
    have read : s.slotAt s.generation idx = some slot := (if_pos rfl).trans here
    rw [SharedObjects.act, read]
    exact ⟨_, rfl, .goes (.readFlags inside here loop)⟩
  | @readFlags fn ud₀ ud b turns idx slot inside here loop =>
    have read : s.slotAt s.generation idx = some slot := (if_pos rfl).trans here
    rw [SharedObjects.act, read]
    exact ⟨_, rfl, .goes (.callback inside here loop)⟩
  | @callback fn ud₀ ud b turns idx slot inside here loop =>
    have read : s.slotAt s.generation idx = some slot := (if_pos rfl).trans here
    rw [SharedObjects.act, read]
    cases turns with
    | zero => cases loop
    | succ turns =>
      rw [foreachLoop, if_neg inside, here] at loop
      by_cases more : (fn ud slot.key slot.value slot.flags).2 = true
      · have rest : foreachLoop s.table.slots fn turns slot.fifoNext (fn ud slot.key slot.value slot.flags).1 =
            some b := by simpa [more] using loop
        refine ⟨_, rfl, ?_⟩
        rw [if_pos more]
        exact .goes (.foreachNext rest)
      · have last : some (fn ud slot.key slot.value slot.flags).1 = some b := by simpa [more] using loop
        cases last
        refine ⟨_, rfl, ?_⟩
        rw [if_neg more]
        exact .goes .foreachStop
  | foreachNext loop => exact turn_spec _ loop
  | foreachStop => exact ⟨_, rfl, .returns⟩

/-- A settled call stays settled while the slots stay as they are, or if it reads no slot again. -/
lemma Settled.frame (settled : Settled s op pc r) (same : pc.visits = true → SharedObjects.SameSlots s s') :
    Settled s' op pc r := by
  cases settled with
  | readKey inside here loop =>
    obtain ⟨slots, generation⟩ := same rfl
    rw [← generation]
    exact .readKey inside (slots ▸ here) (slots ▸ loop)
  | readFlags inside here loop =>
    obtain ⟨slots, generation⟩ := same rfl
    rw [← generation]
    exact .readFlags inside (slots ▸ here) (slots ▸ loop)
  | callback inside here loop =>
    obtain ⟨slots, generation⟩ := same rfl
    rw [← generation]
    exact .callback inside (slots ▸ here) (slots ▸ loop)
  | @foreachNext fn ud₀ ud b turns idx loop =>
    by_cases out : idx = noSlot
    · subst out
      have any_slots : foreachLoop s'.table.slots fn turns noSlot ud = some b := by
        cases turns with
        | zero => cases loop
        | succ turns => exact loop
      exact .foreachNext any_slots
    · obtain ⟨slots, -⟩ := same (bne_iff_ne.mpr out)
      exact .foreachNext (slots ▸ loop)
  | foreachStop => exact .foreachStop

end ObjectOp

section Points

open ObjectOp

variable {S : ObjectCalls ν β} {k j : Nat} {op op' : ObjectOp ν β} {pc pc' : ObjectPc ν β} {a : ListAndMap ν}

/-- A call that has not taken effect goes on or takes effect. -/
lemma opens_spec (admits : harmless S (.step k) = true) (at_ : S.At k op pc) (rep : S.shared.Repr a) (opn : Opn op pc) :
    ∃ s out, S.shared.act pc = some (s, out) ∧
      (s.Repr a ∧ (∃ pc', out = .inl pc' ∧ Opn op pc') ∨
        s.Repr ((ListAndMap.sequential ν β).apply a op).2 ∧
          Promise (Settled s op) ((ListAndMap.sequential ν β).apply a op).1 out) := by
  rw [harmless, at_.place_eq, Option.all_some] at admits
  cases opn with
  | locked op =>
    have fits : op.fits S.shared = true := (Bool.and_eq_true_iff.mp admits).1
    obtain ⟨s, step, rep'⟩ := rep.locked_spec (β := β) fits
    refine ⟨s, _, ?_, .inr ⟨rep', .returns⟩⟩
    rw [SharedObjects.act, step]
    rfl
  | popTest =>
    refine ⟨S.shared, _, rfl, ?_⟩
    by_cases empty : S.shared.array.itemsLen = 0
    · have nil : a.items = [] := List.eq_nil_of_length_eq_zero (rep.array.len.symm.trans empty)
      have answer : (ListAndMap.sequential ν β).apply a .pop = (.value (some .null), a) := by
        simp only [ListAndMap.sequential, nil, List.getLast?_nil, List.dropLast_nil, Option.getD_none]
        rw [← nil]
      rw [if_pos empty, answer]
      exact .inr ⟨rep, .returns⟩
    · rw [if_neg empty]
      exact .inl ⟨rep, _, rfl, .popSection⟩
  | popSection =>
    have nonempty : a.items ≠ [] := by
      intro nil
      rw [← List.length_eq_zero_iff, ← rep.array.len] at nil
      exact absurd nil (bne_iff_ne.mp admits)
    have last := List.dropLast_append_getLast nonempty
    obtain ⟨b, popped, array, same⟩ := (last.symm ▸ rep.array).pop_spec
    refine ⟨{ S.shared with array := b }, .inr (.value (some (a.items.getLast nonempty))), ?_,
      .inr ⟨rep.withArray array same, ?_⟩⟩
    · rw [SharedObjects.act, popped]
      rfl
    · simp only [ListAndMap.sequential, List.getLast?_eq_getLast_of_ne_nil nonempty, Option.getD_some]
      exact .returns
  | foreachHead fn ud =>
    obtain ⟨-, order, inv, fields⟩ := rep.table
    have loop := inv.foreach_spec fn ud
    rw [fields] at loop
    obtain ⟨out, turn, promise⟩ := turn_spec ud loop
    exact ⟨S.shared, out, turn, .inr ⟨rep, promise⟩⟩

/-- The other calls stay as they are. -/
lemma frame_spec {s : SharedObjects ν} {out : ObjectPc ν β ⊕ ObjectResult ν β} {r : ObjectResult ν β}
    (admits : harmless S (.step k) = true) (at_ : S.At k op pc) (step : S.shared.act pc = some (s, out))
    (other : S.At j op' pc') (settled : Settled S.shared op' pc' r) : Settled s op' pc' r := by
  apply settled.frame
  intro visits
  apply SharedObjects.act_frame step
  rintro op rfl
  rw [harmless, at_.place_eq, Option.all_some] at admits
  obtain ⟨c, here, -, stage⟩ := other
  have visited : S.calls.any (fun c => c.stage.elim ObjectPc.visits fun _ => false) = true := by
    refine List.any_eq_true.mpr ⟨c, List.mem_of_getElem? here, ?_⟩
    rw [stage]
    exact visits
  rw [visited] at admits
  have quiet : (!(op.writes S.shared.table && true)) = true := (Bool.and_eq_true_iff.mp admits).2
  simpa using quiet

/-- The calls on a shared array and a shared object take effect at points. -/
def sharedSimulation (ν β : Type) : Simulation (sharedObjects ν β) (ListAndMap.sequential ν β) SharedObjects.Repr
    (fun S act => harmless S act = true) where
  Opn := Opn
  Settled := Settled
  enters := by
    intro op
    cases op with
    | locked op => exact .locked op
    | pop => exact .popTest
    | foreach fn ud => exact .foreachHead fn ud
  opens := opens_spec
  settles := by
    intro S k op pc a r _ _ rep settled
    obtain ⟨out, step, promise⟩ := settled.step
    exact ⟨S.shared, out, step, rep, promise⟩
  frame := by
    intro S k j op op' pc pc' s out r admits at_ step _ other settled
    exact frame_spec admits at_ step other settled

/-- Any number of calls of `push`, `pop`, `insert`, `remove`, indexed get and set on a shared array and of `rawset`,
`rawget`, `rawdelete` and `foreach` on a shared object, whose sections and reads interleave in any order in which no
step does harm: none is undefined, and each call has the effect and the result of the operation on the list or the map
at a point between its beginning and its end. -/
theorem calls_linearizable {s₀ : SharedObjects ν} {a₀ : ListAndMap ν} {as : List (CallAct (ObjectOp ν β))}
    (rep : s₀.Repr a₀)
    (run : (sharedObjects ν β).calls.Run (fun S act => harmless S act = true) { shared := s₀ } as S) :
    Linearizable (ListAndMap.sequential ν β) SharedObjects.Repr a₀ S :=
  (sharedSimulation ν β).linearizable rep run

/-- A callback that lists the keys. -/
def listKeys : IterFn Nat (List Nat) := fun ud key _ _ => (ud ++ [key.address], true)

/-- The array and the object when they are new. -/
lemma repr_new : SharedObjects.Repr ({} : SharedObjects ν) {} :=
  ⟨rfl, ⟨⟨[], rfl⟩, rfl, Nat.succ_pos _⟩, rfl, [], HashTable.inv_new, rfl⟩

/-- While one thread lists the keys, a second pops the empty array, pushes and sets a field, and a third pops. -/
theorem calls_linearizable_overlapping : ∃ S : ObjectCalls Nat (List Nat),
    S.calls.map (·.stage.getRight?) = [some (.done true, 1), some (.ended [64], 16), some (.value (some .null), 5),
      some (.done true, 9), some (.value (some (.bool true)), 15), some (.done true, 14)] ∧
    Linearizable (ListAndMap.sequential Nat (List Nat)) SharedObjects.Repr {} S := by
  have returned : (((sharedObjects Nat (List Nat)).calls.restrict harmless).after { shared := {} }
      [.call (.locked (.rawset 64 .null 0)), .step 0, .call (.foreach listKeys []), .call .pop, .step 1, .step 2,
        .call (.locked (.push (.bool true))), .step 1, .call .pop, .step 3, .step 4, .step 1,
        .call (.locked (.rawset 128 .null 0)), .step 1, .step 5, .step 4, .step 1]).map
      (·.calls.map (·.stage.getRight?)) =
      some [some (.done true, 1), some (.ended [64], 16), some (.value (some .null), 5), some (.done true, 9),
        some (.value (some (.bool true)), 15), some (.done true, 14)] := by decide +kernel
  obtain ⟨S, after, results⟩ := Option.map_eq_some_iff.mp returned
  exact ⟨S, results, calls_linearizable repr_new (.of_restrict after fun _ _ passes => passes)⟩

/-- Two threads pop an array of one element, and both find that it is not empty; the table of an object is replaced
while a `cdo_object_foreach` is on its way; an element is set behind the end, where a cell was never written. -/
theorem shared_calls_undefined :
    (∃ S, (sharedObjects Nat (List Nat)).calls.Run Interleaving.All { shared := {} }
        [.call (.locked (.push .null)), .step 0, .call .pop, .call .pop, .step 1, .step 2, .step 1, .step 2] S ∧
      ¬ Linearizable (ListAndMap.sequential Nat (List Nat)) SharedObjects.Repr {} S) ∧
    (∃ S, (sharedObjects Nat (List Nat)).calls.Run Interleaving.All { shared := {} }
        [.call (.locked (.rawset 1 .null 0)), .step 0, .call (.foreach listKeys []), .step 1,
          .call (.locked (.rawset 2 .null 0)), .step 2, .call (.locked (.rawset 3 .null 0)), .step 3,
          .call (.locked (.rawset 4 .null 0)), .step 4, .call (.locked (.rawset 5 .null 0)), .step 5,
          .call (.locked (.rawset 6 .null 0)), .step 6, .call (.locked (.rawset 7 .null 0)), .step 7, .step 1] S ∧
      ¬ Linearizable (ListAndMap.sequential Nat (List Nat)) SharedObjects.Repr {} S) ∧
    ∃ S, (sharedObjects Nat (List Nat)).calls.Run Interleaving.All { shared := {} }
        [.call (.locked (.push .null)), .step 0, .call (.locked (.set 2 .null)), .step 1] S ∧
      ¬ Linearizable (ListAndMap.sequential Nat (List Nat)) SharedObjects.Repr {} S := by
  refine ⟨?_, ?_, ?_⟩
  · apply exists_not_linearizable
    decide
  · apply exists_not_linearizable
    decide +kernel
  · apply exists_not_linearizable
    decide

end Points

end Cando
