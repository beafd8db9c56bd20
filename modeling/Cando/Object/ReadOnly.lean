import Cando.Object.ArrayOps
import Cando.Object.Foreach

/-!
# Readonly objects

The operations of `object/object.c`, `object/array.c`, `lib/object.c`, `lib/array.c` and of the assignment opcodes on an
object or array whose readonly flag is set. Each tests the flag for itself; `arr_pop` does not.
-/

namespace Cando

variable {ν : Type}

/-- The part of a `CdoObject` that can be changed: its fields and its elements. -/
structure Container (ν : Type) where
  kind : ObjectKind := .object
  fields : HashTable ν := {}
  elements : ItemBuffer ν := {}
  deriving DecidableEq, Repr

/-- A source of `object.assign`: no plain object, the target itself, or another object. -/
inductive AssignSource (ν : Type) where
  | other
  | target
  | object (fields : HashTable ν)
  deriving DecidableEq, Repr

/-- The index of an index assignment. -/
inductive IndexValue where
  | number (idx : Nat)
  | string (key : Nat)
  deriving DecidableEq, Repr

/-- An operation that changes an object or array. -/
inductive Mutation (ν : Type) where
  | rawset (key : Nat) (val : CdoValue ν) (flags : Nat)
  | rawdelete (key : Nat)
  | array (op : ArrayOp ν)
  /-- `object.assign` -/
  | assign (sources : List (AssignSource ν))
  /-- `object.set` -/
  | set (key : Nat) (val : CdoValue ν)
  /-- `object.setPrototype`, with `metaIndex` the address of `__index` -/
  | setPrototype (metaIndex : Nat) (proto : CdoValue ν)
  /-- `OP_SET_FIELD`; `handled` where a `__newindex` of the object has taken the assignment -/
  | setField (key : Nat) (val : CdoValue ν) (handled : Bool)
  /-- `OP_SET_INDEX` -/
  | setIndex (idx : IndexValue) (val : CdoValue ν) (handled : Bool)
  deriving DecidableEq, Repr

namespace HashTable

/-- `cdo_object_foreach` on another object with `assign_field`. -/
def assignFrom (target src : HashTable ν) : Option (HashTable ν) :=
  (src.foreach (fun (acc : Option (HashTable ν)) key val _ =>
    (acc.bind fun t => (t.rawset key.address val 0).map (·.2), true)) (some target)).join

/-- `cdo_object_foreach` on the object itself with `assign_field`: each slot comes at most twice, once before and once
after a rehash. -/
def assignSelf (t : HashTable ν) : Option (HashTable ν) :=
  (foreachWriting assignField (2 * t.slots.length + 2) t.fifoHead () t).map (·.2)

/-- `obj_assign`. -/
def assign (t : HashTable ν) : List (AssignSource ν) → Option (HashTable ν)
  | [] => some t
  | .other :: sources => assign t sources
  | .target :: sources => t.assignSelf.bind fun t => assign t sources
  | .object src :: sources => (t.assignFrom src).bind fun t => assign t sources

end HashTable

namespace Container

/-- `cdo_object_set_readonly`. -/
def setReadonly (c : Container ν) (ro : Bool) : Container ν :=
  { c with fields := { c.fields with readonly := ro }, elements := { c.elements with readonly := ro } }

/-- `cdo_object_rawset`. -/
def rawset (c : Container ν) (key : Nat) (val : CdoValue ν) (flags : Nat) : Option (Container ν) :=
  (c.fields.rawset key val flags).map fun r => { c with fields := r.2 }

/-- `cdo_object_rawdelete`. -/
def rawdelete (c : Container ν) (key : Nat) : Option (Container ν) :=
  (c.fields.rawdelete key).map fun r => { c with fields := r.2 }

/-- An operation on the elements. The functions of `object/array.c` assert that they get an array; those of
`lib/array.c` that do not call them test it. -/
def array (c : Container ν) (op : ArrayOp ν) : Option (Container ν) :=
  if c.kind = .array then (c.elements.perform op).map fun r => { c with elements := r.2 }
  else match op with
    | .pop | .splice _ _ => some c
    | _ => none

/-- A write by key, after `__newindex`. -/
def assignKey (c : Container ν) (key : Nat) (val : CdoValue ν) (handled : Bool) : Option (Container ν) := do
  let existing ← (if c.kind = .object then c.fields.rawget key else some none)
  if existing.isNone ∧ handled then some c else c.rawset key val 0

/-- `obj_setPrototype`. -/
def setPrototype (c : Container ν) (metaIndex : Nat) (proto : CdoValue ν) : Option (Container ν) :=
  if c.kind = .object then
    match proto with
    | .null => c.rawdelete metaIndex
    | .object p => c.rawset metaIndex (.object p) 0
    | _ => some c
  else some c

/-- An operation. -/
def perform (c : Container ν) : Mutation ν → Option (Container ν)
  | .rawset key val flags => c.rawset key val flags
  | .rawdelete key => c.rawdelete key
  | .array op => c.array op
  | .assign sources =>
    if c.kind = .object then (c.fields.assign sources).map fun t => { c with fields := t } else some c
  | .set key val => if c.kind = .object then c.rawset key val 0 else some c
  | .setPrototype metaIndex proto => c.setPrototype metaIndex proto
  | .setField key val handled => c.assignKey key val handled
  | .setIndex (.number idx) val _ => c.array (.rawsetIdx idx val)
  | .setIndex (.string key) val handled => c.assignKey key val handled

/-- A sequence of operations. -/
def performAll (c : Container ν) : List (Mutation ν) → Option (Container ν)
  | [] => some c
  | op :: ops => (c.perform op).bind fun c => performAll c ops

/-- The same fields in the same order and the same elements. -/
def SameContents (c c' : Container ν) : Prop :=
  c'.fields.slots = c.fields.slots ∧ c'.fields.fifoHead = c.fields.fifoHead ∧
    c'.fields.fieldCount = c.fields.fieldCount ∧
    c'.elements.contents = c.elements.contents ∧ c'.elements.itemsLen = c.elements.itemsLen

end Container

/-! ### A refused operation -/

section Refused

variable {t t' : HashTable ν} {a a' : ItemBuffer ν}

lemma HashTable.rawset_readonly (ro : t.readonly = true) (key : Nat) (val : CdoValue ν) (flags : Nat) :
    t.rawset key val flags = some (false, t) := if_pos ro

lemma HashTable.rawdelete_readonly (ro : t.readonly = true) (key : Nat) : t.rawdelete key = some (false, t) :=
  if_pos ro

/-- A traversal whose callback keeps what it has been given. -/
lemma HashTable.foreachLoop_keep {β : Type} {slots : List (HashSlot ν)}
    {fn : β → SlotKey → CdoValue ν → Nat → β × Bool} {acc r : β}
      (keep : ∀ key val flags, (fn acc key val flags).1 = acc)
    {turns idx : Nat} (run : foreachLoop slots fn turns idx acc = some r) : r = acc := by
  induction turns generalizing idx with
  | zero => cases run
  | succ turns ih =>
    rw [foreachLoop] at run
    split at run
    · exact (Option.some.inj run).symm
    · obtain ⟨s, -, run⟩ := Option.bind_eq_some_iff.mp run
      have same := keep s.key s.value s.flags
      cases effect : fn acc s.key s.value s.flags with
      | mk acc' cont =>
        rw [effect] at run same
        obtain rfl : acc' = acc := same
        cases cont with
        | true => exact ih run
        | false => exact (Option.some.inj run).symm

lemma HashTable.rawsetAll_readonly (ro : t.readonly = true) (writes : List (Nat × CdoValue ν × Nat)) :
    t.rawsetAll writes = some t := by
  induction writes with
  | nil => rfl
  | cons w writes ih =>
    rw [rawsetAll, rawset_readonly ro]
    exact ih

lemma HashTable.foreachWriting_readonly {β : Type} {fn : WritingFn ν β} (ro : t.readonly = true) {turns idx : Nat}
    {ud : β}
    {r : β × HashTable ν} (run : foreachWriting fn turns idx ud t = some r) : r.2 = t := by
  induction turns generalizing idx ud with
  | zero => cases run
  | succ turns ih =>
    rw [foreachWriting] at run
    split at run
    · cases run
      rfl
    · obtain ⟨s, -, run⟩ := Option.bind_eq_some_iff.mp run
      obtain ⟨u, written, run⟩ := Option.bind_eq_some_iff.mp run
      rw [rawsetAll_readonly ro] at written
      obtain rfl := Option.some.inj written
      split at run
      · exact ih run
      · cases run
        rfl

lemma HashTable.assign_readonly (ro : t.readonly = true) {sources : List (AssignSource ν)}
    (run : t.assign sources = some t') : t' = t := by
  induction sources with
  | nil => exact (Option.some.inj run).symm
  | cons source sources ih =>
    cases source with
    | other => exact ih run
    | target =>
      obtain ⟨u, self, run⟩ := Option.bind_eq_some_iff.mp run
      obtain ⟨r, traversed, rfl⟩ := Option.map_eq_some_iff.mp self
      rw [foreachWriting_readonly ro traversed] at run
      exact ih run
    | object src =>
      obtain ⟨u, copied, run⟩ := Option.bind_eq_some_iff.mp run
      have kept := foreachLoop_keep (fun key val _ => by rw [Option.bind_some, rawset_readonly ro]; rfl)
        (Option.join_eq_some_iff.mp copied)
      rw [Option.some.inj kept] at run
      exact ih run

lemma ItemBuffer.remove_readonly (ro : a.readonly = true) (idx : Nat) : a.remove idx = some (none, a) :=
    if_pos (.inl ro)

lemma ItemBuffer.spliceLoop_readonly (ro : a.readonly = true) {start turns : Nat} {result r : ItemBuffer ν}
    (run : spliceLoop start turns a result = some (a', r)) : a' = a := by
  induction turns with
  | zero =>
    cases run
    rfl
  | succ turns ih =>
    rw [spliceLoop, remove_readonly ro] at run
    exact ih run

/-- A readonly array keeps its elements, unless the last one is popped. -/
lemma ItemBuffer.perform_readonly (ro : a.readonly = true) {op : ArrayOp ν} {result : ArrayResult ν}
    (run : a.perform op = some (result, a')) :
    a' = a ∧ (op = .pop → a.itemsLen = 0) ∨
      op = .pop ∧ a.itemsLen ≠ 0 ∧ a' = { a with itemsLen := u32 (a.itemsLen + 4294967295) } := by
  cases op with
  | push val =>
    rw [perform, push, if_pos ro] at run
    cases run
    exact .inl ⟨rfl, by rintro ⟨⟩⟩
  | insert idx val =>
    rw [perform, insert, if_pos ro] at run
    cases run
    exact .inl ⟨rfl, by rintro ⟨⟩⟩
  | remove idx =>
    rw [perform, remove_readonly ro] at run
    cases run
    exact .inl ⟨rfl, by rintro ⟨⟩⟩
  | rawsetIdx idx val =>
    rw [perform, rawsetIdx, if_pos ro] at run
    cases run
    exact .inl ⟨rfl, by rintro ⟨⟩⟩
  | pop =>
    obtain ⟨⟨val, a₁⟩, popped, e⟩ := Option.map_eq_some_iff.mp run
    cases e
    rw [arrPop] at popped
    split at popped
    · rename_i empty
      cases popped
      exact .inl ⟨rfl, fun _ => empty⟩
    · rename_i some_left
      obtain ⟨cell, -, popped⟩ := Option.bind_eq_some_iff.mp popped
      obtain ⟨out, -, last⟩ := Option.bind_eq_some_iff.mp popped
      cases last
      exact .inr ⟨rfl, some_left, rfl⟩
  | splice start count =>
    obtain ⟨⟨a₁, r⟩, spliced, e⟩ := Option.map_eq_some_iff.mp run
    cases e
    exact .inl ⟨spliceLoop_readonly ro spliced, by rintro ⟨⟩⟩

end Refused

/-! ### A sequence of operations -/

namespace Container

variable {c c' : Container ν}

/-- A readonly object or array after some pops: only the length has become smaller. -/
structure Shrunk (c c' : Container ν) : Prop where
  kind : c'.kind = c.kind
  fields : c'.fields = c.fields
  elements : c'.elements = { c.elements with itemsLen := c'.elements.itemsLen }
  le : c'.elements.itemsLen ≤ c.elements.itemsLen

lemma Shrunk.refl (c : Container ν) : c.Shrunk c := ⟨rfl, rfl, rfl, Nat.le_refl _⟩

lemma Shrunk.trans {c₁ c₂ c₃ : Container ν} (h : c₁.Shrunk c₂) (h' : c₂.Shrunk c₃) : c₁.Shrunk c₃ where
  kind := h'.kind.trans h.kind
  fields := h'.fields.trans h.fields
  elements := by rw [h'.elements, h.elements]
  le := Nat.le_trans h'.le h.le

/-- The readonly flag is set. -/
def Readonly (c : Container ν) : Prop := c.fields.readonly = true ∧ c.elements.readonly = true

lemma Shrunk.readonly (h : c.Shrunk c') (ro : c.Readonly) : c'.Readonly :=
  ⟨h.fields ▸ ro.1, h.elements ▸ ro.2⟩

/-- The operation pops an element. -/
def Pops (c : Container ν) (op : Mutation ν) : Prop :=
  op = .array .pop ∧ c.kind = .array ∧ c.elements.itemsLen ≠ 0

lemma rawset_readonly (ro : c.Readonly) {key flags : Nat} {val : CdoValue ν} (run : c.rawset key val flags = some c') :
    c' = c := by
  rw [rawset, HashTable.rawset_readonly ro.1] at run
  exact (Option.some.inj run).symm

lemma rawdelete_readonly (ro : c.Readonly) {key : Nat} (run : c.rawdelete key = some c') : c' = c := by
  rw [rawdelete, HashTable.rawdelete_readonly ro.1] at run
  exact (Option.some.inj run).symm

lemma assignKey_readonly (ro : c.Readonly) {key : Nat} {val : CdoValue ν} {handled : Bool}
    (run : c.assignKey key val handled = some c') : c' = c := by
  obtain ⟨existing, -, run⟩ := Option.bind_eq_some_iff.mp run
  split at run
  · exact (Option.some.inj run).symm
  · exact rawset_readonly ro run

lemma array_readonly (ro : c.Readonly) {op : ArrayOp ν} (run : c.array op = some c') :
    c' = c ∧ ¬ c.Pops (.array op) ∨ c.Pops (.array op) ∧
      c' = { c with elements := { c.elements with itemsLen := u32 (c.elements.itemsLen + 4294967295) } } := by
  unfold array at run
  by_cases kind : c.kind = .array
  · rw [if_pos kind] at run
    obtain ⟨⟨result, a⟩, performed, rfl⟩ := Option.map_eq_some_iff.mp run
    obtain ⟨same, empty⟩ | ⟨rfl, some_left, same⟩ := ItemBuffer.perform_readonly ro.2 performed
    · obtain rfl : a = c.elements := same
      exact .inl ⟨rfl, fun ⟨e, _, ne⟩ => ne (empty (Mutation.array.inj e))⟩
    · obtain rfl : a = _ := same
      exact .inr ⟨⟨rfl, kind, some_left⟩, rfl⟩
  · rw [if_neg kind] at run
    have kept : c' = c := by
      cases op with
      | pop => exact (Option.some.inj run).symm
      | splice start count => exact (Option.some.inj run).symm
      | _ => cases run
    exact .inl ⟨kept, fun pops => kind pops.2.1⟩

/-- An operation on a readonly object or array does nothing, unless it pops an element. -/
lemma perform_readonly (ro : c.Readonly) {op : Mutation ν} (run : c.perform op = some c') :
    c' = c ∧ ¬ c.Pops op ∨ c.Pops op ∧
      c' = { c with elements := { c.elements with itemsLen := u32 (c.elements.itemsLen + 4294967295) } } := by
  cases op with
  | rawset key val flags => exact .inl ⟨rawset_readonly ro run, fun pops => nomatch pops.1⟩
  | rawdelete key => exact .inl ⟨rawdelete_readonly ro run, fun pops => nomatch pops.1⟩
  | array op => exact array_readonly ro run
  | assign sources =>
    refine .inl ⟨?_, fun pops => nomatch pops.1⟩
    rw [perform] at run
    split at run
    · obtain ⟨t, assigned, rfl⟩ := Option.map_eq_some_iff.mp run
      rw [HashTable.assign_readonly ro.1 assigned]
    · exact (Option.some.inj run).symm
  | set key val =>
    refine .inl ⟨?_, fun pops => nomatch pops.1⟩
    rw [perform] at run
    split at run
    · exact rawset_readonly ro run
    · exact (Option.some.inj run).symm
  | setPrototype metaIndex proto =>
    refine .inl ⟨?_, fun pops => nomatch pops.1⟩
    change c.setPrototype metaIndex proto = some c' at run
    unfold setPrototype at run
    by_cases kind : c.kind = .object
    · rw [if_pos kind] at run
      cases proto with
      | null => exact rawdelete_readonly ro run
      | object p => exact rawset_readonly ro run
      | _ => exact (Option.some.inj run).symm
    · rw [if_neg kind] at run
      exact (Option.some.inj run).symm
  | setField key val handled => exact .inl ⟨assignKey_readonly ro run, fun pops => nomatch pops.1⟩
  | setIndex idx val handled =>
    cases idx with
    | number idx =>
      change c.array (.rawsetIdx idx val) = some c' at run
      obtain ⟨same, -⟩ | ⟨pops, -⟩ := array_readonly ro run
      · exact .inl ⟨same, fun pops => nomatch pops.1⟩
      · cases pops.1
    | string key => exact .inl ⟨assignKey_readonly ro run, fun pops => nomatch pops.1⟩

/-- A sequence of operations on a readonly object or array can only pop elements; it does not if no operation does. -/
lemma performAll_readonly (ro : c.Readonly) (len : c.elements.itemsLen < 4294967296) {ops : List (Mutation ν)}
    (run : c.performAll ops = some c') :
    c.Shrunk c' ∧ (c'.elements.itemsLen = c.elements.itemsLen ↔ ∀ op ∈ ops, ¬ c.Pops op) := by
  induction ops generalizing c with
  | nil =>
    cases run
    exact ⟨.refl _, fun _ _ mem => (List.not_mem_nil mem).elim, fun _ => rfl⟩
  | cons op ops ih =>
    obtain ⟨c₁, first, rest⟩ := Option.bind_eq_some_iff.mp run
    obtain ⟨rfl, quiet⟩ | ⟨pops, rfl⟩ := perform_readonly ro first
    · obtain ⟨shrunk, same_iff⟩ := ih ro len rest
      refine ⟨shrunk, same_iff.trans ⟨fun quiet' => ?_, fun all op mem => all op (List.mem_cons_of_mem _ mem)⟩⟩
      rintro op' (_ | ⟨_, mem⟩)
      · exact quiet
      · exact quiet' op' mem
    · have less : u32 (c.elements.itemsLen + 4294967295) < c.elements.itemsLen := by
        have some_left := pops.2.2
        rw [u32]
        omega
      have once : c.Shrunk { c with elements := { c.elements with itemsLen := u32 (c.elements.itemsLen + 4294967295) }
        } :=
        ⟨rfl, rfl, rfl, Nat.le_of_lt less⟩
      obtain ⟨shrunk, -⟩ := ih (once.readonly ro) (Nat.lt_trans less len) rest
      refine ⟨once.trans shrunk, fun same => ?_, fun quiet => absurd pops (quiet op List.mem_cons_self)⟩
      exact absurd same (Nat.ne_of_lt (Nat.lt_of_le_of_lt shrunk.le less))

/-- After `cdo_object_set_readonly` any sequence of operations leaves the fields, their order, the elements and the
length as they are, if and only if `array.pop` is not among them, or there is no element to pop. -/
theorem readonly_keeps_iff (c : Container ν) (len : c.elements.itemsLen < 4294967296) (ops : List (Mutation ν))
    (run : (c.setReadonly true).performAll ops = some c') :
    c.SameContents c' ↔ (.array .pop ∈ ops → c.kind ≠ .array ∨ c.elements.itemsLen = 0) := by
  obtain ⟨shrunk, same_iff⟩ := performAll_readonly (c := c.setReadonly true) ⟨rfl, rfl⟩ len run
  have quiet_iff : (∀ op ∈ ops, ¬ (c.setReadonly true).Pops op) ↔
      (Mutation.array .pop ∈ ops → c.kind ≠ .array ∨ c.elements.itemsLen = 0) := by
    constructor
    · intro quiet popped
      by_contra left
      rw [not_or, not_not] at left
      exact quiet _ popped ⟨rfl, left.1, left.2⟩
    · rintro harmless op mem ⟨rfl, kind, some_left⟩
      exact (harmless mem).elim (fun other => other kind) some_left
  refine Iff.trans ⟨fun same => same.2.2.2.2, fun same => ?_⟩ (same_iff.trans quiet_iff)
  have fields := shrunk.fields
  have elements := shrunk.elements
  refine ⟨by rw [fields]; rfl, by rw [fields]; rfl, by rw [fields]; rfl, ?_, same⟩
  rw [ItemBuffer.contents, same, elements]
  rfl

/-- A readonly array of two elements and operations that are all refused. -/
theorem readonly_keeps_refused : ∃ c c' : Container Nat, c.elements.contents = [some (.number 1), some .null] ∧
    (c.setReadonly true).performAll [.array (.push .null), .setIndex (.number 5) .null false,
      .array (.splice none none), .setField 64 (.bool true) false] = some c' ∧ c.SameContents c' := by
  have run : (setReadonly { kind := .array, elements := ⟨false, [some (.number 1), some .null], 2⟩ } true).performAll
      [.array (.push .null), .setIndex (.number 5) .null false, .array (.splice none none),
        .setField 64 (.bool true) false] =
      some { kind := .array, fields := { readonly := true },
             elements := ⟨true, [some (.number (1 : Nat)), some .null], 2⟩ } := by decide
  exact ⟨_, _, rfl, run, (readonly_keeps_iff _ (by decide) _ run).mpr (by decide)⟩

/-- A readonly array whose only element is popped. -/
theorem readonly_popped : ¬ ∀ (c : Container Nat) (ops : List (Mutation Nat)) (c' : Container Nat),
    c.elements.itemsLen < 4294967296 → (c.setReadonly true).performAll ops = some c' → c.SameContents c' := by
  intro keeps
  have same := keeps { kind := .array, elements := ⟨false, [some (.number 1)], 1⟩ } [.array .pop] _ (by decide) rfl
  exact absurd same.2.2.2.2 (by decide)

end Container

end Cando
