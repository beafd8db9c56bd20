import Cando.Object.ReadOnly

/-!
# References to strings

The containers of `object/object.c` and `object/array.c` keep a reference to each `CdoString` that a field or an
element holds; callers have references of their own. Which strings a write retains and releases, and in which order,
is told here beside what it does to the container. A container that releases only what it holds, and nothing that the
same call is about to retain, leaves every string with a count that covers the cells it is in.

The payload of a string value stands in this module for the address of its `CdoString`: two strings with the same
characters may be two blocks.
-/

namespace Cando

variable {ν : Type}

/-- A value refers to the string. -/
def CdoValue.refersTo (s : Str) : CdoValue ν → Bool
  | .string t => t == s
  | _ => false

/-- A place in a container that keeps a reference. -/
inductive RefCell where
  | field (key : Nat)
  | element (idx : Nat)
  deriving DecidableEq, Repr

/-- What a container does to a reference count. A release of a cell that was never written names no string. -/
inductive RefAction where
  | retain (s : Str)
  | release (cell : RefCell) (s : Option Str)
  deriving DecidableEq, Repr

/-- `cdo_value_copy`. -/
def copyActions : CdoValue ν → List RefAction
  | .string s => [.retain s]
  | _ => []

/-- `cdo_value_release` of what a cell holds. -/
def releaseActions (cell : RefCell) : Option (CdoValue ν) → List RefAction
  | none => [.release cell none]
  | some (.string s) => [.release cell (some s)]
  | some _ => []

/-- The reference counts of the strings; 0 where there is none. -/
abbrev StringCounts := Str → Nat

namespace StringCounts

/-- `cdo_string_retain` and `cdo_string_release`; `none` on a string that was freed. -/
def act (refs : StringCounts) : RefAction → Option StringCounts
  | .retain s => if refs s = 0 then none else some (Function.update refs s (refs s + 1))
  | .release _ (some s) => if refs s = 0 then none else some (Function.update refs s (refs s - 1))
  | .release _ none => none

def actAll (refs : StringCounts) : List RefAction → Option StringCounts
  | [] => some refs
  | action :: actions => (refs.act action).bind fun refs => actAll refs actions

end StringCounts

/-! ### The references of one container -/

namespace HashTable

/-- What `cdo_object_rawset` retains and releases. -/
def rawsetActions (t : HashTable ν) (key : Nat) (val : CdoValue ν) : Option (List RefAction) :=
  if t.readonly then some []
  else do
    let t ← t.ensureCapacity
    let (found, _) ← t.lookup key
    match found with
    | some idx => do
      let s ← t.slots[idx]?
      if isStatic s.flags then some []
      else some (releaseActions (.field key) (some s.value) ++ copyActions val)
    | none => some (copyActions val)

/-- What `cdo_object_rawdelete` releases. -/
def rawdeleteActions (t : HashTable ν) (key : Nat) : Option (List RefAction) :=
  if t.readonly then some []
  else do
    let (found, _) ← t.lookup key
    match found with
    | some idx => do
      let s ← t.slots[idx]?
      if isStatic s.flags then some [] else some (releaseActions (.field key) (some s.value))
    | none => some []

/-- The fields that hold the string. -/
def held (t : HashTable ν) (s : Str) : Nat := t.slots.countP fun slot => slot.key.isString && slot.value.refersTo s

end HashTable

namespace ItemBuffer

/-- `cdo_array_rawset_idx`, with what it retains and releases: the old content of the cell goes first, whatever it is.
-/
def writeIdx (a : ItemBuffer ν) (idx : Nat) (val : CdoValue ν) : Option (List RefAction × ItemBuffer ν) :=
  if a.readonly then some ([], a)
  else do
    let items ← a.reserve idx
    let items ← (if a.itemsLen ≤ idx then fillNull idx (idx + 1) a.itemsLen items else some items)
    let old ← items[idx]?
    let items ← setItem items idx (some val)
    some (releaseActions (.element idx) old ++ copyActions val,
      { a with items, itemsLen := if a.itemsLen ≤ idx then u32 (idx + 1) else a.itemsLen })

/-- `cdo_array_remove`: the element is handed to the caller if it gave a place for it, and released else. -/
def removeActions (a : ItemBuffer ν) (idx : Nat) (out : Bool) : List RefAction :=
  if a.readonly ∨ a.itemsLen ≤ idx ∨ out then [] else releaseActions (.element idx) a.items[idx]?.join

/-- The elements that hold the string. -/
def held (a : ItemBuffer ν) (s : Str) : Nat :=
  (a.items.take a.itemsLen).countP fun cell => cell.any (CdoValue.refersTo s)

end ItemBuffer

/-- A call of the object layer on one container. -/
inductive RefCall (ν : Type) where
  | rawset (key : Nat) (val : CdoValue ν) (flags : Nat)
  | rawdelete (key : Nat)
  | push (val : CdoValue ν)
  | insert (idx : Nat) (val : CdoValue ν)
  | remove (idx : Nat) (out : Bool)
  | rawsetIdx (idx : Nat) (val : CdoValue ν)
  | pop
  deriving DecidableEq, Repr

/-- The value that a call stores. -/
def RefCall.stored : RefCall ν → Option (CdoValue ν)
  | .rawset _ val _ | .push val | .insert _ val | .rawsetIdx _ val => some val
  | .rawdelete _ | .remove _ _ | .pop => none

namespace Container

/-- The array functions assert their container's kind. -/
def onArray (c : Container ν) (f : ItemBuffer ν → Option (List RefAction × ItemBuffer ν)) :
    Option (List RefAction × Container ν) :=
  if c.kind = .array then (f c.elements).map fun r => (r.1, { c with elements := r.2 }) else none

/-- A call, with what it retains and releases in the order of the source. -/
def call (c : Container ν) : RefCall ν → Option (List RefAction × Container ν)
  | .rawset key val flags => do
    let actions ← c.fields.rawsetActions key val
    let (_, fields) ← c.fields.rawset key val flags
    some (actions, { c with fields })
  | .rawdelete key => do
    let actions ← c.fields.rawdeleteActions key
    let (_, fields) ← c.fields.rawdelete key
    some (actions, { c with fields })
  | .push val => c.onArray fun a => (a.push val).map fun r => (if a.readonly then [] else copyActions val, r.2)
  | .insert idx val =>
    c.onArray fun a => (a.insert idx val).map fun r => (if a.readonly then [] else copyActions val, r.2)
  | .remove idx out => c.onArray fun a => (a.remove idx).map fun r => (a.removeActions idx out, r.2)
  | .rawsetIdx idx val => c.onArray fun a => a.writeIdx idx val
  | .pop => c.onArray fun a => a.arrPop.map fun r => ([], r.2)

/-- The cells of a container that hold the string. -/
def held (c : Container ν) (s : Str) : Nat := c.fields.held s + c.elements.held s

/-- A cell of the container holds the string: a field that is there, or an element below the length. -/
def Holds (c : Container ν) (s : Str) : RefCell → Prop
  | .field key => c.fields.rawget key = some (some (.string s))
  | .element idx => idx < c.elements.itemsLen ∧ c.elements.items[idx]? = some (some (.string s))

/-- The actions of a call release only what the container holds when the call starts, and not the string that the call
stores before that is retained. -/
def Disciplined (c : Container ν) (call : RefCall ν) (actions : List RefAction) : Prop :=
  ∀ before cell s after, actions = before ++ .release cell s :: after →
    ∃ t, s = some t ∧ c.Holds t cell ∧ (call.stored = some (.string t) → .retain t ∈ before)

/-- The condition on a call: a field or element that is overwritten does not hold the very string that is stored, and a
write from the length to below the capacity finds a cell that was written and holds no string. -/
def Fits (c : Container ν) : RefCall ν → Prop
  | .rawset key val _ => c.fields.readonly = true ∨ ∀ slot ∈ c.fields.slots, slot.key = .string key →
      isStatic slot.flags = true ∨ ∀ s, slot.value = .string s → val ≠ .string s
  | .rawsetIdx idx val => c.elements.readonly = true ∨ c.elements.items.length ≤ idx ∨
      ∃ cell, c.elements.items[idx]? = some (some cell) ∧
        ∀ s, cell = .string s → idx < c.elements.itemsLen ∧ val ≠ .string s
  | _ => True

end Container

/-! ### The heap -/

/-- The containers, and the counts of all strings. -/
structure RefHeap (ν : Type) where
  objs : List (Container ν) := []
  refs : StringCounts := fun _ => 0

/-- A call on the heap. -/
inductive HeapCall (ν : Type) where
  /-- `cdo_object_new` and its kin -/
  | create (kind : ObjectKind)
  /-- `cdo_string_new`: the caller has the one reference -/
  | string (s : Str)
  /-- a caller gives up a reference of its own -/
  | drop (s : Str)
  /-- `cdo_object_set_readonly` -/
  | setReadonly (i : Nat) (ro : Bool)
  | on (i : Nat) (call : RefCall ν)
  /-- `assign_field`, called back by `cdo_object_foreach` with slot `idx` of container `src` -/
  | copyField (dest src idx : Nat)
  deriving DecidableEq, Repr

namespace RefHeap

/-- A call on one container. -/
def callOn (w : RefHeap ν) (i : Nat) (call : RefCall ν) : Option (RefHeap ν) := do
  let c ← w.objs[i]?
  let (actions, c) ← c.call call
  let refs ← w.refs.actAll actions
  some { objs := w.objs.set i c, refs }

/-- What `assign_field` calls for a slot; a slot without a key fails its assertion. -/
def fieldCall (w : RefHeap ν) (src idx : Nat) : Option (RefCall ν) := do
  let c ← w.objs[src]?
  let s ← c.fields.slots[idx]?
  match s.key with
  | .string key => some (.rawset key s.value 0)
  | _ => none

/-- The container of a call and the call on it. -/
def target (w : RefHeap ν) : HeapCall ν → Option (Nat × RefCall ν)
  | .on i call => some (i, call)
  | .copyField dest src idx => (w.fieldCall src idx).map fun call => (dest, call)
  | _ => none

def perform (w : RefHeap ν) (call : HeapCall ν) : Option (RefHeap ν) :=
  match call with
  | .create kind => some { w with objs := w.objs ++ [{ kind }] }
  | .string s => if w.refs s = 0 then some { w with refs := Function.update w.refs s 1 } else none
  | .drop s => some { w with refs := Function.update w.refs s (w.refs s - 1) }
  | .setReadonly i ro => (w.objs[i]?).map fun c => { w with objs := w.objs.set i (c.setReadonly ro) }
  | .on _ _ | .copyField _ _ _ => (w.target call).bind fun t => w.callOn t.1 t.2

/-- The cells that hold the string. -/
def held (w : RefHeap ν) (s : Str) : Nat := (w.objs.map (·.held s)).sum

/-- Every string's count covers the cells it is in. -/
def Counted (w : RefHeap ν) : Prop := ∀ s, w.held s ≤ w.refs s

/-- What callers answer for: a string that is passed exists, and a reference that is given up is the caller's own. -/
def Given (w : RefHeap ν) : HeapCall ν → Prop
  | .drop s => w.held s < w.refs s
  | .on _ call => ∀ s, call.stored = some (.string s) → w.refs s ≠ 0
  | _ => True

/-- The condition on a call. -/
def Fits (w : RefHeap ν) (call : HeapCall ν) : Prop :=
  ∀ i rc c, w.target call = some (i, rc) → w.objs[i]? = some c → c.Fits rc

/-- A history of calls that meet the condition, from the empty heap. -/
inductive Fitting : List (HeapCall ν) → RefHeap ν → Prop where
  | start : Fitting [] {}
  | step {calls : List (HeapCall ν)} {w w' : RefHeap ν} {call : HeapCall ν} : Fitting calls w → w.Given call →
      w.Fits call → w.perform call = some w' → Fitting (calls ++ [call]) w'

/-- The loop of `cdo_object_foreach` with `assign_field`, from slot `idx` of the source on, with the calls it makes. -/
def assignLoop (dest src : Nat) : (turns idx : Nat) → RefHeap ν → Option (List (HeapCall ν) × RefHeap ν)
  | 0, _, _ => none
  | turns + 1, idx, w =>
    if idx = noSlot then some ([], w)
    else do
      let c ← w.objs[src]?
      let s ← c.fields.slots[idx]?
      let w ← w.perform (.copyField dest src idx)
      let (calls, w) ← assignLoop dest src turns s.fifoNext w
      some (.copyField dest src idx :: calls, w)

/-- `obj_assign`; a source that is no plain object is passed over. -/
def assign (w : RefHeap ν) (dest : Nat) : List Nat → Option (List (HeapCall ν) × RefHeap ν)
  | [] => some ([], w)
  | src :: sources => do
    let c ← w.objs[src]?
    let (first, w) ← (if c.kind = .object then
      assignLoop dest src (2 * c.fields.slots.length + 2) c.fields.fifoHead w else some ([], w))
    let (rest, w) ← assign w dest sources
    some (first ++ rest, w)

/-- Calls one after the other. -/
def performAll (w : RefHeap ν) : List (HeapCall ν) → Option (RefHeap ν)
  | [] => some w
  | call :: calls => (w.perform call).bind fun w => performAll w calls

end RefHeap

/-! ### A release and a retain -/

/-- The actions of a write: what it releases, then what it retains. -/
def swapActions (rel : Option (RefCell × Str)) (ret : Option Str) : List RefAction :=
  rel.toList.map (fun r => .release r.1 (some r.2)) ++ ret.toList.map .retain

/-- The string of a value. -/
def CdoValue.string? : CdoValue ν → Option Str
  | .string s => some s
  | _ => none

/-- An optional string is the given one. -/
def hits (s : Str) (o : Option Str) : Nat := if o = some s then 1 else 0

section Swap

variable {refs refs' : StringCounts} {rel : Option (RefCell × Str)} {ret : Option Str} {s : Str}

lemma copyActions_eq (v : CdoValue ν) : copyActions v = swapActions none v.string? := by
  cases v <;> rfl

lemma releaseActions_eq (cell : RefCell) (v : CdoValue ν) :
    releaseActions cell (some v) = swapActions (v.string?.map fun s => (cell, s)) none := by
  cases v <;> rfl

lemma swapActions_append (rel : Option (RefCell × Str)) (ret : Option Str) :
    swapActions rel none ++ swapActions none ret = swapActions rel ret := by
  simp [swapActions]

lemma refersTo_toNat (v : CdoValue ν) (s : Str) : (v.refersTo s).toNat = hits s v.string? := by
  cases v with
  | string t =>
    by_cases same : t = s
    · simp [CdoValue.refersTo, hits, CdoValue.string?, same]
    · simp [CdoValue.refersTo, hits, CdoValue.string?, same]
  | _ => rfl

/-- The release in a write comes first. -/
lemma release_mem_swap {before after : List RefAction} {cell : RefCell} {o : Option Str}
    (split : swapActions rel ret = before ++ .release cell o :: after) :
    ∃ t, rel = some (cell, t) ∧ o = some t ∧ before = [] := by
  rcases rel with _ | ⟨cell', t⟩
  · -- without a release there is at most a retain
    have mem : RefAction.release cell o ∈ swapActions none ret := by
      rw [split]
      simp
    simp [swapActions] at mem
  · cases before with
    | nil =>
      simp only [swapActions, Option.toList_some, List.map_cons, List.map_nil, List.singleton_append, List.nil_append,
        List.cons.injEq, RefAction.release.injEq] at split
      obtain ⟨⟨rfl, rfl⟩, -⟩ := split
      exact ⟨t, rfl, rfl, rfl⟩
    | cons first before =>
      simp only [swapActions, Option.toList_some, List.map_cons, List.map_nil, List.cons_append, List.nil_append,
        List.cons.injEq] at split
      have mem : RefAction.release cell o ∈ ret.toList.map RefAction.retain := by
        rw [split.2]
        simp
      simp at mem

/-- What one action does to the counts. -/
lemma act_some {action : RefAction} (run : refs.act action = some refs') :
    (∃ t, action = .retain t ∧ refs t ≠ 0 ∧ refs' = Function.update refs t (refs t + 1)) ∨
    ∃ cell t, action = .release cell (some t) ∧ refs t ≠ 0 ∧ refs' = Function.update refs t (refs t - 1) := by
  cases action with
  | retain t =>
    rw [StringCounts.act] at run
    split at run
    · cases run
    · rename_i alive
      exact .inl ⟨t, rfl, alive, (Option.some.inj run).symm⟩
  | release cell o =>
    cases o with
    | none => cases run
    | some t =>
      rw [StringCounts.act] at run
      split at run
      · cases run
      · rename_i alive
        exact .inr ⟨cell, t, rfl, alive, (Option.some.inj run).symm⟩

lemma hits_self : hits s (some s) = 1 := if_pos rfl

lemma hits_other {t : Str} (ne : t ≠ s) : hits s (some t) = 0 := if_neg fun e => ne (Option.some.inj e)

lemma act_retain {t : Str} (run : refs.act (.retain t) = some refs') : refs' s = refs s + hits s (some t) := by
  obtain ⟨u, e, -, rfl⟩ | ⟨cell, u, e, -⟩ := act_some run
  · cases e
    by_cases same : t = s
    · rw [same, Function.update_self, hits_self]
    · rw [Function.update_of_ne (Ne.symm same), hits_other same, Nat.add_zero]
  · cases e

lemma act_release {t : Str} {cell : RefCell} (run : refs.act (.release cell (some t)) = some refs') :
    refs' s + hits s (some t) = refs s := by
  obtain ⟨u, e, -⟩ | ⟨cell', u, e, alive, rfl⟩ := act_some run
  · cases e
  · cases e
    by_cases same : t = s
    · rw [← same, Function.update_self, hits_self]
      exact Nat.sub_add_cancel (Nat.pos_of_ne_zero alive)
    · rw [Function.update_of_ne (Ne.symm same), hits_other same, Nat.add_zero]

/-- A write changes the counts by what it releases and retains. -/
lemma actAll_swap (run : refs.actAll (swapActions rel ret) = some refs') (s : Str) :
    refs' s + hits s (rel.map (·.2)) = refs s + hits s ret := by
  have retained : ∀ refs₁ : StringCounts, refs₁.actAll (swapActions none ret) = some refs' →
      refs' s = refs₁ s + hits s ret := by
    intro refs₁ run
    cases ret with
    | none =>
      cases run
      rfl
    | some t =>
      obtain ⟨refs₂, first, rest⟩ := Option.bind_eq_some_iff.mp run
      cases rest
      exact act_retain first
  cases rel with
  | none => exact retained refs run
  | some r =>
    obtain ⟨refs₁, first, rest⟩ := Option.bind_eq_some_iff.mp run
    have after := retained refs₁ rest
    have before := act_release (s := s) first
    rw [Option.map_some]
    omega

/-- A write goes through if the strings exist, and the one that is stored is not the one released. -/
lemma actAll_swap_isSome (held : ∀ r ∈ rel, refs r.2 ≠ 0) (given : ∀ t ∈ ret, refs t ≠ 0)
    (apart : ∀ r ∈ rel, ret ≠ some r.2) : (refs.actAll (swapActions rel ret)).isSome := by
  have retained : ∀ refs₁ : StringCounts, (∀ t ∈ ret, refs₁ t ≠ 0) →
      (refs₁.actAll (swapActions none ret)).isSome := by
    intro refs₁ given
    cases ret with
    | none => rfl
    | some t => simp [swapActions, StringCounts.actAll, StringCounts.act, given t rfl]
  cases rel with
  | none => exact retained refs given
  | some r =>
    have alive := held r rfl
    have first : refs.act (.release r.1 (some r.2)) = some (Function.update refs r.2 (refs r.2 - 1)) := if_neg alive
    have rest := retained (Function.update refs r.2 (refs r.2 - 1)) fun t stored => by
      have ne : t ≠ r.2 := by
        rintro rfl
        exact apart r rfl stored
      rw [Function.update_of_ne ne]
      exact given t stored
    rw [← swapActions_append]
    simp only [swapActions, Option.toList_some, List.map_cons, List.map_nil, List.cons_append, List.nil_append,
      Option.toList_none, StringCounts.actAll, first, Option.bind_some] at rest ⊢
    exact rest

end Swap

/-! ### The fields of a container -/

namespace FieldMap

variable {m : FieldMap ν} {key flags : Nat} {val : CdoValue ν}

/-- The fields that hold the string. -/
def held (m : FieldMap ν) (s : Str) : Nat := m.fields.countP fun f => f.2.1.refersTo s

/-- The value that a write gives up: of a field that is there and not static. -/
def replaced (m : FieldMap ν) (key : Nat) : Option (CdoValue ν) :=
  (OrderedMap.find m.fields key).map (·.1)

/-- A write to the key is refused. -/
def Refuses (m : FieldMap ν) (key : Nat) : Prop :=
  m.readonly = true ∨ (OrderedMap.find m.fields key).any (fun f => isStatic f.2) = true

instance (m : FieldMap ν) (key : Nat) : Decidable (m.Refuses key) := inferInstanceAs (Decidable (_ ∨ _))

/-- The string of the field that is overwritten or deleted. -/
def released (m : FieldMap ν) (key : Nat) : Option (RefCell × Str) :=
  ((m.replaced key).bind CdoValue.string?).map fun s => (.field key, s)

lemma refuses_found {f : CdoValue ν × Nat} (writable : m.readonly ≠ true)
    (found : OrderedMap.find m.fields key = some f) : m.Refuses key ↔ isStatic f.2 = true := by
  rw [Refuses, found, or_iff_right writable]
  rfl

lemma refuses_absent (writable : m.readonly ≠ true) (absent : OrderedMap.find m.fields key = none) :
    ¬ m.Refuses key := by
  rw [Refuses, absent, or_iff_right writable]
  exact Bool.false_ne_true

/-- A write that is refused changes nothing. -/
lemma set_refused (refused : m.Refuses key) : (m.perform (.set key val flags)).2 = m := by
  simp only [perform]
  by_cases ro : m.readonly = true
  · rw [if_pos ro]
  · rw [if_neg ro, if_pos (refused.resolve_left ro)]

/-- Nor does a deletion that is refused. -/
lemma delete_refused (refused : m.Refuses key) : (m.perform (.delete key)).2 = m := by
  simp only [perform]
  by_cases ro : m.readonly = true
  · rw [if_pos ro]
  · have static := refused.resolve_left ro
    have all : (OrderedMap.find m.fields key).all (fun f => isStatic f.2) = true := by
      cases found : OrderedMap.find m.fields key with
      | none => rfl
      | some f =>
        rw [found] at static
        exact static
    rw [if_neg ro, if_pos all]

lemma released_string (m : FieldMap ν) (key : Nat) :
    (m.released key).map (·.2) = (m.replaced key).bind CdoValue.string? := by
  rw [released, Option.map_map]
  exact Option.map_id'

/-- A write gives up what the field held, and the new value is held once more. -/
lemma held_set (distinct : OrderedMap.Distinct m.fields) (accepted : ¬ m.Refuses key) (s : Str) :
    (m.perform (.set key val flags)).2.held s + hits s ((m.replaced key).bind CdoValue.string?) =
      m.held s + hits s val.string? := by
  rw [Refuses, not_or] at accepted
  simp only [perform, accepted.1, accepted.2, Bool.false_eq_true, if_false, held]
  cases found : OrderedMap.find m.fields key with
  | none =>
    have absent : key ∉ m.fields.map (·.1) := by
      intro mem
      obtain ⟨⟨k, f⟩, entry, rfl⟩ := List.mem_map.mp mem
      obtain ⟨l, r, split⟩ := List.append_of_mem entry
      rw [split] at found distinct
      rw [OrderedMap.find_middle distinct] at found
      cases found
    rw [OrderedMap.insert_new absent, List.countP_append, List.countP_singleton, replaced, found, ← refersTo_toNat]
    cases val.refersTo s <;> rfl
  | some f =>
    obtain ⟨l, r, split⟩ := OrderedMap.exists_middle found
    rw [split] at distinct
    rw [split, OrderedMap.insert_middle distinct, List.countP_append, List.countP_append, List.countP_cons,
      List.countP_cons, replaced, found, ← refersTo_toNat, Option.map_some, Option.bind_some, ← refersTo_toNat]
    cases f.1.refersTo s <;> cases val.refersTo s <;>
      simp only [Bool.toNat_false, Bool.toNat_true, Bool.false_eq_true, if_false, if_true] <;> omega

/-- A deletion gives up what the field held. -/
lemma held_delete (distinct : OrderedMap.Distinct m.fields) (accepted : ¬ m.Refuses key) (s : Str) :
    (m.perform (.delete key)).2.held s + hits s ((m.replaced key).bind CdoValue.string?) = m.held s := by
  rw [Refuses, not_or] at accepted
  simp only [perform, accepted.1, Bool.false_eq_true, if_false]
  cases found : OrderedMap.find m.fields key with
  | none =>
    rw [replaced, found]
    rfl
  | some f =>
    have dynamic := accepted.2
    rw [found, Option.any_some] at dynamic
    obtain ⟨l, r, split⟩ := OrderedMap.exists_middle found
    rw [split] at distinct
    rw [Option.all_some, if_neg dynamic]
    rw [held, held, split, OrderedMap.erase_middle distinct, List.countP_append, List.countP_append, List.countP_cons,
      replaced, found, Option.map_some, Option.bind_some, ← refersTo_toNat]
    cases f.1.refersTo s <;> simp only [Bool.toNat_false, Bool.toNat_true, Bool.false_eq_true, if_false, if_true] <;>
      omega

end FieldMap

namespace HashTable

variable {t t' : HashTable ν} {order : List Nat} {m : FieldMap ν} {key flags : Nat} {val : CdoValue ν}

/-- The fields that hold a string are those of the map. -/
lemma Repr.held_eq (rep : t.Repr m) (s : Str) : t.held s = m.held s := by
  obtain ⟨-, order, v, fields⟩ := rep
  -- a property of live slots is counted over the indices, or over those in the order
  have cells : t.slots = (List.range t.slots.length).map fun i => (t.slots[i]?).getD emptySlot := by
    refine List.ext_getElem (by simp) fun i lt _ => ?_
    simp [List.getElem?_eq_getElem lt]
  have slot : ∀ i ∈ List.range t.slots.length,
      (((t.slots[i]?).getD emptySlot).key.isString && ((t.slots[i]?).getD emptySlot).value.refersTo s) =
        ((keyAt t.slots i).isString && (fieldAt t.slots i).2.1.refersTo s) := by
    intro i mem
    obtain ⟨slot, get, key, -, -, field⟩ := exists_slot (List.mem_range.mp mem)
    rw [get, Option.getD_some, key, ← field]
    rfl
  have live : ((List.range t.slots.length).filter fun i => (keyAt t.slots i).isString).Perm order := by
    refine (List.perm_ext_iff_of_nodup (List.nodup_range.filter _) v.layout.nodup).mpr fun i => ?_
    rw [List.mem_filter, List.mem_range]
    constructor
    · rintro ⟨-, alive⟩
      refine (v.layout.live i).mpr ?_
      cases e : keyAt t.slots i with
      | string key => exact ⟨key, rfl⟩
      | _ =>
        rw [e] at alive
        cases alive
    · intro mem
      obtain ⟨key, e⟩ := (v.layout.live i).mp mem
      exact ⟨v.layout.lt mem, by rw [e]; rfl⟩
  calc t.held s
      = (List.range t.slots.length).countP fun i =>
          ((t.slots[i]?).getD emptySlot).key.isString && ((t.slots[i]?).getD emptySlot).value.refersTo s := by
        rw [held]
        conv_lhs => rw [cells]
        rw [List.countP_map]
        rfl
    _ = (List.range t.slots.length).countP fun i =>
          (fieldAt t.slots i).2.1.refersTo s && (keyAt t.slots i).isString := by
        refine List.countP_congr fun i mem => ?_
        rw [slot i mem, Bool.and_comm]
    _ = order.countP fun i => (fieldAt t.slots i).2.1.refersTo s := by
        rw [← live.countP_eq, List.countP_filter]
    _ = m.held s := by
        rw [FieldMap.held, ← fields, List.countP_map]
        rfl

/-- `cdo_object_rawset` on the table is the write to the map, with the actions that belong to it. -/
lemma Repr.rawset_refs (rep : t.Repr m) {actions : List RefAction} {ok : Bool}
    (acts : t.rawsetActions key val = some actions) (run : t.rawset key val flags = some (ok, t')) :
    t'.Repr (m.perform (.set key val flags)).2 ∧
      actions = if m.Refuses key then [] else swapActions (m.released key) val.string? := by
  have ro := rep.1
  by_cases readonly : m.readonly = true
  · have refused : m.Refuses key := .inl readonly
    rw [FieldMap.set_refused refused, if_pos refused]
    rw [rawset, if_pos (ro.trans readonly)] at run
    rw [rawsetActions, if_pos (ro.trans readonly)] at acts
    cases run
    cases acts
    exact ⟨rep, rfl⟩
  · have writable : t.readonly ≠ true := ro ▸ readonly
    obtain ⟨-, order, v, fields⟩ := rep
    rw [rawsetActions, if_neg writable] at acts
    obtain ⟨t₁, ensured, acts⟩ := Option.bind_eq_some_iff.mp acts
    obtain ⟨order₁, v₁, fields₁, ro₁, -, pow, room⟩ := v.ensureCapacity_some ensured
    rw [fields] at fields₁
    obtain ⟨t₂, run₂, rep₂, -, -⟩ :=
      Repr.rawset_ensured ⟨ro, order, v, fields⟩ readonly ensured v₁ fields₁ ro₁ pow room key
      val flags
    cases run₂.symm.trans run
    refine ⟨rep₂, ?_⟩
    by_cases live : ∃ i, keyAt t₁.slots i = .string key
    · obtain ⟨i, live⟩ := live
      obtain ⟨-, -, slot, -, get, found, -, find⟩ := v₁.live_spec live
      rw [fields₁] at find
      simp only [found, get, Option.bind_eq_bind, Option.bind_some] at acts
      by_cases static : isStatic slot.flags = true
      · rw [if_pos static] at acts
        rw [if_pos ((FieldMap.refuses_found readonly find).mpr static)]
        exact (Option.some.inj acts).symm
      · rw [if_neg static] at acts
        rw [if_neg (mt (FieldMap.refuses_found readonly find).mp static), ← Option.some.inj acts, releaseActions_eq,
          copyActions_eq, swapActions_append,
          FieldMap.released, FieldMap.replaced, find]
        rfl
    · obtain ⟨⟨h, found⟩, find⟩ := v₁.absent_spec (not_exists.mp live)
      rw [fields₁] at find
      simp only [found, Option.bind_eq_bind, Option.bind_some] at acts
      rw [if_neg (FieldMap.refuses_absent readonly find), ← Option.some.inj acts, copyActions_eq, FieldMap.released,
        FieldMap.replaced, find]
      rfl

lemma Repr.rawdelete_refs (rep : t.Repr m) {actions : List RefAction} {ok : Bool}
    (acts : t.rawdeleteActions key = some actions) (run : t.rawdelete key = some (ok, t')) :
    t'.Repr (m.perform (.delete key)).2 ∧
      actions = if m.Refuses key then [] else swapActions (m.released key) none := by
  have ro := rep.1
  obtain ⟨t₂, run₂, rep₂, -⟩ := rep.rawdelete_spec key
  cases run₂.symm.trans run
  refine ⟨rep₂, ?_⟩
  by_cases readonly : m.readonly = true
  · rw [rawdeleteActions, if_pos (ro.trans readonly)] at acts
    cases acts
    exact (if_pos (.inl readonly)).symm
  · have writable : t.readonly ≠ true := ro ▸ readonly
    obtain ⟨-, order, v, fields⟩ := rep
    rw [rawdeleteActions, if_neg writable] at acts
    by_cases live : ∃ i, keyAt t.slots i = .string key
    · obtain ⟨i, live⟩ := live
      obtain ⟨-, -, slot, -, get, found, -, find⟩ := v.live_spec live
      rw [fields] at find
      simp only [found, get, Option.bind_eq_bind, Option.bind_some] at acts
      by_cases static : isStatic slot.flags = true
      · rw [if_pos static] at acts
        rw [if_pos ((FieldMap.refuses_found readonly find).mpr static)]
        exact (Option.some.inj acts).symm
      · rw [if_neg static] at acts
        rw [if_neg (mt (FieldMap.refuses_found readonly find).mp static), ← Option.some.inj acts, releaseActions_eq,
          FieldMap.released, FieldMap.replaced, find]
        rfl
    · obtain ⟨⟨h, found⟩, find⟩ := v.absent_spec (not_exists.mp live)
      rw [fields] at find
      simp only [found, Option.bind_eq_bind, Option.bind_some] at acts
      rw [if_neg (FieldMap.refuses_absent readonly find), ← Option.some.inj acts, FieldMap.released,
        FieldMap.replaced, find]
      rfl

end HashTable

/-! ### The elements of a container -/

namespace ItemBuffer

variable {a a' : ItemBuffer ν} {items : List (CdoValue ν)} {idx : Nat} {val : CdoValue ν}

lemma Repr.held_eq (rep : a.Repr items) (s : Str) : a.held s = items.countP (CdoValue.refersTo s) := by
  have contents : a.items.take a.itemsLen = items.map some := rep.contents_eq
  rw [held, contents, List.countP_map]
  rfl

/-- A push that comes back has appended the value. -/
lemma Repr.push_some (rep : a.Repr items) (writable : a.readonly = false) {ok : Bool}
    (run : a.push val = some (ok, a')) : a'.Repr (items ++ [val]) := by
  have room : items.length < a.grow.items.length := by
    rw [push, writable, if_neg Bool.false_ne_true] at run
    obtain ⟨cells, written, -⟩ := Option.bind_eq_some_iff.mp run
    exact rep.len ▸ (setItem_some written).1
  obtain ⟨a₁, pushed, rep', -⟩ := rep.push_grown writable room val
  cases pushed.symm.trans run
  exact rep'

/-- An insertion that comes back has put the value in. -/
lemma Repr.insert_some (rep : a.Repr items) (writable : a.readonly = false) {ok : Bool}
    (run : a.insert idx val = some (ok, a')) : a'.Repr (insertAt items idx val) := by
  have room : items.length < a.grow.items.length := by
    rw [← rep.len]
    rw [insert, writable, if_neg Bool.false_ne_true] at run
    obtain ⟨cells, shifted, run⟩ := Option.bind_eq_some_iff.mp run
    obtain ⟨cells', written, -⟩ := Option.bind_eq_some_iff.mp run
    by_cases behind : a.itemsLen ≤ idx
    · -- nothing is shifted, and the cell behind the last element is written
      have place : (if a.itemsLen < idx then a.itemsLen else idx) = a.itemsLen := by split <;> omega
      have stay : shiftRight a.itemsLen a.itemsLen a.grow.items = some a.grow.items := by
        cases a.itemsLen with
        | zero => rfl
        | succ n => exact if_neg (Nat.lt_irrefl _)
      rw [place, stay] at shifted
      cases shifted
      rw [place] at written
      exact (setItem_some written).1
    · -- the last element is shifted to that cell
      rw [if_neg (by omega)] at shifted
      obtain ⟨n, len⟩ : ∃ n, a.itemsLen = n + 1 := ⟨a.itemsLen - 1, by omega⟩
      rw [len, shiftRight, if_pos (by omega)] at shifted
      obtain ⟨last, -, shifted⟩ := Option.bind_eq_some_iff.mp shifted
      obtain ⟨cells₁, moved, -⟩ := Option.bind_eq_some_iff.mp shifted
      rw [len]
      exact (setItem_some moved).1
  obtain ⟨a₁, inserted, rep', -⟩ := rep.insert_grown writable room idx val
  cases inserted.symm.trans run
  exact rep'

lemma doubledPast_some {turns cap newCap : Nat} (bound : cap < 4294967296)
    (run : doubledPast idx turns cap = some newCap) : idx < newCap ∧ newCap < 4294967296 := by
  induction turns generalizing cap with
  | zero => cases run
  | succ turns ih =>
    rw [doubledPast] at run
    split at run
    · exact ih (Nat.mod_lt _ (by decide)) run
    · rename_i past
      cases run
      exact ⟨Nat.lt_of_not_le past, bound⟩

/-- A write that comes back has found the capacity or made it, and released what it found: null in a new cell. Where it
gave nothing up that is not the array's, it is `ItemBuffer.rawsetIdx`. -/
lemma Repr.writeIdx_some (rep : a.Repr items) (writable : a.readonly = false) {actions : List RefAction}
    (run : a.writeIdx idx val = some (actions, a')) : ∃ old,
      actions = releaseActions (.element idx) old ++ copyActions val ∧
      (a.items.length ≤ idx → old = some .null) ∧ (idx < a.items.length → a.items[idx]? = some old) ∧
      (idx < a.itemsLen ∨ releasable old = true → a'.Repr (writeAt items idx val)) := by
  rw [writeIdx, writable, if_neg Bool.false_ne_true] at run
  obtain ⟨cells, reserved, grown⟩ := Option.bind_eq_some_iff.mp run
  obtain ⟨cells', filled, gap⟩ := Option.bind_eq_some_iff.mp grown
  obtain ⟨old, here, found⟩ := Option.bind_eq_some_iff.mp gap
  obtain ⟨cells'', written, returned⟩ := Option.bind_eq_some_iff.mp found
  have past : a.items.length ≤ idx → ∃ newCap,
      doubledPast idx 33 (if a.items.length = 0 then 8 else a.items.length) = some newCap ∧ idx < newCap ∧
      newCap < 4294967296 := by
    intro more
    rw [reserve, if_pos more] at reserved
    obtain ⟨newCap, doubled, -⟩ := Option.bind_eq_some_iff.mp reserved
    have start : (if a.items.length = 0 then 8 else a.items.length) < 4294967296 := by
      have bound := rep.bound
      split <;> omega
    exact ⟨newCap, doubled, doubledPast_some start doubled⟩
  obtain ⟨rest, reserved', -, -, new, same⟩ := rep.reserve_past past
  cases reserved'.symm.trans reserved
  -- filling the gap with nulls leaves the cell itself
  have untouched : cells'[idx]? = (items.map some ++ rest)[idx]? := by
    split at filled
    · exact fillNull_get filled (Nat.le_refl idx)
    · cases filled
      rfl
  rw [untouched] at here
  refine ⟨old, ?_, ?_, ?_, ?_⟩
  · cases returned
    rfl
  · intro more
    exact Option.some.inj (here.symm.trans (new more))
  · intro inside
    exact (same inside).symm.trans here
  · intro gives
    have fits : idx < items.length ∨ a.items.length ≤ idx ∨
        ∃ cell, a.items[idx]? = some cell ∧ releasable cell = true := by
      obtain within | plain := gives
      · exact .inl (rep.len ▸ within)
      · by_cases more : a.items.length ≤ idx
        · exact .inr (.inl more)
        · exact .inr (.inr ⟨old, (same (Nat.lt_of_not_le more)).symm.trans here, plain⟩)
    obtain ⟨a₁, run₁, rep₁, -⟩ := rep.rawsetIdx_past writable past fits val
    have agree : a.rawsetIdx idx val = some (true, a') := by
      rw [rawsetIdx, writable, if_neg Bool.false_ne_true, reserved, Option.bind_eq_bind, Option.bind_some, filled,
        Option.bind_eq_bind, Option.bind_some, untouched, here, Option.bind_some, if_pos gives, written]
      cases returned
      rfl
    cases run₁.symm.trans agree
    exact rep₁

end ItemBuffer

/-! ### One call -/

namespace Container

variable {c c' : Container ν} {rc : RefCall ν} {actions : List RefAction} {key flags idx : Nat} {val : CdoValue ν}

/-- The table and the buffer are well formed. -/
structure WellFormed (c : Container ν) : Prop where
  fields : ∃ m, c.fields.Repr m
  elements : ∃ items, c.elements.Repr items

/-- What a call that meets the condition does: it releases at most one string, which the container holds and does not
store, and retains at most the one it stores; the cells follow. -/
structure Exchanges (c : Container ν) (rc : RefCall ν) (actions : List RefAction) (c' : Container ν) : Prop where
  wellFormed : c'.WellFormed
  swap : ∃ rel ret, actions = swapActions rel ret ∧
    (∀ r ∈ rel, c.Holds r.2 r.1 ∧ rc.stored ≠ some (.string r.2)) ∧ (∀ s ∈ ret, rc.stored = some (.string s)) ∧
    ∀ s, c'.held s + hits s (rel.map (·.2)) ≤ c.held s + hits s ret

lemma string?_eq {v : CdoValue ν} {s : Str} : v.string? = some s ↔ v = .string s := by
  cases v <;> simp [CdoValue.string?]

/-- A cell that holds a string is counted. -/
lemma WellFormed.held_pos (wf : c.WellFormed) {s : Str} {cell : RefCell} (holds : c.Holds s cell) :
    c.held s ≠ 0 := by
  obtain ⟨m, table⟩ := wf.fields
  obtain ⟨items, array⟩ := wf.elements
  rw [held, table.held_eq, array.held_eq]
  cases cell with
  | field key =>
    obtain ⟨-, order, v, fields⟩ := table
    have got : c.fields.rawget key = some (some (.string s)) := holds
    rw [v.rawget_spec, fields] at got
    obtain ⟨f, found, value⟩ := Option.map_eq_some_iff.mp (Option.some.inj got)
    obtain ⟨l, r, split⟩ := OrderedMap.exists_middle found
    have pos : 0 < m.held s := by
      refine List.countP_pos_iff.mpr ⟨(key, f), by rw [split]; simp, ?_⟩
      simp [value, CdoValue.refersTo]
    omega
  | element idx =>
    obtain ⟨inside, cell⟩ := holds
    rw [array.len] at inside
    rw [array.cell inside] at cell
    have pos : 0 < items.countP (CdoValue.refersTo s) := by
      refine List.countP_pos_iff.mpr ⟨items[idx], List.getElem_mem inside, ?_⟩
      rw [Option.some.inj (Option.some.inj cell)]
      simp [CdoValue.refersTo]
    omega

/-- The condition on a write to a field, in the map's terms. -/
lemma fits_rawset_iff {m : FieldMap ν} (table : c.fields.Repr m) :
    c.Fits (.rawset key val flags) ↔ m.Refuses key ∨ ∀ r ∈ m.released key, val ≠ .string r.2 := by
  obtain ⟨ro, order, v, fields⟩ := table
  by_cases readonly : m.readonly = true
  · exact ⟨fun _ => .inl (.inl readonly), fun _ => .inl (ro.trans readonly)⟩
  · have writable : c.fields.readonly ≠ true := ro ▸ readonly
    rw [Fits, or_iff_right writable]
    by_cases live : ∃ i, keyAt c.fields.slots i = .string key
    · obtain ⟨i, live⟩ := live
      obtain ⟨-, -, slot, -, get, -, -, find⟩ := v.live_spec live
      rw [fields] at find
      have named : slot.key = .string key := by
        rw [← live, keyAt, get]
        rfl
      have released : ∀ s, slot.value = .string s ↔ ∃ r ∈ m.released key, r.2 = s := by
        intro s
        rw [FieldMap.released, FieldMap.replaced, find, Option.map_some, Option.bind_some, ← string?_eq]
        cases slot.value.string? <;> simp
      rw [FieldMap.refuses_found readonly find]
      constructor
      · intro all
        refine (all slot (List.mem_of_getElem? get) named).imp_right fun apart r mem => ?_
        exact apart r.2 ((released r.2).mpr ⟨r, mem, rfl⟩)
      · intro cond slot' mem' named'
        -- the key is in one slot only
        obtain ⟨j, lt, rfl⟩ := List.getElem_of_mem mem'
        have live' : keyAt c.fields.slots j = .string key := by
          rw [keyAt, List.getElem?_eq_getElem lt]
          exact named'
        cases v.layout.distinct i j key live live'
        rw [List.getElem?_eq_getElem lt] at get
        rw [Option.some.inj get]
        refine cond.imp_right fun apart s value => ?_
        obtain ⟨r, mem, rfl⟩ := (released s).mp value
        exact apart r mem
    · have find := (v.absent_spec (not_exists.mp live)).2
      rw [fields] at find
      constructor
      · intro _
        refine .inr fun r mem => ?_
        rw [FieldMap.released, FieldMap.replaced, find] at mem
        cases mem
      · intro _ slot mem named
        obtain ⟨j, lt, rfl⟩ := List.getElem_of_mem mem
        refine absurd ⟨j, ?_⟩ live
        rw [keyAt, List.getElem?_eq_getElem lt]
        exact named

/-- A call on the fields, from what it does to the map. -/
lemma WellFormed.exchanges_fields (wf : c.WellFormed) {m m' : FieldMap ν} {t' : HashTable ν}
    {x : Option (RefCell × Str)} {y : Option Str} (table : c.fields.Repr m) (table' : t'.Repr m')
    (holds : ∀ r ∈ x, c.Holds r.2 r.1 ∧ rc.stored ≠ some (.string r.2))
    (stored : ∀ s ∈ y, rc.stored = some (.string s))
    (ledger : ∀ s, m'.held s + hits s (x.map (·.2)) = m.held s + hits s y) :
    Exchanges c rc (swapActions x y) { c with fields := t' } where
  wellFormed := ⟨⟨m', table'⟩, wf.elements⟩
  swap := by
    refine ⟨x, y, rfl, holds, stored, fun s => ?_⟩
    have change := ledger s
    change t'.held s + c.elements.held s + _ ≤ c.fields.held s + c.elements.held s + _
    rw [table.held_eq, table'.held_eq]
    omega

/-- A call on the elements, from what it does to the list. -/
lemma WellFormed.exchanges_elements (wf : c.WellFormed) {items items' : List (CdoValue ν)} {a' : ItemBuffer ν}
    {x : Option (RefCell × Str)} {y : Option Str} (array : c.elements.Repr items) (array' : a'.Repr items')
    (holds : ∀ r ∈ x, c.Holds r.2 r.1 ∧ rc.stored ≠ some (.string r.2))
    (stored : ∀ s ∈ y, rc.stored = some (.string s))
    (ledger : ∀ s, items'.countP (CdoValue.refersTo s) + hits s (x.map (·.2)) ≤
      items.countP (CdoValue.refersTo s) + hits s y) :
    Exchanges c rc (swapActions x y) { c with elements := a' } where
  wellFormed := ⟨wf.fields, ⟨items', array'⟩⟩
  swap := by
    refine ⟨x, y, rfl, holds, stored, fun s => ?_⟩
    have change := ledger s
    change c.fields.held s + a'.held s + _ ≤ c.fields.held s + c.elements.held s + _
    rw [array.held_eq, array'.held_eq]
    omega

/-- A call that changes nothing. -/
lemma WellFormed.exchanges_nothing (wf : c.WellFormed) : Exchanges c rc [] c where
  wellFormed := wf
  swap := by
    refine ⟨none, none, rfl, ?_, ?_, fun s => Nat.le_refl _⟩
    · rintro r ⟨⟩
    · rintro s ⟨⟩

/-- The string that a write or deletion gives up is in its field. -/
lemma holds_released {m : FieldMap ν} (table : c.fields.Repr m) {r : RefCell × Str} (mem : r ∈ m.released key) :
    c.Holds r.2 r.1 := by
  obtain ⟨-, order, v, fields⟩ := table
  obtain ⟨s, gone, rfl⟩ := Option.map_eq_some_iff.mp mem
  obtain ⟨old, replaced, value⟩ := Option.bind_eq_some_iff.mp gone
  rw [FieldMap.replaced] at replaced
  rw [Holds, v.rawget_spec, fields, replaced, string?_eq.mp value]

lemma stored_string? {s : Str} (stored : rc.stored = some val) (mem : s ∈ val.string?) :
    rc.stored = some (.string s) := by
  rw [stored, string?_eq.mp mem]

lemma rawset_exchanges (wf : c.WellFormed) (run : c.call (.rawset key val flags) = some (actions, c'))
    (fits : c.Fits (.rawset key val flags)) : Exchanges c (.rawset key val flags) actions c' := by
  obtain ⟨m, table⟩ := wf.fields
  obtain ⟨acts, counted, run⟩ := Option.bind_eq_some_iff.mp run
  obtain ⟨⟨ok, t'⟩, written, returned⟩ := Option.bind_eq_some_iff.mp run
  cases returned
  obtain ⟨table', rfl⟩ := table.rawset_refs counted written
  have distinct : OrderedMap.Distinct m.fields := by
    obtain ⟨-, order, v, fields⟩ := table
    exact fields ▸ v.layout.fields_distinct
  by_cases refused : m.Refuses key
  · rw [if_pos refused]
    rw [FieldMap.set_refused refused] at table'
    refine wf.exchanges_fields (x := none) (y := none) table table' ?_ ?_ fun s => rfl
    · rintro r ⟨⟩
    · rintro s ⟨⟩
  · rw [if_neg refused]
    refine wf.exchanges_fields table table' (fun r mem => ⟨holds_released table mem, ?_⟩)
      (fun s mem => stored_string? rfl mem) fun s => ?_
    · have apart := ((fits_rawset_iff table).mp fits).resolve_left refused r mem
      exact fun e => apart (Option.some.inj e)
    · rw [FieldMap.released_string]
      exact FieldMap.held_set distinct refused s

lemma rawdelete_exchanges (wf : c.WellFormed) (run : c.call (.rawdelete key) = some (actions, c')) :
    Exchanges c (.rawdelete key) actions c' := by
  obtain ⟨m, table⟩ := wf.fields
  obtain ⟨acts, counted, run⟩ := Option.bind_eq_some_iff.mp run
  obtain ⟨⟨ok, t'⟩, written, returned⟩ := Option.bind_eq_some_iff.mp run
  cases returned
  obtain ⟨table', rfl⟩ := table.rawdelete_refs counted written
  have distinct : OrderedMap.Distinct m.fields := by
    obtain ⟨-, order, v, fields⟩ := table
    exact fields ▸ v.layout.fields_distinct
  by_cases refused : m.Refuses key
  · rw [if_pos refused]
    rw [FieldMap.delete_refused refused] at table'
    refine wf.exchanges_fields (x := none) (y := none) table table' ?_ ?_ fun s => rfl
    · rintro r ⟨⟩
    · rintro s ⟨⟩
  · rw [if_neg refused]
    refine wf.exchanges_fields (y := none) table table' (fun r mem => ⟨holds_released table mem, ?_⟩) ?_ fun s => ?_
    · rintro ⟨⟩
    · rintro s ⟨⟩
    · have ledger := FieldMap.held_delete distinct refused s
      rwa [FieldMap.released_string]

/-- A call on the elements found an array. -/
lemma onArray_some {f : ItemBuffer ν → Option (List RefAction × ItemBuffer ν)}
    (run : c.onArray f = some (actions, c')) : ∃ a', f c.elements = some (actions, a') ∧
      c' = { c with elements := a' } := by
  rw [onArray] at run
  split at run
  · obtain ⟨⟨acts, a'⟩, done, e⟩ := Option.map_eq_some_iff.mp run
    cases e
    exact ⟨a', done, rfl⟩
  · cases run

lemma countP_singleton_refersTo (v : CdoValue ν) (s : Str) :
    [v].countP (CdoValue.refersTo s) = hits s v.string? := by
  rw [List.countP_singleton, ← refersTo_toNat]
  cases v.refersTo s <;> rfl

lemma push_exchanges (wf : c.WellFormed) (run : c.call (.push val) = some (actions, c')) :
    Exchanges c (.push val) actions c' := by
  obtain ⟨items, array⟩ := wf.elements
  rw [call] at run
  obtain ⟨a', pushed, rfl⟩ := onArray_some run
  obtain ⟨⟨ok, a₁⟩, pushed, e⟩ := Option.map_eq_some_iff.mp pushed
  by_cases readonly : c.elements.readonly = true
  · rw [ItemBuffer.push, if_pos readonly] at pushed
    cases pushed
    rw [if_pos readonly] at e
    cases e
    exact wf.exchanges_nothing
  · have array' := array.push_some (by simpa using readonly) pushed
    rw [if_neg readonly, copyActions_eq] at e
    cases e
    refine wf.exchanges_elements array array' ?_ (fun s mem => stored_string? rfl mem) fun s => ?_
    · rintro r ⟨⟩
    · rw [List.countP_append, countP_singleton_refersTo]
      exact Nat.le_refl _

lemma insert_exchanges (wf : c.WellFormed) (run : c.call (.insert idx val) = some (actions, c')) :
    Exchanges c (.insert idx val) actions c' := by
  obtain ⟨items, array⟩ := wf.elements
  rw [call] at run
  obtain ⟨a', inserted, rfl⟩ := onArray_some run
  obtain ⟨⟨ok, a₁⟩, inserted, e⟩ := Option.map_eq_some_iff.mp inserted
  by_cases readonly : c.elements.readonly = true
  · rw [ItemBuffer.insert, if_pos readonly] at inserted
    cases inserted
    rw [if_pos readonly] at e
    cases e
    exact wf.exchanges_nothing
  · have array' := array.insert_some (by simpa using readonly) inserted
    rw [if_neg readonly, copyActions_eq] at e
    cases e
    refine wf.exchanges_elements array array' ?_ (fun s mem => stored_string? rfl mem) fun s => ?_
    · rintro r ⟨⟩
    · have halves : items.countP (CdoValue.refersTo s) =
          (items.take idx).countP (CdoValue.refersTo s) + (items.drop idx).countP (CdoValue.refersTo s) := by
        rw [← List.countP_append, List.take_append_drop]
      rw [insertAt, List.countP_append, ← List.singleton_append, List.countP_append, countP_singleton_refersTo, halves]
      change _ + 0 ≤ _
      omega

/-- What an element adds to the count. -/
lemma countP_middle {l r : List (CdoValue ν)} {v : CdoValue ν} (s : Str) :
    (l ++ v :: r).countP (CdoValue.refersTo s) =
      l.countP (CdoValue.refersTo s) + r.countP (CdoValue.refersTo s) + hits s v.string? := by
  rw [← List.singleton_append, List.countP_append, List.countP_append, countP_singleton_refersTo]
  omega

lemma remove_exchanges (wf : c.WellFormed) {out : Bool} (run : c.call (.remove idx out) = some (actions, c')) :
    Exchanges c (.remove idx out) actions c' := by
  obtain ⟨items, array⟩ := wf.elements
  rw [call] at run
  obtain ⟨a', removed, rfl⟩ := onArray_some run
  obtain ⟨⟨val, a₁⟩, removed, e⟩ := Option.map_eq_some_iff.mp removed
  by_cases refused : c.elements.readonly = true ∨ c.elements.itemsLen ≤ idx
  · have silent : c.elements.removeActions idx out = [] := if_pos (refused.imp_right .inl)
    rw [ItemBuffer.remove, if_pos refused] at removed
    cases removed
    rw [silent] at e
    cases e
    exact wf.exchanges_nothing
  · rw [not_or] at refused
    have inside : idx < items.length := array.len ▸ Nat.lt_of_not_le refused.2
    have cell := array.cell inside
    obtain ⟨a₂, removed₂, array', -⟩ := array.remove_spec (by simpa using refused.1) idx
    cases removed₂.symm.trans removed
    obtain ⟨l, v, r, rfl, rfl⟩ := exists_middle inside
    have here : (l ++ v :: r)[l.length] = v := by simp
    have left : (l ++ v :: r).eraseIdx l.length = l ++ r := by simp [List.eraseIdx_append_of_length_le]
    rw [here] at cell
    rw [left] at array'
    have total : ∀ s, (l ++ r).countP (CdoValue.refersTo s) + hits s v.string? =
        (l ++ v :: r).countP (CdoValue.refersTo s) := fun s => by
      rw [countP_middle, List.countP_append]
    cases out with
    | true =>
      have silent : c.elements.removeActions l.length true = [] := if_pos (.inr (.inr rfl))
      rw [silent] at e
      cases e
      refine wf.exchanges_elements (x := none) (y := none) array array' ?_ ?_ fun s => ?_
      · rintro r ⟨⟩
      · rintro s ⟨⟩
      · have change := total s
        change _ + 0 ≤ _ + 0
        omega
    | false =>
      have gives : c.elements.removeActions l.length false =
          swapActions (v.string?.map fun s => (.element l.length, s)) none := by
        rw [ItemBuffer.removeActions, if_neg (by simpa using refused), cell, ← releaseActions_eq]
        rfl
      rw [gives] at e
      cases e
      refine wf.exchanges_elements array array' (fun r mem => ⟨?_, ?_⟩) ?_ fun s => ?_
      · obtain ⟨s, value, rfl⟩ := Option.map_eq_some_iff.mp mem
        exact ⟨Nat.lt_of_not_le refused.2, by rw [cell, string?_eq.mp value]⟩
      · rintro ⟨⟩
      · rintro s ⟨⟩
      · have change := total s
        rw [Option.map_map]
        have string : v.string?.map ((fun r : RefCell × Str => r.2) ∘ fun s => (.element l.length, s)) = v.string? :=
          Option.map_id'
        rw [string]
        change _ ≤ _ + 0
        omega

lemma pop_exchanges (wf : c.WellFormed) (run : c.call .pop = some (actions, c')) :
    Exchanges c .pop actions c' := by
  obtain ⟨items, array⟩ := wf.elements
  rw [call] at run
  obtain ⟨a', popped, rfl⟩ := onArray_some run
  obtain ⟨⟨val, a₁⟩, popped, e⟩ := Option.map_eq_some_iff.mp popped
  obtain ⟨a₂, popped₂, array', -⟩ := array.arrPop_spec
  cases popped₂.symm.trans popped
  cases e
  refine wf.exchanges_elements (x := none) (y := none) array array' ?_ ?_ fun s => ?_
  · rintro r ⟨⟩
  · rintro s ⟨⟩
  · exact (List.dropLast_sublist items).countP_le

/-- The condition on a write to an element. -/
lemma fits_rawsetIdx_iff (writable : c.elements.readonly = false) :
    c.Fits (.rawsetIdx idx val) ↔ c.elements.items.length ≤ idx ∨
      ∃ cell, c.elements.items[idx]? = some (some cell) ∧
        ∀ s, cell = .string s → idx < c.elements.itemsLen ∧ val ≠ .string s := by
  rw [Fits, writable, or_iff_right Bool.false_ne_true]

lemma rawsetIdx_exchanges (wf : c.WellFormed) (run : c.call (.rawsetIdx idx val) = some (actions, c'))
    (fits : c.Fits (.rawsetIdx idx val)) : Exchanges c (.rawsetIdx idx val) actions c' := by
  obtain ⟨items, array⟩ := wf.elements
  rw [call] at run
  obtain ⟨a', written, rfl⟩ := onArray_some run
  by_cases readonly : c.elements.readonly = true
  · rw [ItemBuffer.writeIdx, if_pos readonly] at written
    cases written
    exact wf.exchanges_nothing
  · have writable : c.elements.readonly = false := by simpa using readonly
    have cond := (fits_rawsetIdx_iff writable).mp fits
    obtain ⟨old, rfl, new, stale, array'⟩ := array.writeIdx_some writable written
    by_cases inside : idx < items.length
    · -- an element is overwritten
      have within : idx < c.elements.itemsLen := array.len ▸ inside
      have cell := array.cell inside
      have cap : idx < c.elements.items.length := (List.getElem?_eq_some_iff.mp cell).1
      cases (stale cap).symm.trans cell
      have array' := array' (.inl within)
      rw [writeAt, if_pos inside] at array'
      obtain ⟨l, v, r, rfl, rfl⟩ := exists_middle inside
      have here : (l ++ v :: r)[l.length] = v := by simp
      have after : (l ++ v :: r).set l.length val = l ++ val :: r := by simp
      rw [here] at cell ⊢
      rw [after] at array'
      have apart : ∀ s, v = .string s → val ≠ .string s := by
        obtain more | ⟨cell', get, apart⟩ := cond
        · exact absurd more (Nat.not_le.mpr cap)
        · cases get.symm.trans cell
          exact fun s value => (apart s value).2
      rw [releaseActions_eq, copyActions_eq, swapActions_append]
      refine wf.exchanges_elements array array' (fun r mem => ?_) (fun s mem => stored_string? rfl mem) fun s => ?_
      · obtain ⟨s, value, rfl⟩ := Option.map_eq_some_iff.mp mem
        refine ⟨⟨within, by rw [cell, string?_eq.mp value]⟩, fun e => ?_⟩
        exact apart s (string?_eq.mp value) (Option.some.inj e)
      · have string : (v.string?.map fun s => (RefCell.element l.length, s)).map (·.2) = v.string? := by
          rw [Option.map_map]
          exact Option.map_id'
        rw [string, countP_middle, countP_middle]
        omega
    · -- behind the last element nothing is given up
      have behind : ¬ idx < c.elements.itemsLen := array.len ▸ inside
      obtain ⟨cell, plain, no_string⟩ : ∃ cell, old = some cell ∧ cell.string? = none := by
        obtain more | ⟨cell, get, apart⟩ := cond
        · exact ⟨.null, new more, rfl⟩
        · cases (stale (List.getElem?_eq_some_iff.mp get).1).symm.trans get
          refine ⟨cell, rfl, ?_⟩
          cases value : cell.string? with
          | none => rfl
          | some s => exact absurd (apart s (string?_eq.mp value)).1 behind
      subst plain
      have free : releasable (some cell) = true := by
        cases cell with
        | string s => cases no_string
        | _ => rfl
      have array' := array' (.inr free)
      rw [writeAt, if_neg inside] at array'
      rw [releaseActions_eq, copyActions_eq, swapActions_append, no_string]
      refine wf.exchanges_elements array array' ?_ (fun s mem => stored_string? rfl mem) fun s => ?_
      · rintro r ⟨⟩
      · have nulls : (List.replicate (idx - items.length) (CdoValue.null (ν := ν))).countP (CdoValue.refersTo s)
          = 0 := by
          rw [List.countP_replicate]
          rfl
        rw [List.countP_append, List.countP_append, nulls, countP_singleton_refersTo]
        exact Nat.le_refl _

/-- A call that meets the condition. -/
lemma call_exchanges (wf : c.WellFormed) (run : c.call rc = some (actions, c')) (fits : c.Fits rc) :
    Exchanges c rc actions c' := by
  cases rc with
  | rawset key val flags => exact rawset_exchanges wf run fits
  | rawdelete key => exact rawdelete_exchanges wf run
  | push val => exact push_exchanges wf run
  | insert idx val => exact insert_exchanges wf run
  | remove idx out => exact remove_exchanges wf run
  | rawsetIdx idx val => exact rawsetIdx_exchanges wf run fits
  | pop => exact pop_exchanges wf run

lemma Exchanges.disciplined (done : Exchanges c rc actions c') : c.Disciplined rc actions := by
  obtain ⟨rel, ret, rfl, holds, -, -⟩ := done.swap
  intro before cell o after split
  obtain ⟨t, released, rfl, -⟩ := release_mem_swap split
  obtain ⟨held, apart⟩ := holds (cell, t) released
  exact ⟨t, rfl, held, fun stored => absurd stored apart⟩

/-- A call that comes back and does not meet the condition releases the string that it is about to retain, or what is
not an element. -/
lemma fits_of_disciplined (wf : c.WellFormed) (run : c.call rc = some (actions, c'))
    (disciplined : c.Disciplined rc actions) : c.Fits rc := by
  cases rc with
  | rawset key val flags =>
    obtain ⟨m, table⟩ := wf.fields
    obtain ⟨acts, counted, run⟩ := Option.bind_eq_some_iff.mp run
    obtain ⟨⟨ok, t'⟩, written, returned⟩ := Option.bind_eq_some_iff.mp run
    cases returned
    obtain ⟨-, rfl⟩ := table.rawset_refs counted written
    rw [fits_rawset_iff table]
    by_cases refused : m.Refuses key
    · exact .inl refused
    · refine .inr fun r mem e => ?_
      have first : swapActions (m.released key) val.string? =
          [] ++ .release r.1 (some r.2) :: swapActions none val.string? := by
        rw [Option.mem_def.mp mem]
        rfl
      rw [if_neg refused, first] at disciplined
      obtain ⟨t, same, -, kept⟩ := disciplined [] r.1 (some r.2) _ rfl
      cases same
      exact absurd (kept (congrArg some e)) List.not_mem_nil
  | rawsetIdx idx val =>
    obtain ⟨items, array⟩ := wf.elements
    rw [call] at run
    obtain ⟨a', written, rfl⟩ := onArray_some run
    by_cases readonly : c.elements.readonly = true
    · exact .inl readonly
    · have writable : c.elements.readonly = false := by simpa using readonly
      obtain ⟨old, rfl, -, stale, -⟩ := array.writeIdx_some writable written
      rw [fits_rawsetIdx_iff writable]
      by_cases more : c.elements.items.length ≤ idx
      · exact .inl more
      · have cell := stale (Nat.lt_of_not_le more)
        cases old with
        | none =>
          obtain ⟨t, same, -⟩ := disciplined [] (.element idx) none _ rfl
          cases same
        | some v =>
          refine .inr ⟨v, cell, ?_⟩
          rintro s rfl
          obtain ⟨t, same, holds, kept⟩ := disciplined [] (.element idx) (some s) _ rfl
          cases same
          refine ⟨holds.1, fun e => ?_⟩
          exact absurd (kept (congrArg some e)) List.not_mem_nil
  | _ => trivial

end Container

/-! ### Histories -/

namespace RefHeap

variable {w w' : RefHeap ν} {call : HeapCall ν} {calls : List (HeapCall ν)} {i : Nat} {rc : RefCall ν}
  {c c' : Container ν} {actions : List RefAction}

/-- Every container is well formed, and every string's count covers its cells. -/
structure Sound (w : RefHeap ν) : Prop where
  wellFormed : ∀ c ∈ w.objs, c.WellFormed
  counted : w.Counted

lemma sum_set (l : List Nat) (i : Nat) (x y : Nat) (here : l[i]? = some x) : (l.set i y).sum + x = l.sum + y := by
  induction l generalizing i with
  | nil => cases here
  | cons z l ih =>
    cases i with
    | zero =>
      cases here
      simp only [List.set_cons_zero, List.sum_cons]
      omega
    | succ i =>
      have rest := ih i (by simpa using here)
      simp only [List.set_cons_succ, List.sum_cons]
      omega

/-- The cells of all containers after one of them has changed. -/
lemma held_set (here : w.objs[i]? = some c) (c' : Container ν) (refs : StringCounts) (s : Str) :
    RefHeap.held { objs := w.objs.set i c', refs } s + c.held s = w.held s + c'.held s := by
  rw [held, held, List.map_set]
  exact sum_set _ i _ _ (by rw [List.getElem?_map, here]; rfl)

lemma held_le (here : w.objs[i]? = some c) (s : Str) : c.held s ≤ w.held s := by
  have without := sum_set (w.objs.map (·.held s)) i (c.held s) 0 (by rw [List.getElem?_map, here]; rfl)
  rw [held]
  omega

/-- A string that a call releases or stores exists. -/
lemma Sound.acts (sound : w.Sound) (here : w.objs[i]? = some c) (run : c.call rc = some (actions, c'))
    (fits : c.Fits rc) (given : ∀ s, rc.stored = some (.string s) → w.refs s ≠ 0) :
    (w.refs.actAll actions).isSome := by
  have wf := sound.wellFormed c (List.mem_of_getElem? here)
  obtain ⟨rel, ret, rfl, holds, stored, -⟩ := (Container.call_exchanges wf run fits).swap
  refine actAll_swap_isSome (fun r mem => ?_) (fun s mem => given s (stored s mem)) (fun r mem e => ?_)
  · have pos := wf.held_pos (holds r mem).1
    have le := held_le here r.2
    have counted := sound.counted r.2
    omega
  · exact (holds r mem).2 (stored r.2 e)

/-- A call that meets the condition leaves every string with a count that covers its cells. -/
lemma Sound.callOn (sound : w.Sound) (fits : ∀ c, w.objs[i]? = some c → c.Fits rc)
    (run : w.callOn i rc = some w') : w'.Sound := by
  obtain ⟨c, here, run⟩ := Option.bind_eq_some_iff.mp run
  obtain ⟨⟨actions, c'⟩, called, run⟩ := Option.bind_eq_some_iff.mp run
  obtain ⟨refs, acted, returned⟩ := Option.bind_eq_some_iff.mp run
  cases returned
  have wf := sound.wellFormed c (List.mem_of_getElem? here)
  have done := Container.call_exchanges wf called (fits c here)
  obtain ⟨rel, ret, rfl, -, -, ledger⟩ := done.swap
  constructor
  · intro d mem
    obtain mem | rfl := List.mem_or_eq_of_mem_set mem
    · exact sound.wellFormed d mem
    · exact done.wellFormed
  · intro s
    have cells := held_set here c' refs s
    have counts := actAll_swap acted s
    have balance := ledger s
    have counted := sound.counted s
    change _ ≤ refs s
    omega

lemma sound_empty : ({} : RefHeap ν).Sound where
  wellFormed := by
    rintro c ⟨⟩
  counted := fun s => Nat.zero_le _

/-- A new container is empty. -/
lemma Sound.create (sound : w.Sound) (kind : ObjectKind) : Sound { w with objs := w.objs ++ [{ kind }] } where
  wellFormed := by
    intro c mem
    obtain mem | mem := List.mem_append.mp mem
    · exact sound.wellFormed c mem
    · rw [List.mem_singleton.mp mem]
      exact ⟨⟨{}, rfl, [], HashTable.inv_new, rfl⟩, ⟨[], ItemBuffer.repr_new⟩⟩
  counted := by
    intro s
    have counted := sound.counted s
    simp only [RefHeap.held, List.map_append, List.map_singleton, List.sum_append, List.sum_singleton] at counted ⊢
    exact counted

/-- One call. -/
lemma Sound.step (sound : w.Sound) (given : w.Given call) (fits : w.Fits call)
    (run : w.perform call = some w') : w'.Sound := by
  cases call with
  | create kind =>
    cases run
    exact sound.create kind
  | string s =>
    rw [perform] at run
    split at run
    · rename_i fresh
      cases run
      refine ⟨sound.wellFormed, fun t => ?_⟩
      have counted := sound.counted t
      by_cases same : t = s
      · subst same
        change w.held t ≤ Function.update w.refs t 1 t
        rw [Function.update_self]
        omega
      · change w.held t ≤ Function.update w.refs s 1 t
        rwa [Function.update_of_ne same]
    · cases run
  | drop s =>
    cases run
    refine ⟨sound.wellFormed, fun t => ?_⟩
    have counted := sound.counted t
    by_cases same : t = s
    · subst same
      have own : w.held t < w.refs t := given
      change w.held t ≤ Function.update w.refs t (w.refs t - 1) t
      rw [Function.update_self]
      omega
    · change w.held t ≤ Function.update w.refs s (w.refs s - 1) t
      rwa [Function.update_of_ne same]
  | setReadonly i ro =>
    obtain ⟨c, here, e⟩ := Option.map_eq_some_iff.mp run
    cases e
    obtain ⟨⟨m, -, order, v, fields⟩, ⟨items, array⟩⟩ := sound.wellFormed c (List.mem_of_getElem? here)
    have wf : (c.setReadonly ro).WellFormed :=
      ⟨⟨{ m with readonly := ro }, rfl, order, ⟨v.layout, v.pow, v.fields, v.tombs, v.load⟩, fields⟩,
        ⟨items, array.cells, array.len, array.bound⟩⟩
    constructor
    · intro d mem
      obtain mem | rfl := List.mem_or_eq_of_mem_set mem
      · exact sound.wellFormed d mem
      · exact wf
    · intro s
      have cells := held_set here (c.setReadonly ro) w.refs s
      have same : (c.setReadonly ro).held s = c.held s := rfl
      have counted := sound.counted s
      change _ ≤ w.refs s
      omega
  | on i rc => exact sound.callOn (fun c here => fits i rc c rfl here) run
  | copyField dest src idx =>
    obtain ⟨⟨i, rc⟩, target, run⟩ := Option.bind_eq_some_iff.mp run
    exact sound.callOn (fun c here => fits i rc c target here) run

lemma Fitting.sound (run : Fitting calls w) : w.Sound := by
  induction run with
  | start => exact sound_empty
  | step _ given fits performed ih => exact ih.step given fits performed

/-- What a call stores exists: it is passed by the caller, or a field of the source holds it. -/
lemma Sound.given_target (sound : w.Sound) (given : w.Given call) (target : w.target call = some (i, rc)) (s : Str)
    (stored : rc.stored = some (.string s)) : w.refs s ≠ 0 := by
  cases call with
  | on j rc' =>
    cases target
    exact given s stored
  | copyField dest src idx =>
    obtain ⟨rc', called, e⟩ := Option.map_eq_some_iff.mp target
    cases e
    obtain ⟨c, here, called⟩ := Option.bind_eq_some_iff.mp called
    obtain ⟨slot, get, called⟩ := Option.bind_eq_some_iff.mp called
    cases named : slot.key with
    | string key =>
      rw [named] at called
      cases called
      have value : slot.value = .string s := Option.some.inj stored
      have pos : 0 < c.fields.held s := by
        refine List.countP_pos_iff.mpr ⟨slot, List.mem_of_getElem? get, ?_⟩
        simp [named, value, SlotKey.isString, CdoValue.refersTo]
      have le := held_le here s
      have counted := sound.counted s
      rw [Container.held] at le
      omega
    | _ =>
      rw [named] at called
      cases called
  | _ => cases target

/-! ### `object.assign` -/

lemma performAll_append {calls' : List (HeapCall ν)} :
    w.performAll (calls ++ calls') = (w.performAll calls).bind (·.performAll calls') := by
  induction calls generalizing w with
  | nil => rfl
  | cons call calls ih =>
    rw [List.cons_append, performAll, performAll, Option.bind_assoc]
    congr 1
    funext w₁
    exact ih

/-- A traversal calls `assign_field` with slots of its source. -/
lemma assignLoop_calls {dest src turns idx : Nat} (run : assignLoop dest src turns idx w = some (calls, w')) :
    w.performAll calls = some w' ∧ ∀ call ∈ calls, ∃ slot, call = .copyField dest src slot := by
  induction turns generalizing idx w calls with
  | zero => cases run
  | succ turns ih =>
    rw [assignLoop] at run
    split at run
    · cases run
      refine ⟨rfl, ?_⟩
      rintro call ⟨⟩
    · obtain ⟨c, -, run⟩ := Option.bind_eq_some_iff.mp run
      obtain ⟨s, -, run⟩ := Option.bind_eq_some_iff.mp run
      obtain ⟨w₁, first, run⟩ := Option.bind_eq_some_iff.mp run
      obtain ⟨⟨calls₁, w₂⟩, rest, returned⟩ := Option.bind_eq_some_iff.mp run
      cases returned
      obtain ⟨performed, copies⟩ := ih rest
      refine ⟨?_, ?_⟩
      · rw [performAll, first]
        exact performed
      · intro call mem
        obtain rfl | mem := List.mem_cons.mp mem
        · exact ⟨idx, rfl⟩
        · exact copies call mem

/-- `object.assign` is a history of such calls, whichever slots its traversals come across. -/
lemma assign_calls {dest : Nat} {sources : List Nat} (run : w.assign dest sources = some (calls, w')) :
    w.performAll calls = some w' ∧ ∀ call ∈ calls, ∃ src ∈ sources, ∃ slot, call = .copyField dest src slot := by
  induction sources generalizing w calls with
  | nil =>
    cases run
    refine ⟨rfl, ?_⟩
    rintro call ⟨⟩
  | cons src sources ih =>
    obtain ⟨c, -, run⟩ := Option.bind_eq_some_iff.mp run
    obtain ⟨⟨first, w₁⟩, copied, run⟩ := Option.bind_eq_some_iff.mp run
    obtain ⟨⟨rest, w₂⟩, others, returned⟩ := Option.bind_eq_some_iff.mp run
    cases returned
    obtain ⟨performed, copies⟩ := ih others
    have begun : w.performAll first = some w₁ ∧ ∀ call ∈ first, ∃ slot, call = .copyField dest src slot := by
      split at copied
      · exact assignLoop_calls copied
      · cases copied
        refine ⟨rfl, ?_⟩
        rintro call ⟨⟩
    refine ⟨?_, ?_⟩
    · rw [performAll_append, begun.1]
      exact performed
    · intro call mem
      obtain mem | mem := List.mem_append.mp mem
      · obtain ⟨slot, e⟩ := begun.2 call mem
        exact ⟨src, List.mem_cons_self, slot, e⟩
      · obtain ⟨src', mem', slot, e⟩ := copies call mem
        exact ⟨src', List.mem_cons_of_mem src mem', slot, e⟩

/-- After every history whose calls meet the condition, each string's count covers the cells it is in. The next call,
where it comes back, releases only what its container holds, and not the string it stores before that is retained,
exactly if it meets the condition too; then no freed string is touched. And `object.assign`, with any target and
sources, is a history of calls of `assign_field`. -/
theorem fitting_counted (run : Fitting calls w) :
    w.Counted ∧
    (∀ call i rc c actions c', w.target call = some (i, rc) → w.objs[i]? = some c →
      c.call rc = some (actions, c') →
      (c.Disciplined rc actions ↔ c.Fits rc) ∧
      (w.Given call → c.Fits rc → (w.refs.actAll actions).isSome)) ∧
    ∀ dest sources calls' w', w.assign dest sources = some (calls', w') →
      w.performAll calls' = some w' ∧
      ∀ call ∈ calls', ∃ src ∈ sources, ∃ slot, call = .copyField dest src slot := by
  have sound := run.sound
  refine ⟨sound.counted, ?_, fun dest sources calls' w' assigned => assign_calls assigned⟩
  intro call i rc c actions c' target here called
  have wf := sound.wellFormed c (List.mem_of_getElem? here)
  refine ⟨⟨Container.fits_of_disciplined wf called, fun fits => ?_⟩, fun given fits => ?_⟩
  · exact (Container.call_exchanges wf called fits).disciplined
  · exact sound.acts here called fits fun s stored => sound.given_target given target s stored

/-- `o = {}; o.k = "s";` with the key at address 64, before the assignment. -/
def beforeField : RefHeap Nat := { objs := [{}], refs := Function.update (fun _ => 0) (bytes "s") 1 }

/-- The assignment, and the caller giving up its own reference to the string. -/
def fieldCalls : List (HeapCall Nat) := [.on 0 (.rawset 64 (.string (bytes "s")) 0), .drop (bytes "s")]

/-- The calls meet the condition, and leave the field with the one reference to the string. -/
lemma fieldCalls_fitting : ∃ w, Fitting ([.create .object, .string (bytes "s")] ++ fieldCalls) w ∧
    beforeField.performAll fieldCalls = some w := by
  have made : Fitting (ν := Nat) [.create .object] { objs := [{}] } :=
    @Fitting.step _ _ _ _ (.create .object) Fitting.start trivial (fun i rc c target => by cases target) rfl
  have given : Fitting (ν := Nat) [.create .object, .string (bytes "s")] beforeField :=
    @Fitting.step _ _ _ _ (.string (bytes "s")) made trivial (fun i rc c target => by cases target) rfl
  have counts : (beforeField.perform (.on 0 (.rawset 64 (.string (bytes "s")) 0))).map
      (fun w => (w.held (bytes "s"), w.refs (bytes "s"))) = some (1, 2) := by decide +kernel
  obtain ⟨w, performed, counts⟩ := Option.map_eq_some_iff.mp counts
  have written :
      Fitting ([.create .object, .string (bytes "s")] ++ [.on 0 (.rawset 64 (.string (bytes "s")) 0)]) w := by
    refine given.step ?_ (fun i rc c target here => ?_) performed
    · intro t e
      cases e
      change Function.update (fun _ => 0) (bytes "s") 1 (bytes "s") ≠ 0
      rw [Function.update_self]
      decide
    · cases target
      cases here
      exact .inr fun slot mem => by cases mem
  refine ⟨_, @Fitting.step _ _ _ _ (.drop (bytes "s")) written ?_ (fun i rc c target => by cases target) rfl, ?_⟩
  · have own := Prod.mk.inj counts
    change w.held (bytes "s") < w.refs (bytes "s")
    omega
  · rw [fieldCalls, performAll, performed]
    rfl

/-- The object keeps its string alive, and no call of `object.assign` on another object takes it away. -/
theorem fitting_counted_field : ∃ w : RefHeap Nat, beforeField.performAll fieldCalls = some w ∧ w.Counted := by
  obtain ⟨w, run, performed⟩ := fieldCalls_fitting
  exact ⟨w, performed, (fitting_counted run).1⟩

/-- The first slot that `cdo_object_foreach` comes to. -/
def firstSlot (w : RefHeap ν) : Nat := ((w.objs[0]?).map (·.fields.fifoHead)).getD noSlot

/-- `object.assign(o, o)` on that object: the first field's old value, the string itself, is released and so freed
before it is retained. -/
theorem assign_self_freed : ∃ (w : RefHeap Nat) (c c' : Container Nat),
    Fitting ([.create .object, .string (bytes "s")] ++ fieldCalls) w ∧ w.objs[0]? = some c ∧
    w.target (.copyField 0 0 w.firstSlot) = some (0, .rawset 64 (.string (bytes "s")) 0) ∧
    c.call (.rawset 64 (.string (bytes "s")) 0) =
      some ([.release (.field 64) (some (bytes "s")), .retain (bytes "s")], c') ∧
    ¬ c.Disciplined (.rawset 64 (.string (bytes "s")) 0)
      [.release (.field 64) (some (bytes "s")), .retain (bytes "s")] ∧
    w.refs.actAll [.release (.field 64) (some (bytes "s")), .retain (bytes "s")] = none ∧
    (w.assign 0 [0]).isNone := by
  obtain ⟨w, run, performed⟩ := fieldCalls_fitting
  have self : (beforeField.performAll fieldCalls).map (fun w => (w.target (.copyField 0 0 w.firstSlot),
      w.refs.actAll [.release (.field 64) (some (bytes "s")), .retain (bytes "s")] |>.isNone,
      (w.assign 0 [0]).isNone)) =
      some (some (0, .rawset 64 (.string (bytes "s")) 0), true, true) := by decide +kernel
  have object : ((beforeField.performAll fieldCalls).bind fun w => w.objs[0]?).map
      (fun c => (c.call (.rawset 64 (.string (bytes "s")) 0)).map (·.1)) =
      some (some [.release (.field 64) (some (bytes "s")), .retain (bytes "s")]) := by decide +kernel
  rw [performed] at self object
  obtain ⟨c, here, called⟩ := Option.map_eq_some_iff.mp object
  obtain ⟨⟨actions, c'⟩, called, rfl⟩ := Option.map_eq_some_iff.mp called
  simp only [Option.map_some, Option.some.injEq, Prod.mk.injEq, Option.isNone_iff_eq_none] at self
  refine ⟨w, c, c', run, here, self.1, called, fun disciplined => ?_, self.2.1, ?_⟩
  · obtain ⟨t, same, -, kept⟩ := disciplined [] (.field 64) (some (bytes "s")) _ rfl
    cases same
    exact absurd (kept rfl) List.not_mem_nil
  · rw [self.2.2]
    rfl

end RefHeap

end Cando
