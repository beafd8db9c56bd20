import Cando.Object.Foreach
import Mathlib.Data.List.Forall2

/-!
# Merging objects

`object.copy`, `object.assign` and `object.apply` of `lib/object.c`: each runs `cdo_object_foreach` over one object
with a callback that writes into another. What they are for is the union of insertion-ordered maps. The link to the
prototype is a field like any other, `__index`.
-/

namespace Cando

variable {ν : Type}

/-- The objects by address, of which only the plain ones have a table, and the addresses behind the handles. -/
structure PlainObjects (ν : Type) where
  objs : List (Option (HashTable ν)) := []
  handles : List Nat := []
  deriving DecidableEq, Repr

namespace PlainObjects

/-- `resolve_object` on an argument, which is absent from `argc` on: the address of a plain object, or `NULL`. It is
`none` on a handle that was never given out. -/
def resolveObject (w : PlainObjects ν) : Option (Value ν) → Option (Option Nat)
  | some (.object h) => do
    let p ← w.handles[h]?
    let o ← w.objs[p]?
    some (if o.isSome then some p else none)
  | _ => some none

/-- The fields of a plain object. -/
def table (w : PlainObjects ν) (p : Nat) : Option (HashTable ν) := (w.objs[p]?).join

/-- `cando_bridge_new_object`. -/
def newObject (w : PlainObjects ν) : Value ν × PlainObjects ν :=
  (.object w.handles.length, { objs := w.objs ++ [some {}], handles := w.handles ++ [w.objs.length] })

/-- A callback of `cdo_object_foreach` that writes. -/
abbrev FieldFn (ν : Type) : Type := PlainObjects ν → SlotKey → CdoValue ν → Nat → Option (PlainObjects ν)

/-- `cdo_object_rawset` on the object at `dest`, with flags that come from the field's; a slot without a key fails the
assertion. -/
def setField (flagsOf : Nat → Nat) (dest : Nat) : FieldFn ν := fun w key val flags => do
  let t ← w.table dest
  match key with
  | .string key => do
    let (_, t) ← t.rawset key val (flagsOf flags)
    some { w with objs := w.objs.set dest (some t) }
  | _ => none

/-- `copy_field`. -/
def copyField (dest : Nat) : FieldFn ν := setField id dest

/-- `assign_field`: the flags are `FIELD_NONE`. -/
def assignField (dest : Nat) : FieldFn ν := setField (fun _ => 0) dest

/-- The loop of `cdo_object_foreach` over the object at `src`, from slot `idx` on. -/
def foreachLoop (src : Nat) (fn : FieldFn ν) : (turns idx : Nat) → PlainObjects ν → Option (PlainObjects ν)
  | 0, _, _ => none
  | turns + 1, idx, w =>
    if idx = noSlot then some w
    else do
      let t ← w.table src
      let s ← t.slots[idx]?
      let w ← fn w s.key s.value s.flags
      foreachLoop src fn turns s.fifoNext w

/-- `cdo_object_foreach`. Where the callback rehashes the object itself the loop may turn twice as often. -/
def foreach (w : PlainObjects ν) (src : Nat) (fn : FieldFn ν) : Option (PlainObjects ν) := do
  let t ← w.table src
  foreachLoop src fn (2 * t.slots.length + 2) t.fifoHead w

/-- `obj_copy`. -/
def objCopy (w : PlainObjects ν) (args : List (Value ν)) : Option (Value ν × PlainObjects ν) := do
  match ← w.resolveObject args[0]? with
  | none => some (.null, w)
  | some src => do
    let (destVal, made) := w.newObject
    let w ← made.foreach src (copyField w.objs.length)
    some (destVal, w)

/-- The loop of `obj_assign` and `obj_apply` over the sources. -/
def assignSources (dest : Nat) : (sources : List (Value ν)) → PlainObjects ν → Option (PlainObjects ν)
  | [], w => some w
  | arg :: sources, w => do
    match ← w.resolveObject (some arg) with
    | none => assignSources dest sources w
    | some src => do
      let w ← w.foreach src (assignField dest)
      assignSources dest sources w

/-- `obj_assign`. -/
def objAssign (w : PlainObjects ν) (args : List (Value ν)) : Option (Value ν × PlainObjects ν) := do
  match ← w.resolveObject args[0]? with
  | none => some (.null, w)
  | some target => do
    let w ← w.assignSources target args.tail
    some (args.headD .null, w)

/-- `obj_apply`. -/
def objApply (w : PlainObjects ν) (args : List (Value ν)) : Option (Value ν × PlainObjects ν) := do
  let (destVal, made) := w.newObject
  match ← w.resolveObject args[0]? with
  | none => some (destVal, made)
  | some base => do
    let copied ← made.foreach base (copyField w.objs.length)
    let merged ← copied.assignSources w.objs.length args.tail
    some (destVal, merged)


end PlainObjects

/-! ### Tables of any size -/

lemma FieldMap.length_set (m : FieldMap ν) (key : Nat) (val : CdoValue ν) (flags : Nat) :
    (m.perform (.set key val flags)).2.fields.length ≤ m.fields.length + 1 := by
  rw [perform]
  split
  · exact Nat.le_succ _
  split
  · exact Nat.le_succ _
  · rw [OrderedMap.insert]
    split
    · rw [List.length_map]
      exact Nat.le_succ _
    · rw [List.length_append]
      exact le_rfl

namespace HashTable

variable {t t' : HashTable ν} {m : FieldMap ν} {key : Nat} {val : CdoValue ν} {flags : Nat}

/-- A plain object and the map of its fields, after any operations from a new object on. -/
inductive Reached : HashTable ν → FieldMap ν → Prop where
  | new : Reached {} {}
  | step {t t' : HashTable ν} {m : FieldMap ν} {op : FieldOp ν} {r : Bool} :
    Reached t m → t.perform op = some (r, t') → Reached t' (m.perform op).2

/-- Where `cdo_object_rawset` comes back it has done what the map's operation does. -/
lemma Repr.rawset_some (rep : t.Repr m) {ok : Bool} (run : t.rawset key val flags = some (ok, t')) :
    t'.Repr (m.perform (.set key val flags)).2 := by
  by_cases readonly : m.readonly = true
  · rw [rawset, if_pos (rep.1.trans readonly)] at run
    cases run
    rw [FieldMap.perform, if_pos readonly]
    exact rep
  · have writable : t.readonly ≠ true := rep.1 ▸ readonly
    have step := run
    rw [rawset, if_neg writable] at step
    obtain ⟨t₁, ensured, -⟩ := Option.bind_eq_some_iff.mp step
    obtain ⟨ro, order, v, fields⟩ := rep
    obtain ⟨order₁, v₁, fields₁, ro₁, -, pow, room⟩ := v.ensureCapacity_some ensured
    obtain ⟨t₂, run₂, rep₂, -, -⟩ := Repr.rawset_ensured ⟨ro, order, v, fields⟩ readonly ensured v₁
      (fields₁.trans fields) ro₁ pow room key val flags
    cases run₂.symm.trans run
    exact rep₂

lemma Reached.repr (reached : Reached t m) : t.Repr m := by
  induction reached with
  | new => exact ⟨rfl, [], inv_new, rfl⟩
  | @step t t' m op r reached run rep =>
    cases op with
    | set key val flags => exact rep.rawset_some run
    | delete key =>
      obtain ⟨u, run', rep', -⟩ := rep.rawdelete_spec key
      cases run'.symm.trans run
      exact rep'
    | setReadonly ro =>
      cases run
      obtain ⟨-, order, v, fields⟩ := rep
      exact ⟨rfl, order, ⟨v.layout, v.pow, v.fields, v.tombs, v.load⟩, fields⟩

lemma Repr.distinct (rep : t.Repr m) : OrderedMap.Distinct m.fields := by
  obtain ⟨-, order, v, fields⟩ := rep
  exact fields ▸ v.layout.fields_distinct

lemma Repr.rawget (rep : t.Repr m) (k : Nat) :
    t.rawget k = some ((OrderedMap.find m.fields k).map (·.1)) := by
  obtain ⟨-, order, v, fields⟩ := rep
  exact fields ▸ v.rawget_spec k

lemma Repr.fieldCount (rep : t.Repr m) : t.fieldCount = m.fields.length := by
  obtain ⟨-, order, v, fields⟩ := rep
  rw [v.fields, ← fields, List.length_map]

lemma Reached.rawsetAll {writes : List (Nat × CdoValue ν × Nat)} (reached : Reached t m)
    (run : t.rawsetAll writes = some t') : Reached t' (setAll m writes) := by
  induction writes generalizing t m with
  | nil =>
    cases run
    exact reached
  | cons w writes ih =>
    obtain ⟨⟨ok, t₁⟩, first, rest⟩ := Option.bind_eq_some_iff.mp run
    have next : Reached t₁ (m.perform (.set w.1 w.2.1 w.2.2)).2 := reached.step first
    exact ih next rest

lemma rawsetAll_append (t : HashTable ν) (writes writes' : List (Nat × CdoValue ν × Nat)) :
    t.rawsetAll (writes ++ writes') = (t.rawsetAll writes).bind (·.rawsetAll writes') := by
  induction writes generalizing t with
  | nil => rfl
  | cons w writes ih =>
    simp only [List.cons_append, HashTable.rawsetAll, ih, Option.bind_eq_bind, Option.bind_assoc]

/-- The table takes `n` more fields without coming near the capacities whose products exceed 32 bits. -/
def RoomFor (t : HashTable ν) (n : Nat) : Prop :=
  t.slots.length < 268435456 ∧ t.fieldCount + t.tombstoneCount + n < 100663296

lemma Repr.rawset_room (rep : t.Repr m) {n : Nat} (room : t.RoomFor (n + 1)) (key : Nat) (val : CdoValue ν)
    (flags : Nat) : ∃ ok t', t.rawset key val flags = some (ok, t') ∧ t'.RoomFor n := by
  obtain ⟨small, few⟩ := room
  by_cases readonly : m.readonly = true
  · refine ⟨false, t, ?_, small, by omega⟩
    rw [rawset, if_pos (rep.1.trans readonly)]
  · have counted := rep.fieldCount
    have longer := m.length_set key val flags
    obtain ⟨ro, order, v, fields⟩ := rep
    obtain ⟨keep, pow, free⟩ | ⟨t₁, order₁, ensured, v₁, fields₁, ro₁, count, clean, pow, -, free, least⟩ :=
      v.ensureCapacity_cases small
    · obtain ⟨t', run, rep', len, tombs⟩ := Repr.rawset_ensured ⟨ro, order, v, fields⟩ readonly keep v fields rfl pow
        free key val flags
      have counted' := rep'.fieldCount
      exact ⟨_, t', run, len ▸ small, by omega⟩
    · obtain ⟨t', run, rep', len, tombs⟩ := Repr.rawset_ensured ⟨ro, order, v, fields⟩ readonly ensured v₁
        (fields₁.trans fields) ro₁ pow (by omega) key val flags
      have counted' := rep'.fieldCount
      exact ⟨_, t', run, by omega, by omega⟩

lemma roomFor_new {n : Nat} (few : n < 100663296) : ({} : HashTable ν).RoomFor n :=
  ⟨Nat.succ_pos _, (Nat.zero_add n).symm ▸ few⟩

/-- Writes to a table with room come back. -/
lemma Repr.rawsetAll_room {writes : List (Nat × CdoValue ν × Nat)} (rep : t.Repr m) (room : t.RoomFor writes.length) :
    ∃ t', t.rawsetAll writes = some t' := by
  induction writes generalizing t m with
  | nil => exact ⟨t, rfl⟩
  | cons w writes ih =>
    obtain ⟨ok, t₁, run, room₁⟩ := rep.rawset_room room w.1 w.2.1 w.2.2
    obtain ⟨t', rest⟩ := ih (rep.rawset_some run) room₁
    refine ⟨t', ?_⟩
    rw [HashTable.rawsetAll, run]
    exact rest

end HashTable

/-! ### Fields that may all be written -/

namespace FieldMap

/-- The object is not readonly, and none of its fields is static. -/
def Writable (m : FieldMap ν) : Prop := m.readonly = false ∧ ∀ f ∈ m.fields, isStatic f.2.2 = false

variable {m : FieldMap ν}

lemma perform_new (writable : m.readonly = false) {key : Nat} (unknown : key ∉ m.fields.map (·.1)) (val : CdoValue ν)
    (flags : Nat) : (m.perform (.set key val flags)).2 = { m with fields := m.fields ++ [(key, val, flags)] } := by
  have absent := OrderedMap.find_none unknown
  simp [perform, writable, absent, OrderedMap.insert_new unknown]

lemma Writable.perform (writable : m.Writable) (key : Nat) (val : CdoValue ν) :
    (m.perform (.set key val 0)).2 = { m with fields := OrderedMap.insert m.fields key (val, 0) } ∧
      (m.perform (.set key val 0)).2.Writable := by
  obtain ⟨ro, free⟩ := writable
  have plain : isStatic 0 = false := by decide
  have unlocked : ((OrderedMap.find m.fields key).any fun f => isStatic f.2) = false := by
    cases found : OrderedMap.find m.fields key with
    | none => rfl
    | some f =>
      obtain ⟨l, r, split⟩ := OrderedMap.exists_middle found
      exact free (key, f) (by simp [split])
  have step : (m.perform (.set key val 0)).2 = { m with fields := OrderedMap.insert m.fields key (val, 0) } := by
    simp [FieldMap.perform, ro, unlocked]
  refine ⟨step, step ▸ ⟨ro, fun f mem => ?_⟩⟩
  rw [OrderedMap.insert] at mem
  split at mem
  · obtain ⟨g, inside, rfl⟩ := List.mem_map.mp mem
    split
    · exact plain
    · exact free g inside
  · obtain old | new := List.mem_append.mp mem
    · exact free f old
    · cases List.mem_singleton.mp new
      exact plain

end FieldMap

namespace HashTable

variable {m : FieldMap ν}

/-- Writes of new fields append them. -/
lemma setAll_new {writes : List (Nat × CdoValue ν × Nat)} (writable : m.readonly = false)
    (distinct : OrderedMap.Distinct (m.fields ++ writes)) :
    setAll m writes = { m with fields := m.fields ++ writes } := by
  induction writes generalizing m with
  | nil => simp [setAll]
  | cons w writes ih =>
    obtain ⟨key, val, flags⟩ := w
    have step := FieldMap.perform_new writable distinct.middle.1 val flags
    have shift : m.fields ++ (key, val, flags) :: writes = (m.fields ++ [(key, val, flags)]) ++ writes := by
      rw [List.append_assoc]
      rfl
    rw [shift] at distinct
    rw [setAll, List.foldl_cons, step, shift]
    exact ih (m := { m with fields := m.fields ++ [(key, val, flags)] }) writable distinct

/-- Writes of fields without flags merge them in. -/
lemma setAll_plain {fields : List (Nat × CdoValue ν × Nat)} (writable : m.Writable) (plain : ∀ f ∈ fields, f.2.2 = 0) :
    setAll m fields = { m with fields := OrderedMap.insertAll m.fields fields } := by
  induction fields generalizing m with
  | nil => rfl
  | cons f fields ih =>
    obtain ⟨key, val, flags⟩ := f
    obtain rfl : flags = 0 := plain (key, val, flags) List.mem_cons_self
    obtain ⟨step, writable'⟩ := writable.perform key val
    have rest := ih writable' fun f mem => plain f (List.mem_cons_of_mem _ mem)
    rw [step] at rest
    rw [setAll, List.foldl_cons, step]
    exact rest

end HashTable

namespace PlainObjects

variable {w w' : PlainObjects ν} {p src dest : Nat} {t u : HashTable ν} {m : FieldMap ν}

/-- The object at `dest` has these fields. -/
def withTable (w : PlainObjects ν) (dest : Nat) (u : HashTable ν) : PlainObjects ν :=
  { w with objs := w.objs.set dest (some u) }

lemma table_some (here : w.table p = some t) : w.objs[p]? = some (some t) := by
  rw [table, Option.join_eq_some_iff] at here
  exact here

lemma withTable_self (here : w.table dest = some u) : w.withTable dest u = w := by
  obtain ⟨lt, eq⟩ := List.getElem?_eq_some_iff.mp (table_some here)
  rw [withTable, ← eq, List.set_getElem_self]

lemma table_withTable (here : w.table dest = some u) (u' : HashTable ν) :
    (w.withTable dest u').table dest = some u' := by
  obtain ⟨lt, -⟩ := List.getElem?_eq_some_iff.mp (table_some here)
  rw [table, withTable, List.getElem?_set_self lt]
  rfl

lemma getElem?_withTable (apart : p ≠ dest) (u : HashTable ν) : (w.withTable dest u).objs[p]? = w.objs[p]? :=
  List.getElem?_set_ne apart.symm

lemma table_withTable_ne (apart : p ≠ dest) (u : HashTable ν) : (w.withTable dest u).table p = w.table p := by
  rw [table, getElem?_withTable apart, table]

lemma withTable_withTable (u u' : HashTable ν) : (w.withTable dest u).withTable dest u' = w.withTable dest u' := by
  simp only [withTable, List.set_set]

lemma resolveObject_withTable (here : w.table dest = some u) (u' : HashTable ν) (arg : Option (Value ν)) :
    (w.withTable dest u').resolveObject arg = w.resolveObject arg := by
  rcases arg with - | - | - | - | - | h <;> try rfl
  simp only [resolveObject]
  congr 1
  funext p
  by_cases apart : p = dest
  · subst apart
    have now := table_some (table_withTable here u')
    rw [now, table_some here]
    rfl
  · rw [getElem?_withTable apart]

/-- What the callback writes for a field. -/
def written (flagsOf : Nat → Nat) (f : Nat × CdoValue ν × Nat) : Nat × CdoValue ν × Nat := (f.1, f.2.1, flagsOf f.2.2)

/-- The loop writes the fields of the one object to the other, one after the other. -/
lemma foreachLoop_eq (flagsOf : Nat → Nat) (apart : src ≠ dest) (source : w.table src = some t)
    (target : w.table dest = some u) {order rest : List Nat} (v : t.Inv order) {idx turns : Nat}
    (chain : Chain (nextAt t.slots) idx rest noSlot) (mem : ∀ i ∈ rest, i ∈ order) (enough : rest.length < turns) :
    foreachLoop src (setField flagsOf dest) turns idx w =
      (u.rawsetAll ((rest.map (fieldAt t.slots)).map (written flagsOf))).map (w.withTable dest) := by
  induction rest generalizing w u idx turns with
  | nil =>
    obtain rfl : idx = noSlot := chain
    obtain ⟨turns, rfl⟩ := Nat.exists_eq_succ_of_ne_zero (Nat.ne_of_gt enough)
    simp [foreachLoop, HashTable.rawsetAll, withTable_self target]
  | cons i rest ih =>
    obtain ⟨rfl, chain⟩ := chain
    obtain ⟨turns, rfl⟩ := Nat.exists_eq_succ_of_ne_zero (Nat.ne_of_gt (Nat.zero_lt_of_lt enough))
    have ordered := mem idx List.mem_cons_self
    have inside : idx ≠ noSlot := fun e => v.layout.noSlot_not_mem (e ▸ ordered)
    obtain ⟨s, get, key, next, -, field⟩ := exists_slot (v.layout.lt ordered)
    have string := key.trans (v.layout.fieldAt_key ordered)
    have here : written flagsOf (fieldAt t.slots idx) = ((fieldAt t.slots idx).1, s.value, flagsOf s.flags) := by
      rw [written, ← field]
      rfl
    rw [List.map_cons, List.map_cons, here]
    simp only [foreachLoop, inside, if_false, source, get, setField, target, string, HashTable.rawsetAll,
      Option.bind_eq_bind, Option.bind_some]
    cases run : u.rawset (fieldAt t.slots idx).1 s.value (flagsOf s.flags) with
    | none => rfl
    | some r =>
      obtain ⟨ok, u'⟩ := r
      have source' : (w.withTable dest u').table src = some t := (table_withTable_ne apart u').trans source
      have rest' := ih source' (table_withTable target u') (next ▸ chain) (fun i m => mem i (List.mem_cons_of_mem _ m))
        (Nat.lt_of_succ_lt_succ enough)
      refine rest'.trans ?_
      simp only [Option.bind_some]
      congr 1
      funext u''
      exact withTable_withTable u' u''

/-- `cdo_object_foreach` over one object with a callback that writes to another. -/
lemma foreach_eq (flagsOf : Nat → Nat) (apart : src ≠ dest) (source : w.table src = some t)
    (target : w.table dest = some u) (rep : t.Repr m) :
    w.foreach src (setField flagsOf dest) =
      (u.rawsetAll (m.fields.map (written flagsOf))).map (w.withTable dest) := by
  obtain ⟨-, order, v, fields⟩ := rep
  have short : order.length ≤ t.slots.length := by
    have load := v.load
    rw [v.fields] at load
    omega
  simp only [foreach, source, Option.bind_eq_bind, Option.bind_some]
  rw [foreachLoop_eq flagsOf apart source target v v.layout.forward (fun _ m => m) (by omega), fields]

/-- The argument is a plain object, at this address and with these fields. -/
def Holds (w : PlainObjects ν) (arg : Value ν) (p : Nat) (m : FieldMap ν) : Prop :=
  w.resolveObject (some arg) = some (some p) ∧ ∃ t, w.table p = some t ∧ t.Reached m

/-- The sources are plain objects other than the one at `dest`. -/
def Sources (w : PlainObjects ν) (dest : Nat) : List (Value ν) → List (FieldMap ν) → Prop :=
  List.Forall₂ fun arg m => ∃ q, w.Holds arg q m ∧ q ≠ dest

/-- What `assign_field` writes for the fields of the sources. -/
def assigned (ms : List (FieldMap ν)) : List (Nat × CdoValue ν × Nat) :=
  ms.flatMap fun m => m.fields.map (written fun _ => 0)

variable {o arg : Value ν} {sources : List (Value ν)} {ms : List (FieldMap ν)}

lemma Holds.withTable (held : w.Holds arg p m) (target : w.table dest = some u) (apart : p ≠ dest) (u' : HashTable ν) :
    (w.withTable dest u').Holds arg p m := by
  obtain ⟨resolved, t, here, reached⟩ := held
  exact ⟨(resolveObject_withTable target u' _).trans resolved, t, (table_withTable_ne apart u').trans here, reached⟩

lemma Holds.now (held : w.Holds arg p m) {m' : FieldMap ν} (reached : u.Reached m') :
    (w.withTable p u).Holds arg p m' := by
  obtain ⟨resolved, t, here, -⟩ := held
  exact ⟨(resolveObject_withTable here u _).trans resolved, u, table_withTable here u, reached⟩

lemma Holds.lt (held : w.Holds arg p m) : p < w.objs.length := by
  obtain ⟨-, t, here, -⟩ := held
  exact (List.getElem?_eq_some_iff.mp (table_some here)).1

lemma Sources.distinct (given : w.Sources dest sources ms) : ∀ m ∈ ms, OrderedMap.Distinct m.fields := by
  induction given with
  | nil => exact fun m mem => absurd mem List.not_mem_nil
  | cons first _ ih =>
    obtain ⟨q, ⟨-, t, -, reached⟩, -⟩ := first
    exact List.forall_mem_cons.mpr ⟨reached.repr.distinct, ih⟩

/-- The loop over the sources writes their fields to the object, in order. -/
lemma assignSources_eq (target : w.table dest = some u) (given : w.Sources dest sources ms) :
    assignSources dest sources w = (u.rawsetAll (assigned ms)).map (w.withTable dest) := by
  induction sources generalizing w u ms with
  | nil =>
    cases given
    simp [assignSources, assigned, HashTable.rawsetAll, withTable_self target]
  | cons arg sources ih =>
    obtain - | ⟨⟨q, held, apart⟩, given⟩ := given
    rename_i m ms
    have same := held.1
    obtain ⟨-, t, source, reached⟩ := held
    have one := foreach_eq (fun _ => 0) apart source target reached.repr
    rw [assigned, List.flatMap_cons, ← assigned, HashTable.rawsetAll_append]
    simp only [assignSources, same, assignField, one, Option.bind_eq_bind, Option.bind_some]
    cases u.rawsetAll (m.fields.map (written fun _ => 0)) with
    | none => rfl
    | some u' =>
      have given' : (w.withTable dest u').Sources dest sources ms :=
        given.imp fun arg m => by
          rintro ⟨q, held, apart⟩
          exact ⟨q, held.withTable target apart u', apart⟩
      refine (ih (table_withTable target u') given').trans ?_
      simp only [Option.bind_some]
      congr 1
      funext u''
      exact withTable_withTable u' u''

/-! ### The natives -/

lemma objAssign_eq (held : w.Holds o p m) (target : w.table p = some t) (given : w.Sources p sources ms) :
    w.objAssign (o :: sources) = (t.rawsetAll (assigned ms)).map fun u => (o, w.withTable p u) := by
  have resolved : w.resolveObject (o :: sources)[0]? = some (some p) := held.1
  have loop := assignSources_eq target given
  simp only [objAssign, resolved, List.tail_cons, loop, Option.bind_eq_bind, Option.bind_some, List.headD_cons]
  cases t.rawsetAll (assigned ms) <;> rfl

lemma newObject_getElem? {q : Nat} (lt : q < w.objs.length) : w.newObject.2.objs[q]? = w.objs[q]? :=
  List.getElem?_append_left lt

lemma table_newObject (w : PlainObjects ν) : w.newObject.2.table w.objs.length = some {} := by
  simp [table, newObject]

lemma resolveObject_newObject (resolved : w.resolveObject (some arg) = some (some p)) :
    w.newObject.2.resolveObject (some arg) = some (some p) := by
  cases arg with
  | object h =>
    simp only [resolveObject, Option.bind_eq_bind, Option.bind_eq_some_iff] at resolved ⊢
    obtain ⟨q, handle, o, here, kind⟩ := resolved
    refine ⟨q, ?_, o, ?_, kind⟩
    · obtain ⟨lt, -⟩ := List.getElem?_eq_some_iff.mp handle
      exact (List.getElem?_append_left lt).trans handle
    · obtain ⟨lt, -⟩ := List.getElem?_eq_some_iff.mp here
      exact (newObject_getElem? lt).trans here
  | null => cases resolved
  | bool b => cases resolved
  | number x => cases resolved
  | string s => cases resolved

lemma Holds.newObject (held : w.Holds arg p m) : w.newObject.2.Holds arg p m := by
  have lt := held.lt
  obtain ⟨resolved, t, here, reached⟩ := held
  refine ⟨resolveObject_newObject resolved, t, ?_, reached⟩
  rw [table, newObject_getElem? lt]
  exact here

/-- The new object is the one the native returns. -/
lemma resolve_newObject (w : PlainObjects ν) :
    w.newObject.2.resolveObject (some w.newObject.1) = some (some w.objs.length) := by
  simp [newObject, resolveObject]

lemma written_id (fields : List (Nat × CdoValue ν × Nat)) : fields.map (written id) = fields := List.map_id' fields

lemma objCopy_eq (held : w.Holds o p m) : w.objCopy [o] =
    (({} : HashTable ν).rawsetAll m.fields).map fun u => (w.newObject.1, w.newObject.2.withTable w.objs.length u) := by
  have resolved : w.resolveObject [o][0]? = some (some p) := held.1
  obtain ⟨-, t, source, reached⟩ := held.newObject
  have loop := foreach_eq id (Nat.ne_of_lt held.lt) source (table_newObject w) reached.repr
  rw [written_id] at loop
  simp only [objCopy, resolved, copyField, loop, Option.bind_eq_bind, Option.bind_some]
  cases ({} : HashTable ν).rawsetAll m.fields <;> rfl

lemma objApply_eq (held : w.Holds o p m) {ms : List (FieldMap ν)}
    (given : List.Forall₂ (fun arg m => ∃ q, w.Holds arg q m) sources ms) : w.objApply (o :: sources) =
      (({} : HashTable ν).rawsetAll (m.fields ++ assigned ms)).map fun u =>
        (w.newObject.1, w.newObject.2.withTable w.objs.length u) := by
  have resolved : w.resolveObject (o :: sources)[0]? = some (some p) := held.1
  obtain ⟨-, t, source, reached⟩ := held.newObject
  have fresh := table_newObject w
  have copy := foreach_eq id (Nat.ne_of_lt held.lt) source fresh reached.repr
  rw [written_id] at copy
  rw [HashTable.rawsetAll_append]
  simp only [objApply, resolved, copyField, copy, List.tail_cons, Option.bind_eq_bind, Option.bind_some]
  cases ({} : HashTable ν).rawsetAll m.fields with
  | none => rfl
  | some u =>
    have given' : (w.newObject.2.withTable w.objs.length u).Sources w.objs.length sources ms :=
      given.imp fun arg m ⟨q, held⟩ =>
        ⟨q, held.newObject.withTable fresh (Nat.ne_of_lt held.lt) u, Nat.ne_of_lt held.lt⟩
    have loop := assignSources_eq (table_withTable fresh u) given'
    simp only [Option.map_some, Option.bind_some, loop]
    cases u.rawsetAll (assigned ms) with
    | none => rfl
    | some u' => simp only [Option.map_some, Option.bind_some, withTable_withTable]

/-! ### Unions -/

/-- The fields are the union of the maps from left to right: the keys in the order in which they come first, each with
the value of the last map that has it. -/
structure UnionOf (fields : List (Nat × CdoValue ν × Nat)) (m : FieldMap ν) (ms : List (FieldMap ν)) : Prop where
  keys : fields.map (·.1) = (m.fields.map (·.1) ++ ms.flatMap fun m => m.fields.map (·.1)).eraseDups
  values : ∀ k, (OrderedMap.find fields k).map (·.1) =
    (m :: ms).reverse.findSome? fun m => (OrderedMap.find m.fields k).map (·.1)

lemma keys_written (flagsOf : Nat → Nat) (fields : List (Nat × CdoValue ν × Nat)) :
    (fields.map (written flagsOf)).map (·.1) = fields.map (·.1) := by
  rw [List.map_map]
  rfl

lemma find_written (flagsOf : Nat → Nat) (fields : List (Nat × CdoValue ν × Nat)) (k : Nat) :
    (OrderedMap.find (fields.map (written flagsOf)) k).map (·.1) = (OrderedMap.find fields k).map (·.1) := by
  rw [OrderedMap.find, OrderedMap.find, List.find?_map, Option.map_map, Option.map_map, Option.map_map]
  rfl

lemma unionOf_assigned (distinct : OrderedMap.Distinct m.fields) (given : ∀ s ∈ ms, OrderedMap.Distinct s.fields) :
    UnionOf (OrderedMap.insertAll m.fields (assigned ms)) m ms := by
  have plain : assigned ms = (ms.map fun s => s.fields.map (written fun _ => 0)).flatten := List.flatMap_def
  have merged : ∀ s ∈ ms.map (fun s => s.fields.map (written fun _ => 0)), OrderedMap.Distinct s := by
    intro s mem
    obtain ⟨s, inside, rfl⟩ := List.mem_map.mp mem
    rw [OrderedMap.Distinct, keys_written]
    exact given s inside
  rw [plain, ← OrderedMap.union_eq]
  refine ⟨?_, fun k => ?_⟩
  · rw [OrderedMap.keys_union distinct, List.flatMap_map]
    simp only [keys_written]
  · have last := OrderedMap.find_union distinct merged k
    rw [last, List.map_findSome?]
    simp only [List.reverse_cons, ← List.map_reverse, List.findSome?_append, List.findSome?_map,
      List.findSome?_singleton, Function.comp_def, find_written]

/-- What `object.assign` is for: it returns its first argument, which now holds the union, and nothing else has
changed. -/
def Assigns (w : PlainObjects ν) (o : Value ν) (p : Nat) (m : FieldMap ν) (ms : List (FieldMap ν))
    (r : Value ν × PlainObjects ν) : Prop :=
  r.1 = o ∧ (∃ m', r.2.Holds o p m' ∧ UnionOf m'.fields m ms) ∧ ∀ q, q ≠ p → r.2.objs[q]? = w.objs[q]?

/-- What `object.apply` is for: it returns a new object that holds the union, and nothing else has changed. -/
def Applies (w : PlainObjects ν) (m : FieldMap ν) (ms : List (FieldMap ν)) (r : Value ν × PlainObjects ν) : Prop :=
  (∃ m', r.2.Holds r.1 w.objs.length m' ∧ UnionOf m'.fields m ms) ∧
    ∀ q < w.objs.length, r.2.objs[q]? = w.objs[q]?

/-- What `object.copy` is for: it returns a new object with the fields other than the link to the prototype, and
nothing else has changed. -/
def Copies (metaIndex : Nat) (w : PlainObjects ν) (m : FieldMap ν) (r : Value ν × PlainObjects ν) : Prop :=
  (∃ m', r.2.Holds r.1 w.objs.length m' ∧ m'.fields = m.fields.filter (·.1 ≠ metaIndex)) ∧
    ∀ q < w.objs.length, r.2.objs[q]? = w.objs[q]?

/-- The three natives come back and do what they are for. -/
def Merges (metaIndex : Nat) (w : PlainObjects ν) (o : Value ν) (p : Nat) (m : FieldMap ν) (sources : List (Value ν))
    (ms : List (FieldMap ν)) : Prop :=
  (∃ r, w.objAssign (o :: sources) = some r ∧ w.Assigns o p m ms r) ∧
  (∃ r, w.objApply (o :: sources) = some r ∧ w.Applies m ms r) ∧
  ∃ r, w.objCopy [o] = some r ∧ w.Copies metaIndex m r

variable {r : Value ν × PlainObjects ν} {metaIndex : Nat}

lemma assigned_plain (ms : List (FieldMap ν)) : ∀ f ∈ assigned ms, f.2.2 = 0 := by
  intro f mem
  obtain ⟨m, -, inside⟩ := List.mem_flatMap.mp mem
  obtain ⟨g, -, rfl⟩ := List.mem_map.mp inside
  rfl

lemma objAssign_some (held : w.Holds o p m) (writable : m.Writable) (given : w.Sources p sources ms)
    (run : w.objAssign (o :: sources) = some r) : w.Assigns o p m ms r := by
  obtain ⟨-, t, target, reached⟩ := id held
  rw [objAssign_eq held target given] at run
  obtain ⟨u, wrote, rfl⟩ := Option.map_eq_some_iff.mp run
  have after := reached.rawsetAll wrote
  rw [HashTable.setAll_plain writable (assigned_plain ms)] at after
  exact ⟨rfl, ⟨_, held.now after, unionOf_assigned reached.repr.distinct given.distinct⟩,
    fun q apart => getElem?_withTable apart u⟩

/-- A new object after some writes. -/
lemma newObject_holds (w : PlainObjects ν) {writes : List (Nat × CdoValue ν × Nat)}
    (wrote : ({} : HashTable ν).rawsetAll writes = some u) :
    (w.newObject.2.withTable w.objs.length u).Holds w.newObject.1 w.objs.length (HashTable.setAll {} writes) ∧
      ∀ q < w.objs.length, (w.newObject.2.withTable w.objs.length u).objs[q]? = w.objs[q]? := by
  have fresh : w.newObject.2.Holds w.newObject.1 w.objs.length {} :=
    ⟨resolve_newObject w, {}, table_newObject w, .new⟩
  refine ⟨fresh.now (HashTable.Reached.new.rawsetAll wrote), fun q lt => ?_⟩
  rw [getElem?_withTable (Nat.ne_of_lt lt), newObject_getElem? lt]

lemma setAll_empty (distinct : OrderedMap.Distinct m.fields) :
    HashTable.setAll ({} : FieldMap ν) m.fields = { fields := m.fields } :=
  HashTable.setAll_new rfl distinct

lemma objApply_some (held : w.Holds o p m) (writable : m.Writable) (given : w.Sources p sources ms)
    (run : w.objApply (o :: sources) = some r) : w.Applies m ms r := by
  obtain ⟨-, t, -, reached⟩ := id held
  have distinct := reached.repr.distinct
  rw [objApply_eq held (given.imp fun arg m ⟨q, held, _⟩ => ⟨q, held⟩)] at run
  obtain ⟨u, wrote, rfl⟩ := Option.map_eq_some_iff.mp run
  obtain ⟨after, frame⟩ := newObject_holds w wrote
  have copy : ({ fields := m.fields } : FieldMap ν).Writable := ⟨rfl, writable.2⟩
  have merged : HashTable.setAll ({} : FieldMap ν) (m.fields ++ assigned ms) =
      { fields := OrderedMap.insertAll m.fields (assigned ms) } := by
    have both : HashTable.setAll ({} : FieldMap ν) (m.fields ++ assigned ms) =
        HashTable.setAll (HashTable.setAll {} m.fields) (assigned ms) := List.foldl_append
    rw [both, setAll_empty distinct, HashTable.setAll_plain copy (assigned_plain ms)]
  rw [merged] at after
  exact ⟨⟨_, after, unionOf_assigned distinct given.distinct⟩, frame⟩

lemma objCopy_some (held : w.Holds o p m) (own : metaIndex ∉ m.fields.map (·.1)) (run : w.objCopy [o] = some r) :
    w.Copies metaIndex m r := by
  obtain ⟨-, t, -, reached⟩ := id held
  rw [objCopy_eq held] at run
  obtain ⟨u, wrote, rfl⟩ := Option.map_eq_some_iff.mp run
  obtain ⟨after, frame⟩ := newObject_holds w wrote
  rw [setAll_empty reached.repr.distinct] at after
  refine ⟨⟨_, after, ?_⟩, frame⟩
  refine (List.filter_eq_self.mpr fun f mem => ?_).symm
  have other : f.1 ≠ metaIndex := fun eq => own (eq ▸ List.mem_map_of_mem mem)
  simpa using other

/-- The link to the prototype is copied. -/
lemma objCopy_link (held : w.Holds o p m) (linked : metaIndex ∈ m.fields.map (·.1)) (run : w.objCopy [o] = some r) :
    ¬ w.Copies metaIndex m r := by
  rintro ⟨⟨m', ⟨-, t', here, reached'⟩, fields⟩, -⟩
  obtain ⟨-, t, -, reached⟩ := id held
  have distinct := reached.repr.distinct
  rw [objCopy_eq held] at run
  obtain ⟨u, wrote, rfl⟩ := Option.map_eq_some_iff.mp run
  obtain ⟨⟨-, t₁, there, after⟩, -⟩ := newObject_holds w wrote
  cases there.symm.trans here
  rw [setAll_empty distinct] at after
  have gone : metaIndex ∉ m'.fields.map (·.1) := by
    rw [fields]
    intro mem
    obtain ⟨f, inside, eq⟩ := List.mem_map.mp mem
    have other := (List.mem_filter.mp inside).2
    simp [eq] at other
  have absent := reached'.repr.rawget metaIndex
  have present := after.repr.rawget metaIndex
  rw [OrderedMap.find_none gone] at absent
  obtain ⟨⟨key, val⟩, inside, rfl⟩ := List.mem_map.mp linked
  obtain ⟨l, r, split⟩ := List.append_of_mem inside
  simp only at present
  rw [split, OrderedMap.find_middle (split ▸ distinct), absent] at present
  cases present

/-- `object.assign` and `object.apply` merge, wherever they come back, and `object.copy` copies an object without a
link to a prototype. Where the tables have room they do come back, and all three do what they are for exactly if the
object has no such link. -/
theorem merges_iff {metaIndex : Nat} (held : w.Holds o p m) (writable : m.Writable) (given : w.Sources p sources ms) :
    (∀ r, w.objAssign (o :: sources) = some r → w.Assigns o p m ms r) ∧
    (∀ r, w.objApply (o :: sources) = some r → w.Applies m ms r) ∧
    (metaIndex ∉ m.fields.map (·.1) → ∀ r, w.objCopy [o] = some r → w.Copies metaIndex m r) ∧
    ((∀ t, w.table p = some t → t.RoomFor (assigned ms).length) →
      (w.Merges metaIndex o p m sources ms ↔ metaIndex ∉ m.fields.map (·.1))) := by
  refine ⟨fun r run => objAssign_some held writable given run, fun r run => objApply_some held writable given run,
    fun own r run => objCopy_some held own run, fun room => ⟨?_, fun own => ?_⟩⟩
  · rintro ⟨-, -, r, run, copies⟩ linked
    exact objCopy_link held linked run copies
  · obtain ⟨-, t, target, reached⟩ := id held
    have space := room t target
    have counted := reached.repr.fieldCount
    have fresh : ({} : HashTable ν).Repr {} := HashTable.Reached.new.repr
    obtain ⟨u, assign⟩ := reached.repr.rawsetAll_room space
    have few := space.2
    have all : (m.fields ++ assigned ms).length < 100663296 := by
      rw [List.length_append]
      omega
    have short : m.fields.length < 100663296 := by omega
    obtain ⟨u₁, applied⟩ := fresh.rawsetAll_room (HashTable.roomFor_new all)
    obtain ⟨u₂, copy⟩ := fresh.rawsetAll_room (HashTable.roomFor_new short)
    have assigns : w.objAssign (o :: sources) = some (o, w.withTable p u) := by
      rw [objAssign_eq held target given, assign]
      rfl
    have applies : w.objApply (o :: sources) = some (w.newObject.1, w.newObject.2.withTable w.objs.length u₁) := by
      rw [objApply_eq held (given.imp fun arg m ⟨q, held, _⟩ => ⟨q, held⟩), applied]
      rfl
    have copies : w.objCopy [o] = some (w.newObject.1, w.newObject.2.withTable w.objs.length u₂) := by
      rw [objCopy_eq held, copy]
      rfl
    exact ⟨⟨_, assigns, objAssign_some held writable given assigns⟩,
      ⟨_, applies, objApply_some held writable given applies⟩, ⟨_, copies, objCopy_some held own copies⟩⟩

/-- A table with new fields. -/
def ofFields (fields : List (Nat × CdoValue Nat × Nat)) : HashTable Nat :=
  (({} : HashTable Nat).rawsetAll fields).getD {}

lemma reached_ofFields {fields : List (Nat × CdoValue Nat × Nat)} (few : fields.length < 100663296) :
    (ofFields fields).Reached (HashTable.setAll {} fields) := by
  obtain ⟨t, wrote⟩ := HashTable.Reached.new.repr.rawsetAll_room (HashTable.roomFor_new few)
  have built : ofFields fields = t := by
    rw [ofFields, wrote]
    rfl
  exact built ▸ HashTable.Reached.new.rawsetAll wrote

/-- An object with field 64, and one with fields 64 and 128. -/
def twoObjects : PlainObjects Nat :=
  { objs := [some (ofFields [(64, .bool true, 0)]), some (ofFields [(64, .null, 0), (128, .bool false, 0)])]
    handles := [0, 1] }

lemma twoObjects_first : twoObjects.Holds (.object 0) 0 { fields := [(64, .bool true, 0)] } :=
  ⟨rfl, _, rfl, reached_ofFields (by decide)⟩

theorem merges_two : twoObjects.Merges 192 (.object 0) 0 { fields := [(64, .bool true, 0)] } [.object 1]
    [{ fields := [(64, .null, 0), (128, .bool false, 0)] }] := by
  have second : twoObjects.Holds (.object 1) 1 { fields := [(64, .null, 0), (128, .bool false, 0)] } :=
    ⟨rfl, _, rfl, reached_ofFields (by decide)⟩
  have given : twoObjects.Sources 0 [.object 1] [{ fields := [(64, .null, 0), (128, .bool false, 0)] }] :=
    .cons ⟨1, second, by decide⟩ .nil
  obtain ⟨-, -, -, iff⟩ := merges_iff twoObjects_first ⟨rfl, by decide⟩ given
  refine (iff fun t here => ?_).mpr (by decide)
  cases here
  exact ⟨by decide +kernel, by decide +kernel⟩

/-- An object whose one field is the link to its prototype. -/
def linkedObject : PlainObjects Nat := { objs := [some (ofFields [(192, .object 7, 0)])], handles := [0] }

theorem copy_keeps_prototype : linkedObject.Holds (.object 0) 0 { fields := [(192, .object 7, 0)] } ∧
    ({ fields := [(192, .object 7, 0)] } : FieldMap Nat).Writable ∧ linkedObject.Sources 0 [] [] ∧
    ¬ linkedObject.Merges 192 (.object 0) 0 { fields := [(192, .object 7, 0)] } [] [] := by
  have held : linkedObject.Holds (.object 0) 0 { fields := [(192, .object 7, 0)] } :=
    ⟨rfl, _, rfl, reached_ofFields (by decide)⟩
  refine ⟨held, ⟨rfl, by decide⟩, .nil, ?_⟩
  rintro ⟨-, -, r, run, copies⟩
  exact objCopy_link held (by decide) run copies

end PlainObjects

end Cando
