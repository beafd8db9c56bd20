import Cando.Vm.Identity

/-!
# Named fields

Every kind of object has the field table of its header, and a string-keyed assignment writes to it whatever
the kind; reading looks into the table of plain objects only. So a field is read back from a plain object,
and an array, a function or a native object takes any field and gives `NULL` for it.
-/

namespace Cando

open Program Value Machine

variable {ν : Type}

namespace CdoObject

variable {o : CdoObject ν} {key k : Str} {c : CdoValue ν}

/-- The value in an object's own field table, whatever its kind. -/
def field (o : CdoObject ν) (key : Str) : Option (CdoValue ν) :=
  (o.slots.find? (·.key == key)).map (·.value)

/-- `cdo_object_rawset` accepts the key: the object is not readonly and the field not `FIELD_STATIC`. -/
def Writable (o : CdoObject ν) (key : Str) : Prop :=
  o.readonly = false ∧ ∀ s, o.slots.find? (·.key == key) = some s → s.isStatic = false

lemma rawget_plain (plain : o.kind = .object) : o.rawget key = o.field key := if_pos plain

lemma rawget_other (other : o.kind ≠ .object) : o.rawget key = none := if_neg other

/-- A write leaves everything but the field table. -/
lemma rawset_header (o : CdoObject ν) (key : Str) (c : CdoValue ν) :
    (o.rawset key c false).kind = o.kind ∧ (o.rawset key c false).items = o.items := by
  unfold rawset
  repeat' split
  all_goals exact ⟨rfl, rfl⟩

/-- The written field holds the value. -/
lemma field_rawset (ok : o.Writable key) : (o.rawset key c false).field key = some c := by
  obtain ⟨writable, dynamic⟩ := ok
  rw [rawset, writable, if_neg Bool.false_ne_true]
  cases found : o.slots.find? (·.key == key) with
  | some s =>
    have here : ∀ t : ObjSlot ν, ((if t.key == key then ⟨key, c, false⟩ else t : ObjSlot ν).key == key) =
        (t.key == key) := by
      intro t
      split
      · rename_i e
        rw [e, beq_self_eq_true]
      · rfl
    have at_key : (s.key == key) = true := List.find?_some (p := fun t : ObjSlot ν => t.key == key) found
    simp only [dynamic s found, Bool.false_eq_true, if_false, field, List.find?_map, Function.comp_def, here,
      found, Option.map_some, at_key, if_true]
  | none =>
    have here : (key == key) = true := beq_self_eq_true key
    simp only [field, List.find?_append, found, Option.none_or, List.find?_singleton, here, if_true,
      Option.map_some]

/-- Every other field stays. -/
lemma field_rawset_ne (other : k ≠ key) : (o.rawset key c false).field k = o.field k := by
  have apart : (key == k) = false := beq_false_of_ne (Ne.symm other)
  unfold rawset
  split
  · rfl
  · split
    · split
      · rfl
      · -- the slot that is replaced is not the one of `k`, before or after
        simp only [field, List.find?_map, Option.map_map]
        have same : ∀ t : ObjSlot ν, ((if t.key == key then ⟨key, c, false⟩ else t : ObjSlot ν).key == k) =
            (t.key == k) := by
          intro t
          split
          · rename_i e
            rw [eq_of_beq e]
          · rfl
        simp only [Function.comp_def, same]
        cases found : o.slots.find? (·.key == k) with
        | none => rfl
        | some s =>
          have named : s.key = k := eq_of_beq (List.find?_some (p := fun t : ObjSlot ν => t.key == k) found)
          have kept : (s.key == key) = false := by rw [named]; exact beq_false_of_ne other
          simp only [Option.map_some, kept, Bool.false_eq_true, if_false]
    · simp only [field, List.find?_append, List.find?_singleton, apart, Bool.false_eq_true, if_false,
        Option.or_none]

lemma rawget_rawset_ne (other : k ≠ key) : (o.rawset key c false).rawget k = o.rawget k := by
  have kind := (o.rawset_header key c).1
  by_cases plain : o.kind = .object
  · rw [rawget_plain plain, rawget_plain (kind.trans plain), field_rawset_ne other]
  · rw [rawget_other plain, rawget_other (by rwa [kind])]

end CdoObject

/-- A write to a field other than `__index` changes no other key's value, looked up from any object. -/
lemma objectGet_rawset {objs : List (CdoObject ν)} {p q depth : Nat} {key k : Str} {c : CdoValue ν}
    (other : k ≠ key) (plain : key ≠ metaIndex) :
    objectGet (objs.modify p (·.rawset key c false)) depth q k = objectGet objs depth q k := by
  induction depth generalizing q with
  | zero => rfl
  | succ depth ih =>
    rw [objectGet, objectGet, List.getElem?_modify]
    cases objs[q]? with
    | none => rfl
    | some o =>
      have raw : ∀ n, n ≠ key → ((if p = q then (·.rawset key c false) else id) o).rawget n = o.rawget n := by
        intro n ne
        split
        · exact CdoObject.rawget_rawset_ne ne
        · rfl
      have link : (fun a : CdoObject ν => if p = q then a.rawset key c false else a) o =
        (if p = q then (·.rawset key c false) else id) o := by split <;> rfl
      simp only [Option.map_eq_map, Option.map_some, Option.bind_some, link, raw k other, raw _ plain.symm, ih]

/-! ### Assignments and reads -/

/-- How a program names a key: `o.k`, with the constant of the key, or `o[k]`. -/
inductive KeyForm where
  | field (ci : Nat)
  | index
  deriving DecidableEq, Repr

namespace KeyForm

variable {E : Env ν} {form : KeyForm} {key : Str} {vm now : VM ν} {h g p : Nat} {o : CdoObject ν}
  {v : Value ν} {c : CdoValue ν} {σ : List (Value ν)}

/-- What the form has on the stack above the object. -/
def operands : KeyForm → Str → List (Value ν)
  | field _, _ => []
  | index, key => [.string key]

/-- The constant of `o.k` is the key. -/
def Names : KeyForm → Str → VM ν → Prop
  | field ci, key, vm => ∃ f fs c, vm.frames = f :: fs ∧ vm.chunks[f.closure]? = some c ∧
      c.constants[ci]? = some (.string key)
  | index, _, _ => True

variable [F64 ν]

/-- The opcode of an assignment. -/
def assign (E : Env ν) : KeyForm → M ν Unit
  | field ci => opSetField E ci
  | index => opSetIndex E

/-- The opcode of a read. -/
def read : KeyForm → M ν Unit
  | field ci => opGetField ci
  | index => opGetIndex

/-- About to assign to a key of an object that accepts it, with no `__newindex` in the way. -/
structure Writes (vm : VM ν) (form : KeyForm) (h p : Nat) (o : CdoObject ν) (key : Str) (v : Value ν)
    (c : CdoValue ν) (σ : List (Value ν)) : Prop where
  names : form.Names key vm
  stack : vm.stack = v :: (form.operands key ++ .object h :: σ)
  pointer : vm.store.pointer h = some p
  object : vm.store.objs[p]? = some o
  table : o.kind ≠ .thread
  writable : o.Writable key
  plain : o.rawget key = none → vm.store.get p (bytes "__newindex") = none
  ok : vm.hasError = false
  value : vm.store.toCdo v = some c

/-- About to read a key of an object, through any handle of it. -/
structure Reads (now : VM ν) (form : KeyForm) (p : Nat) (key : Str) (σ : List (Value ν)) : Prop where
  names : form.Names key now
  stack : ∃ g, now.stack = form.operands key ++ .object g :: σ ∧ now.store.pointer g = some p
  room : now.height ≤ stackMax

/-- The value that a read leaves denotes `c`. -/
def Yields (now : VM ν) (form : KeyForm) (σ : List (Value ν)) (c : CdoValue ν) : Prop :=
  ∃ vm' r, form.read now = .ok () vm' ∧ vm'.stack = r :: σ ∧ vm'.store.toCdo r = some c

/-- The assignment succeeds, every read of the key that finds the object as the assignment left it yields the
value, and no other key's value changes. -/
def ReadsBack (E : Env ν) (vm : VM ν) (form : KeyForm) (h p : Nat) (o : CdoObject ν) (key : Str)
    (c : CdoValue ν) (σ : List (Value ν)) : Prop :=
  ∃ vm' o', form.assign E vm = .ok () vm' ∧ vm'.stack = .object h :: σ ∧ vm'.store.objs[p]? = some o' ∧
    (∀ (now : VM ν) (form' : KeyForm) (τ : List (Value ν)), now.store.objs[p]? = some o' →
      form'.Reads now p key τ → form'.Yields now τ c) ∧
    (∀ k, k ≠ key → o'.field k = o.field k) ∧ o'.items = o.items ∧
    (∀ q, q ≠ p → vm'.store.objs[q]? = vm.store.objs[q]?) ∧
    (key ≠ metaIndex → ∀ q k, k ≠ key → vm'.store.get q k = vm.store.get q k)

/-- Without a `__newindex` the field is written. -/
lemma assignField_apply (hp : vm.store.pointer h = some p) (ho : vm.store.objs[p]? = some o)
    (table : o.kind ≠ .thread) (plain : o.rawget key = none → vm.store.get p (bytes "__newindex") = none)
    (ok : vm.hasError = false) (hv : vm.store.toCdo v = some c) :
    assignField E h key v vm =
      .ok () { vm with store := vm.store.modifyObj p (·.rawset key c false) } := by
  have found : Cando.resolve h vm = .ok o vm := resolve_apply (resolve_of_pointer hp ho)
  have converted : Cando.toCdo v vm = .ok c vm := by
    simp only [Cando.toCdo, bind_apply, get_apply, Outcome.bind_ok, hv, orCrash_some, pure_apply]
  have target : Cando.pointer h vm = .ok p vm := by
    simp only [Cando.pointer, bind_apply, get_apply, Outcome.bind_ok, hp, orCrash_some, pure_apply]
  have written : rawsetField h key c false vm =
      .ok () { vm with store := vm.store.modifyObj p (·.rawset key c false) } := by
    rw [rawsetField, bind_apply, found, Outcome.bind_ok, if_neg table, Cando.modifyObj, bind_apply, target,
      Outcome.bind_ok]
    rfl
  rw [assignField, bind_apply, found, Outcome.bind_ok]
  cases raw : o.rawget key with
  | some old =>
    simp only [Option.isSome_some, if_true, bind_apply, converted, Outcome.bind_ok, written]
  | none =>
    have skip : (failed : M ν Unit) vm = .ok () vm := by
      simp [failed, ok, when]
    simp only [Option.isSome_none, Bool.false_eq_true, if_false, bind_apply,
      callMeta_missing E hp (plain raw) ok, Outcome.bind_ok, skip, converted, written]

/-- An assignment writes the field and leaves the object on the stack. -/
lemma Writes.apply (w : Writes vm form h p o key v c σ) :
    ∃ vm', form.assign E vm = .ok () vm' ∧ vm'.stack = .object h :: σ ∧ vm'.frames = vm.frames ∧
      vm'.chunks = vm.chunks ∧ vm'.store = vm.store.modifyObj p (·.rawset key c false) := by
  have stack := w.stack
  cases form with
  | field ci =>
    obtain ⟨f, fs, ch, hf, hc, hn⟩ := w.names
    obtain ⟨vm₁, e⟩ : ∃ vm₁ : VM ν, vm₁ = { vm with stack := .object h :: σ, dead := v :: vm.dead } := ⟨_, rfl⟩
    have popped : pop vm = .ok v vm₁ := by simp [pop, stack, operands, e]
    have top : peek 0 vm₁ = .ok (.object h) vm₁ := by simp [peek, e]
    have named : nameAt ci vm₁ = .ok key vm₁ :=
      nameAt_apply (by rw [e]; exact hf) (by rw [e]; exact hc) hn
    have store : vm₁.store = vm.store := by rw [e]
    have written : assignField E h key v vm₁ = _ := assignField_apply (E := E) (store ▸ w.pointer)
      (store ▸ w.object) w.table (store ▸ w.plain) (by rw [e]; exact w.ok) (store ▸ w.value)
    refine ⟨{ vm₁ with store := vm₁.store.modifyObj p (·.rawset key c false) }, ?_, by rw [e], by rw [e],
      by rw [e], by rw [store]⟩
    rw [assign, opSetField, bind_apply, popped, Outcome.bind_ok, bind_apply, top, Outcome.bind_ok]
    simp only [bind_apply, named, Outcome.bind_ok, written]
  | index =>
    obtain ⟨vm₁, e⟩ : ∃ vm₁ : VM ν, vm₁ =
      { vm with stack := .object h :: σ, dead := .string key :: v :: vm.dead } := ⟨_, rfl⟩
    have first : pop vm = .ok v { vm with stack := .string key :: .object h :: σ, dead := v :: vm.dead } := by
      simp [pop, stack, operands]
    have second : pop { vm with stack := .string key :: .object h :: σ, dead := v :: vm.dead } =
      .ok (.string key) vm₁ := by rw [e]; rfl
    have top : peek 0 vm₁ = .ok (.object h) vm₁ := by simp [peek, e]
    have store : vm₁.store = vm.store := by rw [e]
    have found : Cando.resolve h vm₁ = .ok o vm₁ :=
      resolve_apply (resolve_of_pointer (store ▸ w.pointer) (store ▸ w.object))
    have written : assignField E h key v vm₁ = _ := assignField_apply (E := E) (store ▸ w.pointer)
      (store ▸ w.object) w.table (store ▸ w.plain) (by rw [e]; exact w.ok) (store ▸ w.value)
    refine ⟨{ vm₁ with store := vm₁.store.modifyObj p (·.rawset key c false) }, ?_, by rw [e], by rw [e],
      by rw [e], by rw [store]⟩
    rw [assign, opSetIndex, bind_apply, first, Outcome.bind_ok, bind_apply, second, Outcome.bind_ok,
      bind_apply, top, Outcome.bind_ok]
    simp only [bind_apply, found, Outcome.bind_ok, written]

omit [F64 ν] in
/-- What was found crosses to the script and denotes the same value; what was not is `NULL`. -/
lemma pushField_apply (found : Option (CdoValue ν)) (room : now.height < stackMax) :
    ∃ vm' r, pushField found now = .ok () vm' ∧ vm'.stack = r :: now.stack ∧
      vm'.store.toCdo r = some (found.getD .null) := by
  cases found with
  | none => exact ⟨_, .null, push_apply room, rfl, rfl⟩
  | some raw =>
    obtain ⟨vm₁, e⟩ : ∃ vm₁ : VM ν, vm₁ = { now with store := (now.store.toCando raw).2 } := ⟨_, rfl⟩
    have crossed : Cando.toCando raw now = .ok (now.store.toCando raw).1 vm₁ := by rw [e, Cando.toCando]
    have room₁ : vm₁.height < stackMax := by rw [e]; exact room
    refine ⟨vm₁.withPushed (now.store.toCando raw).1, _, ?_, by rw [e]; rfl, ?_⟩
    · simp only [pushField, bind_apply, crossed, Outcome.bind_ok, push_apply room₁]
    · have store : (vm₁.withPushed (now.store.toCando raw).1).store = (now.store.toCando raw).2 := by rw [e]; rfl
      rw [store]
      cases raw with
      | object q => simp [Store.toCando, Store.handleAlloc, Store.toCdo, Store.pointer]
      | _ => rfl

/-- Reading a key: both forms leave what the object's own table or, for `o.k`, its chain gives. -/
lemma Reads.apply {found : Option (CdoValue ν)} (r : form.Reads now p key σ)
    (ho : now.store.objs[p]? = some o) (own : o.rawget key = found) (got : now.store.get p key = found) :
    form.Yields now σ (found.getD .null) := by
  obtain ⟨g, stack, hp⟩ := r.stack
  have room := r.room
  rw [VM.height, stack, List.length_append] at room
  cases form with
  | field ci =>
    obtain ⟨f, fs, ch, hf, hc, hn⟩ := r.names
    obtain ⟨vm₁, e⟩ : ∃ vm₁ : VM ν, vm₁ = { now with stack := σ, dead := .object g :: now.dead } := ⟨_, rfl⟩
    have popped : pop now = .ok (.object g) vm₁ := by simp [pop, stack, operands, e]
    have named : nameAt ci vm₁ = .ok key vm₁ :=
      nameAt_apply (by rw [e]; exact hf) (by rw [e]; exact hc) hn
    have looked : objectGetM g key vm₁ = .ok found vm₁ := by
      rw [objectGetM_apply (p := p) (by rw [e]; exact hp), ← got]
      rw [e]
    have left : vm₁.height < stackMax := by
      rw [e]
      simp only [VM.height]
      simp at room
      omega
    obtain ⟨vm', r, pushed, stack', denotes⟩ := pushField_apply found left
    refine ⟨vm', r, ?_, by rw [stack', e], denotes⟩
    rw [read, opGetField, bind_apply, popped, Outcome.bind_ok]
    simp only [bind_apply, named, looked, Outcome.bind_ok, pushed]
  | index =>
    obtain ⟨vm₁, e⟩ : ∃ vm₁ : VM ν, vm₁ =
      { now with stack := σ, dead := .object g :: .string key :: now.dead } := ⟨_, rfl⟩
    have first : pop now = .ok (.string key)
      { now with stack := .object g :: σ, dead := .string key :: now.dead } := by simp [pop, stack, operands]
    have second : pop { now with stack := .object g :: σ, dead := .string key :: now.dead } =
      .ok (.object g) vm₁ := by rw [e]; rfl
    have resolved : Cando.resolve g vm₁ = .ok o vm₁ :=
      resolve_apply (resolve_of_pointer (by rw [e]; exact hp) (by rw [e]; exact ho))
    have left : vm₁.height < stackMax := by
      rw [e]
      simp only [VM.height]
      simp at room
      omega
    obtain ⟨vm', r, pushed, stack', denotes⟩ := pushField_apply found left
    refine ⟨vm', r, ?_, by rw [stack', e], denotes⟩
    rw [read, opGetIndex, bind_apply, first, Outcome.bind_ok, bind_apply, second, Outcome.bind_ok]
    simp only [bind_apply, resolved, Outcome.bind_ok, own, pushed]

omit [F64 ν] in
/-- What an assignment leaves: the object with the field written, and every other object as it was. -/
lemma Writes.stored (w : Writes vm form h p o key v c σ) {vm' : VM ν}
    (store : vm'.store = vm.store.modifyObj p (·.rawset key c false)) :
    vm'.store.objs[p]? = some (o.rawset key c false) ∧
      (∀ q, q ≠ p → vm'.store.objs[q]? = vm.store.objs[q]?) ∧ vm'.store.pointer h = some p := by
  have objs : vm'.store.objs = vm.store.objs.modify p (·.rawset key c false) := by rw [store]; rfl
  refine ⟨?_, fun q apart => ?_, ?_⟩
  · simp [objs, w.object]
  · simp [objs, apart.symm]
  · rw [store]
    exact w.pointer

/-- The value an object's reads give once it is as the assignment left it. -/
def left (o : CdoObject ν) (c : CdoValue ν) : Option (CdoValue ν) :=
  if o.kind = .object then some c else none

omit [F64 ν] in
/-- Both ways of a read find it: a plain object has the field, and other kinds have no fields to look up and no
`__index` to follow. -/
lemma Writes.found (w : Writes vm form h p o key v c σ) {s : Store ν}
    (here : s.objs[p]? = some (o.rawset key c false)) :
    (o.rawset key c false).rawget key = left o c ∧ s.get p key = left o c := by
  obtain ⟨kind, -⟩ := o.rawset_header key c
  rw [Store.get, show protoDepthMax = 31 + 1 from rfl, objectGet, here, Option.bind_some]
  by_cases plain : o.kind = .object
  · have own : (o.rawset key c false).rawget key = some c := by
      rw [CdoObject.rawget_plain (kind.trans plain), CdoObject.field_rawset w.writable]
    rw [left, if_pos plain, own]
    exact ⟨rfl, rfl⟩
  · have none_found : ∀ k, (o.rawset key c false).rawget k = none := fun k =>
      CdoObject.rawget_other (by rwa [kind])
    rw [left, if_neg plain, none_found, none_found]
    exact ⟨rfl, rfl⟩

/-- An assignment is read back if the value is what reads of such an object give. -/
lemma Writes.readsBack (w : Writes vm form h p o key v c σ) (gives : (left o c).getD .null = c) :
    ReadsBack E vm form h p o key c σ := by
  obtain ⟨vm', assigned, stack, -, -, store⟩ := w.apply (E := E)
  obtain ⟨written, others, -⟩ := w.stored store
  refine ⟨vm', _, assigned, stack, written, ?_, fun k ne => CdoObject.field_rawset_ne ne,
    (o.rawset_header key c).2, others, ?_⟩
  · intro now form' τ here r
    obtain ⟨own, got⟩ := w.found here
    have yields := r.apply here own got
    rwa [gives] at yields
  · intro named q k ne
    rw [store, Store.modifyObj, Store.get, objectGet_rawset ne named, Store.get]

/-- An assignment that is read back had such a value. -/
lemma ReadsBack.gives (back : ReadsBack E vm form h p o key c σ) (w : Writes vm form h p o key v c σ) :
    (left o c).getD .null = c := by
  obtain ⟨vm', o', assigned, -, here, yields, -⟩ := back
  obtain ⟨vm₁, assigned₁, -, -, -, store⟩ := w.apply (E := E)
  cases assigned.symm.trans assigned₁
  obtain ⟨written, -, hp⟩ := w.stored store
  cases here.symm.trans written
  -- right after the assignment, `o[k]` is evaluated
  obtain ⟨now, e⟩ : ∃ now : VM ν, now = { vm' with stack := [.string key, .object h] } := ⟨_, rfl⟩
  have reads : index.Reads now p key [] :=
    ⟨trivial, ⟨h, by rw [e]; rfl, by rw [e]; exact hp⟩, by rw [e]; simp [VM.height, stackMax]⟩
  have found : now.store.objs[p]? = some (o.rawset key c false) := by rw [e]; exact written
  obtain ⟨own, got⟩ := w.found found
  obtain ⟨vm₂, r, read₂, stack₂, denotes⟩ := yields now index [] found reads
  obtain ⟨vm₃, r', read₃, stack₃, denotes'⟩ := reads.apply found own got
  cases read₂.symm.trans read₃
  cases stack₂.symm.trans stack₃
  exact Option.some.inj (denotes'.symm.trans denotes)

omit [F64 ν] in
lemma Writes.null_iff (w : Writes vm form h p o key v c σ) : c = .null ↔ v = .null := by
  have value := w.value
  constructor
  · rintro rfl
    cases v with
    | null => rfl
    | object g => simp [Store.toCdo] at value
    | _ => cases value
  · rintro rfl
    exact (Option.some.inj value).symm

/-- What is assigned to a key is read back, by either form of a read and after either form of an assignment,
exactly if the object is a plain one or `NULL` was assigned. -/
theorem readsBack_iff (w : Writes vm form h p o key v c σ) :
    ReadsBack E vm form h p o key c σ ↔ o.kind = .object ∨ v = .null := by
  rw [← w.null_iff]
  by_cases plain : o.kind = .object
  · exact ⟨fun _ => .inl plain, fun _ => w.readsBack (by rw [left, if_pos plain]; rfl)⟩
  · constructor
    · intro back
      have gives := back.gives w
      rw [left, if_neg plain] at gives
      exact .inr gives.symm
    · rintro (object | null)
      · exact absurd object plain
      · exact w.readsBack (by rw [left, if_neg plain, null]; rfl)

/-- `o["name"] = 5` on a new object of some kind, about to be carried out. -/
def writeState (kind : ObjectKind) : VM Int where
  stack := [.number 5, .string (bytes "name"), .object 0]
  store := { handles := [0], objs := [{ kind }] }

lemma writeState_writes {kind : ObjectKind} (table : kind ≠ .thread) :
    index.Writes (writeState kind) 0 0 { kind } (bytes "name") (.number 5) (.number 5) [] where
  names := trivial
  stack := rfl
  pointer := rfl
  object := rfl
  table := table
  writable := ⟨rfl, fun s found => by cases found⟩
  plain := fun _ => by
    cases kind <;> rfl
  ok := rfl
  value := rfl

/-- On a plain object the write is read back. -/
theorem readsBack_object :
    ReadsBack {} (writeState .object) index 0 0 {} (bytes "name") (.number 5) [] :=
  (readsBack_iff (writeState_writes (by decide))).mpr (.inl rfl)

/-- `a = [1]; a["name"] = 5; RETURN a["name"];` at the start of a function body. -/
def arrayFieldState : VM Int where
  stack := [.null, .null]
  frames := [⟨0, ⟨0, 0⟩, 0, false⟩]
  chunks := [{
    code := [{ op := .const, a := 0 }, { op := .newArray, a := 1 }, { op := .defLocal, a := 1 },
      { op := .loadLocal, a := 1 }, { op := .const, a := 1 }, { op := .const, a := 2 }, { op := .setIndex },
      { op := .pop }, { op := .loadLocal, a := 1 }, { op := .const, a := 1 }, { op := .getIndex },
      { op := .return, a := 1 }].flatMap Instr.encode
    constants := [.number 1, .string (bytes "name"), .number 5]
    localCount := 2 }]

/-- A named field of an array: the assignment succeeds, and reading the field gives `NULL`. -/
theorem arrayField_lost :
    topAfter {} 11 arrayFieldState = some .null ∧
    index.Writes (writeState .array) 0 0 { kind := .array } (bytes "name") (.number 5) (.number 5) [] ∧
    ¬ ReadsBack {} (writeState .array) index 0 0 { kind := .array } (bytes "name") (.number 5) [] := by
  have table : ObjectKind.array ≠ .thread := by decide
  have writes := writeState_writes table
  refine ⟨by decide +kernel, writes, fun back => ?_⟩
  cases back.gives writes

end KeyForm

end Cando
