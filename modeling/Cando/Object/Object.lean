import Cando.Core.Value
import Mathlib.Data.List.TakeWhile

/-!
# Objects

The object layer as the interpreter sees it: `CdoValue` and `CdoObject` (`object/value.h`,
`object/object.h`), raw field access, the `__index` chain of `cdo_object_get`, the arrays of
`object/array.c`, the handle table and the bridge of `vm/bridge.c`. An object's hash table is its
insertion-ordered list of fields; pointers and handles are indices, and neither is ever reused.
-/

namespace Cando

/-- A `CdoValue`; `object` carries the pointer, whose target knows its kind. -/
inductive CdoValue (ν : Type) where
  | null
  | bool (b : Bool)
  | number (x : ν)
  | string (s : Str)
  | object (p : Nat)
  deriving DecidableEq, Repr

/-- `ObjectKind`. -/
inductive ObjectKind where
  | object | array | function | native | thread
  deriving DecidableEq, Repr

/-- A live `ObjSlot`, without its list links. -/
structure ObjSlot (ν : Type) where
  key : Str
  value : CdoValue ν
  isStatic : Bool := false
  deriving DecidableEq, Repr

/-- A `CdoObject`. A script function keeps its closure in `bytecode` and its code offset in
`paramCount`, as `cdo_function_new` does; a native object keeps its C function's number. -/
structure CdoObject (ν : Type) where
  kind : ObjectKind := .object
  readonly : Bool := false
  slots : List (ObjSlot ν) := []
  items : List (CdoValue ν) := []
  bytecode : Option Nat := none
  paramCount : Nat := 0
  nativeFn : Option Nat := none
  deriving DecidableEq, Repr

namespace CdoObject

variable {ν : Type}

/-- `cdo_object_rawget`: only plain objects have fields to read. -/
def rawget (o : CdoObject ν) (key : Str) : Option (CdoValue ν) :=
  if o.kind = .object then (o.slots.find? (·.key == key)).map (·.value) else none

/-- `cdo_object_rawset`: refused on a readonly object and on a `FIELD_STATIC` field. -/
def rawset (o : CdoObject ν) (key : Str) (v : CdoValue ν) (isStatic : Bool) : CdoObject ν :=
  if o.readonly then o
  else match o.slots.find? (·.key == key) with
    | some s =>
      if s.isStatic then o
      else { o with slots := o.slots.map fun t => if t.key == key then ⟨key, v, isStatic⟩ else t }
    | none => { o with slots := o.slots ++ [⟨key, v, isStatic⟩] }

/-- `cdo_array_push`. -/
def arrayPush (o : CdoObject ν) (v : CdoValue ν) : CdoObject ν :=
  if o.readonly then o else { o with items := o.items ++ [v] }

/-- `cdo_array_rawset_idx`: extends the array with `NULL`s up to the index. -/
def arrayRawset (o : CdoObject ν) (i : Nat) (v : CdoValue ν) : CdoObject ν :=
  if o.readonly then o
  else if i < o.items.length then { o with items := o.items.set i v }
  else { o with items := o.items ++ List.replicate (i - o.items.length) .null ++ [v] }

/-- `cdo_object_length`. -/
def length (o : CdoObject ν) : Nat :=
  if o.kind = .array then o.items.length else o.slots.length

end CdoObject

/-- `META_INDEX`. -/
def metaIndex : Str := bytes "__index"

/-- `CANDO_PROTO_DEPTH_MAX`. -/
def protoDepthMax : Nat := 32

/-- The loop of `cdo_object_get`: own fields first, then the `__index` link, for `depth` objects. -/
def objectGet {ν : Type} (objs : List (CdoObject ν)) : (depth : Nat) → (p : Nat) → (key : Str) →
    Option (CdoValue ν)
  | 0, _, _ => none
  | depth + 1, p, key =>
    (objs[p]?).bind fun o =>
      match o.rawget key with
      | some v => some v
      | none =>
        match o.rawget metaIndex with
        | some (.object q) => if q = p then none else objectGet objs depth q key
        | _ => none

/-- A `CandoGlobalEntry`. -/
structure GlobalEntry (ν : Type) where
  key : Str
  value : Value ν
  isConst : Bool := false
  deriving DecidableEq, Repr

/-- The C string that a NUL-terminated buffer holds. -/
def cstr (s : Str) : Str := s.takeWhile (· ≠ 0)

lemma cstr_eq {s : Str} (nul_free : 0 ∉ s) : cstr s = s :=
  List.takeWhile_eq_self_iff.mpr fun c mem => by
    have ne : c ≠ 0 := fun e => nul_free (e ▸ mem)
    simpa using ne

/-- What the natives and the opcodes share beyond the machine's own stacks: the heap, the handle
table, the globals and the built-in prototypes. -/
structure Store (ν : Type) where
  objs : List (CdoObject ν) := []
  handles : List Nat := []
  globals : List (GlobalEntry ν) := []
  stringProto : Value ν := .null
  arrayProto : Value ν := .null
  deriving DecidableEq, Repr

namespace Store

variable {ν : Type}

/-- `cando_handle_get` behind `cando_bridge_resolve`: the object pointer of a handle. -/
def pointer (w : Store ν) (h : Nat) : Option Nat := w.handles[h]?

/-- `cando_bridge_resolve`; `none` when the handle table's assertion fails. -/
def resolve (w : Store ν) (h : Nat) : Option (CdoObject ν) := (w.pointer h).bind fun p => w.objs[p]?

/-- `cando_handle_alloc`. -/
def handleAlloc (w : Store ν) (p : Nat) : Nat × Store ν :=
  (w.handles.length, { w with handles := w.handles ++ [p] })

/-- A new object behind a new handle. -/
def newObject (w : Store ν) (o : CdoObject ν) : Value ν × Store ν :=
  let (h, w) := handleAlloc { w with objs := w.objs ++ [o] } w.objs.length
  (.object h, w)

/-- `cando_bridge_to_cando`: an object gets a new handle every time. -/
def toCando (w : Store ν) : CdoValue ν → Value ν × Store ν
  | .null => (.null, w)
  | .bool b => (.bool b, w)
  | .number x => (.number x, w)
  | .string s => (.string s, w)
  | .object p => let (h, w) := w.handleAlloc p; (.object h, w)

/-- `cando_bridge_to_cdo`. -/
def toCdo (w : Store ν) : Value ν → Option (CdoValue ν)
  | .null => some .null
  | .bool b => some (.bool b)
  | .number x => some (.number x)
  | .string s => some (.string s)
  | .object h => (w.pointer h).map .object

/-- `cdo_object_get` on the object behind a pointer. -/
def get (w : Store ν) (p : Nat) (key : Str) : Option (CdoValue ν) :=
  objectGet w.objs protoDepthMax p key

/-- Change the object behind a pointer. -/
def modifyObj (w : Store ν) (p : Nat) (f : CdoObject ν → CdoObject ν) : Store ν :=
  { w with objs := w.objs.modify p f }

/-- How the object layer lets the store change: objects and handles stay, and what a function object refers
to is fixed when it is made. -/
structure Extends (w w' : Store ν) : Prop where
  handles : w.handles <+: w'.handles
  objs : ∀ (p : Nat) o, w.objs[p]? = some o →
    ∃ o', w'.objs[p]? = some o' ∧ o'.kind = o.kind ∧ o'.bytecode = o.bytecode ∧
      o'.paramCount = o.paramCount ∧ o'.nativeFn = o.nativeFn

lemma Extends.refl (w : Store ν) : w.Extends w where
  handles := List.prefix_refl _
  objs _ o h := ⟨o, h, rfl, rfl, rfl, rfl⟩

lemma Extends.trans {w₁ w₂ w₃ : Store ν} (h : w₁.Extends w₂) (h' : w₂.Extends w₃) : w₁.Extends w₃ where
  handles := h.handles.trans h'.handles
  objs p o e := by
    obtain ⟨o₂, e₂, k, b, c, n⟩ := h.objs p o e
    obtain ⟨o₃, e₃, k', b', c', n'⟩ := h'.objs p o₂ e₂
    exact ⟨o₃, e₃, k'.trans k, b'.trans b, c'.trans c, n'.trans n⟩

/-- `vm_get_global_str`. -/
def getGlobal (w : Store ν) (key : Str) : Option (Value ν) :=
  (w.globals.find? (·.key == key)).map (·.value)

/-- `vm_set_global_str`: `none` when the variable is write-protected. The name is cut at its first NUL,
since `cando_vm_set_global` takes a C string. -/
def setGlobal (w : Store ν) (key : Str) (v : Value ν) (isConst : Bool) : Option (Store ν) :=
  let name := cstr key
  match w.globals.find? (·.key == name) with
  | some e =>
    if e.isConst then none
    else some { w with
      globals := w.globals.map fun g => if g.key == name then ⟨name, v, isConst⟩ else g }
  | none => some { w with globals := w.globals ++ [⟨name, v, isConst⟩] }

end Store

end Cando
