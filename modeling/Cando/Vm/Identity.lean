import Cando.Vm.Calls
import Cando.Vm.Operators
import Mathlib.Data.List.Nodup

/-!
# Identity of objects

A script value refers to an object by a handle, a container by a pointer, and `==` compares handles. Every
object that crosses the bridge from the object layer to the script gets a new handle, so two script values may
denote one object and yet be different. A run of the value bridge records the crossings; every run of the
interpreter is one. Identity survives exactly as long as no object crosses that already has a handle.
-/

namespace Cando

open Program Value Machine

variable {ν : Type}

namespace Store

variable {w₀ w w' : Store ν} {cs : List (Store ν × CdoValue ν)} {c : CdoValue ν}

/-- A run of the value bridge: the heap changes as the object layer lets it, and values cross to the script;
each crossing is recorded with the store before it, the latest first. -/
inductive Bridged (w₀ : Store ν) : List (Store ν × CdoValue ν) → Store ν → Prop where
  | refl : Bridged w₀ [] w₀
  | heap {cs : List (Store ν × CdoValue ν)} {w w' : Store ν} : Bridged w₀ cs w → w.Extends w' →
      w'.handles = w.handles → Bridged w₀ cs w'
  | cross {cs : List (Store ν × CdoValue ν)} {w : Store ν} (c : CdoValue ν) : Bridged w₀ cs w →
      Bridged w₀ ((w, c) :: cs) (w.toCando c).2

/-- The crossing of a value that is no object, or an object that has no handle yet. -/
def FirstCrossing (x : Store ν × CdoValue ν) : Prop := ∀ p, x.2 = .object p → p ∉ x.1.handles

/-- A crossing changes the handle table alone. -/
lemma toCando_objs (w : Store ν) (c : CdoValue ν) : (w.toCando c).2.objs = w.objs := by
  cases c <;> rfl

/-- Handles stay distinct along a run of the bridge exactly if each object crosses at most once. -/
lemma Bridged.nodup_iff (run : Bridged w₀ cs w) (ok : w₀.handles.Nodup) :
    w.handles.Nodup ↔ ∀ x ∈ cs, FirstCrossing x := by
  induction run with
  | refl => simp [ok]
  | heap _ _ same ih => rw [same, ih]
  | @cross cs w c _ ih =>
    rw [List.forall_mem_cons, ← ih]
    cases c with
    | object p =>
      have handles : (w.toCando (.object p)).2.handles = w.handles ++ [p] := rfl
      have first : FirstCrossing (w, .object p) ↔ p ∉ w.handles := by simp [FirstCrossing]
      rw [handles, first, (List.perm_append_singleton p w.handles).nodup_iff, List.nodup_cons]
    | _ =>
      refine ⟨fun nodup => ⟨nofun, nodup⟩, fun h => h.2⟩

/-- The store grows only as a run of the bridge. -/
lemma Extends.bridged (h : w.Extends w') : ∃ cs, Bridged w cs w' := by
  obtain ⟨ps, e⟩ := h.handles
  -- the heap first, then one crossing for each new handle
  have cross : ∀ (qs rs : List Nat), w.handles ++ qs ++ rs = w'.handles →
      (∃ cs, Bridged w cs { w' with handles := w.handles ++ qs }) → ∃ cs, Bridged w cs w' := by
    intro qs rs
    induction rs generalizing qs with
    | nil =>
      rintro e ⟨cs, run⟩
      rw [List.append_nil] at e
      exact ⟨cs, by rwa [e] at run⟩
    | cons p rs ih =>
      rintro e ⟨cs, run⟩
      have next := run.cross (.object p)
      exact ih (qs ++ [p]) (by simpa using e) ⟨_, by rw [← List.append_assoc]; exact next⟩
  refine cross [] ps (by simpa using e) ⟨[], Bridged.refl.heap ⟨?_, h.objs⟩ (by simp)⟩
  simp only [List.append_nil]
  exact List.prefix_refl _

/-- A script value that denotes an object is a handle of it. -/
lemma handle_of_toCdo {a : Value ν} {p : Nat} (h : w.toCdo a = some (.object p)) :
    ∃ i, a = .object i ∧ w.handles[i]? = some p := by
  cases a with
  | object i => exact ⟨i, rfl, by simpa [toCdo, pointer] using h⟩
  | _ => simp [toCdo] at h

variable [F64 ν]

/-- Any two script values that denote one object are equal. -/
def Identity (w : Store ν) : Prop :=
  ∀ (a b : Value ν) (p : Nat), w.toCdo a = some (.object p) → w.toCdo b = some (.object p) →
    a.equal b = true

lemma identity_iff_nodup : w.Identity ↔ w.handles.Nodup := by
  constructor
  · intro id
    refine List.nodup_iff_getElem?_ne_getElem?.mpr fun i j lt bound same => ?_
    obtain ⟨p, e⟩ : ∃ p, w.handles[j]? = some p := ⟨_, List.getElem?_eq_getElem bound⟩
    have a : w.toCdo (.object i) = some (.object p) := by simp [toCdo, pointer, same, e]
    have b : w.toCdo (.object j) = some (.object p) := by simp [toCdo, pointer, e]
    have eq := id _ _ p a b
    simp only [equal, beq_iff_eq] at eq
    omega
  · intro nodup a b p ha hb
    obtain ⟨i, rfl, ei⟩ := handle_of_toCdo ha
    obtain ⟨j, rfl, ej⟩ := handle_of_toCdo hb
    have lt := (List.getElem?_eq_some_iff.mp ei).1
    have same := (List.getElem?_inj lt nodup).mp (ei.trans ej.symm)
    simp [equal, same]

/-- A value put into a container and read back at any later time is equal to what it was unless it is an object,
or not equal to itself. -/
lemma read_back {v : Value ν} (hv : w.toCdo v = some c) (later : w.Extends w') :
    (w'.toCando c).1.equal v = true ↔ v.isObject = false ∧ v.equal v = true := by
  cases v with
  | object h =>
    simp only [toCdo, Option.map_eq_some_iff] at hv
    obtain ⟨p, e, rfl⟩ := hv
    have lt : h < w'.handles.length :=
      Nat.lt_of_lt_of_le (List.getElem?_eq_some_iff.mp e).1 later.handles.length_le
    have ne : w'.handles.length ≠ h := by omega
    simp [toCando, handleAlloc, equal, isObject, ne]
  | _ =>
    obtain rfl := Option.some.inj hv
    simp [toCando, isObject]

end Store

/-! ### Reading a field twice -/

section Fields

variable [F64 ν] {vm : VM ν} {c : Chunk ν} {f : Frame} {fs : List Frame} {name : Str} {h p ci : Nat}
  {raw : CdoValue ν}

/-- The state after a push. -/
def VM.withPushed (vm : VM ν) (v : Value ν) : VM ν := { vm with stack := v :: vm.stack, dead := vm.dead.tail }

omit [F64 ν] in
lemma push_apply {v : Value ν} (room : vm.height < stackMax) : push v vm = .ok () (vm.withPushed v) := by
  simp [push, room, VM.withPushed]

omit [F64 ν] in
lemma nameAt_apply (hf : vm.frames = f :: fs) (hc : vm.chunks[f.closure]? = some c)
    (hn : c.constants[ci]? = some (.string name)) : nameAt ci vm = .ok name vm := by
  simp only [nameAt, constAt, frame, chunkOf, bind_apply, get_apply, Outcome.bind_ok, hf, hc, hn,
    orCrash_some, pure_apply]

omit [F64 ν] in
/-- `o.a` on an object that has the field: the value of the field crosses to the script. -/
lemma opGetField_apply (hf : vm.frames = f :: fs) (hc : vm.chunks[f.closure]? = some c)
    (hn : c.constants[ci]? = some (.string name)) (hp : vm.store.pointer h = some p)
    (hraw : vm.store.get p name = some raw) (room : vm.height < stackMax) :
    ∃ dead, (push (.object h) >>= fun _ => opGetField ci) vm =
      .ok () { vm with
        stack := (vm.store.toCando raw).1 :: vm.stack, store := (vm.store.toCando raw).2, dead := dead } := by
  -- pushing the object and popping it again leaves its cell dead
  obtain ⟨vm₁, e⟩ : ∃ vm₁ : VM ν, vm₁ = { vm with dead := .object h :: vm.dead.tail } := ⟨_, rfl⟩
  have store : vm₁.store = vm.store := by rw [e]
  have running : vm₁.frames = f :: fs := by rw [e]; exact hf
  have code : vm₁.chunks[f.closure]? = some c := by rw [e]; exact hc
  have named : nameAt ci vm₁ = .ok name vm₁ := nameAt_apply running code hn
  have got : objectGetM h name vm₁ = .ok (some raw) vm₁ := by
    rw [objectGetM_apply (p := p) (store ▸ hp), store, hraw]
  have popped : pop (vm.withPushed (.object h)) = .ok (.object h) vm₁ := by
    rw [e]
    rfl
  have crossed : toCando raw vm₁ = .ok (vm.store.toCando raw).1 { vm₁ with store := (vm.store.toCando raw).2 } := by
    rw [toCando, store]
  have room₁ : VM.height { vm₁ with store := (vm.store.toCando raw).2 } < stackMax := by
    rw [e]
    exact room
  refine ⟨vm₁.dead.tail, ?_⟩
  rw [bind_apply, push_apply room, Outcome.bind_ok, opGetField, bind_apply, popped, Outcome.bind_ok]
  simp only [bind_apply, named, got, Outcome.bind_ok, pushField, crossed, push_apply room₁]
  rw [e]
  rfl

/-- Without the metamethod, and with no error pending, nothing happens. -/
lemma callMeta_missing (E : Env ν) {key : Str} {args : List (Value ν)} (hp : vm.store.pointer h = some p)
    (missing : vm.store.get p key = none) (ok : vm.hasError = false) :
    reenter (callMeta E (callNative E) h key args) vm = .ok false vm := by
  have called : callMeta E (callNative E) h key args vm = .ok false vm := by
    rw [callMeta, bind_apply, objectGetM_apply hp, missing, Outcome.bind_ok]
    rfl
  simp only [reenter, bind_apply, get_apply, Outcome.bind_ok, called, ok, ne_eq, not_true_eq_false, and_false,
    if_false, pure_apply]

/-- The values that `==` looks for an `__eq` in have none. -/
def Plain (w : Store ν) (v : Value ν) : Prop :=
  ∀ h, v = .object h → ∃ p, w.pointer h = some p ∧ w.get p (bytes "__eq") = none

omit [F64 ν] in
lemma noMeta_of_plain {a b : Value ν} (ha : Plain vm.store a) (hb : Plain vm.store b) (ok : vm.hasError = false) :
    NoMeta vm (bytes "__eq") a b := by
  intro h asked
  refine ⟨ok, ?_⟩
  cases a with
  | object g =>
    obtain rfl : g = h := Option.some.inj asked
    exact ha g rfl
  | _ =>
    cases b with
    | object g =>
      obtain rfl : g = h := Option.some.inj asked
      exact hb g rfl
    | _ => cases asked

/-- `==` on values without an `__eq`. -/
lemma opEq_apply (E : Env ν) {a b : Value ν} {σ : List (Value ν)} (hs : vm.stack = b :: a :: σ)
    (room : vm.height ≤ stackMax) (ok : vm.hasError = false) (ha : Plain vm.store a)
    (hb : Plain vm.store b) :
    ∃ vm', opEq E vm = .ok () vm' ∧ vm'.stack = .bool (a.equal b) :: σ := by
  obtain ⟨vm₂, e⟩ : ∃ vm₂ : VM ν, vm₂ = { vm with stack := σ, dead := a :: b :: vm.dead } := ⟨_, rfl⟩
  have plain : tryBinaryMeta E (bytes "__eq") a b [a, b] vm₂ = .ok false vm₂ := by
    refine (noMeta_of_plain ?_ ?_ ?_).ends [a, b] <;> rw [e]
    · exact ha
    · exact hb
    · exact ok
  have room₂ : vm₂.height < stackMax := by
    have len := congrArg List.length hs
    simp only [VM.height, List.length_cons] at room len
    rw [e]
    simp only [VM.height]
    omega
  refine ⟨vm₂.withPushed (.bool (a.equal b)), ?_, by rw [e]; rfl⟩
  have first : pop vm = .ok b { vm with stack := a :: σ, dead := b :: vm.dead } := by simp [pop, hs]
  have second : pop { vm with stack := a :: σ, dead := b :: vm.dead } = .ok a vm₂ := by rw [e]; rfl
  rw [opEq, bind_apply, first, Outcome.bind_ok, bind_apply, second, Outcome.bind_ok, bind_apply, plain,
    Outcome.bind_ok]
  simp only [Bool.false_eq_true, if_false]
  exact push_apply room₂

/-- The code of `o.a == o.a`, with `o` the object of a handle and `a` the constant of an index. -/
def fieldEqField (E : Env ν) (h ci : Nat) : M ν Unit := do
  push (.object h)
  opGetField ci
  push (.object h)
  opGetField ci
  opEq E

/-- Each read of the field crosses anew, so the comparison holds unless the field is an object, or a number that
is not equal to itself. -/
lemma fieldEqField_spec (E : Env ν) (hf : vm.frames = f :: fs) (hc : vm.chunks[f.closure]? = some c)
    (hn : c.constants[ci]? = some (.string name)) (hp : vm.store.pointer h = some p)
    (hraw : vm.store.get p name = some raw) (room : vm.height + 2 ≤ stackMax) (ok : vm.hasError = false)
    (plain : ∀ q, raw = .object q → vm.store.get q (bytes "__eq") = none) :
    ∃ vm' b, fieldEqField E h ci vm = .ok () vm' ∧ vm'.stack = .bool b :: vm.stack ∧
      (b = true ↔ (∀ q, raw ≠ .object q) ∧ ∀ x, raw = .number x → F64.eq x x = true) := by
  have get_eq : ∀ (w : Store ν) q key, (w.toCando raw).2.get q key = w.get q key := fun w q key => by
    rw [Store.get, Store.get, w.toCando_objs]
  have kept : ∀ {w : Store ν} {g q}, w.pointer g = some q → (w.toCando raw).2.pointer g = some q := by
    intro w g q e
    obtain ⟨new, handles⟩ := (w.extends_toCando raw).handles
    rw [Store.pointer, ← handles, List.getElem?_append_left (List.getElem?_eq_some_iff.mp e).1]
    exact e
  -- a value that has crossed denotes the object it came from
  have crossed : ∀ {w : Store ν} {g}, (w.toCando raw).1 = .object g →
      ∃ q, raw = .object q ∧ (w.toCando raw).2.pointer g = some q := by
    intro w g e
    cases raw with
    | object q =>
      obtain rfl : w.handles.length = g := by simpa [Store.toCando, Store.handleAlloc] using e
      exact ⟨q, rfl, pointer_handleAlloc w q⟩
    | _ => cases e
  obtain ⟨dead₁, first⟩ := opGetField_apply hf hc hn hp hraw (by omega)
  obtain ⟨vm₁, e₁⟩ : ∃ vm₁ : VM ν, vm₁ = { vm with
    stack := (vm.store.toCando raw).1 :: vm.stack, store := (vm.store.toCando raw).2, dead := dead₁ } := ⟨_, rfl⟩
  rw [← e₁] at first
  have store₁ : vm₁.store = (vm.store.toCando raw).2 := by rw [e₁]
  have hf₁ : vm₁.frames = f :: fs := by rw [e₁]; exact hf
  have hc₁ : vm₁.chunks[f.closure]? = some c := by rw [e₁]; exact hc
  have hp₁ : vm₁.store.pointer h = some p := store₁ ▸ kept hp
  have hraw₁ : vm₁.store.get p name = some raw := by rw [store₁, get_eq, hraw]
  have height₁ : vm₁.height = vm.height + 1 := by rw [e₁]; rfl
  obtain ⟨dead₂, second⟩ := opGetField_apply hf₁ hc₁ hn hp₁ hraw₁ (by omega)
  obtain ⟨vm₂, e₂⟩ : ∃ vm₂ : VM ν, vm₂ = { vm₁ with
    stack := (vm₁.store.toCando raw).1 :: vm₁.stack, store := (vm₁.store.toCando raw).2, dead := dead₂ } :=
    ⟨_, rfl⟩
  rw [← e₂] at second
  have store₂ : vm₂.store = (vm₁.store.toCando raw).2 := by rw [e₂]
  have stack₂ : vm₂.stack = (vm₁.store.toCando raw).1 :: (vm.store.toCando raw).1 :: vm.stack := by
    rw [e₂, e₁]
  have plain₁ : Plain vm₂.store (vm.store.toCando raw).1 := by
    intro g e
    obtain ⟨q, eq, hq⟩ := crossed e
    refine ⟨q, store₂ ▸ kept (store₁ ▸ hq), ?_⟩
    rw [store₂, get_eq, store₁, get_eq, plain q eq]
  have plain₂ : Plain vm₂.store (vm₁.store.toCando raw).1 := by
    intro g e
    obtain ⟨q, eq, hq⟩ := crossed e
    refine ⟨q, store₂ ▸ hq, ?_⟩
    rw [store₂, get_eq, store₁, get_eq, plain q eq]
  have height₂ : vm₂.height = vm.height + 2 := by rw [e₂, e₁]; rfl
  have ok₂ : vm₂.hasError = false := by rw [e₂, e₁]; exact ok
  obtain ⟨vm', compared, stack'⟩ := opEq_apply E stack₂ (by omega) ok₂ plain₁ plain₂
  refine ⟨vm', _, ?_, stack', ?_⟩
  · rw [fieldEqField, ← bind_assoc, bind_apply, first, Outcome.bind_ok, ← bind_assoc, bind_apply, second,
      Outcome.bind_ok]
    exact compared
  · cases raw with
    | object q => simp [store₁, Store.toCando, Store.handleAlloc, equal]
    | number x => simp [Store.toCando, equal]
    | _ => simp [Store.toCando, equal]

end Fields

/-! ### Runs -/

variable [F64 ν]

/-- `VAR o = { a: {} }; RETURN o.a == o.a;` at the start of a function body. -/
def fieldState : VM Int where
  stack := [.null, .null]
  frames := [⟨0, ⟨0, 0⟩, 0, false⟩]
  chunks := [{
    code := [{ op := .newObject }, { op := .newObject }, { op := .setField }, { op := .defLocal, a := 1 },
      { op := .loadLocal, a := 1 }, { op := .getField }, { op := .loadLocal, a := 1 }, { op := .getField },
      { op := .eq }, { op := .return, a := 1 }].flatMap Instr.encode
    constants := [.string (bytes "a")]
    localCount := 2 }]

end Cando
