import Cando.Lib.Safe
import Cando.Object.ArrayOps
import Cando.Vm.Fields

/-!
# Index access

`OP_GET_INDEX` and `OP_SET_INDEX` on any container and any index. Numbers are converted and handed to the array
functions without a look at the kind of the object, which these assert, and a field is set on an object of any
kind; the theorem says for which pairs nothing goes wrong. The buffer of an array is the one of
`Object/ItemBuffer`, whose elements are the items that the store knows.
-/

namespace Cando

variable {ν : Type} [F64 ν] {E : Env ν} {call : NativeCall ν} {vm : VM ν} {h p : Nat} {key : Str}
  {args : List (Value ν)} {N : VM ν → VMResult → VM ν → Prop}

open Program Outcome Value

/-! ### The metamethod -/

/-- What a metamethod leaves that was called: its result, or an error. -/
def RanOrFailed (ran : Bool) (s : VM ν) : Prop := ran = true ∨ s.hasError = true

omit [F64 ν] in
lemma leaving_setError (msg : Str) : Leaving RanOrFailed (do
    modify (setError msg)
    return false : M ν Bool) := fun _ => Or.inr rfl

omit [F64 ν] in
lemma leaving_true : Leaving RanOrFailed (return true : M ν Bool) := fun _ => Or.inl rfl

omit [F64 ν] in
/-- Stopping where an error is pending. -/
lemma leaving_unless_failed {g : VM ν → M ν Bool} (go : ∀ s, Leaving RanOrFailed (g s)) :
    Leaving RanOrFailed (do
      let vm ← get
      if vm.hasError then return false else g vm) := by
  refine Leaving.get fun s => ?_
  split
  · rename_i failed
    exact Or.inr failed
  · exact go s s

lemma leaving_metaNative (callee : Value ν) : Leaving RanOrFailed (metaNative E call callee args) := by
  refine Leaving.last fun ni => Leaving.ite (leaving_setError _) ?_
  refine Leaving.last fun before => Leaving.last fun ret => leaving_unless_failed fun s => ?_
  exact Leaving.last fun _ => Leaving.last fun _ => leaving_true

lemma leaving_metaOffset (x : ν) : Leaving RanOrFailed (metaOffset x args) := by
  refine Leaving.last fun pc => Leaving.last fun f => Leaving.last fun entered => ?_
  refine Leaving.get fun s => ?_
  split
  · exact leaving_setError _ s
  · split
    · rename_i failed
      exact Or.inr failed
    · exact Leaving.last (fun _ => leaving_true) s

omit [F64 ν] in
lemma leaving_metaObjNative (fn : Nat) : Leaving RanOrFailed (metaObjNative E fn args) :=
  Leaving.last fun _ => Leaving.last fun _ => Leaving.last fun _ => Leaving.last fun _ => leaving_true

omit [F64 ν] in
lemma leaving_metaFunction (fnObj : CdoObject ν) : Leaving RanOrFailed (metaFunction fnObj args) := by
  refine Leaving.last fun ret => leaving_unless_failed fun s => Leaving.ite ?_ ?_
  · exact Leaving.last fun _ => Leaving.last fun _ => Leaving.last fun _ => leaving_true
  · exact Leaving.last fun _ => leaving_true

/-- A metamethod that is found runs or fails. -/
lemma callMeta_leaves {raw : CdoValue ν} (ptr : vm.store.pointer h = some p) (found : vm.store.get p key = some raw) :
    (callMeta E call h key args vm).Leaves RanOrFailed := by
  rw [callMeta, bind_apply, objectGetM_apply ptr, Outcome.bind_ok, found]
  refine Leaving.last (fun callee => (leaving_metaNative callee).ite ?_) vm
  cases callee with
  | number x => exact leaving_metaOffset x
  | object g =>
    refine Leaving.last fun fnObj => ?_
    split
    · exact leaving_metaObjNative _
    · exact leaving_metaFunction fnObj
    · exact leaving_setError _
  | _ => exact leaving_setError _

omit [F64 ν] in
/-- Going on in the frame that called changes nothing about it. -/
lemma reenter_leaves {m : M ν Bool} (l : (m vm).Leaves RanOrFailed) : (reenter m vm).Leaves RanOrFailed := by
  rw [reenter, bind_apply, get_apply, Outcome.bind_ok, bind_apply]
  refine l.bind fun ran s left => ?_
  rw [bind_apply, get_apply, Outcome.bind_ok]
  split
  · trivial
  · exact left

/-! ### The opcodes -/

variable {idx container v : Value ν} {rest : List (Value ν)} {o : CdoObject ν}

/-- A value that lies on the stack: the handle of an object is a live one. -/
def LiveValue (w : Store ν) (v : Value ν) : Prop := ∀ h, v = .object h → ∃ o, w.resolve h = some o

omit [F64 ν] in
lemma LiveValue.toCdo (live : LiveValue vm.store v) : ∃ u, vm.store.toCdo v = some u := by
  cases v with
  | object h =>
    obtain ⟨o, found⟩ := live h rfl
    obtain ⟨p, ptr, _⟩ := Option.bind_eq_some_iff.mp found
    exact ⟨.object p, by simp [Store.toCdo, ptr]⟩
  | _ => exact ⟨_, rfl⟩

omit [F64 ν] in
lemma toCdo_ok {u : CdoValue ν} (converts : vm.store.toCdo v = some u) : Cando.toCdo v vm = .ok u vm := by
  simp only [Cando.toCdo, bind_apply, get_apply, Outcome.bind_ok, converts, orCrash_some, pure_apply]

omit [F64 ν] in
lemma pushField_safe (found : Option (CdoValue ν)) (room : vm.height < stackMax) :
    (pushField found vm).Safe N fun _ s => ∃ r, s.stack = r :: vm.stack := by
  cases found with
  | none =>
    rw [pushField, push_room room]
    exact ⟨.null, rfl⟩
  | some raw =>
    have pushed : ∀ w (r : Value ν), push r { vm with store := w } = .ok () (VM.pushed { vm with store := w } [r]) :=
      fun w r => push_room room
    simp only [pushField, bind_apply, Cando.toCando, Outcome.bind_ok, pushed]
    exact ⟨_, rfl⟩

omit [F64 ν] in
/-- Two values popped. -/
lemma pop_pop {α : Type} {a b : Value ν} (stack : vm.stack = a :: b :: rest) (f : Value ν → Value ν → M ν α) :
    (pop >>= fun x => pop >>= fun y => f x y) vm = f a b (vm.popTo (vm.height - 2)) := by
  have left : vm.popTo (vm.height - 2) = { vm with stack := rest, dead := b :: a :: vm.dead } := by
    have two : vm.height - (vm.height - 2) = 2 := by
      rw [VM.height, stack, List.length_cons, List.length_cons]
      omega
    rw [VM.popTo, two, stack]
    rfl
  rw [left]
  simp only [bind_apply, pop, stack, Outcome.bind_ok]

omit [F64 ν] in
lemma popTo_stack {a b : Value ν} (stack : vm.stack = a :: b :: rest) :
    (vm.popTo (vm.height - 2)).stack = rest := by
  have left : vm.height - 2 = rest.length := by simp [VM.height, stack]
  rw [left]
  exact VM.popTo_window [a, b] stack

/-- No read goes wrong: the object that a number indexes is an array, and the number has an integer part that a
`u32` holds. -/
def Gettable (w : Store ν) (container idx : Value ν) : Prop :=
  ∀ h o x, container = .object h → w.resolve h = some o → idx = .number x →
    o.kind = .array ∧ (F64.toU32 x).isSome = true

/-- `OP_GET_INDEX` replaces the container and the index by a value or raises an error, exactly then. -/
lemma opGetIndex_safe_iff (stack : vm.stack = idx :: container :: rest) (room : vm.height ≤ stackMax)
    (live : LiveValue vm.store container) :
    (opGetIndex vm).Safe N (fun _ s => ∃ r, s.stack = r :: rest) ↔ Gettable vm.store container idx := by
  have height : rest.length < stackMax := by
    rw [VM.height, stack, List.length_cons, List.length_cons] at room
    omega
  have left := popTo_stack stack
  have store : (vm.popTo (vm.height - 2)).store = vm.store := rfl
  rw [opGetIndex, pop_pop stack]
  generalize vm.popTo (vm.height - 2) = s at left store ⊢
  rw [← left, ← store]
  rw [← left] at height
  rw [← store] at live
  cases container with
  | object h =>
    obtain ⟨o, found⟩ := live h rfl
    dsimp only
    rw [bind_apply, resolve_apply found, Outcome.bind_ok]
    cases idx with
    | number x =>
      dsimp only
      rw [bind_apply]
      cases converts : F64.toU32 x with
      | none =>
        refine iff_of_false (fun safe => safe) fun gettable => ?_
        have known := (gettable h o x rfl found rfl).2
        rw [converts] at known
        cases known
      | some i =>
        rw [orCrash_some, pure_apply, Outcome.bind_ok, bind_apply, Program.when]
        by_cases array : o.kind = .array
        · rw [if_neg (not_not.mpr array), pure_apply, Outcome.bind_ok]
          refine iff_of_true (pushField_safe _ height) fun h' o' x' e found' e' => ?_
          cases e
          cases e'
          rw [found] at found'
          cases found'
          exact ⟨array, by rw [converts]; rfl⟩
        · rw [if_pos array]
          exact iff_of_false (fun safe => safe) fun gettable => array (gettable h o x rfl found rfl).1
    | string key => exact iff_of_true (pushField_safe _ height) (by rintro _ _ _ _ _ ⟨⟩)
    | null | bool | object => exact iff_of_true trivial (by rintro _ _ _ _ _ ⟨⟩)
  | null | bool | number | string => exact iff_of_true trivial (by rintro _ _ _ ⟨⟩)

/-- The call of `__newindex` that a string-keyed assignment makes. -/
def newindexCall (E : Env ν) (h : Nat) (key : Str) (v : Value ν) : M ν Bool :=
  reenter (callMeta E (callNative E) h (bytes "__newindex") [.object h, .string key, v])

/-- The object behind a handle finds a `__newindex`. -/
def HasNewindex (w : Store ν) (h : Nat) : Prop :=
  ∃ p raw, w.pointer h = some p ∧ w.get p (bytes "__newindex") = some raw

/-- A string-keyed assignment: the object has the field, or its `__newindex` ends, or it has neither and is no
thread. -/
def FieldSettable (N : VM ν → VMResult → VM ν → Prop) (E : Env ν) (s : VM ν) (h : Nat) (o : CdoObject ν) (key : Str)
    (v : Value ν) : Prop :=
  o.rawget key = none →
    (HasNewindex s.store h → (newindexCall E h key v s).Safe N fun _ _ => True) ∧
    (¬ HasNewindex s.store h → o.kind ≠ .thread)

omit [F64 ν] in
/-- Setting a field goes wrong on a thread only. -/
lemma rawsetField_safe_iff {s : VM ν} (found : s.store.resolve h = some o) (u : CdoValue ν) :
    (rawsetField h key u false s).Safe N (fun _ _ => True) ↔ o.kind ≠ .thread := by
  obtain ⟨p, ptr, _⟩ := Option.bind_eq_some_iff.mp found
  rw [rawsetField, bind_apply, resolve_apply found, Outcome.bind_ok]
  split
  · rename_i thread
    exact iff_of_false (fun safe => safe) (not_not.mpr thread)
  · rename_i table
    refine iff_of_true ?_ table
    simp only [Cando.modifyObj, Cando.pointer, bind_apply, get_apply, Outcome.bind_ok, ptr, orCrash_some, pure_apply,
      modify_apply, safe_ok]

/-- A string-keyed assignment ends or raises an error, exactly then. -/
lemma assignField_safe_iff {s : VM ν} (quiet : s.hasError = false) (found : s.store.resolve h = some o)
    (live : LiveValue s.store v) :
    (assignField E h key v s).Safe N (fun _ _ => True) ↔ FieldSettable N E s h o key v := by
  obtain ⟨u, converts⟩ := live.toCdo
  obtain ⟨p, ptr, _⟩ := Option.bind_eq_some_iff.mp found
  rw [assignField, bind_apply, resolve_apply found, Outcome.bind_ok]
  cases own : o.rawget key with
  | some c =>
    have plain : o.kind = .object := by
      by_contra other
      rw [CdoObject.rawget_other other] at own
      cases own
    rw [Option.isSome_some, if_pos rfl, bind_apply, toCdo_ok converts, Outcome.bind_ok, rawsetField_safe_iff found]
    refine iff_of_true (fun thread => ?_) fun none_own => ?_
    · rw [plain] at thread
      cases thread
    · rw [own] at none_own
      cases none_own
  | none =>
    rw [Option.isSome_none, if_neg Bool.false_ne_true, bind_apply, safe_bind]
    cases handler : s.store.get p (bytes "__newindex") with
    | none =>
      have missing : ¬ HasNewindex s.store h := by
        rintro ⟨p', raw, ptr', found'⟩
        rw [ptr] at ptr'
        cases ptr'
        rw [handler] at found'
        cases found'
      have passes : (failed : M ν Unit) s = .ok () s := by simp [failed, quiet, Program.when]
      rw [callMeta_missing E ptr handler quiet, safe_ok, if_neg Bool.false_ne_true, bind_apply, passes,
        Outcome.bind_ok, bind_apply, toCdo_ok converts, Outcome.bind_ok, rawsetField_safe_iff found]
      exact ⟨fun table _ => ⟨fun has => absurd has missing, fun _ => table⟩, fun settable => (settable own).2 missing⟩
    | some raw =>
      have has : HasNewindex s.store h := ⟨p, raw, ptr, handler⟩
      constructor
      · exact fun safe _ => ⟨fun _ => safe.mono fun _ _ _ => trivial, fun missing => absurd has missing⟩
      · intro settable
        -- what was called has run, or an error is pending
        refine (((settable own).1 has).leaving (reenter_leaves (callMeta_leaves ptr handler))).mono ?_
        rintro ran s' ⟨-, rfl | failing⟩
        · exact trivial
        · cases ran with
          | true => exact trivial
          | false =>
            have raises : (failed : M ν Unit) s' = .error s' := by simp [failed, failing, Program.when]
            rw [if_neg Bool.false_ne_true, bind_apply, raises]
            exact trivial

/-- The buffer of an array, as operations on a new array have left it, with the array's items as its elements. -/
structure Buffers (a : ItemBuffer ν) (o : CdoObject ν) : Prop where
  reached : a.Reached
  items : a.Repr o.items
  readonly : a.readonly = o.readonly

/-- No write goes wrong: the object that a number indexes is an array, the number has an integer part that a `u32`
holds, and the write of the element comes back (the array is readonly, or the index is below 2^31 and finds no cell
behind the last element of which something would be given up); and a string-keyed assignment can be made. -/
def Settable (N : VM ν → VMResult → VM ν → Prop) (E : Env ν) (a : ItemBuffer ν) (s : VM ν) (container idx v : Value ν) :
    Prop :=
  ∀ h o, container = .object h → s.store.resolve h = some o →
    (∀ x, idx = .number x → o.kind = .array ∧ ∃ i, F64.toU32 x = some i ∧
      (o.readonly = true ∨ i < 2147483648 ∧ ArrayOp.Fits a (.rawsetIdx i .null))) ∧
    ∀ key, idx = .string key → FieldSettable N E s h o key v

/-- `OP_SET_INDEX` ends or raises an error, and so does the write of the element that it makes. -/
def SetsSafely (N : VM ν → VMResult → VM ν → Prop) (E : Env ν) (vm : VM ν) (a : ItemBuffer ν)
    (container idx v : Value ν) : Prop :=
  (opSetIndex E vm).Safe N (fun _ _ => True) ∧
  ∀ h o x i u, container = .object h → vm.store.resolve h = some o → idx = .number x → F64.toU32 x = some i →
    o.kind = .array → vm.store.toCdo v = some u → (a.rawsetIdx i u).isSome = true

/-- `OP_SET_INDEX` goes wrong exactly when the write cannot be made. -/
lemma opSetIndex_safe_iff {a : ItemBuffer ν} (stack : vm.stack = v :: idx :: container :: rest)
    (quiet : vm.hasError = false) (live : LiveValue vm.store container) (live_v : LiveValue vm.store v)
    (buffers : ∀ h o, container = .object h → vm.store.resolve h = some o → o.kind = .array → Buffers a o) :
    SetsSafely N E vm a container idx v ↔ Settable N E a (vm.popTo (vm.height - 2)) container idx v := by
  have left := popTo_stack stack
  have store : (vm.popTo (vm.height - 2)).store = vm.store := rfl
  have same : (vm.popTo (vm.height - 2)).hasError = vm.hasError := rfl
  rw [SetsSafely, opSetIndex, pop_pop stack]
  generalize vm.popTo (vm.height - 2) = s at left store same ⊢
  rw [← store] at live live_v buffers
  rw [← store]
  rw [← same] at quiet
  have top : peek 0 s = .ok container s := by simp [peek, left]
  rw [bind_apply, top, Outcome.bind_ok]
  cases container with
  | object h =>
    obtain ⟨o, found⟩ := live h rfl
    obtain ⟨u, converts⟩ := live_v.toCdo
    obtain ⟨p, ptr, _⟩ := Option.bind_eq_some_iff.mp found
    dsimp only
    rw [bind_apply, resolve_apply found, Outcome.bind_ok]
    cases idx with
    | number x =>
      dsimp only
      rw [bind_apply]
      cases index : F64.toU32 x with
      | none =>
        refine iff_of_false (fun sets => sets.1) fun settable => ?_
        obtain ⟨-, i, index', -⟩ := (settable h o rfl found).1 x rfl
        rw [index] at index'
        cases index'
      | some i =>
        rw [orCrash_some, pure_apply, Outcome.bind_ok, bind_apply, Program.when]
        by_cases array : o.kind = .array
        · obtain ⟨reached, items, readonly⟩ := buffers h o rfl found array
          have ends : ((Cando.toCdo v >>= fun cdo => Cando.modifyObj h (·.arrayRawset i cdo)) s).Safe N
              fun _ _ => True := by
            simp only [bind_apply, toCdo_ok converts, Cando.modifyObj, Cando.pointer, get_apply, Outcome.bind_ok, ptr,
              orCrash_some, pure_apply, modify_apply, safe_ok]
          rw [if_neg (not_not.mpr array), pure_apply, Outcome.bind_ok]
          constructor
          · rintro ⟨-, written⟩ h' o' e found'
            cases e
            rw [found] at found'
            cases found'
            refine ⟨fun x' e => ?_, by rintro _ ⟨⟩⟩
            cases e
            refine ⟨array, i, index, ?_⟩
            rw [← readonly]
            exact (reached.rawsetIdx_isSome items i u).mp (written h o x i u rfl found rfl index array converts)
          · intro settable
            refine ⟨ends, fun h' o' x' i' u' e found' e' index' _ _ => ?_⟩
            cases e
            cases e'
            rw [found] at found'
            rw [index] at index'
            cases found'
            cases index'
            obtain ⟨-, i', index', fits⟩ := (settable h o rfl found).1 x rfl
            rw [index] at index'
            cases index'
            exact (reached.rawsetIdx_isSome items i u').mpr (readonly ▸ fits)
        · rw [if_pos array]
          exact iff_of_false (fun sets => sets.1) fun settable => array ((settable h o rfl found).1 x rfl).1
    | string key =>
      have field : (assignField E h key v s).Safe N (fun _ _ => True) ↔ FieldSettable N E s h o key v :=
        assignField_safe_iff quiet found live_v
      constructor
      · rintro ⟨safe, -⟩ h' o' e found'
        cases e
        rw [found] at found'
        cases found'
        refine ⟨by rintro _ ⟨⟩, fun key' e => ?_⟩
        cases e
        exact field.mp safe
      · intro settable
        exact ⟨field.mpr ((settable h o rfl found).2 key rfl), by rintro _ _ _ _ _ _ _ ⟨⟩⟩
    | null | bool | object =>
      exact iff_of_true ⟨trivial, by rintro _ _ _ _ _ _ _ ⟨⟩⟩ fun _ _ _ _ => ⟨by rintro _ ⟨⟩, by rintro _ ⟨⟩⟩
  | null | bool | number | string =>
    exact iff_of_true ⟨trivial, by rintro _ _ _ _ _ ⟨⟩⟩ (by rintro _ _ ⟨⟩)

/-- Index access on any pair of a container and an index: `OP_GET_INDEX` ends in a value or an error, and `OP_SET_INDEX`
ends or raises an error, exactly when the object that a number indexes is an array and the number has an integer part
that a `u32` holds, the write of an element comes back, and a field that is set is not set on a thread. -/
theorem index_access_iff (N : VM ν → VMResult → VM ν → Prop) (E : Env ν) (container idx : Value ν)
    (rest : List (Value ν)) :
    (∀ vm : VM ν, vm.stack = idx :: container :: rest → vm.height ≤ stackMax → LiveValue vm.store container →
      ((opGetIndex vm).Safe N (fun _ s => ∃ r, s.stack = r :: rest) ↔ Gettable vm.store container idx)) ∧
    ∀ (vm : VM ν) (a : ItemBuffer ν) v, vm.stack = v :: idx :: container :: rest → vm.hasError = false →
      LiveValue vm.store container → LiveValue vm.store v →
      (∀ h o, container = .object h → vm.store.resolve h = some o → o.kind = .array → Buffers a o) →
      (SetsSafely N E vm a container idx v ↔ Settable N E a (vm.popTo (vm.height - 2)) container idx v) :=
  ⟨fun _ stack room live => opGetIndex_safe_iff stack room live,
    fun _ _ _ stack quiet live live_v buffers => opSetIndex_safe_iff stack quiet live live_v buffers⟩

/-- A store with an array of one element behind the handle 0, and the array's buffer. -/
def oneElement : Store Int := { objs := [{ kind := .array, items := [.number 7] }], handles := [0] }

def oneElementBuffer : ItemBuffer Int := { items := some (.number 7) :: List.replicate 7 none, itemsLen := 1 }

/-- The element of an array of one is read and written. -/
theorem index_access_iff_element :
    (opGetIndex ({ stack := [.number 0, .object 0], store := oneElement } : VM Int)).Safe (fun _ _ _ => True)
      (fun _ s => ∃ r, s.stack = [r]) ∧
    SetsSafely (fun _ _ _ => True) {} { stack := [.number 8, .number 0, .object 0], store := oneElement }
      oneElementBuffer (.object 0) (.number 0) (.number 8) := by
  have live : LiveValue oneElement (.object 0) := by
    rintro h ⟨⟩
    exact ⟨_, rfl⟩
  have live_number : LiveValue oneElement (.number 8) := by rintro h ⟨⟩
  have buffers : ∀ h o, (.object 0 : Value Int) = .object h → oneElement.resolve h = some o → o.kind = .array →
      Buffers oneElementBuffer o := by
    rintro h o ⟨⟩ found -
    cases found
    have pushed : ({} : ItemBuffer Int).perform (.push (.number 7)) = some (.done true, oneElementBuffer) := rfl
    exact ⟨.perform .new pushed, ⟨⟨List.replicate 7 none, rfl⟩, rfl, by decide⟩, rfl⟩
  refine ⟨((index_access_iff (fun _ _ _ => True) {} (.object 0) (.number 0) []).1 _ rfl (by decide) live).mpr ?_,
    ((index_access_iff (fun _ _ _ => True) {} (.object 0) (.number 0) []).2 _ oneElementBuffer (.number 8) rfl rfl live
      live_number buffers).mpr ?_⟩
  · rintro h o x ⟨⟩ found ⟨⟩
    cases found
    exact ⟨rfl, rfl⟩
  · rintro h o ⟨⟩ found
    cases found
    refine ⟨?_, by rintro _ ⟨⟩⟩
    rintro x ⟨⟩
    exact ⟨rfl, 0, rfl, Or.inr ⟨by decide, Or.inl (by decide)⟩⟩

/-- A number indexes a plain object. -/
theorem index_access_asserts : ¬ ∀ (N : VM Int → VMResult → VM Int → Prop) (vm : VM Int) idx container rest,
    vm.stack = idx :: container :: rest → vm.height ≤ stackMax → LiveValue vm.store container →
      (opGetIndex vm).Safe N fun _ s => ∃ r, s.stack = r :: rest := by
  intro safe
  have live : LiveValue ({ objs := [{}], handles := [0] } : Store Int) (.object 0) := by
    rintro h ⟨⟩
    exact ⟨_, rfl⟩
  have crashes : opGetIndex ({ stack := [.number 0, .object 0], store := { objs := [{}], handles := [0] } } : VM Int) =
      .crash .assertion := rfl
  have ends := safe (fun _ _ _ => True) { stack := [.number 0, .object 0], store := { objs := [{}], handles := [0] } }
    (.number 0) (.object 0) [] rfl (by decide) live
  rw [crashes] at ends
  exact ends

end Cando
