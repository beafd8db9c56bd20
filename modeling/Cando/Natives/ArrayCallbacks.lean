import Cando.Lib.Safe
import Cando.Parser.ArrayLiteral
import Cando.Vm.Entry

/-!
# Array functions with a callback

`array.map`, `array.filter` and `array.reduce` (`lib/array.c`). Each goes over as many indices as the array had elements
at the start and calls `cando_vm_call_value` for each, which may run any script; a run of the loop is followed turn by
turn, whatever these calls come back with.
-/

namespace Cando

open Program Value Outcome

variable {ν β : Type}

/-- The elements of the array behind a pointer. -/
def Store.itemsAt (w : Store ν) (p : Nat) : List (CdoValue ν) := (w.objs[p]?.map (·.items)).getD []

/-! ### The functions -/

/-- `cdo_array_rawget_idx` into a variable that was not set, whose answer is not looked at, and
`cando_bridge_to_cando`: behind the last element there is no value to convert. -/
def readItem (src i : Nat) : M ν (Value ν) := do
  let vm ← get
  let cv ← orCrash .undefined (vm.store.itemsAt src)[i]?
  toCando cv

/-- `cdo_array_push` to the result. -/
def pushItem (out : Nat) (v : Value ν) : M ν Unit := do
  let cv ← toCdo v
  modify fun vm => { vm with store := vm.store.modifyObj out (·.arrayPush cv) }

/-- What the functions take for the value of the callback: the one on top of the stack, if there is any. -/
def topResult (nret : Nat) : M ν (Value ν) := if 0 < nret then pop else return .null

/-- A turn of the loop, up to the next `i++`; `none` when it returns with an error. -/
def itemTurn (call : List (Value ν) → M ν Nat) (src : Nat) (args : β → Value ν → List (Value ν))
    (absorb : β → Value ν → Nat → M ν β) (i : Nat) (acc : β) : M ν (Option β) := do
  let arg ← readItem src i
  let nret ← call (args acc arg)
  let vm ← get
  if vm.hasError then return none
  else return some (← absorb acc arg nret)

/-- The loop. -/
def eachItem (call : List (Value ν) → M ν Nat) (src : Nat) (args : β → Value ν → List (Value ν))
    (absorb : β → Value ν → Nat → M ν β) : List Nat → β → M ν (Option β)
  | [], acc => return some acc
  | i :: is, acc => do
    match ← itemTurn call src args absorb i acc with
    | some acc => eachItem call src args absorb is acc
    | none => return none

/-- What `arr_map` does with a result. -/
def mapItem (out : Nat) (_ : Unit) (_ : Value ν) (nret : Nat) : M ν Unit := do pushItem out (← topResult nret)

/-- What `arr_filter` does with a result. -/
def filterItem (out : Nat) (_ : Unit) (arg : Value ν) (nret : Nat) : M ν Unit := do
  let ret ← topResult nret
  when (ret.isTruthy = true) (pushItem out arg)

/-- What `arr_reduce` does with a result. -/
def reduceItem (_ _ : Value ν) (nret : Nat) : M ν (Value ν) := topResult nret

/-- The checks at the beginning: an array and an object, or the result is `NULL`. -/
def withArray (args : List (Value ν)) (body : (src : Nat) → (fn : Value ν) → M ν Int) : M ν Int := do
  match args with
  | .object a :: .object f :: _ =>
    let src ← pointer a
    let obj ← resolve a
    if obj.kind = .array then body src (.object f)
    else
      push .null
      return 1
  | _ =>
    push .null
    return 1

/-- The indices that the loop goes over. -/
def indices (src : Nat) : M ν (List Nat) := do
  let vm ← get
  return List.range (vm.store.itemsAt src).length

/-- The end of the functions: the result is pushed, unless there was an error. -/
def pushResult : Option (Value ν) → M ν Int
  | some v => do
    push v
    return 1
  | none => return -1

/-- `arr_map` and `arr_filter`: the loop fills a new array. -/
def intoArray [F64 ν] (E : Env ν) (nc : NativeCall ν) (absorb : Nat → Unit → Value ν → Nat → M ν Unit)
    (args : List (Value ν)) : M ν Int :=
  withArray args fun src fn => do
    let vm ← get
    let out := vm.store.objs.length
    let res ← newArray []
    let is ← indices src
    let ended ← eachItem (callValue E nc fn) src (fun _ arg => [arg]) (absorb out) is ()
    pushResult (ended.map fun _ => res)

/-- `arr_map`. -/
def arrMap [F64 ν] (E : Env ν) (nc : NativeCall ν) : List (Value ν) → M ν Int := intoArray E nc mapItem

/-- `arr_filter`. -/
def arrFilter [F64 ν] (E : Env ν) (nc : NativeCall ν) : List (Value ν) → M ν Int := intoArray E nc filterItem

/-- `arr_reduce`. -/
def arrReduce [F64 ν] (E : Env ν) (nc : NativeCall ν) (args : List (Value ν)) : M ν Int :=
  withArray args fun src fn => do
    let is ← indices src
    let ended ← eachItem (callValue E nc fn) src (fun acc arg => [acc, arg]) reduceItem is ((args[2]?).getD .null)
    pushResult ended

/-! ### Runs of the loop -/

/-- A call comes back with the values it returned on top of the stack, which is otherwise as it was. Objects stay, and
the result of the function is as it was: no script knows of it before the function returns. -/
structure Answered (out : Option Nat) (s s' : VM ν) (rets : List (Value ν)) : Prop where
  stack : s'.stack = rets.reverse ++ s.stack
  grows : s.store.Extends s'.store
  hidden : ∀ p ∈ out, s'.store.objs[p]? = s.store.objs[p]?

/-- Every call of the callback that comes back has an error pending, or an answer. -/
def CallsAnswered (N : VM ν → VMResult → VM ν → Prop) (call : List (Value ν) → M ν Nat) (out : Option Nat) : Prop :=
  ∀ args s n s', (call args s).Comes N n s' → s'.hasError = true ∨ ∃ rets, rets.length = n ∧ Answered out s s' rets

/-- What there is to tell of a turn: its index, the elements of the array when it reads, the one it reads and the value
for it, the arguments of the callback and what it returned, and the elements of the array when it has returned. -/
structure ItemTurn (ν : Type) where
  index : Nat
  items : List (CdoValue ν)
  item : CdoValue ν
  arg : Value ν
  args : List (Value ν)
  rets : List (Value ν)
  after : List (CdoValue ν)

section Runs

variable {N : VM ν → VMResult → VM ν → Prop} {call : List (Value ν) → M ν Nat} {src : Nat} {out : Option Nat}
  {args : β → Value ν → List (Value ν)} {absorb : β → Value ν → Nat → M ν β} {i : Nat} {acc acc' : β}
  {s s' : VM ν} {t : ItemTurn ν}

/-- The state in which the callback is called: the element has been converted. -/
def VM.converted (s : VM ν) (item : CdoValue ν) : VM ν := { s with store := (s.store.toCando item).2 }

variable (N call src out args absorb) in
/-- A turn of the loop that goes on to the next. -/
structure Turned (acc : β) (s : VM ν) (t : ItemTurn ν) (called : VM ν) (acc' : β) (s' : VM ν) : Prop where
  items : t.items = s.store.itemsAt src
  item : t.items[t.index]? = some t.item
  arg : t.arg = (s.store.toCando t.item).1
  args : t.args = args acc t.arg
  back : (call t.args (s.converted t.item)).Comes N t.rets.length called
  quiet : called.hasError = false
  answered : Answered out (s.converted t.item) called t.rets
  after : t.after = called.store.itemsAt src
  absorbed : (absorb acc t.arg t.rets.length called).Comes N acc' s'

variable (N call src args) in
/-- A turn in which the callback throws. -/
structure Threw (i : Nat) (acc : β) (s s' : VM ν) : Prop where
  back : ∃ item n, (s.store.itemsAt src)[i]? = some item ∧
    (call (args acc (s.store.toCando item).1) (s.converted item)).Comes N n s'
  failed : s'.hasError = true

variable (N call src out args absorb) in
/-- The loop has made some turns: what is left of its indices, and what it has gathered. -/
inductive Turns : List Nat → β → VM ν → List (ItemTurn ν) → List Nat → β → VM ν → Prop where
  | start {is acc s} : Turns is acc s [] is acc s
  | turn {is acc s t called acc₁ s₁ ts rest acc' s'} : Turned N call src out args absorb acc s t called acc₁ s₁ →
      Turns is acc₁ s₁ ts rest acc' s' → Turns (t.index :: is) acc s (t :: ts) rest acc' s'

lemma readItem_comes {v : Value ν} (h : (readItem src i s).Comes N v s') :
    ∃ item, (s.store.itemsAt src)[i]? = some item ∧ v = (s.store.toCando item).1 ∧ s' = s.converted item := by
  rw [readItem, bind_apply, get_apply, Outcome.bind_ok, bind_apply] at h
  cases there : (s.store.itemsAt src)[i]? with
  | none =>
    rw [there] at h
    exact h.elim
  | some item =>
    rw [there] at h
    obtain ⟨rfl, rfl⟩ := h
    exact ⟨item, rfl, rfl, rfl⟩

lemma itemTurn_comes (answered : CallsAnswered N call out) {r : Option β}
    (h : (itemTurn call src args absorb i acc s).Comes N r s') :
    (∃ t called acc', t.index = i ∧ Turned N call src out args absorb acc s t called acc' s' ∧ r = some acc') ∨
      r = none ∧ Threw N call src args i acc s s' := by
  obtain ⟨arg, s₁, read, h⟩ := comes_bind.mp h
  obtain ⟨item, there, rfl, rfl⟩ := readItem_comes read
  obtain ⟨n, s₂, back, h⟩ := comes_bind.mp h
  rw [bind_apply, get_apply, Outcome.bind_ok] at h
  cases failed : s₂.hasError with
  | true =>
    rw [failed] at h
    obtain ⟨rfl, rfl⟩ := h
    exact .inr ⟨rfl, ⟨item, n, there, back⟩, failed⟩
  | false =>
    rw [failed] at h
    obtain ⟨acc', s₃, absorbed, rfl, rfl⟩ := comes_bind.mp h
    obtain pending | ⟨rets, rfl, answered⟩ := answered _ _ _ _ back
    · exact absurd pending (by simp [failed])
    · exact .inl ⟨⟨i, _, item, _, _, rets, _⟩, s₂, acc', rfl,
        ⟨rfl, there, rfl, rfl, back, failed, answered, rfl, absorbed⟩, rfl⟩

/-- A loop that comes to its end has made all its turns, or some of them and one in which the callback threw. -/
lemma eachItem_comes (answered : CallsAnswered N call out) {is : List Nat} {r : Option β}
    (h : (eachItem call src args absorb is acc s).Comes N r s') :
    ∃ ts rest acc' s₁, Turns N call src out args absorb is acc s ts rest acc' s₁ ∧
      (rest = [] ∧ r = some acc' ∧ s' = s₁ ∨ r = none ∧ ∃ i ∈ rest.head?, Threw N call src args i acc' s₁ s') := by
  induction is generalizing acc s with
  | nil =>
    obtain ⟨rfl, rfl⟩ := h
    exact ⟨[], [], acc, s, .start, .inl ⟨rfl, rfl, rfl⟩⟩
  | cons i is ih =>
    obtain ⟨r₁, s₁, first, rest⟩ := comes_bind.mp h
    obtain ⟨t, called, acc₁, rfl, turned, rfl⟩ | ⟨rfl, threw⟩ := itemTurn_comes answered first
    · obtain ⟨ts, left, acc', s₂, turns, ends⟩ := ih rest
      exact ⟨t :: ts, left, acc', s₂, .turn turned turns, ends⟩
    · obtain ⟨rfl, rfl⟩ := rest
      exact ⟨[], i :: is, acc, s, .start, .inr ⟨rfl, i, rfl, threw⟩⟩

/-- The indices of the turns and those that are left. -/
lemma Turns.indices {is rest : List Nat} {ts : List (ItemTurn ν)}
    (turns : Turns N call src out args absorb is acc s ts rest acc' s') : is = ts.map (·.index) ++ rest := by
  induction turns with
  | start => rfl
  | turn _ _ ih => rw [List.map_cons, List.cons_append, ← ih]

/-- Every turn reads an element of the array. -/
lemma Turns.reads {is rest : List Nat} {ts : List (ItemTurn ν)}
    (turns : Turns N call src out args absorb is acc s ts rest acc' s') :
    ∀ t ∈ ts, t.items[t.index]? = some t.item := by
  induction turns with
  | start => exact fun _ no => absurd no List.not_mem_nil
  | turn turned _ ih =>
    intro t mem
    obtain rfl | mem := List.mem_cons.mp mem
    · exact turned.item
    · exact ih t mem

variable (N src absorb) in
/-- What is done with a result leaves the source array alone, and objects stay. -/
structure Aside : Prop where
  items : ∀ {acc arg n s acc' s'}, (absorb acc arg n s).Comes N acc' s' →
    s'.store.itemsAt src = s.store.itemsAt src
  grows : ∀ {acc arg n s acc' s'}, (absorb acc arg n s).Comes N acc' s' → s.store.Extends s'.store

lemma Turned.grows {called : VM ν} (aside : Aside N src absorb)
    (turned : Turned N call src out args absorb acc s t called acc' s') : s.store.Extends s'.store :=
  ((s.store.extends_toCando t.item).trans turned.answered.grows).trans (aside.grows turned.absorbed)

lemma Turns.grows {is rest : List Nat} {ts : List (ItemTurn ν)} (aside : Aside N src absorb)
    (turns : Turns N call src out args absorb is acc s ts rest acc' s') : s.store.Extends s'.store := by
  induction turns with
  | start => exact .refl _
  | turn turned _ ih => exact (turned.grows aside).trans ih

/-- Between two turns the array is as the callback has left it. -/
lemma Turns.left {is rest : List Nat} {ts : List (ItemTurn ν)} (aside : Aside N src absorb)
    (turns : Turns N call src out args absorb is acc s ts rest acc' s') :
    s'.store.itemsAt src = (ts.getLast?.map (·.after)).getD (s.store.itemsAt src) := by
  induction turns with
  | start => rfl
  | @turn _ _ _ t _ _ _ ts _ _ _ turned rest ih =>
    have after := aside.items turned.absorbed
    rw [← turned.after] at after
    rw [ih, after]
    cases ts with
    | nil => rfl
    | cons t' ts => simp [List.getLast?_cons]

/-- The callback leaves the array long enough for the next turn, if there is one among the first `len`. -/
def ItemTurn.Long (len : Nat) (t : ItemTurn ν) : Prop := t.index + 1 < len → t.index + 1 < t.after.length

/-- An element is read where there is one. -/
lemma readItem_iff : (∃ v s₁, readItem src i s = .ok v s₁) ↔ i < (s.store.itemsAt src).length := by
  rw [readItem, bind_apply, get_apply, Outcome.bind_ok]
  constructor
  · rintro ⟨v, s₁, read⟩
    by_contra behind
    rw [List.getElem?_eq_none (Nat.le_of_not_lt behind)] at read
    cases read
  · intro inside
    rw [List.getElem?_eq_getElem inside]
    exact ⟨_, _, rfl⟩

/-- The next turn reads an element exactly when the last one has left the array long enough. -/
lemma Turns.next_iff {i : Nat} {rest : List Nat} {ts : List (ItemTurn ν)} (aside : Aside N src absorb)
    (turns : Turns N call src out args absorb (List.range (s.store.itemsAt src).length) acc s ts (i :: rest) acc' s') :
    (∃ v s₁, readItem src i s' = .ok v s₁) ↔ ∀ t ∈ ts.getLast?, t.Long (s.store.itemsAt src).length := by
  rw [readItem_iff, turns.left aside]
  have order := turns.indices
  have place (k : Nat) : (List.range (s.store.itemsAt src).length)[k]? = (ts.map (·.index) ++ i :: rest)[k]? := by
    rw [← order]
  have here := place ts.length
  rw [List.getElem?_append_right (by simp)] at here
  simp only [List.length_map, Nat.sub_self, List.getElem?_cons_zero, List.getElem?_eq_some_iff,
    List.getElem_range, List.length_range] at here
  obtain ⟨inside, rfl⟩ := here
  obtain rfl | ⟨before, t, rfl⟩ := List.eq_nil_or_concat ts
  · simpa using inside
  · have last := place before.length
    simp only [List.concat_eq_append, List.length_append, List.length_singleton, List.map_append, List.map_cons,
      List.map_nil, List.append_assoc, List.singleton_append] at last inside ⊢
    rw [List.getElem?_append_right (by simp)] at last
    simp only [List.length_map, Nat.sub_self, List.getElem?_cons_zero, List.getElem?_eq_some_iff,
      List.getElem_range, List.length_range] at last
    obtain ⟨_, index⟩ := last
    simp [ItemTurn.Long, ← index, inside]

/-- The argument of a turn stands for the element, as long as the script may run. -/
lemma Turns.elements {is rest : List Nat} {ts : List (ItemTurn ν)} (aside : Aside N src absorb)
    (turns : Turns N call src out args absorb is acc s ts rest acc' s') :
    ∀ t ∈ ts, s'.store.toCdo t.arg = some t.item := by
  induction turns with
  | start => exact fun _ no => absurd no List.not_mem_nil
  | turn turned rest ih =>
    intro t mem
    obtain rfl | mem := List.mem_cons.mp mem
    · rw [turned.arg]
      have later := (turned.answered.grows.trans (aside.grows turned.absorbed)).trans (rest.grows aside)
      exact Store.toCdo_toCando t.item later
    · exact ih t mem

end Runs

/-! ### What is done with the results -/

section Results

variable {N : VM ν → VMResult → VM ν → Prop} {call : List (Value ν) → M ν Nat} {src p : Nat} {s s' : VM ν}
  {t : ItemTurn ν} {o : CdoObject ν}

/-- The value that the functions take from a turn: the last of those the callback returned. -/
def ItemTurn.last (t : ItemTurn ν) : Value ν := t.rets.getLastD .null

/-- The first value that the callback returned. -/
def ItemTurn.first (t : ItemTurn ν) : Value ν := t.rets.headD .null

lemma topResult_store {n : Nat} {v : Value ν} (h : (topResult n s).Comes N v s') : s'.store = s.store := by
  rw [topResult] at h
  split at h
  · rw [pop] at h
    split at h
    · obtain ⟨-, rfl⟩ := h
      rfl
    · exact h.elim
  · obtain ⟨-, rfl⟩ := h
    rfl

lemma topResult_last {rets σ : List (Value ν)} {v : Value ν} (stack : s.stack = rets.reverse ++ σ)
    (h : (topResult rets.length s).Comes N v s') : v = rets.getLastD .null := by
  rw [topResult] at h
  obtain rfl | ⟨before, w, rfl⟩ := List.eq_nil_or_concat rets
  · exact h.1.symm
  · rw [if_pos (by simp)] at h
    have top : s.stack = w :: (before.reverse ++ σ) := by simpa using stack
    rw [pop, top] at h
    simp [← h.1]

lemma pushItem_comes {v : Value ν} {u : Unit} (h : (pushItem p v s).Comes N u s') :
    ∃ c, s.store.toCdo v = some c ∧ s'.store = s.store.modifyObj p (·.arrayPush c) := by
  obtain ⟨c, s₁, converts, -, rfl⟩ := comes_bind.mp h
  rw [toCdo, bind_apply, get_apply, Outcome.bind_ok] at converts
  cases e : s.store.toCdo v with
  | none =>
    rw [e] at converts
    exact converts.elim
  | some c' =>
    rw [e] at converts
    obtain ⟨rfl, rfl⟩ := converts
    exact ⟨c', rfl, rfl⟩

lemma mapItem_comes {acc u : Unit} {arg : Value ν} {n : Nat} (h : (mapItem p acc arg n s).Comes N u s') :
    ∃ v s₁ c, (topResult n s).Comes N v s₁ ∧ s.store.toCdo v = some c ∧
      s'.store = s.store.modifyObj p (·.arrayPush c) := by
  obtain ⟨v, s₁, top, h⟩ := comes_bind.mp h
  have same := topResult_store top
  obtain ⟨c, converts, store⟩ := pushItem_comes h
  rw [same] at converts store
  exact ⟨v, s₁, c, top, converts, store⟩

lemma filterItem_comes {acc u : Unit} {arg : Value ν} {n : Nat} (h : (filterItem p acc arg n s).Comes N u s') :
    ∃ v s₁, (topResult n s).Comes N v s₁ ∧
      if v.isTruthy then ∃ c, s.store.toCdo arg = some c ∧ s'.store = s.store.modifyObj p (·.arrayPush c)
      else s'.store = s.store := by
  obtain ⟨v, s₁, top, h⟩ := comes_bind.mp h
  have same := topResult_store top
  refine ⟨v, s₁, top, ?_⟩
  rw [when] at h
  split
  · next yes =>
    rw [if_pos yes] at h
    obtain ⟨c, converts, store⟩ := pushItem_comes h
    rw [same] at converts store
    exact ⟨c, converts, store⟩
  · next no =>
    rw [if_neg no] at h
    rw [← h.2, same]

lemma Store.extends_arrayPush (w : Store ν) (p : Nat) (c : CdoValue ν) : w.Extends (w.modifyObj p (·.arrayPush c)) :=
  w.extends_modifyObj p fun o => by
    rw [CdoObject.arrayPush]
    split <;> exact ⟨rfl, rfl, rfl, rfl⟩

lemma Store.itemsAt_modifyObj (w : Store ν) {p q : Nat} (ne : p ≠ q) (f : CdoObject ν → CdoObject ν) :
    (w.modifyObj p f).itemsAt q = w.itemsAt q := by
  simp [Store.itemsAt, Store.modifyObj, ne]

lemma aside_mapItem (ne : p ≠ src) : Aside N src (mapItem p : Unit → Value ν → Nat → M ν Unit) where
  items h := by
    obtain ⟨v, s₁, c, -, -, store⟩ := mapItem_comes h
    rw [store, Store.itemsAt_modifyObj _ ne]
  grows h := by
    obtain ⟨v, s₁, c, -, -, store⟩ := mapItem_comes h
    rw [store]
    exact Store.extends_arrayPush _ _ _

lemma aside_filterItem (ne : p ≠ src) : Aside N src (filterItem p : Unit → Value ν → Nat → M ν Unit) where
  items h := by
    obtain ⟨v, s₁, -, kept⟩ := filterItem_comes h
    split at kept
    · obtain ⟨c, -, store⟩ := kept
      rw [store, Store.itemsAt_modifyObj _ ne]
    · rw [kept]
  grows h := by
    obtain ⟨v, s₁, -, kept⟩ := filterItem_comes h
    split at kept
    · obtain ⟨c, -, store⟩ := kept
      rw [store]
      exact Store.extends_arrayPush _ _ _
    · rw [kept]
      exact .refl _

lemma aside_reduceItem : Aside N src (reduceItem : Value ν → Value ν → Nat → M ν (Value ν)) where
  items h := by rw [topResult_store h]
  grows h := by
    rw [topResult_store h]
    exact .refl _

/-- The array behind `p`, which may be written, has the elements `cs`. -/
def Store.Fills (w : Store ν) (p : Nat) (cs : List (CdoValue ν)) : Prop :=
  ∃ o, w.objs[p]? = some o ∧ o.kind = .array ∧ o.readonly = false ∧ o.items = cs

lemma Store.Fills.push {w : Store ν} {cs : List (CdoValue ν)} (fills : w.Fills p cs) (c : CdoValue ν) :
    (w.modifyObj p (·.arrayPush c)).Fills p (cs ++ [c]) := by
  obtain ⟨o, there, array, writable, rfl⟩ := fills
  refine ⟨o.arrayPush c, by simp [Store.modifyObj, there], ?_⟩
  simp [CdoObject.arrayPush, writable, array]

/-- Until the callback comes back, the result is as it was. -/
lemma Turned.fills {args : β → Value ν → List (Value ν)} {absorb : β → Value ν → Nat → M ν β} {acc acc' : β}
    {called : VM ν} {cs : List (CdoValue ν)} (turned : Turned N call src (some p) args absorb acc s t called acc' s')
    (fills : s.store.Fills p cs) : called.store.Fills p cs := by
  obtain ⟨o, there, rest⟩ := fills
  have objs : (s.converted t.item).store.objs = s.store.objs := by
    rw [VM.converted]
    cases t.item <;> rfl
  refine ⟨o, ?_, rest⟩
  rw [turned.answered.hidden p rfl, objs, there]

/-- `array.map` gathers the values it takes from the turns. -/
lemma Turns.map_fills {is rest : List Nat} {ts : List (ItemTurn ν)} {args : Unit → Value ν → List (Value ν)}
    {u u' : Unit} {cs : List (CdoValue ν)} (ne : p ≠ src)
    (turns : Turns N call src (some p) args (mapItem p) is u s ts rest u' s')
    (fills : s.store.Fills p cs) :
    ∃ ds, s'.store.items (ts.map (·.last)) = some ds ∧ s'.store.Fills p (cs ++ ds) := by
  induction turns generalizing cs with
  | start => exact ⟨[], rfl, by simpa using fills⟩
  | turn turned rest ih =>
    have filled := turned.fills fills
    obtain ⟨v, s₁, c, top, converts, store⟩ := mapItem_comes turned.absorbed
    have value := topResult_last turned.answered.stack top
    have grown := filled.push c
    rw [← store] at grown
    obtain ⟨ds, gathered, all⟩ := ih grown
    have later := (aside_mapItem (N := N) ne).grows turned.absorbed
    have first := Store.toCdo_extends (later.trans (rest.grows (aside_mapItem ne))) converts
    refine ⟨c :: ds, ?_, by simpa using all⟩
    rw [value] at first
    rw [Store.items] at gathered ⊢
    rw [List.map_cons, List.mapM_cons, ItemTurn.last, first, gathered]
    rfl

/-- `array.filter` gathers the elements for which it takes something true. -/
lemma Turns.filter_fills {is rest : List Nat} {ts : List (ItemTurn ν)} {args : Unit → Value ν → List (Value ν)}
    {u u' : Unit} {cs : List (CdoValue ν)}
    (turns : Turns N call src (some p) args (filterItem p) is u s ts rest u' s') (fills : s.store.Fills p cs) :
    s'.store.Fills p (cs ++ (ts.filter (·.last.isTruthy)).map (·.item)) := by
  induction turns generalizing cs with
  | start => simpa using fills
  | @turn _ _ _ t _ _ _ _ _ _ _ turned rest ih =>
    have filled := turned.fills fills
    obtain ⟨v, s₁, top, kept⟩ := filterItem_comes turned.absorbed
    have value : v = t.last := topResult_last turned.answered.stack top
    rw [value] at kept
    cases yes : t.last.isTruthy with
    | true =>
      rw [if_pos yes] at kept
      obtain ⟨c, converts, store⟩ := kept
      rw [turned.arg, Store.toCdo_toCando t.item turned.answered.grows] at converts
      obtain rfl := Option.some.inj converts
      have grown := filled.push t.item
      rw [← store] at grown
      simpa [List.filter_cons, yes] using ih grown
    | false =>
      rw [if_neg (by simp [yes])] at kept
      rw [← kept] at filled
      simpa [List.filter_cons, yes] using ih filled

/-- `array.reduce` passes on the values it takes from the turns. -/
lemma Turns.reduce_folds {is rest : List Nat} {ts : List (ItemTurn ν)} {out : Option Nat} {acc acc' : Value ν}
    (turns : Turns N call src out (fun acc arg => [acc, arg]) reduceItem is acc s ts rest acc' s') :
    acc' = ts.foldl (fun _ t => t.last) acc ∧
      ∀ before t later, ts = before ++ t :: later → t.args = [before.foldl (fun _ t => t.last) acc, t.arg] := by
  induction turns with
  | start => exact ⟨rfl, fun before t later none => by simp at none⟩
  | turn turned rest ih =>
    have value := topResult_last turned.answered.stack turned.absorbed
    obtain ⟨total, each⟩ := ih
    rw [value] at total each
    refine ⟨total, fun before t' later split => ?_⟩
    cases before with
    | nil =>
      obtain ⟨rfl, -⟩ := List.cons.inj split
      exact turned.args
    | cons t₀ before =>
      obtain ⟨rfl, tail⟩ := List.cons.inj split
      exact each before t' later tail

end Results

/-! ### What `cando_vm_call_value` comes back with -/

section Calls

variable {N : VM ν → VMResult → VM ν → Prop} {s s' : VM ν} {out : Option Nat}

/-- A nested run that ends without an error leaves the stack as it was below the slots of the frame it was started
with. Objects stay, and the one at `out`, which no script knows of, is as it was. -/
def Returning (N : VM ν → VMResult → VM ν → Prop) (out : Option Nat) : Prop :=
  ∀ s r s' fr fs, N s r s' → s.frames = fr :: fs → s'.hasError = true ∨
    (s'.stack = (s.popTo fr.slots).stack ∧ s.store.Extends s'.store ∧ ∀ p ∈ out, s'.store.objs[p]? = s.store.objs[p]?)

lemma pushAll_comes {vs : List (Value ν)} {u : Unit} (h : (pushAll vs s).Comes N u s') : s' = s.pushed vs := by
  obtain e | e := pushAll_cases vs s
  · rw [e] at h
    exact h.2.symm
  · rw [e] at h
    exact h.elim

/-- A nested call comes back with an error or with the stack as it was. -/
lemma runCaptured_comes (returning : Returning N out) {closure pc : Nat} {args : List (Value ν)} {entered : Bool}
    (h : (runCaptured closure pc args s).Comes N entered s') : s'.hasError = true ∨ Answered out s s' [] := by
  rw [runCaptured, bind_apply, get_apply, Outcome.bind_ok, bind_apply, modify_apply, Outcome.bind_ok] at h
  obtain ⟨ok, s₁, enters, h⟩ := comes_bind.mp h
  obtain ⟨e, crash⟩ | ⟨-, dead, stuck⟩ | ⟨c, -, enter⟩ :=
    enterClosure_cases closure pc args { s with threadStopFrame := some s.frameCount, threadResults := [] }
  · rw [crash] at enters
    exact enters.elim
  · rw [stuck] at enters
    obtain ⟨rfl, rfl⟩ := enters
    obtain ⟨-, rfl⟩ := h
    exact .inr ⟨rfl, .refl _, fun _ _ => rfl⟩
  · rw [enter] at enters
    obtain ⟨rfl, rfl⟩ := enters
    obtain ⟨_, s₂, ⟨r, t, back, -, rfl⟩, h⟩ := comes_bind.mp h
    obtain ⟨-, rfl⟩ := h
    obtain failed | ⟨stack, grows, hidden⟩ := returning _ _ _ _ _ back rfl
    · exact .inl failed
    · refine .inr ⟨?_, grows, hidden⟩
      exact stack.trans (VM.popTo_window _ rfl)

/-- What a function returned lies on the stack. -/
lemma callsAnswered_callValue [F64 ν] (E : Env ν) (nc : NativeCall ν) (f : Nat) (returning : Returning N out) :
    CallsAnswered N (callValue E nc (.object f)) out := by
  intro args s n s' h
  rw [callValue, if_neg (by simp [isNativeFn])] at h
  obtain ⟨fnObj, s₁, found, h⟩ := comes_bind.mp h
  have same : s₁ = s := by
    rw [resolve, bind_apply, get_apply, Outcome.bind_ok] at found
    cases e : s.store.resolve f with
    | none =>
      rw [e] at found
      exact found.elim
    | some o =>
      rw [e] at found
      exact found.2.symm
  rw [same] at h
  split at h
  · obtain ⟨entered, s₂, called, h⟩ := comes_bind.mp h
    rw [bind_apply, get_apply, Outcome.bind_ok] at h
    obtain ⟨_, s₃, pushed, rfl, rfl⟩ := comes_bind.mp h
    rw [pushAll_comes pushed]
    have comes : s₂.hasError = true ∨ Answered out s s₂ [] := by
      rw [callClosureWithArgs] at called
      cases closure : fnObj.bytecode with
      | some closure' =>
        rw [closure] at called
        exact runCaptured_comes returning called
      | none =>
        rw [closure] at called
        obtain ⟨-, rfl⟩ := called
        exact .inr ⟨rfl, .refl _, fun _ _ => rfl⟩
    obtain failed | answered := comes
    · exact .inl failed
    · refine .inr ⟨s₂.threadResults, rfl, ?_, answered.grows, answered.hidden⟩
      rw [VM.pushed, answered.stack]
      rfl
  · obtain ⟨rfl, rfl⟩ := h
    exact .inr ⟨[], rfl, rfl, .refl _, fun _ _ => rfl⟩

end Calls

/-! ### The functions as a whole -/

section Whole

variable {N : VM ν → VMResult → VM ν → Prop} {s s' : VM ν} {a f src : Nat} {o : CdoObject ν} {more : List (Value ν)}

/-- No turn changes the array: they go over its elements. -/
lemma Turns.still {call : List (Value ν) → M ν Nat} {out : Option Nat} {args : β → Value ν → List (Value ν)}
    {absorb : β → Value ν → Nat → M ν β} {acc acc' : β} {is rest : List Nat} {ts : List (ItemTurn ν)}
    (aside : Aside N src absorb) (turns : Turns N call src out args absorb is acc s ts rest acc' s')
    (still : ∀ t ∈ ts, t.after = t.items) : ∀ t ∈ ts, t.items = s.store.itemsAt src := by
  induction turns with
  | start => exact fun _ no => absurd no List.not_mem_nil
  | @turn _ _ s t _ _ s₁ _ _ _ _ turned _ ih =>
    have same : s₁.store.itemsAt src = s.store.itemsAt src := by
      rw [aside.items turned.absorbed, ← turned.after, still t List.mem_cons_self, turned.items]
    intro t' mem
    obtain rfl | mem := List.mem_cons.mp mem
    · exact turned.items
    · rw [ih (fun t' mem => still t' (List.mem_cons_of_mem _ mem)) t' mem, same]

/-- With what the callback is called. -/
lemma Turns.called {call : List (Value ν) → M ν Nat} {out : Option Nat} {args : β → Value ν → List (Value ν)}
    {absorb : β → Value ν → Nat → M ν β} {acc acc' : β} {is rest : List Nat} {ts : List (ItemTurn ν)}
    (turns : Turns N call src out args absorb is acc s ts rest acc' s') : ∀ t ∈ ts, ∃ acc, t.args = args acc t.arg := by
  induction turns with
  | start => exact fun _ no => absurd no List.not_mem_nil
  | @turn _ acc _ _ _ _ _ _ _ _ _ turned _ ih =>
    intro t mem
    obtain rfl | mem := List.mem_cons.mp mem
    · exact ⟨acc, turned.args⟩
    · exact ih t mem

/-- What is claimed of a function that calls back for the elements `xs` of the array `src`: a turn reads an element if
the turn before has left the array long enough, and only then; the callback gets the element that was read; turns that
leave the array alone go over its elements. When the function ends, it has made its turns and the result is what
`result` says of them, if the callback's first values are its last ones; or the callback has thrown, and the state is
the one in which it came back. -/
structure CallsBack (turns : List (ItemTurn ν) → List Nat → VM ν → Prop) (threw : Nat → VM ν → VM ν → Prop)
    (ended : Int → VM ν → Prop) (asks : ItemTurn ν → Prop) (result : List (ItemTurn ν) → VM ν → Value ν → Prop)
    (src : Nat) (xs : List (CdoValue ν)) : Prop where
  next : ∀ ts i rest s, turns ts (i :: rest) s →
    ((∃ v s', readItem src i s = .ok v s') ↔ ∀ t ∈ ts.getLast?, t.Long xs.length)
  reads : ∀ ts rest s, turns ts rest s → ∀ t ∈ ts,
    t.items[t.index]? = some t.item ∧ s.store.toCdo t.arg = some t.item ∧ asks t
  still : ∀ ts s, turns ts [] s → (∀ t ∈ ts, t.after = t.items) → ts.map (·.item) = xs
  ends : ∀ n s', ended n s' → ∃ ts rest s, turns ts rest s ∧
    (rest = [] ∧ n = 1 ∧ (∃ v, s'.stack = v :: s.stack ∧ ((∀ t ∈ ts, t.first = t.last) → result ts s' v)) ∨
      n = -1 ∧ s'.hasError = true ∧ ∃ i ∈ rest.head?, threw i s s')

/-- What all three functions have in common. -/
lemma callsBack_of_loop {call : List (Value ν) → M ν Nat} {out : Option Nat} {args : β → Value ν → List (Value ν)}
    {absorb : β → Value ν → Nat → M ν β} {init : β} {xs : List (CdoValue ν)} {ended : Int → VM ν → Prop}
    {asks : ItemTurn ν → Prop} {result : List (ItemTurn ν) → VM ν → Value ν → Prop} (aside : Aside N src absorb)
    (items : s.store.itemsAt src = xs) (arguments : ∀ acc (t : ItemTurn ν), t.args = args acc t.arg → asks t)
    (ends : ∀ n s', ended n s' → ∃ ts rest acc s₁,
      Turns N call src out args absorb (List.range xs.length) init s ts rest acc s₁ ∧
      (rest = [] ∧ n = 1 ∧ (∃ v, s'.stack = v :: s₁.stack ∧ ((∀ t ∈ ts, t.first = t.last) → result ts s' v)) ∨
        n = -1 ∧ s'.hasError = true ∧ ∃ i ∈ rest.head?, Threw N call src args i acc s₁ s')) :
    CallsBack (fun ts rest s₁ => ∃ acc, Turns N call src out args absorb (List.range xs.length) init s ts rest acc s₁)
      (fun i s₁ s' => ∃ acc, Threw N call src args i acc s₁ s') ended asks result src xs where
  next ts i rest s₁ := by
    rintro ⟨acc, turns⟩
    subst items
    exact turns.next_iff aside
  reads ts rest s₁ := by
    rintro ⟨acc, turns⟩ t mem
    obtain ⟨acc, called⟩ := turns.called t mem
    exact ⟨turns.reads t mem, turns.elements aside t mem, arguments acc t called⟩
  still ts s₁ := by
    rintro ⟨acc, turns⟩ still
    have order := turns.indices
    rw [List.append_nil] at order
    have count : xs.length = ts.length := by simpa using congrArg List.length order
    apply List.ext_getElem?
    intro k
    rw [List.getElem?_map]
    cases there : ts[k]? with
    | none => exact (List.getElem?_eq_none (count ▸ List.getElem?_eq_none_iff.mp there)).symm
    | some t =>
      have mem := List.mem_of_getElem? there
      have inside := (List.getElem?_eq_some_iff.mp there).1
      have index : k = t.index := by
        have here : (List.range xs.length)[k]? = some t.index := by rw [order, List.getElem?_map, there]; rfl
        rw [List.getElem?_range (count ▸ inside)] at here
        exact Option.some.inj here
      have reads := turns.reads t mem
      rw [turns.still aside still t mem, items, ← index] at reads
      exact reads.symm
  ends n s' h := by
    obtain ⟨ts, rest, acc, s₁, turns, cases⟩ := ends n s' h
    refine ⟨ts, rest, s₁, ⟨acc, turns⟩, ?_⟩
    obtain done | ⟨minus, failed, i, left, threw⟩ := cases
    · exact .inl done
    · exact .inr ⟨minus, failed, i, left, acc, threw⟩

/-- The state with the new array. -/
def VM.withResult (s : VM ν) : VM ν := { s with store := (s.store.newObject { kind := .array }).2 }

lemma withArray_comes {body : Nat → Value ν → M ν Int} {n : Int} (found : s.store.pointer a = some src)
    (there : s.store.objs[src]? = some o) (array : o.kind = .array)
    (h : (withArray (.object a :: .object f :: more) body s).Comes N n s') : (body src (.object f) s).Comes N n s' := by
  have address : pointer a s = .ok src s := by rw [pointer, bind_apply, get_apply, Outcome.bind_ok, found]; rfl
  have resolved : resolve a s = .ok o s := resolve_apply (by rw [Store.resolve, found, Option.bind_some, there])
  rw [withArray, bind_apply, address, Outcome.bind_ok, bind_apply, resolved, Outcome.bind_ok, if_pos array] at h
  exact h

lemma pushResult_comes {r : Option (Value ν)} {n : Int} (h : (pushResult r s).Comes N n s') :
    (∃ v, r = some v ∧ n = 1 ∧ s'.stack = v :: s.stack ∧ s'.store = s.store) ∨ r = none ∧ n = -1 ∧ s' = s := by
  cases r with
  | none =>
    obtain ⟨rfl, rfl⟩ := h
    exact .inr ⟨rfl, rfl, rfl⟩
  | some v =>
    obtain ⟨_, s₁, pushed, rfl, rfl⟩ := comes_bind.mp h
    obtain e | e := push_cases v s
    · rw [e] at pushed
      obtain ⟨-, rfl⟩ := pushed
      exact .inl ⟨v, rfl, rfl, rfl, rfl⟩
    · rw [e] at pushed
      exact pushed.elim

/-- The items of an array, the first state with a result of its own. -/
lemma withResult_spec (there : s.store.objs[src]? = some o) :
    s.withResult.store.itemsAt src = o.items ∧ s.withResult.store.Fills s.store.objs.length [] ∧
      s.withResult.store.pointer s.store.handles.length = some s.store.objs.length := by
  have inside := (List.getElem?_eq_some_iff.mp there).1
  refine ⟨?_, ⟨{ kind := .array }, ?_, rfl, rfl, rfl⟩, ?_⟩
  · simp [VM.withResult, Store.newObject, Store.handleAlloc, Store.itemsAt, List.getElem?_append_left inside, there]
  · simp [VM.withResult, Store.newObject, Store.handleAlloc]
  · simp [VM.withResult, Store.newObject, Store.handleAlloc, Store.pointer]

lemma intoArray_comes [F64 ν] {E : Env ν} {nc : NativeCall ν} {absorb : Nat → Unit → Value ν → Nat → M ν Unit}
    {n : Int} (found : s.store.pointer a = some src) (there : s.store.objs[src]? = some o) (array : o.kind = .array)
    (returning : Returning N (some s.store.objs.length))
    (h : (intoArray E nc absorb (.object a :: .object f :: more) s).Comes N n s') :
    ∃ ts rest s₁, Turns N (callValue E nc (.object f)) src (some s.store.objs.length) (fun _ arg => [arg])
        (absorb s.store.objs.length) (List.range o.items.length) () s.withResult ts rest () s₁ ∧
      (rest = [] ∧ n = 1 ∧ s'.stack = .object s.store.handles.length :: s₁.stack ∧ s'.store = s₁.store ∨
        n = -1 ∧ s'.hasError = true ∧
          ∃ i ∈ rest.head?, Threw N (callValue E nc (.object f)) src (fun _ arg => [arg]) i () s₁ s') := by
  have loop := withArray_comes found there array h
  have made : newArray [] s = .ok (.object s.store.handles.length) s.withResult := rfl
  have counted : indices src s.withResult = .ok (List.range o.items.length) s.withResult := by
    rw [indices, bind_apply, get_apply, Outcome.bind_ok, (withResult_spec there).1]
    rfl
  rw [bind_apply, get_apply, Outcome.bind_ok, bind_apply, made, Outcome.bind_ok, bind_apply, counted,
    Outcome.bind_ok] at loop
  obtain ⟨r, s₂, looped, pushed⟩ := comes_bind.mp loop
  obtain ⟨ts, rest, _, s₁, turns, ends⟩ := eachItem_comes (callsAnswered_callValue E nc f returning) looped
  refine ⟨ts, rest, s₁, turns, ?_⟩
  obtain ⟨rfl, rfl, rfl⟩ | ⟨rfl, i, left, threw⟩ := ends
  · obtain ⟨v, e, rfl, stack, store⟩ | ⟨no, -⟩ := pushResult_comes pushed
    · cases e
      exact .inl ⟨rfl, rfl, stack, store⟩
    · cases no
  · obtain ⟨v, no, -⟩ | ⟨-, rfl, rfl⟩ := pushResult_comes pushed
    · cases no
    · exact .inr ⟨rfl, threw.failed, i, left, threw⟩

/-- The result array at the end. -/
lemma elements_result {cs : List (CdoValue ν)} (there : s.store.objs[src]? = some o)
    (grows : s.withResult.store.Extends s'.store) (fills : s'.store.Fills s.store.objs.length cs) :
    s'.store.elements (.object s.store.handles.length) = some cs := by
  obtain ⟨p, at_p, array, -, rfl⟩ := fills
  have address : s'.store.toCdo (.object s.store.handles.length) = some (.object s.store.objs.length) :=
    Store.toCdo_extends grows (by rw [Store.toCdo, (withResult_spec there).2.2]; rfl)
  obtain ⟨q, address, e⟩ := Option.map_eq_some_iff.mp address
  cases e
  rw [Store.elements, Store.resolve, address, Option.bind_some, at_p, Option.bind_some, if_pos array]

variable (N s a f src o more) in
/-- The turns of a run of the loop in `array.map` and `array.filter`. -/
abbrev IntoTurns [F64 ν] (E : Env ν) (nc : NativeCall ν) (absorb : Nat → Unit → Value ν → Nat → M ν Unit)
    (ts : List (ItemTurn ν)) (rest : List Nat) (s₁ : VM ν) : Prop :=
  ∃ acc, Turns N (callValue E nc (.object f)) src (some s.store.objs.length) (fun _ arg => [arg])
    (absorb s.store.objs.length) (List.range o.items.length) () s.withResult ts rest acc s₁

variable (N src f) in
/-- A turn of `array.map` or `array.filter` in which the callback throws. -/
abbrev IntoThrew [F64 ν] (E : Env ν) (nc : NativeCall ν) (i : Nat) (s₁ s' : VM ν) : Prop :=
  ∃ acc : Unit, Threw N (callValue E nc (.object f)) src (fun _ arg => [arg]) i acc s₁ s'

lemma arrMap_callsBack [F64 ν] {E : Env ν} {nc : NativeCall ν} (found : s.store.pointer a = some src)
    (there : s.store.objs[src]? = some o) (array : o.kind = .array)
    (returning : Returning N (some s.store.objs.length)) :
    CallsBack (IntoTurns N s f src o E nc mapItem) (IntoThrew N f src E nc)
      ((arrMap E nc (.object a :: .object f :: more) s).Comes N) (fun t => t.args = [t.arg])
      (fun ts s' v => ∃ cs, s'.store.elements v = some cs ∧ s'.store.items (ts.map (·.first)) = some cs) src
      o.items := by
  have ne : s.store.objs.length ≠ src := Nat.ne_of_gt (List.getElem?_eq_some_iff.mp there).1
  refine callsBack_of_loop (aside_mapItem ne) (withResult_spec there).1 (fun _ t called => called) fun n s' h => ?_
  obtain ⟨ts, rest, s₁, turns, ends⟩ := intoArray_comes found there array returning h
  refine ⟨ts, rest, (), s₁, turns, ?_⟩
  obtain ⟨done, one, stack, store⟩ | threw := ends
  · refine .inl ⟨done, one, _, stack, fun first => ?_⟩
    obtain ⟨cs, gathered, fills⟩ := turns.map_fills ne (withResult_spec there).2.1
    rw [List.nil_append] at fills
    have grows := turns.grows (aside_mapItem ne)
    rw [← store] at gathered fills grows
    refine ⟨cs, elements_result there grows fills, ?_⟩
    rw [List.map_congr_left first]
    exact gathered
  · exact .inr threw

lemma arrFilter_callsBack [F64 ν] {E : Env ν} {nc : NativeCall ν} (found : s.store.pointer a = some src)
    (there : s.store.objs[src]? = some o) (array : o.kind = .array)
    (returning : Returning N (some s.store.objs.length)) :
    CallsBack (IntoTurns N s f src o E nc filterItem) (IntoThrew N f src E nc)
      ((arrFilter E nc (.object a :: .object f :: more) s).Comes N) (fun t => t.args = [t.arg])
      (fun ts s' v => s'.store.elements v = some ((ts.filter (·.first.isTruthy)).map (·.item))) src o.items := by
  have ne : s.store.objs.length ≠ src := Nat.ne_of_gt (List.getElem?_eq_some_iff.mp there).1
  refine callsBack_of_loop (aside_filterItem ne) (withResult_spec there).1 (fun _ t called => called) fun n s' h => ?_
  obtain ⟨ts, rest, s₁, turns, ends⟩ := intoArray_comes found there array returning h
  refine ⟨ts, rest, (), s₁, turns, ?_⟩
  obtain ⟨done, one, stack, store⟩ | threw := ends
  · refine .inl ⟨done, one, _, stack, fun first => ?_⟩
    have fills := turns.filter_fills (withResult_spec there).2.1
    rw [List.nil_append] at fills
    have grows := turns.grows (aside_filterItem ne)
    rw [← store] at fills grows
    have same : ts.filter (·.first.isTruthy) = ts.filter (·.last.isTruthy) :=
      List.filter_congr fun t mem => congrArg Value.isTruthy (first t mem)
    rw [same]
    exact elements_result there grows fills
  · exact .inr threw

lemma foldl_first {ts : List (ItemTurn ν)} (first : ∀ t ∈ ts, t.first = t.last) (init : Value ν) :
    ts.foldl (fun _ t => t.first) init = ts.foldl (fun _ t => t.last) init := by
  induction ts generalizing init with
  | nil => rfl
  | cons t ts ih =>
    rw [List.foldl_cons, List.foldl_cons, first t List.mem_cons_self]
    exact ih (fun t mem => first t (List.mem_cons_of_mem _ mem)) _

lemma arrReduce_callsBack [F64 ν] {E : Env ν} {nc : NativeCall ν} {out : Option Nat}
    (found : s.store.pointer a = some src) (there : s.store.objs[src]? = some o) (array : o.kind = .array)
    (returning : Returning N out) :
    CallsBack
      (fun ts rest s₁ => ∃ acc, Turns N (callValue E nc (.object f)) src out (fun acc arg => [acc, arg]) reduceItem
        (List.range o.items.length) ((more[0]?).getD .null) s ts rest acc s₁)
      (fun i s₁ s' => ∃ acc, Threw N (callValue E nc (.object f)) src (fun acc arg => [acc, arg]) i acc s₁ s')
      ((arrReduce E nc (.object a :: .object f :: more) s).Comes N) (fun t => ∃ acc, t.args = [acc, t.arg])
      (fun ts _ v => v = ts.foldl (fun _ t => t.first) ((more[0]?).getD .null) ∧
        ∀ before t later, ts = before ++ t :: later →
          t.args = [before.foldl (fun _ t => t.first) ((more[0]?).getD .null), t.arg]) src o.items := by
  have items : s.store.itemsAt src = o.items := by rw [Store.itemsAt, there]; rfl
  refine callsBack_of_loop aside_reduceItem items (fun acc t called => ⟨acc, called⟩) fun n s' h => ?_
  have loop := withArray_comes found there array h
  have counted : indices src s = .ok (List.range o.items.length) s := by
    rw [indices, bind_apply, get_apply, Outcome.bind_ok, items]
    rfl
  rw [bind_apply, counted, Outcome.bind_ok] at loop
  obtain ⟨r, s₂, looped, pushed⟩ := comes_bind.mp loop
  obtain ⟨ts, rest, acc, s₁, turns, ends⟩ := eachItem_comes (callsAnswered_callValue E nc f returning) looped
  refine ⟨ts, rest, acc, s₁, turns, ?_⟩
  obtain ⟨rfl, rfl, rfl⟩ | ⟨rfl, i, left, threw⟩ := ends
  · obtain ⟨v, e, rfl, stack, store⟩ | ⟨no, -⟩ := pushResult_comes pushed
    · cases e
      refine .inl ⟨rfl, rfl, acc, stack, fun first => ?_⟩
      obtain ⟨total, each⟩ := turns.reduce_folds
      refine ⟨total.trans (foldl_first first _).symm, fun before t later split => ?_⟩
      have those : ∀ t ∈ before, t.first = t.last := fun t mem => first t (split ▸ List.mem_append_left _ mem)
      rw [each before t later split, foldl_first those]
      rfl
    · cases no
  · obtain ⟨v, no, -⟩ | ⟨-, rfl, rfl⟩ := pushResult_comes pushed
    · cases no
    · exact .inr ⟨rfl, threw.failed, i, left, threw⟩

end Whole

/-! ### A callback that returns its argument -/

/-- An array of two numbers and a function, behind the handles 0 and 1. -/
def twoNumbers : VM Int where
  store := { objs := [{ kind := .array, items := [.number 7, .number 8] }, { kind := .function, bytecode := some 0 }],
             handles := [0, 1] }
  chunks := [{}]

/-- A nested run returns the value on top of the stack and changes the store by `effect`. -/
def returnsTop (effect : Store Int → Store Int) (s : VM Int) : VMResult × VM Int :=
  match s.frames with
  | fr :: fs => (.halt, { s.popTo fr.slots with
    frames := fs
    threadResults := [s.stack.headD .null]
    store := effect s.store })
  | [] => (.halt, s)

lemma returning_returnsTop {effect : Store Int → Store Int} {out : Nat} (grows : ∀ w : Store Int, w.Extends (effect w))
    (hidden : ∀ w : Store Int, (effect w).objs[out]? = w.objs[out]?) :
    Returning (fun s r s' => (r, s') = returnsTop effect s) (some out) := by
  intro s r s' fr fs back frames
  rw [returnsTop, frames] at back
  obtain ⟨rfl, rfl⟩ := Prod.mk.inj back
  exact .inr ⟨rfl, grows _, fun p mem => Option.mem_some.mp mem ▸ hidden _⟩

/-- The array behind 0 loses its last element. -/
def popFirst (w : Store Int) : Store Int := w.modifyObj 0 fun o => { o with items := o.items.dropLast }

end Cando
