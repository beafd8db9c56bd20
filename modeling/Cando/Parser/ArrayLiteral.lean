import Cando.Parser.Catch
import Mathlib.Algebra.Ring.Int.Defs
import Mathlib.Algebra.Ring.Nat

/-!
# Array literals

`parse_array_literal` (`parser/parser.c`) with `OP_UNPACK`, `OP_ARRAY_SPREAD` and `OP_NEW_ARRAY`. The elements leave
their values on the stack, and `OP_NEW_ARRAY` takes as many as the parser has counted and `array_extra` adds to that.
The count goes by what the parser last knew of an element, which may stem from inside of it, and `array_extra` belongs
to the whole machine: literals inside the elements, in the functions they call and in code that an error has cut short
use it too.

Of an element only its code is kept here, with what `parse_expression` leaves of it in the parser.
-/

namespace Cando

open Program Machine

/-- What an element is in the source: an expression or a call, an expression behind a mask, or `...e`. -/
inductive ElementKind where
  | single | masked | spread
  deriving DecidableEq, Repr

/-- An element of an array literal, compiled. `parse_expression` leaves `last_multi_push`, and `last_expr_was_unpack`
may be left over from something inside. -/
structure Element where
  kind : ElementKind := .single
  code : List UInt8
  multiPush : Nat := 1
  leftUnpack : Bool := false
  deriving DecidableEq, Repr

namespace Element

/-- `last_expr_was_unpack` behind the element: `parse_unpack` sets it last. -/
def unpack (el : Element) : Bool := el.kind = .spread || el.leftUnpack

/-- How many values the parser counts. -/
def counted (el : Element) : Nat := if el.unpack then 1 else el.multiPush % 65536

/-- The code of the element with what is emitted behind it. -/
def segment (el : Element) : List UInt8 :=
  el.code ++ if el.unpack then [Opcode.unpack.toByte, Opcode.arraySpread.toByte] else []

end Element

/-- What an array literal changes in a `CandoParser`. -/
structure ArrayParser where
  code : List UInt8 := []
  lastMultiPush : Nat := 1
  lastExprWasUnpack : Bool := false
  error : Option Str := none
  deriving DecidableEq, Repr

namespace ArrayParser

/-- `error`: only the first one counts. -/
def fail (msg : Str) (p : ArrayParser) : ArrayParser := { p with error := p.error <|> some msg }

/-- `emit_op` and `emit_op_a`. -/
def emit (i : Instr) (p : ArrayParser) : ArrayParser := { p with code := p.code ++ i.encode }

/-- `parse_expression` on an element. -/
def parseExpression (el : Element) (p : ArrayParser) : ArrayParser :=
  { p with code := p.code ++ el.code, lastMultiPush := el.multiPush, lastExprWasUnpack := el.unpack }

/-- The elements one after another, with their count; an error ends the loop. -/
def parseElements : List Element → ArrayParser × Nat → ArrayParser × Nat
  | [], st => st
  | el :: els, (p, count) =>
    let p := p.parseExpression el
    if p.lastExprWasUnpack then
      let p := (p.emit { op := .unpack }).emit { op := .arraySpread }
      if count = 65535 then (p.fail (bytes "too many array elements"), count) else parseElements els (p, count + 1)
    else
      let add := p.lastMultiPush % 65536
      if count + add > 65535 then (p.fail (bytes "too many array elements"), count)
      else parseElements els (p, count + add)

/-- `parse_array_literal`. -/
def parseArrayLiteral (els : List Element) (p : ArrayParser) : ArrayParser :=
  let (p, count) := parseElements els (p, 0)
  p.emit { op := .newArray, a := count }

variable {els : List Element} {el : Element} {p : ArrayParser} {n : Nat}

/-- The parser behind an element and what is emitted for it. -/
def behind (el : Element) (p : ArrayParser) : ArrayParser :=
  { p with code := p.code ++ el.segment, lastMultiPush := el.multiPush, lastExprWasUnpack := el.unpack }

/-- One element. -/
lemma parseElements_cons (fits : n < 65536) : parseElements (el :: els) (p, n) =
    if n + el.counted < 65536 then parseElements els (p.behind el, n + el.counted)
    else ((p.behind el).fail (bytes "too many array elements"), n) := by
  cases flag : el.unpack with
  | true =>
    have segment : el.segment = el.code ++ ((Instr.mk .unpack 0 0).encode ++ (Instr.mk .arraySpread 0 0).encode) := by
      rw [Element.segment, flag]
      rfl
    have one : el.counted = 1 := by rw [Element.counted, flag, if_pos rfl]
    have full : n = 65535 ↔ ¬ n + 1 < 65536 := by omega
    simp only [parseElements, parseExpression, flag, if_true, emit, behind, segment, one, full, ite_not,
      List.append_assoc]
  | false =>
    have segment : el.segment = el.code := by
      rw [Element.segment, flag]
      exact List.append_nil _
    have add : el.counted = el.multiPush % 65536 := by rw [Element.counted, flag, if_neg Bool.false_ne_true]
    have full : n + el.multiPush % 65536 > 65535 ↔ ¬ n + el.multiPush % 65536 < 65536 := by omega
    simp only [parseElements, parseExpression, flag, Bool.false_eq_true, if_false, behind, segment, add, full, ite_not]

lemma fail_error (msg : Str) (p : ArrayParser) : (p.fail msg).error ≠ none := by
  rw [fail]
  cases e : p.error with
  | none => exact Option.some_ne_none _
  | some _ => exact Option.some_ne_none _

/-- What is emitted for elements that are not too many. -/
lemma parseElements_accepted (ok : (parseElements els (p, n)).1.error = none) (fits : n < 65536) :
    (parseElements els (p, n)).1.code = p.code ++ els.flatMap Element.segment ∧
      (parseElements els (p, n)).2 = n + (els.map Element.counted).sum ∧
      n + (els.map Element.counted).sum < 65536 := by
  induction els generalizing p n with
  | nil => exact ⟨(List.append_nil _).symm, rfl, fits⟩
  | cons el els ih =>
    rw [parseElements_cons fits] at ok ⊢
    by_cases few : n + el.counted < 65536
    · rw [if_pos few] at ok ⊢
      obtain ⟨code, count, fits⟩ := ih ok few
      rw [List.map_cons, List.sum_cons, ← Nat.add_assoc, List.flatMap_cons, ← List.append_assoc]
      exact ⟨code, count, fits⟩
    · rw [if_neg few] at ok
      exact absurd ok (fail_error _ _)

/-- What is emitted for a literal that is accepted. -/
lemma parseArrayLiteral_accepted (ok : (p.parseArrayLiteral els).error = none) :
    (p.parseArrayLiteral els).code = p.code ++ els.flatMap Element.segment ++
        (Instr.mk .newArray (els.map Element.counted).sum 0).encode ∧ (els.map Element.counted).sum < 65536 := by
  obtain ⟨code, count, few⟩ := parseElements_accepted (n := 0) ok (by decide)
  rw [Nat.zero_add] at count few
  refine ⟨?_, few⟩
  rw [parseArrayLiteral]
  simp only [emit, code, count]

end ArrayParser

/-! ### Spreading a value -/

section Spread

variable {ν : Type} {w w' : Store ν} {v : Value ν} {vs : List (Value ν)} {vm : VM ν}

/-- What values are as the items of an array. -/
def Store.items (w : Store ν) (vs : List (Value ν)) : Option (List (CdoValue ν)) := vs.mapM w.toCdo

/-- The elements of a value that is an array. -/
def Store.elements (w : Store ν) : Value ν → Option (List (CdoValue ν))
  | .object h => (w.resolve h).bind fun o => if o.kind = .array then some o.items else none
  | _ => none

/-- A handle refers to an object. -/
def Store.Live (w : Store ν) (v : Value ν) : Prop := ∀ h, v = .object h → w.resolve h ≠ none

/-- As how many values a value is spread. -/
def Store.spreadCount (w : Store ν) (v : Value ν) : Nat := ((w.elements v).map List.length).getD 1

/-- The items that a value is spread as, when it is spread in `w` and they are taken up in `w'`. -/
def Store.spreadItems (w w' : Store ν) (v : Value ν) : Option (List (CdoValue ν)) := w.elements v <|> w'.items [v]

lemma Store.toCdo_extends {c : CdoValue ν} (grows : w.Extends w') (h : w.toCdo v = some c) : w'.toCdo v = some c := by
  cases v with
  | object i =>
    obtain ⟨p, there, rfl⟩ := Option.map_eq_some_iff.mp h
    obtain ⟨more, e⟩ := grows.handles
    have inside : i < w.handles.length := (List.getElem?_eq_some_iff.mp there).1
    refine Option.map_eq_some_iff.mpr ⟨p, ?_, rfl⟩
    rw [Store.pointer, ← e, List.getElem?_append_left inside]
    exact there
  | _ => exact h

/-- A value that has crossed the bridge crosses it back. -/
lemma Store.toCdo_toCando (c : CdoValue ν) (grows : (w.toCando c).2.Extends w') :
    w'.toCdo (w.toCando c).1 = some c := by
  refine Store.toCdo_extends grows ?_
  cases c with
  | object p =>
    have last : (w.handles ++ [p])[w.handles.length]? = some p := List.getElem?_concat_length
    exact Option.map_eq_some_iff.mpr ⟨p, last, rfl⟩
  | _ => rfl

lemma Store.items_append (w : Store ν) (us vs : List (Value ν)) :
    w.items (us ++ vs) = (w.items us).bind fun cs => (w.items vs).map (cs ++ ·) := by
  rw [items, items, items, List.mapM_append]
  cases us.mapM w.toCdo with
  | none => rfl
  | some cs => cases vs.mapM w.toCdo <;> rfl

lemma arrayValues_spec (items : List (CdoValue ν)) (vm : VM ν) :
    ∃ vs w', arrayValues items vm = .ok vs { vm with store := w' } ∧ vm.store.Extends w' ∧ vs.length = items.length ∧
      ∀ w'', w'.Extends w'' → w''.items vs = some items := by
  induction items generalizing vm with
  | nil => exact ⟨[], vm.store, rfl, .refl _, rfl, fun _ _ => rfl⟩
  | cons c items ih =>
    have first : toCando c vm = .ok (vm.store.toCando c).1 { vm with store := (vm.store.toCando c).2 } := rfl
    obtain ⟨vs, w', run, grows, length, back⟩ := ih { vm with store := (vm.store.toCando c).2 }
    refine ⟨(vm.store.toCando c).1 :: vs, w', ?_, (vm.store.extends_toCando c).trans grows, congrArg _ length,
      fun w'' grows' => ?_⟩
    · rw [arrayValues] at run ⊢
      rw [List.mapM_cons, bind_apply, first, Outcome.bind_ok, bind_apply, run, Outcome.bind_ok, pure_apply]
    · rw [Store.items, List.mapM_cons, Store.toCdo_toCando c (grows.trans grows')]
      have rest := back w'' grows'
      rw [Store.items] at rest
      rw [rest]
      rfl

/-- Unpacking a live value. -/
lemma unpacked_spec (live : vm.store.Live v) :
    ∃ vs w', unpacked v vm = .ok vs { vm with store := w' } ∧ vm.store.Extends w' ∧
      vs.length = vm.store.spreadCount v ∧ ∀ w'', w'.Extends w'' → w''.items vs = vm.store.spreadItems w'' v := by
  have itself (none : vm.store.elements v = none) (run : unpacked v vm = .ok [v] vm) :
      ∃ vs w', unpacked v vm = .ok vs { vm with store := w' } ∧ vm.store.Extends w' ∧
        vs.length = vm.store.spreadCount v ∧ ∀ w'', w'.Extends w'' → w''.items vs = vm.store.spreadItems w'' v := by
    refine ⟨[v], vm.store, run, .refl _, ?_, fun w'' _ => ?_⟩
    · rw [Store.spreadCount, none]
      rfl
    · rw [Store.spreadItems, none]
      rfl
  cases v with
  | object h =>
    obtain ⟨o, there⟩ := Option.ne_none_iff_exists'.mp (live h rfl)
    have resolved : resolve h vm = .ok o vm := by
      rw [resolve, bind_apply, get_apply, Outcome.bind_ok, there, orCrash_some, pure_apply]
    by_cases array : o.kind = .array
    · have elements : vm.store.elements (.object h) = some o.items := by
        rw [Store.elements, there, Option.bind_some, if_pos array]
      obtain ⟨vs, w', run, grows, length, back⟩ := arrayValues_spec o.items vm
      refine ⟨vs, w', ?_, grows, ?_, fun w'' grows' => ?_⟩
      · rw [unpacked, bind_apply, resolved, Outcome.bind_ok, if_pos array, run]
      · rw [Store.spreadCount, elements, length]
        rfl
      · rw [back w'' grows', Store.spreadItems, elements]
        rfl
    · apply itself
      · rw [Store.elements, there, Option.bind_some, if_neg array]
      · rw [unpacked, bind_apply, resolved, Outcome.bind_ok, if_neg array, pure_apply]
  | _ => exact itself rfl rfl

/-- Unpacking a dead handle fails an assertion. -/
lemma unpacked_dead (dead : ¬ vm.store.Live v) : unpacked v vm = .crash .assertion := by
  cases v with
  | object h =>
    have none : vm.store.resolve h = none := by
      refine Classical.byContradiction fun there => dead fun h' same => ?_
      cases same
      exact there
    rw [unpacked, bind_apply, resolve, bind_apply, get_apply, Outcome.bind_ok, none, orCrash_none, crash_apply,
      Outcome.bind_crash]
  | _ => exact absurd (by rintro h ⟨⟩) dead

/-- The values that a spread puts on the stack in place of the value on top have room there. -/
def VM.Spreads (vm : VM ν) (v : Value ν) : Prop :=
  vm.store.Live v ∧ vm.height + vm.store.spreadCount v ≤ stackMax + 1

/-- What `OP_UNPACK` and `OP_ARRAY_SPREAD` do to a state with the value on top. -/
structure VM.SpreadTo (vm vm' : VM ν) (v : Value ν) (τ vs : List (Value ν)) : Prop where
  frames : vm'.frames = vm.frames
  chunks : vm'.chunks = vm.chunks
  stack : vm'.stack = vs.reverse ++ τ
  grows : vm.store.Extends vm'.store
  count : vs.length = vm.store.spreadCount v
  retCount : vm'.lastRetCount = vs.length
  extra : vm'.arrayExtra = vm.arrayExtra
  items : ∀ w, vm'.store.Extends w → w.items vs = vm.store.spreadItems w v

lemma opUnpack_spec {τ : List (Value ν)} (stack : vm.stack = v :: τ) (fits : vm.Spreads v) :
    ∃ vs vm', opUnpack vm = .ok () vm' ∧ vm.SpreadTo vm' v τ vs := by
  obtain ⟨live, room⟩ := fits
  obtain ⟨s, e⟩ : ∃ s, ({ vm with stack := τ, dead := v :: vm.dead } : VM ν) = s := ⟨_, rfl⟩
  have popped : pop vm = .ok v s := by rw [pop, stack, ← e]
  have store : s.store = vm.store := by rw [← e]
  have live : s.store.Live v := by rwa [store]
  obtain ⟨vs, w', run, grows, count, items⟩ := unpacked_spec live
  rw [store] at grows count items
  have height : vm.height = s.height + 1 := by rw [VM.height, stack, ← e, List.length_cons, VM.height]
  have fits : ({ s with store := w' } : VM ν).height + vs.length ≤ stackMax := by
    show s.height + vs.length ≤ stackMax
    omega
  refine ⟨vs, { ({ s with store := w' } : VM ν).pushed vs with lastRetCount := vs.length }, ?_, ?_⟩
  · rw [opUnpack, bind_apply, popped, Outcome.bind_ok, bind_apply, run, Outcome.bind_ok, bind_apply, pushAll_apply fits,
      Outcome.bind_ok, modify_apply]
  · subst e
    exact ⟨rfl, rfl, rfl, grows, count, rfl, rfl, items⟩

/-- Without a live handle, or without room, an assertion fails. -/
lemma opUnpack_fails {τ : List (Value ν)} (stack : vm.stack = v :: τ) (bounded : vm.height ≤ stackMax)
    (unfit : ¬ vm.Spreads v) : opUnpack vm = .crash .assertion := by
  obtain ⟨s, e⟩ : ∃ s, ({ vm with stack := τ, dead := v :: vm.dead } : VM ν) = s := ⟨_, rfl⟩
  have popped : pop vm = .ok v s := by rw [pop, stack, ← e]
  have store : s.store = vm.store := by rw [← e]
  have height : vm.height = s.height + 1 := by rw [VM.height, stack, ← e, List.length_cons, VM.height]
  rw [opUnpack, bind_apply, popped, Outcome.bind_ok, bind_apply]
  by_cases live : vm.store.Live v
  · have live' : s.store.Live v := by rwa [store]
    obtain ⟨vs, w', run, -, count, -⟩ := unpacked_spec live'
    rw [store] at count
    have full : stackMax < ({ s with store := w' } : VM ν).height + vs.length := by
      refine Nat.lt_of_not_le fun room => unfit ⟨live, ?_⟩
      have room : s.height + vs.length ≤ stackMax := room
      omega
    have kept : ({ s with store := w' } : VM ν).height ≤ stackMax := by
      show s.height ≤ stackMax
      omega
    rw [run, Outcome.bind_ok, bind_apply, pushAll_full kept full, Outcome.bind_crash]
  · rw [unpacked_dead (by rwa [store]), Outcome.bind_crash]

end Spread

/-! ### Making the array -/

section Make

variable {ν : Type} {vm : VM ν} {vs base : List (Value ν)}

lemma mapM_toCdo (vs : List (Value ν)) (vm : VM ν) :
    vs.mapM toCdo vm = match vm.store.items vs with
      | some cs => .ok cs vm
      | none => .crash .assertion := by
  induction vs with
  | nil => rfl
  | cons v vs ih =>
    have first : toCdo v vm = orCrash .assertion (vm.store.toCdo v) vm := rfl
    rw [List.mapM_cons, bind_apply, first, Store.items, List.mapM_cons]
    cases vm.store.toCdo v with
    | none => rfl
    | some c =>
      rw [orCrash_some, pure_apply, Outcome.bind_ok, bind_apply, ih, Store.items]
      cases vs.mapM vm.store.toCdo with
      | none => rfl
      | some cs => rfl

/-- How many values `OP_NEW_ARRAY` takes. -/
def VM.arrayCount (vm : VM ν) (count : Nat) : Nat := ((count : Int) + vm.arrayExtra).toNat

lemma Store.resolve_newObject (w : Store ν) (o : CdoObject ν) :
    ∃ h, (w.newObject o).1 = .object h ∧ (w.newObject o).2.resolve h = some o := by
  refine ⟨w.handles.length, rfl, ?_⟩
  have handle : (w.handles ++ [w.objs.length])[w.handles.length]? = some w.objs.length := List.getElem?_concat_length
  have object : (w.objs ++ [o])[w.objs.length]? = some o := List.getElem?_concat_length
  show ((w.handles ++ [w.objs.length])[w.handles.length]?).bind (fun p => (w.objs ++ [o])[p]?) = _
  rw [handle, Option.bind_some, object]

/-- What `OP_NEW_ARRAY` does with the values that it takes. -/
lemma opNewArray_apply {count : Nat} (stack : vm.stack = vs.reverse ++ base)
    (counts : vm.arrayCount count = vs.length) :
    opNewArray count vm = match vm.store.items vs with
      | none => .crash .assertion
      | some cs => push (vm.store.newObject { kind := .array, items := cs }).1 { vm with
          arrayExtra := 0
          stack := base
          dead := vs ++ vm.dead
          store := (vm.store.newObject { kind := .array, items := cs }).2 } := by
  have taken : take vs.length { vm with arrayExtra := 0 } =
      .ok vs { vm with arrayExtra := 0, stack := base, dead := vs ++ vm.dead } := take_stack vs stack
  have total : ((count : Int) + vm.arrayExtra).toNat = vs.length := counts
  rw [opNewArray, bind_apply, get_apply, Outcome.bind_ok, total, bind_apply, modify_apply, Outcome.bind_ok, bind_apply,
    taken, Outcome.bind_ok, bind_apply, mapM_toCdo]
  cases vm.store.items vs with
  | none => rfl
  | some cs => rfl

/-- `OP_NEW_ARRAY` replaces just these values by an array exactly if it counts them, they are what the array can hold,
and there is room for the array. -/
lemma opNewArray_iff (count : Nat) (cs : List (CdoValue ν)) (stack : vm.stack = vs.reverse ++ base) :
    (∃ vm' h, opNewArray count vm = .ok () vm' ∧ vm'.stack = .object h :: base ∧
        vm'.store.resolve h = some { kind := .array, items := cs } ∧ vm'.frames = vm.frames) ↔
      vm.arrayCount count = vs.length ∧ vm.store.items vs = some cs ∧ base.length < stackMax := by
  have height : vm.height = vs.length + base.length := by
    rw [VM.height, stack, List.length_append, List.length_reverse]
  constructor
  · rintro ⟨vm', h, made, stack', resolved, -⟩
    obtain ⟨us, τ, cut, counts⟩ : ∃ us τ : List (Value ν), vm.stack = us.reverse ++ τ ∧
        vm.arrayCount count = us.length := by
      obtain few | many := Nat.lt_or_ge vm.height (vm.arrayCount count)
      · have total : ((count : Int) + vm.arrayExtra).toNat = vm.arrayCount count := rfl
        have beyond : ¬ vm.arrayCount count ≤ VM.height { vm with arrayExtra := 0 } := Nat.not_le.mpr few
        rw [opNewArray, bind_apply, get_apply, Outcome.bind_ok, total, bind_apply, modify_apply, Outcome.bind_ok,
          bind_apply, take, if_neg beyond] at made
        cases made
      · refine ⟨(vm.stack.take (vm.arrayCount count)).reverse, vm.stack.drop (vm.arrayCount count), ?_, ?_⟩
        · rw [List.reverse_reverse, List.take_append_drop]
        · rw [List.length_reverse, List.length_take]
          exact (Nat.min_eq_left many).symm
    rw [opNewArray_apply cut counts] at made
    cases items : vm.store.items us with
    | none =>
      rw [items] at made
      cases made
    | some cs' =>
      obtain ⟨h', made', there⟩ := vm.store.resolve_newObject { kind := .array, items := cs' }
      simp only [items, push] at made
      split at made
      · cases made
        obtain ⟨top, rfl⟩ := List.cons.inj stack'
        rw [made'] at top
        cases top
        rw [cut] at stack
        obtain ⟨same, -⟩ := List.append_inj' stack rfl
        obtain rfl := List.reverse_inj.mp same
        have same := Option.some.inj (there.symm.trans resolved)
        have items' : cs' = cs := congrArg CdoObject.items same
        exact ⟨counts, items.trans (congrArg some items'), ‹_›⟩
      · cases made
  · rintro ⟨counts, items, room⟩
    obtain ⟨h, made, there⟩ := vm.store.resolve_newObject { kind := .array, items := cs }
    rw [opNewArray_apply stack counts, items]
    refine ⟨_, h, push_room room, ?_, there, rfl⟩
    rw [VM.pushed, made]
    rfl

end Make

/-! ### A literal at work -/

/-- An array literal in its place: the chunk it was compiled into, the frame and the activation that run it, and the
values that lie below it. -/
structure ArraySite (ν : Type) where
  elements : List Element
  before : ArrayParser
  accepted : (before.parseArrayLiteral elements).error = none
  chunk : Chunk ν
  placed : (before.parseArrayLiteral elements).code <+: chunk.code
  frame : Frame
  outer : List Frame
  base : List (Value ν)
  entry : VM ν
  waiting : List (Suspended (VM ν) VMResult Crash)

/-- The expression of an element has been evaluated: the values that it has left, the state behind it, and what it has
added to `array_extra`. -/
structure Evaluation (ν : Type) where
  element : Element
  left : List (Value ν)
  state : VM ν
  gained : Int

section Literal

variable {ν : Type} [F64 ν]

namespace Evaluation

variable (e : Evaluation ν)

/-- What is spread has room on the stack. -/
def Fits : Prop := e.element.unpack → ∀ v ∈ e.left.getLast?, e.state.Spreads v

/-- As how many values the one on top is spread. -/
def spreadCount : Nat := (e.left.getLast?.map e.state.store.spreadCount).getD 0

/-- How many values of the element come to lie on the stack. -/
def count : Nat := if e.element.unpack then e.left.length - 1 + e.spreadCount else e.left.length

/-- What the element adds to `array_extra`, `OP_ARRAY_SPREAD` included. -/
def added : Int := if e.element.unpack then e.gained + (e.spreadCount - 1) else e.gained

/-- The values that the expression leaves without the parser's or the counter's knowing. -/
def surplus : Int := e.left.length - e.element.counted - e.gained

/-- The items that the value on top is spread as, when they are taken up in `w`. -/
def spreadItems (w : Store ν) : Option (List (CdoValue ν)) :=
  match e.left.getLast? with
  | some v => e.state.store.spreadItems w v
  | none => some []

/-- The items that come to lie on the stack. -/
def given (w : Store ν) : Option (List (CdoValue ν)) :=
  if e.element.unpack then (w.items e.left.dropLast).bind fun cs => (e.spreadItems w).map (cs ++ ·) else w.items e.left

/-- The items that the element stands for: one value of an expression or a call, what a mask has passed, the elements of
a spread array. -/
def own (w : Store ν) : Option (List (CdoValue ν)) :=
  match e.element.kind with
  | .single => w.items (e.left.take 1)
  | .masked => w.items e.left
  | .spread => e.spreadItems w

end Evaluation

/-- Items of several elements, in their order. -/
def gather (f : Evaluation ν → Option (List (CdoValue ν))) (es : List (Evaluation ν)) : Option (List (CdoValue ν)) :=
  (es.mapM f).map List.flatten

namespace ArraySite

variable (E : Env ν) (A : ArraySite ν)

/-- Where the literal begins. -/
def start : Nat := A.before.code.length

/-- Where `OP_NEW_ARRAY` stands. -/
def makeAt : Nat := A.start + (A.elements.flatMap Element.segment).length

/-- The frame of the literal with its `ip` at an offset. -/
def top (off : Nat) : Frame := { A.frame with ip := ⟨A.frame.ip.chunk, off⟩ }

/-- Control is at an offset of the literal's frame. -/
structure At (off : Nat) (vm : VM ν) : Prop where
  frames : vm.frames = A.top off :: A.outer
  chunk : vm.chunks[A.frame.ip.chunk]? = some A.chunk
  bounded : vm.height ≤ stackMax

/-- The literal is about to be evaluated. -/
structure Begins (vm : VM ν) : Prop where
  there : A.At A.start vm
  stack : vm.stack = A.base

/-- The expression of an element, which begins at this offset, runs to its end and leaves its values on top of what lay
there. The operand of a spread leaves one at least. -/
structure Ran (off : Nat) (vm : VM ν) (e : Evaluation ν) : Prop where
  run : ∃ n, (interp E).steps n (.running A.entry vm A.waiting) = .running A.entry e.state A.waiting
  there : A.At (off + e.element.code.length) e.state
  stack : e.state.stack = e.left.reverse ++ vm.stack
  gained : e.state.arrayExtra = vm.arrayExtra + e.gained
  nonempty : e.element.unpack → e.left ≠ []

/-- The elements from this offset on are evaluated one after another, with `OP_UNPACK` and `OP_ARRAY_SPREAD` behind
those that the parser takes for a spread. There is no state behind them if these fail. -/
inductive Evaluates : List Element → Nat → VM ν → List (Evaluation ν) → Option (VM ν) → Prop
  | done {off vm} : Evaluates [] off vm [] (some vm)
  | keeps {els off vm e es r} (plain : e.element.unpack = false) (ran : A.Ran E off vm e)
      (rest : Evaluates els (off + e.element.code.length) e.state es r) :
      Evaluates (e.element :: els) off vm (e :: es) r
  | spreads {els off vm vm' e es r} (flag : e.element.unpack = true) (ran : A.Ran E off vm e)
      (goes : (interp E).steps 2 (.running A.entry e.state A.waiting) = .running A.entry vm' A.waiting)
      (rest : Evaluates els (off + e.element.code.length + 2) vm' es r) :
      Evaluates (e.element :: els) off vm (e :: es) r
  | fails {els off vm e} (flag : e.element.unpack = true) (ran : A.Ran E off vm e)
      (stops : ∀ vm', (interp E).steps 2 (.running A.entry e.state A.waiting) ≠ .running A.entry vm' A.waiting) :
      Evaluates (e.element :: els) off vm [e] none

/-- The literal leaves an array of its elements' own items, in their order, on top of what lay below it. -/
def Concatenates (es : List (Evaluation ν)) (r : Option (VM ν)) : Prop :=
  ∃ vm vm' h items, r = some vm ∧ step E vm = .ok () vm' ∧ vm'.frames = A.top (A.makeAt + 3) :: A.outer ∧
    vm'.stack = .object h :: A.base ∧ vm'.store.resolve h = some { kind := .array, items } ∧
    gather (·.own vm.store) es = some items

/-- What the literal goes by is right: `array_extra` at its beginning makes up for what its expressions leave
unaccounted for, or else is too small where nothing is left; what they leave are their own items; and there is room. -/
structure Accounts (vm₀ : VM ν) (es : List (Evaluation ν)) (r : Option (VM ν)) : Prop where
  fits : ∀ e ∈ es, e.Fits
  counter : vm₀.arrayExtra = (es.map (·.surplus)).sum ∨
    (es.map (·.count)).sum = 0 ∧ vm₀.arrayExtra ≤ (es.map (·.surplus)).sum
  items : ∀ vm ∈ r, ∃ items, gather (·.given vm.store) es = some items ∧ gather (·.own vm.store) es = some items
  room : A.base.length < stackMax

end ArraySite

variable {E : Env ν} {A : ArraySite ν} {vm : VM ν} {off : Nat} {i : Instr} {v : Value ν} {τ : List (Value ν)}

omit [F64 ν] in
lemma ArraySite.At.fetch (h : A.At off vm) (fits : i.Fits) (placed : i.encode <+: A.chunk.code.drop off) :
    fetch vm = .ok i { vm with frames := A.top (off + i.op.size) :: A.outer } :=
  fetch_apply h.frames h.chunk (decode_placed fits placed)

/-- `OP_UNPACK` and `OP_ARRAY_SPREAD` on a value that can be spread. -/
lemma ArraySite.At.spreads (h : A.At off vm)
    (placed : [Opcode.unpack.toByte, Opcode.arraySpread.toByte] <+: A.chunk.code.drop off) (stack : vm.stack = v :: τ)
    (fits : vm.Spreads v) :
    ∃ vs vm', (interp E).steps 2 (.running A.entry vm A.waiting) = .running A.entry vm' A.waiting ∧
      A.At (off + 2) vm' ∧ vm'.stack = vs.reverse ++ τ ∧ vs.length = vm.store.spreadCount v ∧
      vm'.arrayExtra = vm.arrayExtra + (vs.length - 1) ∧
      ∀ w, vm'.store.Extends w → w.items vs = vm.store.spreadItems w v := by
  have first : (Instr.mk .unpack 0 0).encode <+: A.chunk.code.drop off := (List.prefix_append [_] [_]).trans placed
  have second : (Instr.mk .arraySpread 0 0).encode <+: A.chunk.code.drop (off + 1) := by
    have both : (Instr.mk .unpack 0 0).encode ++ (Instr.mk .arraySpread 0 0).encode <+: A.chunk.code.drop off := placed
    exact placed_next both
  have fits₁ : (Instr.mk .unpack 0 0).Fits := ⟨rfl, rfl⟩
  have fits₂ : (Instr.mk .arraySpread 0 0).Fits := ⟨rfl, rfl⟩
  obtain ⟨s, e⟩ : ∃ s : VM ν, { vm with frames := A.top (off + 1) :: A.outer } = s := ⟨_, rfl⟩
  have stack' : s.stack = v :: τ := by rw [← e, stack]
  have fits' : s.Spreads v := by
    rw [← e]
    exact fits
  obtain ⟨vs, s₂, unpacked, sp⟩ := opUnpack_spec stack' fits'
  have turn : step E vm = .ok () s₂ := by
    rw [step_apply (h.fetch fits₁ first), ← unpacked, ← e]
    rfl
  have height : s₂.height + 1 = vm.height + vm.store.spreadCount v := by
    have count : vs.length = vm.store.spreadCount v := by rw [sp.count, ← e]
    rw [VM.height, sp.stack, List.length_append, List.length_reverse, count, VM.height, stack, List.length_cons]
    omega
  have there : A.At (off + 1) s₂ := by
    refine ⟨?_, ?_, ?_⟩
    · rw [sp.frames, ← e]
    · rw [sp.chunks, ← e]
      exact h.chunk
    · have room := fits.2
      omega
  have turn' : step E s₂ = .ok () { s₂ with
      frames := A.top (off + 2) :: A.outer
      arrayExtra := s₂.arrayExtra + (s₂.lastRetCount - 1) } := by
    rw [step_apply (there.fetch fits₂ second)]
    rfl
  refine ⟨vs, { s₂ with
    frames := A.top (off + 2) :: A.outer
    arrayExtra := s₂.arrayExtra + (s₂.lastRetCount - 1) }, ?_, ⟨rfl, there.chunk, there.bounded⟩, sp.stack, ?_, ?_, ?_⟩
  · rw [steps, machine_step turn, steps, machine_step turn', steps]
  · rw [sp.count, ← e]
  · show s₂.arrayExtra + (s₂.lastRetCount - 1) = _
    rw [sp.extra, sp.retCount, ← e]
  · intro w grows
    rw [sp.items w grows, ← e]

/-- On any other, an assertion fails. -/
lemma ArraySite.At.spread_fails (h : A.At off vm)
    (placed : [Opcode.unpack.toByte, Opcode.arraySpread.toByte] <+: A.chunk.code.drop off) (stack : vm.stack = v :: τ)
    (unfit : ¬ vm.Spreads v) : (interp E).steps 2 (.running A.entry vm A.waiting) = .crashed .assertion := by
  have first : (Instr.mk .unpack 0 0).encode <+: A.chunk.code.drop off := (List.prefix_append [_] [_]).trans placed
  have fits₁ : (Instr.mk .unpack 0 0).Fits := ⟨rfl, rfl⟩
  have moved : VM.stack { vm with frames := A.top (off + 1) :: A.outer } = v :: τ := stack
  have turn : step E vm = .crash .assertion := by
    rw [step_apply (h.fetch fits₁ first)]
    exact opUnpack_fails moved h.bounded unfit
  rw [steps, machine_crash turn, steps_crashed]

variable {els : List Element} {e : Evaluation ν} {es : List (Evaluation ν)} {r : Option (VM ν)} {vm' : VM ν}

omit [F64 ν] in
lemma gather_cons (f : Evaluation ν → Option (List (CdoValue ν))) (e : Evaluation ν) (es : List (Evaluation ν)) :
    gather f (e :: es) = (f e).bind fun cs => (gather f es).map (cs ++ ·) := by
  rw [gather, List.mapM_cons, gather]
  cases f e with
  | none => rfl
  | some cs => cases es.mapM f <;> rfl

/-- The activations that wait only let chunks and objects be added. -/
def ArraySite.Waits (A : ArraySite ν) : Prop := ∀ a ∈ A.waiting, ∀ r s, (a.resume r s).Along Grows s

lemma ArraySite.Waits.grows {n : Nat} (wait : A.Waits)
    (run : (interp E).steps n (.running A.entry vm A.waiting) = .running A.entry vm' A.waiting) :
    vm.store.Extends vm'.store := by
  have here : Follows Grows vm (.running A.entry vm A.waiting) := ⟨refl_of Grows vm, wait⟩
  have there := run_grows (reaches_steps (interp E) n _) here
  rw [run] at there
  exact there.1.store

/-- The value that is spread lies on top. -/
lemma ArraySite.Ran.spread (ran : A.Ran E off vm e) (flag : e.element.unpack = true) :
    ∃ v, e.left = e.left.dropLast ++ [v] ∧ e.state.stack = v :: (e.left.dropLast.reverse ++ vm.stack) ∧
      (e.Fits ↔ e.state.Spreads v) ∧ e.count = e.left.dropLast.length + e.state.store.spreadCount v ∧
      e.added = e.gained + (e.state.store.spreadCount v - 1) ∧
      (∀ w, e.spreadItems w = e.state.store.spreadItems w v) := by
  have nonempty := ran.nonempty flag
  have last : e.left.getLast? = some (e.left.getLast nonempty) := List.getLast?_eq_some_getLast nonempty
  have cut : e.left = e.left.dropLast ++ [e.left.getLast nonempty] := (List.dropLast_append_getLast nonempty).symm
  refine ⟨e.left.getLast nonempty, cut, ?_, ?_, ?_, ?_, fun w => ?_⟩
  · rw [ran.stack]
    conv_lhs => rw [cut]
    rw [List.reverse_append, List.append_assoc]
    rfl
  · rw [Evaluation.Fits, last]
    simp [flag]
  · rw [Evaluation.count, if_pos flag, Evaluation.spreadCount, last, List.length_dropLast]
    rfl
  · rw [Evaluation.added, if_pos flag, Evaluation.spreadCount, last]
    rfl
  · rw [Evaluation.spreadItems, last]

/-- What the evaluation of some elements leaves. -/
structure ArraySite.Leaves (A : ArraySite ν) (els : List Element) (off : Nat) (vm : VM ν) (es : List (Evaluation ν))
    (vm' : VM ν) : Prop where
  fits : ∀ e ∈ es, e.Fits
  elements : es.map (·.element) = els
  there : A.At (off + (els.flatMap Element.segment).length) vm'
  grows : vm.store.Extends vm'.store
  extra : vm'.arrayExtra = vm.arrayExtra + (es.map (·.added)).sum
  balance : (((es.map (·.count)).sum : Nat) : Int) =
    ((els.map Element.counted).sum : Nat) + (es.map (·.added)).sum + (es.map (·.surplus)).sum
  values : ∃ vs, vm'.stack = vs.reverse ++ vm.stack ∧ vs.length = (es.map (·.count)).sum ∧
    ∀ w, vm'.store.Extends w → w.items vs = gather (·.given w) es

/-- What one element leaves, up to the state behind what is emitted for it. -/
structure ArraySite.Adds (A : ArraySite ν) (off : Nat) (vm : VM ν) (e : Evaluation ν) (vm' : VM ν) : Prop where
  fits : e.Fits
  there : A.At (off + e.element.segment.length) vm'
  grows : vm.store.Extends vm'.store
  extra : vm'.arrayExtra = vm.arrayExtra + e.added
  balance : (e.count : Int) = e.element.counted + e.added + e.surplus
  values : ∃ vs, vm'.stack = vs.reverse ++ vm.stack ∧ vs.length = e.count ∧
    ∀ w, vm'.store.Extends w → w.items vs = e.given w

/-- An element whose values stay as they are. -/
lemma ArraySite.Ran.keeps (ran : A.Ran E off vm e) (wait : A.Waits) (plain : e.element.unpack = false) :
    A.Adds off vm e e.state := by
  obtain ⟨n, run⟩ := ran.run
  have segment : e.element.segment = e.element.code := by
    rw [Element.segment, plain]
    exact List.append_nil _
  refine ⟨?_, segment ▸ ran.there, wait.grows run, ?_, ?_, e.left, ran.stack, ?_, fun w _ => ?_⟩
  · intro flag
    rw [plain] at flag
    cases flag
  · rw [ran.gained, Evaluation.added, plain, if_neg Bool.false_ne_true]
  · rw [Evaluation.count, Evaluation.added, Evaluation.surplus, plain, if_neg Bool.false_ne_true,
      if_neg Bool.false_ne_true]
    omega
  · rw [Evaluation.count, plain, if_neg Bool.false_ne_true]
  · rw [Evaluation.given, plain, if_neg Bool.false_ne_true]

/-- An element whose value on top is spread. -/
lemma ArraySite.Ran.spreads (ran : A.Ran E off vm e) (wait : A.Waits) (flag : e.element.unpack = true)
    (placed : [Opcode.unpack.toByte, Opcode.arraySpread.toByte] <+: A.chunk.code.drop (off + e.element.code.length))
    (goes : (interp E).steps 2 (.running A.entry e.state A.waiting) = .running A.entry vm' A.waiting) :
    A.Adds off vm e vm' := by
  obtain ⟨n, run⟩ := ran.run
  obtain ⟨v, left, top, fits, count, added, spreadItems⟩ := ran.spread flag
  by_cases fit : e.state.Spreads v
  · obtain ⟨us, vm₁, goes', there, stack, length, extra, items⟩ := ran.there.spreads (E := E) placed top fit
    rw [goes] at goes'
    cases goes'
    have size : e.element.segment.length = e.element.code.length + 2 := by
      rw [Element.segment, flag, if_pos rfl, List.length_append]
      rfl
    have one : e.element.counted = 1 := by rw [Element.counted, if_pos flag]
    have size' : e.left.length = e.left.dropLast.length + 1 := by
      conv_lhs => rw [left]
      exact List.length_append
    refine ⟨fits.mpr fit, ?_, (wait.grows run).trans (wait.grows goes), ?_, ?_, e.left.dropLast ++ us, ?_, ?_,
      fun w later => ?_⟩
    · rw [size, ← Nat.add_assoc]
      exact there
    · rw [extra, ran.gained, added, length, Int.add_assoc]
    · rw [count, added, Evaluation.surplus, one, size']
      omega
    · rw [stack, List.reverse_append, List.append_assoc]
    · rw [List.length_append, count, length]
    · rw [Store.items_append, items w later, Evaluation.given, if_pos flag, spreadItems w]
  · rw [ran.there.spread_fails (E := E) placed top fit] at goes
    cases goes

omit [F64 ν] in
/-- One element before others. -/
lemma ArraySite.Adds.cons {vm₁ : VM ν} (first : A.Adds off vm e vm₁)
    (rest : A.Leaves els (off + e.element.segment.length) vm₁ es vm') :
    A.Leaves (e.element :: els) off vm (e :: es) vm' := by
  obtain ⟨us, stack₁, count₁, items₁⟩ := first.values
  obtain ⟨vs, stack, count, items⟩ := rest.values
  refine ⟨List.forall_mem_cons.mpr ⟨first.fits, rest.fits⟩, congrArg (e.element :: ·) rest.elements, ?_,
    first.grows.trans rest.grows, ?_, ?_, us ++ vs, ?_, ?_, fun w later => ?_⟩
  · rw [List.flatMap_cons, List.length_append, ← Nat.add_assoc]
    exact rest.there
  · rw [rest.extra, first.extra, List.map_cons, List.sum_cons, Int.add_assoc]
  · have one := first.balance
    have others := rest.balance
    simp only [List.map_cons, List.sum_cons]
    omega
  · rw [stack, stack₁, List.reverse_append, List.append_assoc]
  · rw [List.length_append, count₁, count, List.map_cons, List.sum_cons]
  · rw [Store.items_append, items₁ w (rest.grows.trans later), items w later, gather_cons]

/-- What the elements leave on the stack, if every spread fits there; else one of them does not. -/
lemma ArraySite.Evaluates.spec {rest : List UInt8} (h : A.Evaluates E els off vm es r) (wait : A.Waits)
    (placed : els.flatMap Element.segment ++ rest <+: A.chunk.code.drop off) (there : A.At off vm) :
    (∀ vm', r = some vm' → A.Leaves els off vm es vm') ∧ (r = none → ∃ e ∈ es, ¬ e.Fits) := by
  induction h with
  | done =>
    refine ⟨?_, ?_⟩
    · rintro vm' ⟨⟩
      exact ⟨fun e mem => absurd mem List.not_mem_nil, rfl, there, .refl _, (Int.add_zero _).symm, rfl, [], rfl, rfl,
        fun w _ => rfl⟩
    · rintro ⟨⟩
  | keeps plain ran _ ih =>
    rename_i els off vm e es r _
    have first := ran.keeps wait plain
    have size : off + e.element.code.length = off + e.element.segment.length := by
      rw [Element.segment, plain, if_neg Bool.false_ne_true, List.append_nil]
    rw [List.flatMap_cons, List.append_assoc] at placed
    rw [size] at ih
    obtain ⟨leaves, fails⟩ := ih (placed_next placed) first.there
    refine ⟨fun vm' done => first.cons (leaves vm' done), fun stuck => ?_⟩
    obtain ⟨e', mem, unfit⟩ := fails stuck
    exact ⟨e', List.mem_cons_of_mem e mem, unfit⟩
  | spreads flag ran goes _ ih =>
    rename_i els off vm vm₁ e es r _
    have code : e.element.segment = e.element.code ++ [Opcode.unpack.toByte, Opcode.arraySpread.toByte] := by
      rw [Element.segment, if_pos flag]
    have size : off + e.element.code.length + 2 = off + e.element.segment.length := by
      rw [code, List.length_append, ← Nat.add_assoc]
      rfl
    rw [List.flatMap_cons, List.append_assoc] at placed
    have ops : [Opcode.unpack.toByte, Opcode.arraySpread.toByte] <+:
        A.chunk.code.drop (off + e.element.code.length) := by
      rw [code, List.append_assoc] at placed
      exact (List.prefix_append _ _).trans (placed_next placed)
    have first := ran.spreads wait flag ops goes
    rw [size] at ih
    obtain ⟨leaves, fails⟩ := ih (placed_next placed) first.there
    refine ⟨fun vm' done => first.cons (leaves vm' done), fun stuck => ?_⟩
    obtain ⟨e', mem, unfit⟩ := fails stuck
    exact ⟨e', List.mem_cons_of_mem e mem, unfit⟩
  | fails flag ran stops =>
    rename_i els off vm e
    have code : e.element.segment = e.element.code ++ [Opcode.unpack.toByte, Opcode.arraySpread.toByte] := by
      rw [Element.segment, if_pos flag]
    rw [List.flatMap_cons, code, List.append_assoc, List.append_assoc] at placed
    have ops := (List.prefix_append _ _).trans (placed_next placed)
    refine ⟨?_, fun _ => ⟨e, List.mem_singleton_self e, fun fits => ?_⟩⟩
    · rintro vm' ⟨⟩
    · obtain ⟨v, -, top, fits', -⟩ := ran.spread flag
      obtain ⟨us, vm₁, goes, -⟩ := ran.there.spreads (E := E) ops top (fits'.mp fits)
      exact stops vm₁ goes

end Literal

/-! ### Two literals -/

/-- An array literal as an element of another: what `parse_expression` knows of it stems from its last element. -/
def nestedLiteral (els : List Element) : Element :=
  let p := ArrayParser.parseArrayLiteral els {}
  { code := p.code, multiPush := p.lastMultiPush, leftUnpack := p.lastExprWasUnpack }

/-- `...e`. -/
def Element.spreadOf (el : Element) : Element := { el with kind := .spread }

/-- The literal of the constant at an index. -/
def constElement (i : Nat) : Element := { code := (Instr.mk .const i 0).encode }

/-- A script that consists of an array literal whose constants are 7, 8 and 9, and the state in which it begins. -/
def literalChunk (els : List Element) : Chunk Int :=
  { code := (ArrayParser.parseArrayLiteral els {}).code ++ [Opcode.halt.toByte],
    constants := [.number 7, .number 8, .number 9] }

def literalState (els : List Element) : VM Int :=
  { stack := [.null], frames := [scriptFrame 0], chunks := [literalChunk els] }

/-- The script at an offset, with the arrays that it has made. -/
def literalStateAt (els : List Element) (off : Nat) (stack dead : List (Value Int))
    (arrays : List (List (CdoValue Int))) (ret extra : Int) : VM Int :=
  { literalState els with
    stack
    dead
    frames := [scriptFrame off]
    store := { objs := arrays.map fun items => { kind := .array, items }, handles := List.range arrays.length }
    lastRetCount := ret
    arrayExtra := extra }

/-- The elements of `[...[7, 8], [9]]`. -/
def leakyElements : List Element :=
  [(nestedLiteral [constElement 0, constElement 1]).spreadOf, nestedLiteral [constElement 2]]

/-- The literal `[9]` in its place there: the 7 and the 8 lie below it. -/
def leakySite : ArraySite Int where
  elements := [constElement 2]
  before := (ArrayParser.parseElements (leakyElements.take 1) ({}, 0)).1
  accepted := by decide
  chunk := literalChunk leakyElements
  placed := by decide
  frame := scriptFrame 0
  outer := []
  base := [.number 8, .number 7, .null]
  entry := literalState leakyElements
  waiting := []

/-- The states in front of this literal, behind its 9, and behind its `OP_NEW_ARRAY`. -/
def leakyBegin : VM Int :=
  literalStateAt leakyElements 11 [.number 8, .number 7, .null] [] [[.number 7, .number 8]] 2 1
def leakyEnd : VM Int :=
  literalStateAt leakyElements 14 [.number 9, .number 8, .number 7, .null] [] [[.number 7, .number 8]] 2 1
def leakyMade : VM Int :=
  literalStateAt leakyElements 17 [.object 1, .number 7, .null] [.number 9]
    [[.number 7, .number 8], [.number 8, .number 9]] 2 0

/-- An element that is a constant. -/
def constEvaluation (i : Nat) (v : Value Int) (vm : VM Int) : Evaluation Int where
  element := constElement i
  left := [v]
  state := vm
  gained := 0

/-- Spreading an array of two numbers. -/
lemma step_unpack {els : List Element} {off : Nat} {a b : Int} {σ dead : List (Value Int)} {ret extra : Int}
    (placed : decode (literalChunk els).code off = some ⟨.unpack, 0, 0⟩) (room : σ.length + 2 ≤ stackMax) :
    step {} (literalStateAt els off (.object 0 :: σ) dead [[.number a, .number b]] ret extra) =
      .ok () (literalStateAt els (off + 1) (.number b :: .number a :: σ) dead.tail [[.number a, .number b]]
        2 extra) := by
  have fetched : fetch (literalStateAt els off (.object 0 :: σ) dead [[.number a, .number b]] ret extra) =
      .ok ⟨.unpack, 0, 0⟩ (literalStateAt els (off + 1) (.object 0 :: σ) dead [[.number a, .number b]] ret extra) :=
    fetch_apply (f := scriptFrame off) rfl rfl placed
  have popped : pop (literalStateAt els (off + 1) (.object 0 :: σ) dead [[.number a, .number b]] ret extra) =
      .ok (.object 0) (literalStateAt els (off + 1) σ (.object 0 :: dead) [[.number a, .number b]] ret extra) := rfl
  have elements : unpacked (.object 0)
        (literalStateAt els (off + 1) σ (.object 0 :: dead) [[.number a, .number b]] ret extra) =
      .ok [.number a, .number b]
        (literalStateAt els (off + 1) σ (.object 0 :: dead) [[.number a, .number b]] ret extra) := rfl
  have fits : VM.height (literalStateAt els (off + 1) σ (.object 0 :: dead) [[.number a, .number b]] ret extra) +
      [Value.number a, Value.number b].length ≤ stackMax := room
  rw [step_apply fetched]
  show opUnpack _ = _
  rw [opUnpack, bind_apply, popped, Outcome.bind_ok, bind_apply, elements, Outcome.bind_ok, bind_apply,
    pushAll_apply fits, Outcome.bind_ok, modify_apply, VM.pushed]
  cases dead <;> rfl

/-- The elements of this literal. -/
def soundElements : List Element := [constElement 0, (nestedLiteral [constElement 1, constElement 2]).spreadOf]

/-- The literal in its place. -/
def soundSite : ArraySite Int where
  elements := soundElements
  before := {}
  accepted := by decide
  chunk := literalChunk soundElements
  placed := by decide
  frame := scriptFrame 0
  outer := []
  base := [.null]
  entry := literalState soundElements
  waiting := []

/-- The states behind the 7, behind `[8, 9]`, and behind the spread. -/
def soundFirst : VM Int := literalStateAt soundElements 3 [.number 7, .null] [] [] 0 0
def soundSecond : VM Int :=
  literalStateAt soundElements 12 [.object 0, .number 7, .null] [.number 9] [[.number 8, .number 9]] 0 0
def soundEnd : VM Int :=
  literalStateAt soundElements 14 [.number 9, .number 8, .number 7, .null] [] [[.number 8, .number 9]] 2 1

/-- The evaluation of its second element. -/
def soundSpread : Evaluation Int where
  element := (nestedLiteral [constElement 1, constElement 2]).spreadOf
  left := [.object 0]
  state := soundSecond
  gained := 0

/-- The evaluations of its elements. -/
def soundEvaluations : List (Evaluation Int) := [constEvaluation 0 (.number 7) soundFirst, soundSpread]

end Cando
