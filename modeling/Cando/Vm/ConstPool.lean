import Cando.Lib.RefCount
import Cando.Vm.Chunk

/-!
# The constant pool in memory

`cando_chunk_add_const` (`vm/chunk.c`) with the growth of the pool and the references to its strings. The pool has one
reference to each of its strings; the reference to a string that is added passes to it, or is released when the pool
has the constant already. `Chunk.addConst` is what this does to the list of constants.
-/

namespace Cando

/-- A `CandoValue` as it lies in memory: a string is the address of its `CandoString`. -/
inductive RawValue (ν : Type) where
  | null
  | bool (b : Bool)
  | number (x : ν)
  | string (a : Nat)
  | object (h : Nat)
  deriving DecidableEq, Repr

namespace RawValue

variable {ν : Type}

/-- What the value is, with the strings of the heap; `none` for a string that was freed. -/
def value (m : Blocks Str) : RawValue ν → Option (Value ν)
  | .null => some .null
  | .bool b => some (.bool b)
  | .number x => some (.number x)
  | .string a => (m.dataAt a).map .string
  | .object h => some (.object h)

/-- The address of the string that the value refers to. -/
def address : RawValue ν → Option Nat
  | .string a => some a
  | _ => none

/-- `cando_value_release`. -/
def release (m : Blocks Str) : RawValue ν → Option (Blocks Str)
  | .string a => m.release a
  | _ => some m

end RawValue

/-- The pool of a chunk, the strings, and the references that the callers have. The length of `constants` is
`const_cap`, and a cell that was never written is `none`. -/
structure ConstPool (ν : Type) where
  constants : List (Option (RawValue ν)) := []
  constCount : Nat := 0
  strings : Blocks Str := fun _ => none
  own : Multiset Nat := 0

/-- The loop of `chunk_ensure_const` over the capacities. -/
def constCapFrom (need : Nat) : (turns newCap : Nat) → Option Nat
  | 0, _ => none
  | turns + 1, newCap => if newCap < need then constCapFrom need turns (newCap * 2 % 4294967296) else some newCap

/-- The loops of `cando_chunk_add_const` over the cells, from index `i` on: the first constant that is the same.
`none` is an undefined read. -/
def findConst {ν : Type} (same : RawValue ν → Option Bool) : (i : Nat) → List (Option (RawValue ν)) →
    Option (Option Nat)
  | _, [] => some none
  | i, cell :: cells => do
    let v ← cell
    if ← same v then some (some i) else findConst same (i + 1) cells

namespace ConstPool

variable {ν : Type}

/-- `chunk_ensure_const` for one more constant. -/
def ensureConst (p : ConstPool ν) : Option (ConstPool ν) :=
  if p.constCount + 1 ≤ p.constants.length then some p
  else do
    let cap := p.constants.length
    let newCap ← constCapFrom (p.constCount + 1) 33 (if cap < 8 then 8 else cap * 2 % 4294967296)
    some { p with constants := p.constants.take newCap ++ List.replicate (newCap - cap) none }

variable [F64 ν]

/-- The test that the loops apply to a constant. -/
def sameAs (p : ConstPool ν) (val : RawValue ν) : RawValue ν → Option Bool
  | .number y => match val with
    | .number x => some (F64.eq y x)
    | _ => some false
  | .string a => match val with
    | .string b => do
      let s ← p.strings.dataAt a
      let t ← p.strings.dataAt b
      some (s.length == t.length && s == t)
    | _ => some false
  | _ => some false

/-- `cando_chunk_add_const`; `none` also when its assertion on the pool size fails. -/
def addConst (p : ConstPool ν) (val : RawValue ν) : Option (Nat × ConstPool ν) := do
  match ← findConst (p.sameAs val) 0 (p.constants.take p.constCount) with
  | some i => do
    let strings ← val.release p.strings
    some (i % 65536, { p with strings })
  | none =>
    if p.constCount < 65535 then do
      let p ← p.ensureConst
      if p.constCount < p.constants.length then
        some (p.constCount % 65536,
          { p with constants := p.constants.set p.constCount (some val), constCount := p.constCount + 1 })
      else none
    else none

/-- The constant with an index, as a program that loads it sees it. -/
def entry (p : ConstPool ν) (i : Nat) : Option (Value ν) :=
  if i < p.constCount then (p.constants[i]?).join.bind (RawValue.value p.strings) else none

end ConstPool

/-- What the owner of a chunk does: it makes strings, copies and gives up its references to them, and adds constants. -/
inductive PoolCall (ν : Type) where
  | string (s : Str) (a : Nat)
  | retain (a : Nat)
  | release (a : Nat)
  | add (val : RawValue ν)
  deriving DecidableEq, Repr

namespace ConstPool

variable {ν : Type}

/-- A call answers for its references: a new string is at a free address, and a string that is passed on, copied or
given up is one that the caller has a reference to. -/
def Given (p : ConstPool ν) : PoolCall ν → Prop
  | .string _ a => p.strings a = none
  | .retain a | .release a => a ∈ p.own
  | .add val => ∀ a ∈ val.address, a ∈ p.own

variable [F64 ν]

def perform (p : ConstPool ν) : PoolCall ν → Option (ConstPool ν)
  | .string s a => some { p with strings := p.strings.create a s, own := a ::ₘ p.own }
  | .retain a => (p.strings.retain a).map fun strings => { p with strings, own := a ::ₘ p.own }
  | .release a => (p.strings.release a).map fun strings => { p with strings, own := p.own.erase a }
  | .add val => (p.addConst val).map fun r => { r.2 with own := val.address.elim p.own p.own.erase }

/-- Calls one after the other. -/
inductive Calls : ConstPool ν → List (PoolCall ν) → ConstPool ν → Prop where
  | nil {p : ConstPool ν} : Calls p [] p
  | cons {p p' p'' : ConstPool ν} {call : PoolCall ν} {calls : List (PoolCall ν)} : p.Given call →
      p.perform call = some p' → Calls p' calls p'' → Calls p (call :: calls) p''

end ConstPool

/-! ### What the pool holds -/

/-- The strings of the constants. -/
def addresses {ν : Type} (vals : List (RawValue ν)) : Multiset Nat := (vals.filterMap RawValue.address : List Nat)

/-- The pool holds the constants, and the strings count its references and those of the callers. -/
structure ConstPool.Holds {ν : Type} (p : ConstPool ν) (consts : List (Value ν)) : Prop where
  cells : ∃ vals : List (RawValue ν), p.constants.take p.constCount = vals.map some ∧
    vals.map (RawValue.value p.strings) = consts.map some ∧ p.strings.Balanced (addresses vals + p.own)
  count : p.constCount = consts.length
  few : consts.length ≤ 65535
  room : p.constants.length < 131072

section Cells

variable {ν : Type} {m m' : Blocks Str} {R : Multiset Nat} {vals : List (RawValue ν)} {consts : List (Value ν)}

/-- Where the strings keep their contents, so do the constants. -/
lemma values_keep (keeps : Blocks.Keeps R m m') (sub : ∀ a ∈ addresses vals, a ∈ R)
    (values : vals.map (RawValue.value m) = consts.map some) : vals.map (RawValue.value m') = consts.map some := by
  rw [← values]
  apply List.map_congr_left
  intro v mem
  cases v with
  | string a =>
    have held : a ∈ addresses vals := List.mem_filterMap.mpr ⟨_, mem, rfl⟩
    simp only [RawValue.value, keeps a (sub a held)]
  | _ => rfl

/-- The search over cells that were written, and whose test is defined. -/
lemma findConst_eq {same : RawValue ν → Option Bool} {test : Value ν → Bool}
    (values : vals.map (RawValue.value m) = consts.map some)
    (tests : ∀ v ∈ vals, ∀ x, v.value m = some x → same v = some (test x)) (i : Nat) :
    findConst same i (vals.map some) = some ((consts.findIdx? test).map (· + i)) := by
  induction vals generalizing consts i with
  | nil =>
    obtain rfl : consts = [] := by simpa using values.symm
    rfl
  | cons v vals ih =>
    cases consts with
    | nil => cases values
    | cons x consts =>
      simp only [List.map_cons, List.cons.injEq] at values
      have here := tests v List.mem_cons_self x values.1
      have rest := ih values.2 (fun v mem => tests v (List.mem_cons_of_mem _ mem)) (i + 1)
      simp only [List.map_cons, findConst, Option.bind_eq_bind, Option.bind_some, here, rest, List.findIdx?_cons]
      cases test x with
      | true => simp
      | false =>
        simp only [Bool.false_eq_true, if_false, Option.map_map]
        congr 2
        funext k
        exact (Nat.add_right_comm k 1 i).symm

end Cells

namespace ConstPool

variable {ν : Type} {p p' p'' : ConstPool ν} {consts : List (Value ν)} {val : RawValue ν} {v : Value ν}

lemma Holds.fits (h : p.Holds consts) : p.constCount ≤ p.constants.length := by
  obtain ⟨vals, cells, values, -⟩ := h.cells
  have l := congrArg List.length cells
  have l' := congrArg List.length values
  simp only [List.length_take, List.length_map] at l l'
  have c := h.count
  omega

/-- A program sees the constants. -/
lemma Holds.entry (h : p.Holds consts) (i : Nat) : p.entry i = consts[i]? := by
  obtain ⟨vals, cells, values, -⟩ := h.cells
  unfold ConstPool.entry
  split
  case isTrue inside =>
    have cell : p.constants[i]? = (vals.map some)[i]? := by
      rw [← cells, List.getElem?_take_of_lt inside]
    have value := congrArg (·[i]?) values
    simp only [List.getElem?_map] at value
    rw [cell, List.getElem?_map]
    rw [h.count] at inside
    rw [List.getElem?_eq_getElem inside, Option.map_some] at value
    obtain ⟨raw, there, e⟩ := Option.map_eq_some_iff.mp value
    rw [there, List.getElem?_eq_getElem inside]
    exact e
  case isFalse outside =>
    rw [h.count] at outside
    exact (List.getElem?_eq_none (Nat.le_of_not_lt outside)).symm

lemma constCapFrom_enough {need newCap turns : Nat} (h : need ≤ newCap) :
    constCapFrom need (turns + 1) newCap = some newCap := if_neg (Nat.not_lt.mpr h)

/-- Growth leaves the constants where they are, and makes room for one more. -/
lemma Holds.ensureConst (h : p.Holds consts) (few : p.constCount < 65535) :
    ∃ cells, p.ensureConst = some { p with constants := cells } ∧
      cells.take p.constCount = p.constants.take p.constCount ∧ p.constCount < cells.length ∧
      cells.length < 131072 := by
  have fits := h.fits
  unfold ConstPool.ensureConst
  split
  case isTrue enough => exact ⟨p.constants, rfl, rfl, enough, h.room⟩
  case isFalse full =>
    have same : p.constCount = p.constants.length := by omega
    obtain ⟨newCap, choice, enough, small⟩ : ∃ newCap,
        (if p.constants.length < 8 then 8 else p.constants.length * 2 % 4294967296) = newCap ∧
          p.constCount + 1 ≤ newCap ∧ newCap < 131072 := by
      refine ⟨_, rfl, ?_, ?_⟩
      · split <;> omega
      · split <;> omega
    have all : p.constants.take newCap = p.constants := List.take_of_length_le (by omega)
    simp only [choice, constCapFrom_enough enough, Option.bind_eq_bind, Option.bind_some, all]
    refine ⟨_, rfl, ?_, ?_, ?_⟩
    · rw [List.take_append_of_le_length fits]
    · simp only [List.length_append, List.length_replicate]
      omega
    · simp only [List.length_append, List.length_replicate]
      omega

/-- A value whose reference the caller has is there. -/
lemma Holds.given (h : p.Holds consts) (given : p.Given (.add val)) : ∃ v, val.value p.strings = some v := by
  cases val with
  | string a =>
    obtain ⟨vals, -, -, balanced⟩ := h.cells
    obtain ⟨s, there⟩ := balanced.counts a (Multiset.mem_add.mpr (.inr (given a rfl)))
    exact ⟨.string s, by simp only [RawValue.value, Blocks.dataAt, there, Option.map_some]⟩
  | _ => exact ⟨_, rfl⟩

lemma holds_new : ({} : ConstPool ν).Holds [] := by
  refine ⟨⟨[], rfl, rfl, ?_⟩, rfl, Nat.zero_le _, Nat.zero_lt_succ _⟩
  exact ⟨fun a mem => absurd mem (Multiset.notMem_zero a), fun _ _ => rfl⟩

variable [F64 ν]

/-- The test tells whether the constants are the same. -/
lemma sameAs_eq {x : Value ν} {c : RawValue ν} (value : val.value p.strings = some v)
    (there : c.value p.strings = some x) : p.sameAs val c = some (Chunk.sameConst x v) := by
  cases c with
  | number y =>
    cases there
    cases val with
    | string b =>
      obtain ⟨t, -, rfl⟩ := Option.map_eq_some_iff.mp value
      rfl
    | _ =>
      cases value
      rfl
  | string a =>
    obtain ⟨s, data, rfl⟩ := Option.map_eq_some_iff.mp there
    cases val with
    | string b =>
      obtain ⟨t, data', rfl⟩ := Option.map_eq_some_iff.mp value
      simp only [sameAs, data, data', Option.bind_eq_bind, Option.bind_some, Chunk.sameConst]
      by_cases e : s = t
      · simp [e]
      · simp [e]
    | _ =>
      cases value
      rfl
  | _ =>
    cases there
    rfl

/-- A constant that the pool has: the reference that came with it is released. -/
lemma Holds.found (h : p.Holds consts) (value : val.value p.strings = some v)
    (given : p.Given (.add val)) {i : Nat} (there : consts.findIdx? (Chunk.sameConst · v) = some i) :
    ∃ p', p.addConst val = some (i, p') ∧ { p' with own := val.address.elim p.own p.own.erase }.Holds consts := by
  obtain ⟨vals, cells, values, balanced⟩ := h.cells
  have search := findConst_eq values (fun c _ x there => sameAs_eq value there) 0
  have inside : i < consts.length := (List.findIdx?_eq_some_iff_getElem.mp there).1
  have few := h.few
  have index : i % 65536 = i := Nat.mod_eq_of_lt (by omega)
  unfold ConstPool.addConst
  simp only [cells, search, there, Option.map_some, Nat.add_zero, Option.bind_eq_bind, Option.bind_some, index]
  cases val with
  | string a =>
    have mine : a ∈ p.own := given a rfl
    rw [← Multiset.cons_erase mine, Multiset.add_cons] at balanced
    obtain ⟨strings, run, balanced', keeps⟩ := balanced.release
    refine ⟨{ p with strings }, by rw [RawValue.release, run]; rfl, ⟨vals, cells, ?_, balanced'⟩, h.count, few, h.room⟩
    exact values_keep keeps (fun a mem => Multiset.mem_add.mpr (.inl mem)) values
  | _ => exact ⟨p, rfl, h⟩

/-- A constant that the pool has not: the reference that came with it is now the pool's. -/
lemma Holds.fresh (h : p.Holds consts) (value : val.value p.strings = some v)
    (given : p.Given (.add val)) (absent : consts.findIdx? (Chunk.sameConst · v) = none) (few : consts.length < 65535) :
    ∃ p', p.addConst val = some (consts.length, p') ∧
      { p' with own := val.address.elim p.own p.own.erase }.Holds (consts ++ [v]) := by
  obtain ⟨vals, cells, values, balanced⟩ := h.cells
  have search := findConst_eq values (fun c _ x there => sameAs_eq value there) 0
  have count := h.count
  have index : p.constCount % 65536 = consts.length := by omega
  obtain ⟨cells', grow, kept, space, room⟩ := h.ensureConst (count ▸ few)
  unfold ConstPool.addConst
  simp only [cells, search, absent, Option.map_none, Option.bind_eq_bind, Option.bind_some, grow, index,
    if_pos (count ▸ few), if_pos space]
  refine ⟨_, rfl, ⟨vals ++ [val], ?_, ?_, ?_⟩, ?_, ?_, ?_⟩
  · have last : (cells'.set p.constCount (some val))[p.constCount]? = some (some val) :=
      List.getElem?_set_self space
    show (cells'.set p.constCount (some val)).take (p.constCount + 1) = _
    rw [List.take_add_one, last, List.take_set_of_le (Nat.le_refl _), kept, cells, List.map_append]
    rfl
  · simp only [List.map_append, values, List.map_cons, List.map_nil, value]
  · have refs : addresses (vals ++ [val]) + val.address.elim p.own p.own.erase = addresses vals + p.own := by
      cases val with
      | string a =>
        have mine : a ∈ p.own := given a rfl
        simp only [addresses, List.filterMap_append, RawValue.address, Option.elim_some]
        conv_rhs => rw [← Multiset.cons_erase mine]
        rw [← Multiset.coe_add, add_assoc]
        rfl
      | _ =>
        simp only [addresses, List.filterMap_append]
        rw [List.filterMap_cons_none rfl, List.filterMap_nil, List.append_nil]
        rfl
    rw [refs]
    exact balanced
  · simp [count]
  · simp only [List.length_append, List.length_singleton]
    omega
  · simpa using room

/-- Over the limit, the assertion fails. -/
lemma Holds.full (h : p.Holds consts) (value : val.value p.strings = some v)
    (absent : consts.findIdx? (Chunk.sameConst · v) = none) (many : ¬ consts.length < 65535) :
    p.addConst val = none := by
  obtain ⟨vals, cells, values, -⟩ := h.cells
  have search := findConst_eq values (fun c _ x there => sameAs_eq value there) 0
  unfold ConstPool.addConst
  simp only [cells, search, absent, Option.map_none, Option.bind_eq_bind, Option.bind_some, if_neg (h.count ▸ many)]

/-- In memory, a constant is added as to the list of constants. -/
theorem Holds.addConst (h : p.Holds consts) (value : val.value p.strings = some v) (given : p.Given (.add val))
    {c : Chunk ν} (pool : c.constants = consts) :
    match c.addConst v with
    | some (i, c') => ∃ p', p.addConst val = some (i, p') ∧
        { p' with own := val.address.elim p.own p.own.erase }.Holds c'.constants
    | none => p.addConst val = none := by
  subst pool
  unfold Chunk.addConst
  cases search : c.constants.findIdx? (Chunk.sameConst · v) with
  | some i =>
    have inside : i < c.constants.length := (List.findIdx?_eq_some_iff_getElem.mp search).1
    have few := h.few
    have index : i % 65536 = i := Nat.mod_eq_of_lt (by omega)
    simp only [index]
    exact h.found value given search
  | none =>
    by_cases few : c.constants.length < 65535
    · simp only [if_pos few]
      exact h.fresh value given search few
    · simp only [if_neg few]
      exact h.full value search few

/-- What adding a constant does to the list. -/
lemma addConst_some {c c' : Chunk ν} {i : Nat} (h : c.addConst v = some (i, c')) (few : c.constants.length ≤ 65535) :
    (c'.constants = c.constants ∧ c.constants.findIdx? (Chunk.sameConst · v) = some i) ∨
      (c'.constants = c.constants ++ [v] ∧ i = c.constants.length ∧
        c.constants.findIdx? (Chunk.sameConst · v) = none) := by
  unfold Chunk.addConst at h
  cases search : c.constants.findIdx? (Chunk.sameConst · v) with
  | some k =>
    have inside : k < c.constants.length := (List.findIdx?_eq_some_iff_getElem.mp search).1
    simp only [search, Option.some.injEq, Prod.mk.injEq] at h
    rw [Nat.mod_eq_of_lt (by omega)] at h
    obtain ⟨rfl, rfl⟩ := h
    exact .inl ⟨rfl, rfl⟩
  | none =>
    simp only [search] at h
    split at h
    · simp only [Option.some.injEq, Prod.mk.injEq] at h
      obtain ⟨rfl, rfl⟩ := h
      exact .inr ⟨rfl, rfl, rfl⟩
    · cases h

/-- No call takes a constant away or changes one. -/
lemma Holds.step {call : PoolCall ν} (h : p.Holds consts) (given : p.Given call) (run : p.perform call = some p') :
    ∃ more, p'.Holds (consts ++ more) := by
  cases call with
  | string s a =>
    obtain ⟨vals, cells, values, balanced⟩ := h.cells
    obtain ⟨balanced', keeps⟩ := balanced.create (d := s) given
    cases run
    refine ⟨[], ?_⟩
    rw [List.append_nil]
    rw [← Multiset.add_cons] at balanced'
    exact ⟨⟨vals, cells, values_keep keeps (fun a mem => Multiset.mem_add.mpr (.inl mem)) values, balanced'⟩, h.count,
      h.few, h.room⟩
  | retain a =>
    obtain ⟨vals, cells, values, balanced⟩ := h.cells
    obtain ⟨strings, kept, balanced', keeps⟩ := balanced.retain (Multiset.mem_add.mpr (.inr given))
    rw [perform, kept] at run
    cases run
    refine ⟨[], ?_⟩
    rw [List.append_nil]
    rw [← Multiset.add_cons] at balanced'
    exact ⟨⟨vals, cells, values_keep keeps (fun a mem => Multiset.mem_add.mpr (.inl mem)) values, balanced'⟩, h.count,
      h.few, h.room⟩
  | release a =>
    obtain ⟨vals, cells, values, balanced⟩ := h.cells
    rw [← Multiset.cons_erase given, Multiset.add_cons] at balanced
    obtain ⟨strings, freed, balanced', keeps⟩ := balanced.release
    rw [perform, freed] at run
    cases run
    refine ⟨[], ?_⟩
    rw [List.append_nil]
    exact ⟨⟨vals, cells, values_keep keeps (fun a mem => Multiset.mem_add.mpr (.inl mem)) values, balanced'⟩, h.count,
      h.few, h.room⟩
  | add val =>
    obtain ⟨v, value⟩ := h.given given
    have refines := h.addConst value given (c := { constants := consts }) rfl
    obtain ⟨⟨i, q⟩, added, rfl⟩ := Option.map_eq_some_iff.mp run
    cases e : ({ constants := consts } : Chunk ν).addConst v with
    | none =>
      rw [e] at refines
      rw [refines] at added
      cases added
    | some r =>
      rw [e] at refines
      obtain ⟨p₁, added', holds⟩ := refines
      rw [added] at added'
      cases added'
      rcases addConst_some e h.few with ⟨same, -⟩ | ⟨more, -⟩
      · refine ⟨[], ?_⟩
        rw [same] at holds
        rwa [List.append_nil]
      · refine ⟨[v], ?_⟩
        rw [more] at holds
        exact holds

/-- Nor do any number of calls. -/
lemma Calls.holds {calls : List (PoolCall ν)} (run : Calls p calls p') (h : p.Holds consts) :
    ∃ more, p'.Holds (consts ++ more) := by
  induction run generalizing consts with
  | nil => exact ⟨[], by rwa [List.append_nil]⟩
  | cons given step _ ih =>
    obtain ⟨more, holds⟩ := h.step given step
    obtain ⟨more', holds'⟩ := ih holds
    exact ⟨more ++ more', by rwa [← List.append_assoc]⟩

/-! ### When the pool keeps every constant -/

/-- An add comes to an index behind which the program finds the constant, and what was there before, however many of the
calls behind it are made; a constant that the pool has already does not make it grow. -/
def AddRight (p : ConstPool ν) (val : RawValue ν) (after : List (PoolCall ν)) : Prop :=
  ∃ v i p', val.value p.strings = some v ∧ p.addConst val = some (i, p') ∧
    ((∃ j x, p.entry j = some x ∧ Chunk.sameConst x v) → p'.constCount = p.constCount) ∧
    ∀ later, later <+: after → ∀ q, Calls { p' with own := val.address.elim p.own p.own.erase } later q →
      q.entry i = some v ∧ ∀ j < p.constCount, q.entry j = p.entry j

/-- Every add of the calls is right that is made on a pool below its limit. -/
def HistoryRight (calls : List (PoolCall ν)) : Prop :=
  ∀ before val after, calls = before ++ .add val :: after → ∀ p, Calls {} before p → p.Given (.add val) →
    p.constCount < 65535 → AddRight p val after

/-- The condition on an add: if the pool has a number that compares equal, the first such number is the same. -/
def Undisguised (p : ConstPool ν) (val : RawValue ν) : Prop :=
  ∀ x i y, val = .number x → p.entry i = some (.number y) → F64.eq y x →
    (∀ j < i, ∀ z, p.entry j = some (.number z) → F64.eq z x = false) → y = x

/-- The first constant that is the same. -/
lemma findIdx_sameConst_number {x : ν} {i : Nat} : consts.findIdx? (Chunk.sameConst · (.number x)) = some i ↔
    (∃ y, consts[i]? = some (.number y) ∧ F64.eq y x) ∧
      ∀ j < i, ∀ z, consts[j]? = some (.number z) → F64.eq z x = false := by
  rw [List.findIdx?_eq_some_iff_getElem]
  constructor
  · rintro ⟨inside, same, first⟩
    refine ⟨?_, fun j lt z there => ?_⟩
    · cases e : consts[i] with
      | number y => exact ⟨y, by rw [List.getElem?_eq_getElem inside, e], by rwa [e] at same⟩
      | _ =>
        rw [e] at same
        cases same
    · obtain ⟨inside', e⟩ := List.getElem?_eq_some_iff.mp there
      have other := first j lt
      rw [e] at other
      exact Bool.eq_false_of_not_eq_true other
  · rintro ⟨⟨y, there, same⟩, first⟩
    obtain ⟨inside, e⟩ := List.getElem?_eq_some_iff.mp there
    refine ⟨inside, by rw [e]; exact same, fun j lt => ?_⟩
    have inside' : j < consts.length := Nat.lt_trans lt inside
    cases e' : consts[j] with
    | number z =>
      have other := first j lt z (by rw [List.getElem?_eq_getElem inside', e'])
      rw [Chunk.sameConst, other]
      exact Bool.false_ne_true
    | _ => exact Bool.false_ne_true

/-- Under the condition, the constant that is found is the one that is added. -/
lemma Holds.found_eq (h : p.Holds consts) (value : val.value p.strings = some v) (condition : p.Undisguised val)
    {i : Nat} (search : consts.findIdx? (Chunk.sameConst · v) = some i) : consts[i]? = some v := by
  obtain ⟨inside, same, -⟩ := List.findIdx?_eq_some_iff_getElem.mp search
  cases val with
  | number x =>
    obtain rfl : .number x = v := Option.some.inj value
    obtain ⟨⟨y, there, equal⟩, first⟩ := findIdx_sameConst_number.mp search
    have e : y = x := condition x i y rfl (by rw [h.entry, there]) equal fun j lt z there =>
      first j lt z (by rw [← h.entry, there])
    rw [there, e]
  | string a =>
    obtain ⟨s, -, rfl⟩ := Option.map_eq_some_iff.mp value
    rw [List.getElem?_eq_getElem inside]
    cases e : consts[i] with
    | string t =>
      rw [e] at same
      rw [show t = s from beq_iff_eq.mp same]
    | _ =>
      rw [e] at same
      cases same
  | _ =>
    -- the loops pass over any other value
    obtain rfl := Option.some.inj value
    cases e : consts[i] <;> rw [e] at same <;> cases same

/-- An add is right exactly if it meets the condition. -/
lemma Holds.addRight_iff (h : p.Holds consts) (given : p.Given (.add val)) (few : p.constCount < 65535)
    (after : List (PoolCall ν)) : AddRight p val after ↔ p.Undisguised val := by
  obtain ⟨v, value⟩ := h.given given
  have below : consts.length < 65535 := h.count ▸ few
  constructor
  · rintro ⟨v', i, p', value', added, -, right⟩ x k y rfl there same first
    obtain rfl : Value.number x = v' := Option.some.inj value'
    have search : consts.findIdx? (Chunk.sameConst · (.number x)) = some k := by
      rw [h.entry] at there
      refine findIdx_sameConst_number.mpr ⟨⟨y, there, same⟩, fun j lt z there => ?_⟩
      exact first j lt z (by rw [h.entry, there])
    obtain ⟨q, added', holds⟩ := h.found value' given search
    rw [added] at added'
    cases added'
    have now := (right [] (List.nil_prefix) _ .nil).1
    rw [holds.entry, ← h.entry, there] at now
    exact Value.number.inj (Option.some.inj now)
  · intro condition
    cases search : consts.findIdx? (Chunk.sameConst · v) with
    | some i =>
      obtain ⟨p', added, holds⟩ := h.found value given search
      refine ⟨v, i, p', value, added, fun _ => ?_, fun later _ q run => ?_⟩
      · rw [h.count]
        exact holds.count
      · obtain ⟨more, holds'⟩ := run.holds holds
        have there := h.found_eq value condition search
        have inside : i < consts.length := (List.getElem?_eq_some_iff.mp there).1
        refine ⟨by rw [holds'.entry, List.getElem?_append_left inside, there], fun j lt => ?_⟩
        rw [h.count] at lt
        rw [holds'.entry, h.entry, List.getElem?_append_left lt]
    | none =>
      obtain ⟨p', added, holds⟩ := h.fresh value given search below
      refine ⟨v, consts.length, p', value, added, ?_, fun later _ q run => ?_⟩
      · rintro ⟨j, x, there, same⟩
        rw [h.entry] at there
        exact absurd same (List.findIdx?_eq_none_iff.mp search x (List.mem_of_getElem? there) ▸ Bool.false_ne_true)
      · obtain ⟨more, holds'⟩ := run.holds holds
        refine ⟨?_, fun j lt => ?_⟩
        · rw [holds'.entry, List.append_assoc, List.getElem?_append_right (Nat.le_refl _), Nat.sub_self]
          rfl
        · rw [h.count] at lt
          rw [holds'.entry, h.entry, List.append_assoc, List.getElem?_append_left lt]

/-- A history keeps all constants exactly if all its adds meet the condition. -/
theorem history_right_iff (calls : List (PoolCall ν)) :
    HistoryRight calls ↔ ∀ before val after, calls = before ++ .add val :: after → ∀ p, Calls {} before p →
      p.Given (.add val) → p.constCount < 65535 → p.Undisguised val := by
  constructor
  · intro right before val after split p run given few
    obtain ⟨more, holds⟩ := run.holds holds_new
    exact (holds.addRight_iff given few after).mp (right before val after split p run given few)
  · intro condition before val after split p run given few
    obtain ⟨more, holds⟩ := run.holds holds_new
    exact (holds.addRight_iff given few after).mpr (condition before val after split p run given few)

end ConstPool

/-- An integer with the sign that the double 0.0 has: 0.0 and -0.0 compare equal. -/
structure SignedInt where
  val : Int
  negZero : Bool := false
  deriving DecidableEq, Repr

instance : F64 SignedInt where
  ofInt i := ⟨i, false⟩
  add a b := ⟨a.val + b.val, a.negZero && b.negZero⟩
  sub a b := ⟨a.val - b.val, a.negZero && b.val == 0 && !b.negZero⟩
  mul a b := ⟨a.val * b.val, false⟩
  div a b := ⟨a.val / b.val, false⟩
  fmod a b := ⟨a.val.tmod b.val, a.negZero⟩
  pow a b := ⟨Int.pow a.val b.val.toNat, false⟩
  neg a := ⟨-a.val, a.val == 0 && !a.negZero⟩
  eq a b := decide (a.val = b.val)
  lt a b := decide (a.val < b.val)
  le a b := decide (a.val ≤ b.val)
  trunc a := some a.val
  strtod s := ⟨s.foldl (fun n d => 10 * n + ((d.toNat : Int) - 48)) 0, false⟩
  trunc_ofInt _ _ := rfl
  lt_ofInt _ _ _ _ := rfl
  add_ofInt _ _ _ _ _ := rfl

/-- After 0.0, the constant -0.0 gets the index of 0.0. -/
theorem ConstPool.history_zeros :
    ¬ HistoryRight [.add (.number (⟨0, false⟩ : SignedInt)), .add (.number ⟨0, true⟩)] := by
  intro right
  have first : ({} : ConstPool SignedInt).perform (.add (.number ⟨0, false⟩)) =
      some { constants := some (.number ⟨0, false⟩) :: List.replicate 7 none, constCount := 1 } := rfl
  have given (p : ConstPool SignedInt) (x : SignedInt) : p.Given (.add (.number x)) := by
    rintro a ⟨⟩
  obtain ⟨v, i, p', value, added, -, later⟩ := right [_] _ [] rfl _ (.cons (given _ _) first .nil) (given _ _)
    (by decide)
  cases value
  cases added
  obtain ⟨there, -⟩ := later [] (List.nil_prefix) _ .nil
  cases there

end Cando
