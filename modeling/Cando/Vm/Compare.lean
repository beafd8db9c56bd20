import Cando.Vm.Operators

/-!
# Comparisons with lists

The `_STACK` and `_SPREAD` opcodes compare one value with a list. As documented, `==` holds with a list when it holds
with any of its values, `!=` when the left value is none of them, and the orderings when they hold with all of them.
The list opcodes never ask a metamethod and raise no error.
-/

namespace Cando

open Program Value

/-- The six relations. -/
inductive Comparison where
  | eq | neq | lt | gt | leq | geq
  deriving DecidableEq, Repr

namespace Comparison

/-- The operator on a single value. -/
def single : Comparison → Operator
  | .eq => .eq
  | .neq => .neq
  | .lt => .lt
  | .gt => .gt
  | .leq => .leq
  | .geq => .geq

/-- The opcode for a list of expressions. -/
def stackOp : Comparison → Opcode
  | .eq => .eqStack
  | .neq => .neqStack
  | .lt => .ltStack
  | .gt => .gtStack
  | .leq => .leqStack
  | .geq => .geqStack

/-- The opcode for the values of a call. -/
def spreadOp : Comparison → Opcode
  | .eq => .eqSpread
  | .neq => .neqSpread
  | .lt => .ltSpread
  | .gt => .gtSpread
  | .leq => .leqSpread
  | .geq => .geqSpread

/-- Orderings are between numbers. -/
def ordering : Comparison → Bool
  | .eq | .neq => false
  | _ => true

/-- The truth value of a single comparison that decides the one with the list. -/
def decisive : Comparison → Bool
  | .eq => true
  | _ => false

variable {ν : Type} [F64 ν]

/-- What a single comparison of two values yields. -/
def holds : Comparison → Value ν → Value ν → Bool
  | .eq, l, r => l.equal r
  | .neq, l, r => !l.equal r
  | .lt, l, r => numRel F64.lt l r
  | .gt, l, r => numRel (fun x y => F64.lt y x) l r
  | .leq, l, r => numRel F64.le l r
  | .geq, l, r => numRel (fun x y => F64.le y x) l r

/-- What the opcode for a list of expressions makes of it: for `==` as well, it is about all of them. -/
def onStack (c : Comparison) (l : Value ν) (rs : List (Value ν)) : Bool := rs.all (c.holds l)

/-- What the opcode for the values of a call makes of them. -/
def onSpread (c : Comparison) (l : Value ν) (rs : List (Value ν)) : Bool :=
  match c with
  | .eq => rs.any (c.holds l)
  | _ => rs.all (c.holds l)

/-- The documented result, from the single ones: any for `==`, all for the others. -/
def documented (c : Comparison) (l : Value ν) : List (Value ν) → Bool
  | [] => !c.decisive
  | r :: rs => if c.holds l r = c.decisive then c.decisive else c.documented l rs

end Comparison

variable {ν : Type} [F64 ν]

section Claim

variable (E : Env ν)

/-- On top of `vm`, the program takes the operands and leaves a truth value. Nothing else changes but the dead
cells. -/
def Yields (m : M ν Unit) (vm : VM ν) (operands : List (Value ν)) (b : Bool) : Prop :=
  ∃ dead, m (vm.pushed operands) = .ok () { vm with stack := .bool b :: vm.stack, dead }

/-- A single comparison yields a truth value without a metamethod. -/
def Single (c : Comparison) (vm : VM ν) (l r : Value ν) (b : Bool) : Prop :=
  Yields (exec E { op := c.single.op }) vm [l, r] b ∧ ¬ AsksMeta vm c.single.metaKey l r

/-- The documented combination of single comparisons, from the left up to the first that decides it. -/
inductive Combined (c : Comparison) (vm : VM ν) (l : Value ν) : List (Value ν) → Bool → Prop where
  | nil : Combined c vm l [] !c.decisive
  | decided {r : Value ν} {rs : List (Value ν)} (single : Single E c vm l r c.decisive) :
      Combined c vm l (r :: rs) c.decisive
  | next {r : Value ν} {rs : List (Value ν)} {b : Bool} (single : Single E c vm l r !c.decisive)
      (rest : Combined c vm l rs b) : Combined c vm l (r :: rs) b

/-- Both list forms of a comparison have this result. -/
structure ListForms (c : Comparison) (vm : VM ν) (l : Value ν) (rs : List (Value ν)) (b : Bool) : Prop where
  stack : Yields (exec E { op := c.stackOp, a := rs.length }) vm (l :: rs) b
  spread : Yields (exec E { op := c.spreadOp }) { vm with lastRetCount := rs.length } (l :: rs) b

/-- The comparison with a list is as documented: both forms have the result that the single comparisons combine to,
and for the equalities, `!=` is the negation of `==`. -/
structure ComparesAsDocumented (c : Comparison) (vm : VM ν) (l : Value ν) (rs : List (Value ν)) : Prop where
  combined : ∃ b, ListForms E c vm l rs b ∧ Combined E c vm l rs b
  negation : c.ordering = false → ∃ b, ListForms E .eq vm l rs b ∧ ListForms E .neq vm l rs !b

end Claim

section Compare

variable {E : Env ν} {vm : VM ν} {l r : Value ν} {rs : List (Value ν)} {c : Comparison} {b : Bool}

/-! ### Single comparisons -/

/-- A single comparison asks no metamethod and raises no error. -/
structure PlainOperands (vm : VM ν) (c : Comparison) (l r : Value ν) : Prop where
  noMeta : NoMeta vm c.single.metaKey l r
  numbers : c.ordering = true → l.isNumber = true ∧ r.isNumber = true

/-- The operation of a comparison on values that it takes. -/
lemma direct_plain (room : vm.height < stackMax)
    (numbers : c.ordering = true → l.isNumber = true ∧ r.isNumber = true) :
    c.single.direct l r (afterPops vm l r) =
      .ok () { vm with stack := .bool (c.holds l r) :: vm.stack, dead := r :: vm.dead.drop 2 } := by
  have pushed (b : Bool) : push (.bool b : Value ν) (afterPops vm l r) =
      .ok () { vm with stack := .bool b :: vm.stack, dead := r :: vm.dead.drop 2 } := if_pos room
  cases c with
  | eq => exact pushed _
  | neq => exact pushed _
  | lt | gt | leq | geq =>
    obtain ⟨left, right⟩ := numbers rfl
    cases l with
    | number x =>
      cases r with
      | number y => exact pushed _
      | _ => cases right
    | _ => cases left

/-- An ordering that ends with a value was between numbers. -/
lemma direct_numbers {s s' : VM ν} (run : c.single.direct l r s = .ok () s') (ordering : c.ordering = true) :
    l.isNumber = true ∧ r.isNumber = true := by
  cases c with
  | eq | neq => cases ordering
  | lt | gt | leq | geq =>
    cases l with
    | number x =>
      cases r with
      | number y => exact ⟨rfl, rfl⟩
      | _ => cases run
    | _ => cases run

/-- On operands that it takes, a comparison yields its truth value. -/
lemma PlainOperands.single (plain : PlainOperands vm c l r) (room : vm.height < stackMax) :
    Single E c vm l r (c.holds l r) := by
  refine ⟨⟨r :: vm.dead.drop 2, ?_⟩, ?_⟩
  · have none : NoMeta (afterPops vm l r) c.single.metaKey l r := plain.noMeta
    rw [exec_operator, Operator.onOperands, bind_apply, none.ends]
    exact direct_plain room plain.numbers
  · rintro ⟨h, p, raw, asked, ptr, found⟩
    obtain ⟨-, q, ptr', missing⟩ := plain.noMeta h asked
    obtain rfl : p = q := Option.some.inj (ptr.symm.trans ptr')
    rw [missing] at found
    cases found

/-- A comparison that yields a truth value of its own took its operands. -/
lemma Single.plain (single : Single E c vm l r b) (room : vm.height < stackMax) :
    PlainOperands vm c l r ∧ b = c.holds l r := by
  obtain ⟨⟨dead, run⟩, asks⟩ := single
  rw [exec_operator, Operator.onOperands, bind_apply] at run
  obtain ⟨done, s, tried, run⟩ := Outcome.bind_eq_ok run
  have none : NoMeta (afterPops vm l r) c.single.metaKey l r := NoMeta.of_ok asks tried
  rw [none.ends] at tried
  cases tried
  have numbers := direct_numbers run
  refine ⟨⟨none, numbers⟩, ?_⟩
  have stack := (direct_plain room numbers).symm.trans run
  simp only [Outcome.ok.injEq, VM.mk.injEq, List.cons.injEq, Value.bool.injEq, true_and] at stack
  exact stack.1.1.symm

/-! ### Comparisons with a list -/

omit [F64 ν] in
/-- What the list opcodes do: they take the list and the value below it, and push a truth value. -/
lemma opCompareList_yields (rel : Value ν → List (Value ν) → Bool) (room : vm.height < stackMax) :
    Yields (opCompareList rs.length rel) vm (l :: rs) (rel l rs) := by
  have list : (vm.pushed (l :: rs)).stack = rs.reverse ++ ([l].reverse ++ vm.stack) := by simp [VM.pushed]
  have left (dead : List (Value ν)) :
      take 1 { vm.pushed (l :: rs) with stack := [l].reverse ++ vm.stack, dead } =
        .ok [l] { vm with stack := vm.stack, dead := [l] ++ dead } :=
    take_stack [l] rfl
  have count : ¬ (rs.length : Int) < 0 := by omega
  refine ⟨(l :: (rs ++ (vm.pushed (l :: rs)).dead)).tail, ?_⟩
  rw [opCompareList, if_neg count, Int.toNat_natCast, bind_apply, take_stack rs list, Outcome.bind_ok, bind_apply, left]
  exact if_pos room

/-- The list forms of a comparison. -/
lemma listForms (E : Env ν) (vm : VM ν) (l : Value ν) (rs : List (Value ν)) (c : Comparison)
    (room : vm.height < stackMax) :
    Yields (exec E { op := c.stackOp, a := rs.length }) vm (l :: rs) (c.onStack l rs) ∧
      Yields (exec E { op := c.spreadOp }) { vm with lastRetCount := rs.length } (l :: rs) (c.onSpread l rs) := by
  cases c with
  | _ => exact ⟨opCompareList_yields _ room, opCompareList_yields _ room⟩

omit [F64 ν] in
lemma Yields.unique {m : M ν Unit} {operands : List (Value ν)} {b b' : Bool} (h : Yields m vm operands b)
    (h' : Yields m vm operands b') : b = b' := by
  obtain ⟨dead, e⟩ := h
  obtain ⟨dead', e'⟩ := h'
  have same := e.symm.trans e'
  simp only [Outcome.ok.injEq, VM.mk.injEq, List.cons.injEq, Value.bool.injEq, true_and] at same
  exact same.1.1

lemma listForms_iff (room : vm.height < stackMax) :
    ListForms E c vm l rs b ↔ c.onStack l rs = b ∧ c.onSpread l rs = b := by
  obtain ⟨stack, spread⟩ := listForms E vm l rs c room
  constructor
  · intro h
    exact ⟨stack.unique h.stack, spread.unique h.spread⟩
  · rintro ⟨rfl, same⟩
    exact ⟨stack, same ▸ spread⟩

/-! ### The combination of single comparisons -/

/-- The single comparisons up to the first that decides take their operands. -/
def Decided (vm : VM ν) (c : Comparison) (l : Value ν) : List (Value ν) → Prop
  | [] => True
  | r :: rs => PlainOperands vm c l r ∧ (c.holds l r ≠ c.decisive → Decided vm c l rs)

lemma combined_iff (room : vm.height < stackMax) :
    Combined E c vm l rs b ↔ Decided vm c l rs ∧ b = c.documented l rs := by
  constructor
  · intro h
    induction h with
    | nil => exact ⟨trivial, rfl⟩
    | decided single =>
      obtain ⟨plain, e⟩ := single.plain room
      exact ⟨⟨plain, fun other => absurd e.symm other⟩, (if_pos e.symm).symm⟩
    | @next r rs b single rest ih =>
      obtain ⟨plain, e⟩ := single.plain room
      have other : ¬ c.holds l r = c.decisive := by simp [← e]
      exact ⟨⟨plain, fun _ => ih.1⟩, ih.2.trans (if_neg other).symm⟩
  · rintro ⟨decided, rfl⟩
    induction rs with
    | nil => exact .nil
    | cons r rs ih =>
      obtain ⟨plain, others⟩ := decided
      have single := plain.single (E := E) room
      by_cases e : c.holds l r = c.decisive
      · rw [Comparison.documented, if_pos e]
        exact .decided (e ▸ single)
      · rw [Comparison.documented, if_neg e]
        have flipped : c.holds l r = !c.decisive := Bool.eq_not_of_ne e
        exact .next (flipped ▸ single) (ih (others e))

/-- Apart from `==`, all single comparisons have to hold. -/
lemma documented_all (h : c ≠ .eq) : c.documented l rs = rs.all (c.holds l) := by
  have decisive : c.decisive = false := by cases c <;> first | rfl | exact absurd rfl h
  induction rs with
  | nil => rw [Comparison.documented, decisive, List.all_nil, Bool.not_false]
  | cons r rs ih => cases e : c.holds l r <;> simp [Comparison.documented, decisive, e, ih]

lemma documented_any : Comparison.eq.documented l rs = rs.any (Comparison.eq.holds l) := by
  induction rs with
  | nil => rfl
  | cons r rs ih => cases e : Comparison.eq.holds l r <;> simp [Comparison.documented, Comparison.decisive, e, ih]

lemma onSpread_documented : c.onSpread l rs = c.documented l rs := by
  cases c with
  | eq => exact documented_any.symm
  | _ => exact (documented_all (by decide)).symm

lemma onStack_documented (h : c ≠ .eq) : c.onStack l rs = c.documented l rs := (documented_all h).symm

/-- The left value equals all of the others, or none. -/
def AllOrNone (l : Value ν) (rs : List (Value ν)) : Prop :=
  (∀ r ∈ rs, l.equal r = true) ∨ ∀ r ∈ rs, l.equal r = false

lemma allOrNone_iff (h : rs ≠ []) : AllOrNone l rs ↔ Comparison.eq.onStack l rs = Comparison.eq.onSpread l rs := by
  obtain ⟨r, rs, rfl⟩ := List.exists_cons_of_ne_nil h
  constructor
  · rintro (all | none)
    · have e : Comparison.eq.onStack l (r :: rs) = true := List.all_eq_true.mpr all
      have e' : Comparison.eq.onSpread l (r :: rs) = true :=
        List.any_eq_true.mpr ⟨r, List.mem_cons_self, all r List.mem_cons_self⟩
      rw [e, e']
    · have e : Comparison.eq.onStack l (r :: rs) = false :=
        List.all_eq_false.mpr ⟨r, List.mem_cons_self, by simp [Comparison.holds, none r List.mem_cons_self]⟩
      have e' : Comparison.eq.onSpread l (r :: rs) = false :=
        List.any_eq_false.mpr fun r' mem => by simp [Comparison.holds, none r' mem]
      rw [e, e']
  · intro same
    cases e : Comparison.eq.onStack l (r :: rs) with
    | true => exact .inl (List.all_eq_true.mp e)
    | false =>
      rw [e] at same
      exact .inr fun r' mem => (Bool.not_eq_true _).mp (List.any_eq_false.mp same.symm r' mem)

/-- `!=` with a list is the negation of `==` with the values of a call. -/
lemma neq_negates : Comparison.neq.onStack l rs = !Comparison.eq.onSpread l rs := by
  induction rs with
  | nil => rfl
  | cons r rs ih =>
    have e : (Comparison.neq.holds l r && Comparison.neq.onStack l rs) =
        !(Comparison.eq.holds l r || Comparison.eq.onSpread l rs) := by
      rw [ih, Bool.not_or]
      rfl
    exact e

/-! ### When comparisons with a list are as documented -/

/-- `x == 1, 2` is false for 1, as a list of expressions; with the values of a call it is true. -/
theorem eqStack_all : ¬ ComparesAsDocumented {} .eq ({} : VM Int) (.number 1) [.number 1, .number 2] ∧
    Yields (exec {} { op := .eqStack, a := 2 }) ({} : VM Int) [.number 1, .number 1, .number 2] false ∧
    Yields (exec {} { op := .eqSpread }) ({ lastRetCount := 2 } : VM Int) [.number 1, .number 1, .number 2]
      true := by
  obtain ⟨stack, spread⟩ := listForms {} ({} : VM Int) (.number 1) [.number 1, .number 2] .eq (by decide)
  refine ⟨fun h => ?_, stack, spread⟩
  obtain ⟨b, forms, -⟩ := h.combined
  have e := stack.unique forms.stack
  have e' := spread.unique forms.spread
  exact absurd (e.trans e'.symm) (by decide)

/-- A comparison with a list is as documented just when the single comparisons, up to the first that decides, ask no
metamethod and raise no error, and, for `==` and `!=`, the left value equals all of the list or none. -/
theorem comparesAsDocumented_iff (E : Env ν) (c : Comparison) (vm : VM ν) (l : Value ν) (rs : List (Value ν))
    (nonempty : rs ≠ []) (room : vm.height + rs.length < stackMax) :
    ComparesAsDocumented E c vm l rs ↔ Decided vm c l rs ∧ (c.ordering = false → AllOrNone l rs) := by
  have room : vm.height < stackMax := by omega
  constructor
  · rintro ⟨⟨b, forms, combined⟩, negation⟩
    refine ⟨((combined_iff room).mp combined).1, fun e => ?_⟩
    obtain ⟨b, forms, -⟩ := negation e
    obtain ⟨stack, spread⟩ := (listForms_iff room).mp forms
    exact (allOrNone_iff nonempty).mpr (stack.trans spread.symm)
  · rintro ⟨decided, equality⟩
    constructor
    · refine ⟨_, (listForms_iff room).mpr ⟨?_, onSpread_documented⟩, (combined_iff room).mpr ⟨decided, rfl⟩⟩
      by_cases e : c = .eq
      · subst e
        exact ((allOrNone_iff nonempty).mp (equality rfl)).trans onSpread_documented
      · exact onStack_documented e
    · intro e
      have same := (allOrNone_iff nonempty).mp (equality e)
      refine ⟨_, (listForms_iff room).mpr ⟨rfl, same.symm⟩, (listForms_iff room).mpr ⟨?_, ?_⟩⟩
      · rw [same, neq_negates]
      · rw [same, ← neq_negates]
        rfl

/-- `1 < 2, 3`. -/
theorem comparesAsDocumented_iff_lt :
    ComparesAsDocumented {} .lt ({} : VM Int) (.number 1) [.number 2, .number 3] := by
  refine (comparesAsDocumented_iff _ _ _ _ _ (List.cons_ne_nil _ _) (by decide)).mpr ⟨?_, nofun⟩
  have plain (x y : Int) : PlainOperands ({} : VM Int) .lt (.number x) (.number y) := ⟨nofun, fun _ => ⟨rfl, rfl⟩⟩
  exact ⟨plain 1 2, fun _ => ⟨plain 1 3, fun _ => trivial⟩⟩

end Compare

end Cando
