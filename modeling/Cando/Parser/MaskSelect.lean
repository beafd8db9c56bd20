import Cando.Parser.Mask
import Mathlib.Data.List.Forall2

/-!
# What a mask selects

Both ways of applying a mask against the rule: a position keeps or drops its value, what is past a mask of `.` alone is
passed, what is past any other is not. The code of a comma list runs by the rule. `OP_MASK_APPLY` knows the first 16
positions only and drops whatever is past the mask, so it follows the rule just when the call returns no more than that.
-/

namespace Cando

open Program Machine

/-! ### The rule -/

section Rule

variable {α : Type}

/-- The values at the positions that keep theirs. -/
def kept : List Bool → List α → List α
  | keep :: bits, v :: vs => if keep then v :: kept bits vs else kept bits vs
  | _, _ => []

/-- The values that a mask selects. -/
def Mask.select (m : Mask) (vs : List α) : List α :=
  kept m.bits vs ++ if m.bits.all (!·) then vs.drop m.bits.length else []

/-- The positions from `i` on as far as a 16-bit mask has them. -/
def within16 (i : Nat) : List Bool → List Bool
  | [] => []
  | keep :: bits => (keep && decide (i < 16)) :: within16 (i + 1) bits

@[simp] lemma kept_nil_right (bits : List Bool) : kept bits ([] : List α) = [] := by
  cases bits <;> rfl

lemma length_toNat (keep : Bool) (v : α) : (if keep then [v] else []).length = keep.toNat := by
  cases keep <;> rfl

lemma kept_cons (keep : Bool) (bits : List Bool) (v : α) (vs : List α) :
    kept (keep :: bits) (v :: vs) = (if keep then [v] else []) ++ kept bits vs := by
  cases keep <;> rfl

lemma kept_length_right (bits : List Bool) (vs : List α) : (kept bits vs).length ≤ vs.length := by
  induction bits generalizing vs with
  | nil => exact Nat.zero_le _
  | cons keep bits ih =>
    cases vs with
    | nil => exact Nat.le_refl _
    | cons v vs =>
      rw [kept_cons, List.length_append, length_toNat, List.length_cons, Nat.add_comm]
      exact Nat.add_le_add (ih vs) (Bool.toNat_le keep)

/-- A mask keeps no more values than it has positions. -/
lemma kept_length_left (bits : List Bool) (vs : List α) : (kept bits vs).length ≤ bits.length := by
  induction bits generalizing vs with
  | nil => exact Nat.le_refl _
  | cons keep bits ih =>
    cases vs with
    | nil => exact Nat.zero_le _
    | cons v vs =>
      rw [kept_cons, List.length_append, length_toNat, List.length_cons, Nat.add_comm]
      exact Nat.add_le_add (ih vs) (Bool.toNat_le keep)

/-- The bits of a mask, as far as 16 of them go. -/
lemma testBit_bitmaskFrom (i j : Nat) (bits : List Bool) :
    (bitmaskFrom i bits).testBit j = (decide (i ≤ j) && ((within16 i bits)[j - i]?).getD false) := by
  induction bits generalizing i with
  | nil => simp [bitmaskFrom, within16]
  | cons keep bits ih =>
    have bit : (if keep then (1 <<< i) % 65536 else 0).testBit j = (decide (i = j) && (keep && decide (i < 16))) := by
      cases keep with
      | false => simp
      | true =>
        have cut : (1 <<< i) % 65536 = 2 ^ i % 2 ^ 16 := congrArg (· % 65536) (Nat.one_shiftLeft i)
        rw [if_pos rfl, cut, Nat.testBit_mod_two_pow, Nat.testBit_two_pow]
        by_cases same : i = j
        · simp [same]
        · simp [same]
    rw [bitmaskFrom, Nat.testBit_or, bit, ih, within16]
    obtain below | rfl | above := Nat.lt_trichotomy i j
    · obtain ⟨d, e⟩ : ∃ d, j - i = d + 1 := ⟨j - i - 1, by omega⟩
      have e' : j - (i + 1) = d := by omega
      have next : i + 1 ≤ j := below
      rw [e, e', List.getElem?_cons_succ]
      simp [Nat.ne_of_lt below, next, Nat.le_of_lt below]
    · have next : ¬ i + 1 ≤ i := Nat.not_succ_le_self i
      simp [next]
    · have next : ¬ i + 1 ≤ j := Nat.not_le.mpr (Nat.lt_succ_of_lt above)
      simp [Nat.ne_of_gt above, Nat.not_le.mpr above, next]

/-- Filtering by position is keeping by position. -/
lemma filter_kept (p : Nat → Bool) (i : Nat) (bits : List Bool) (vs : List α)
    (marks : ∀ d, p (i + d) = bits[d]?.getD false) :
    ((vs.zipIdx i).filter fun x => p x.2).map Prod.fst = kept bits vs := by
  induction vs generalizing i bits with
  | nil => rw [kept_nil_right, List.zipIdx_nil, List.filter_nil, List.map_nil]
  | cons v vs ih =>
    have first : p i = bits[0]?.getD false := marks 0
    have others (d : Nat) : p (i + 1 + d) = bits.tail[d]?.getD false := by
      rw [Nat.add_right_comm, Nat.add_assoc, marks, List.getElem?_tail]
    rw [List.zipIdx_cons, List.filter_cons, first]
    cases bits with
    | nil => simpa [kept] using ih (i + 1) [] others
    | cons keep bits =>
      cases keep with
      | false => simpa [kept] using ih (i + 1) bits others
      | true => simpa [kept] using ih (i + 1) bits others

lemma within16_length (i : Nat) (bits : List Bool) : (within16 i bits).length = bits.length := by
  induction bits generalizing i with
  | nil => rfl
  | cons keep bits ih => rw [within16, List.length_cons, List.length_cons, ih]

/-- What `OP_MASK_APPLY` keeps. -/
lemma maskKeep_eq {ν : Type} (bits : List Bool) (vs : List (Value ν)) :
    maskKeep bits.length (bitmaskFrom 0 bits) vs = kept (within16 0 bits) vs := by
  refine filter_kept (fun i => i < bits.length && (bitmaskFrom 0 bits).testBit i) 0 _ vs fun d => ?_
  rw [Nat.zero_add, testBit_bitmaskFrom, Nat.sub_zero, decide_eq_true (Nat.zero_le d), Bool.true_and]
  by_cases inside : d < bits.length
  · rw [decide_eq_true inside, Bool.true_and]
  · rw [decide_eq_false inside, Bool.false_and, List.getElem?_eq_none (by rw [within16_length]; omega)]
    rfl

/-- Nothing is kept at a position from the sixteenth on. -/
def NoneFrom16 (i : Nat) (bits : List Bool) (n : Nat) : Prop := ∀ d < n, 16 ≤ i + d → bits[d]? ≠ some true

lemma noneFrom16_cons {i n : Nat} {keep : Bool} {bits : List Bool} :
    NoneFrom16 i (keep :: bits) (n + 1) ↔ (16 ≤ i → keep = false) ∧ NoneFrom16 (i + 1) bits n := by
  constructor
  · intro h
    refine ⟨fun late => ?_, fun d below late => ?_⟩
    · simpa using h 0 (Nat.succ_pos n) late
    · exact h (d + 1) (Nat.succ_lt_succ below) (by omega)
  · rintro ⟨first, others⟩ d below late
    cases d with
    | zero => simp [first late]
    | succ d => exact others d (Nat.lt_of_succ_lt_succ below) (by omega)

/-- Sixteen bits keep what the mask keeps just when it keeps nothing behind them; else they keep less. -/
lemma kept_within16 (i : Nat) (bits : List Bool) (vs : List α) :
    (kept (within16 i bits) vs).length ≤ (kept bits vs).length ∧
      ((kept (within16 i bits) vs).length = (kept bits vs).length ↔ NoneFrom16 i bits vs.length) ∧
      (NoneFrom16 i bits vs.length → kept (within16 i bits) vs = kept bits vs) := by
  induction bits generalizing i vs with
  | nil => exact ⟨Nat.le_refl _, ⟨fun _ d _ _ => by simp, fun _ => rfl⟩, fun _ => rfl⟩
  | cons keep bits ih =>
    cases vs with
    | nil => exact ⟨Nat.le_refl _, ⟨fun _ d below => absurd below (Nat.not_lt_zero d), fun _ => rfl⟩, fun _ => rfl⟩
    | cons v vs =>
      obtain ⟨le, same, eq⟩ := ih (i + 1) vs
      rw [List.length_cons, noneFrom16_cons, within16, kept, kept]
      cases keep with
      | false => simpa using ⟨le, same, eq⟩
      | true =>
        by_cases early : i < 16
        · have late : ¬ 16 ≤ i := Nat.not_le.mpr early
          simpa [early, late] using ⟨le, same, eq⟩
        · have late : 16 ≤ i := Nat.not_lt.mp early
          have less : (kept (within16 (i + 1) bits) vs).length ≠ (kept bits vs).length + 1 := by omega
          simp [early, late, less, Nat.le_succ_of_le le]

/-- Sixteen bits, and nothing past them, say what the mask says about `n` values. -/
structure Mask.Encodes (m : Mask) (n : Nat) : Prop where
  early : NoneFrom16 0 m.bits n
  covered : m.bits.all (!·) → n ≤ m.bits.length

lemma kept_of_all_skipped {bits : List Bool} (none : bits.all (!·)) (vs : List α) : kept bits vs = [] := by
  induction bits generalizing vs with
  | nil => rfl
  | cons keep bits ih =>
    obtain ⟨skip, others⟩ := Bool.and_eq_true_iff.mp none
    obtain rfl : keep = false := by simpa using skip
    cases vs with
    | nil => rfl
    | cons v vs => exact ih others vs

/-- `OP_MASK_APPLY` selects what the mask selects just when its operands encode the mask for so many values. -/
lemma kept_eq_select_iff (m : Mask) (vs : List α) :
    kept (within16 0 m.bits) vs = m.select vs ↔ m.Encodes vs.length := by
  obtain ⟨le, same, eq⟩ := kept_within16 0 m.bits vs
  rw [Mask.select]
  by_cases none : m.bits.all (!·)
  · have nothing := kept_of_all_skipped none vs
    have cut : kept (within16 0 m.bits) vs = [] := List.eq_nil_of_length_eq_zero (by
      rw [nothing, List.length_nil] at le
      exact Nat.le_zero.mp le)
    have early := same.mp (by rw [cut, nothing])
    rw [if_pos none, nothing, cut, List.nil_append, eq_comm, List.drop_eq_nil_iff]
    exact ⟨fun covered => ⟨early, fun _ => covered⟩, fun h => h.covered none⟩
  · rw [if_neg none, List.append_nil]
    exact ⟨fun h => ⟨same.mp (congrArg List.length h), fun all => absurd all none⟩, fun h => eq h.early⟩

end Rule

/-! ### Code in its place -/

/-- What a piece of code can rely on while it runs: the frame it runs in and the frames and values under it, room for so
many values, and what it needs of the store. -/
structure Setting (ν : Type) where
  frame : Frame
  outer : List Frame
  base : List (Value ν)
  chunk : Chunk ν
  chunks : List (Chunk ν)
  running : chunks[frame.ip.chunk]? = some chunk
  room : Nat
  good : Store ν → Prop

variable {ν : Type}

/-- Control is at an offset of the code, with these values above the frame's own. -/
structure Setting.At (S : Setting ν) (off : Nat) (us : List (Value ν)) (vm : VM ν) : Prop where
  stack : vm.stack = us.reverse ++ S.base
  frames : vm.frames = { S.frame with ip := ⟨S.frame.ip.chunk, off⟩ } :: S.outer
  chunks : vm.chunks = S.chunks
  store : S.good vm.store

section Code

variable {S : Setting ν} {off : Nat} {us vs : List (Value ν)} {vm vm' : VM ν} {i : Instr}

/-- The instruction that the code has at an offset is fetched there. -/
lemma fetch_placed (h : S.At off us vm) (fits : i.Fits) (placed : i.encode <+: S.chunk.code.drop off) :
    ∃ vm', fetch vm = .ok i vm' ∧ S.At (off + i.op.size) us vm' ∧ vm'.lastRetCount = vm.lastRetCount ∧
      vm'.stack = vm.stack := by
  have found : vm.chunks[S.frame.ip.chunk]? = some S.chunk := by rw [h.chunks, S.running]
  exact ⟨_, fetch_apply h.frames found (decode_placed fits placed), ⟨h.stack, rfl, h.chunks, h.store⟩, rfl, rfl⟩

variable [F64 ν] {E : Env ν}

/-- Wherever it stands, the code runs through and leaves these values, if there is room for them. -/
def Evaluates (E : Env ν) (S : Setting ν) (code : List UInt8) (vs : List (Value ν)) : Prop :=
  ∀ off us vm, code <+: S.chunk.code.drop off → us.length + vs.length ≤ S.room → S.At off us vm →
    ∃ vm', Runs E vm vm' ∧ S.At (off + code.length) (us ++ vs) vm'

/-- The code that was emitted between two points of time leaves these values, with room for `n`. -/
def Leaves (E : Env ν) (S : Setting ν) (n : Nat) (code code' : List UInt8) (vs : List (Value ν)) : Prop :=
  ∃ seg, code' = code ++ seg ∧
    ∀ us vm, code' <+: S.chunk.code → us.length + n ≤ S.room → S.At code.length us vm →
      ∃ vm', Runs E vm vm' ∧ S.At code'.length (us ++ vs) vm'

lemma Leaves.refl (code : List UInt8) : Leaves E S 0 code code [] :=
  ⟨[], (List.append_nil _).symm, fun us vm _ _ h => ⟨vm, .refl vm, by rwa [List.append_nil]⟩⟩

lemma Leaves.trans {n n' : Nat} {code code' code'' : List UInt8} (few : vs.length ≤ n) (h : Leaves E S n code code' vs)
    {vs' : List (Value ν)} (h' : Leaves E S n' code' code'' vs') : Leaves E S (n + n') code code'' (vs ++ vs') := by
  obtain ⟨seg, rfl, run⟩ := h
  obtain ⟨seg', rfl, run'⟩ := h'
  refine ⟨seg ++ seg', List.append_assoc _ _ _, fun us vm placed room start => ?_⟩
  obtain ⟨vm₁, r₁, h₁⟩ := run us vm ((List.prefix_append _ _).trans placed) (by omega) start
  obtain ⟨vm₂, r₂, h₂⟩ := run' (us ++ vs) vm₁ placed (by rw [List.length_append]; omega) h₁
  exact ⟨vm₂, r₁.trans r₂, by rwa [← List.append_assoc]⟩

lemma Leaves.mono {n n' : Nat} {code code' : List UInt8} (more : n ≤ n') (h : Leaves E S n code code' vs) :
    Leaves E S n' code code' vs := by
  obtain ⟨seg, e, run⟩ := h
  exact ⟨seg, e, fun us vm placed room => run us vm placed (Nat.le_trans (Nat.add_le_add_left more _) room)⟩

/-- What comes behind some code in the code that is placed. -/
lemma placed_behind {code seg rest whole : List UInt8} (h : code ++ seg ++ rest <+: whole) :
    seg <+: whole.drop code.length := by
  obtain ⟨tail, rfl⟩ := h
  exact ⟨rest ++ tail, by rw [List.append_assoc, List.append_assoc, List.drop_left]⟩

/-- An expression, and the instruction that keeps or drops its value. -/
lemma leaves_position {code seg : List UInt8} {v : Value ν} (h : Evaluates E S seg [v]) (keep : Bool) :
    Leaves E S 1 code (code ++ seg ++ (Instr.mk (if keep then .maskPass else .maskSkip) 0 0).encode)
      (if keep then [v] else []) := by
  refine ⟨_, List.append_assoc _ _ _, fun us vm placed room start => ?_⟩
  obtain ⟨vm₁, runs, h₁⟩ := h _ us vm (placed_behind placed) room start
  have behind : (Instr.mk (if keep then .maskPass else .maskSkip) 0 0).encode <+:
      S.chunk.code.drop (code ++ seg).length := placed_behind (by rwa [List.append_nil])
  rw [List.length_append] at behind
  have fits : (Instr.mk (if keep then .maskPass else .maskSkip) 0 0).Fits := by cases keep <;> decide
  obtain ⟨vm₂, fetched, h₂, -, -⟩ := fetch_placed h₁ fits behind
  rw [List.length_append, List.length_append, Instr.encode_length]
  cases keep with
  | true =>
    have turn : step E vm₁ = .ok () vm₂ := by
      rw [step_apply fetched]
      rfl
    exact ⟨vm₂, runs.trans (.step turn), h₂⟩
  | false =>
    have stack : vm₂.stack = v :: (us.reverse ++ S.base) := by
      rw [h₂.stack, List.reverse_append]
      rfl
    have turn : step E vm₁ = .ok () { vm₂ with stack := us.reverse ++ S.base, dead := v :: vm₂.dead } := by
      have popped : pop vm₂ = .ok v { vm₂ with stack := us.reverse ++ S.base, dead := v :: vm₂.dead } := by
        rw [pop, stack]
      rw [step_apply fetched]
      show opMaskSkip vm₂ = _
      rw [opMaskSkip, bind_apply, popped, Outcome.bind_ok, pure_apply]
    refine ⟨_, runs.trans (.step turn), ?_, h₂.frames, h₂.chunks, h₂.store⟩
    rw [if_neg Bool.false_ne_true, List.append_nil]

end Code

/-! ### Comma lists -/

section Lists

variable [F64 ν] {E : Env ν} {S : Setting ν} {p p' : MaskParser} {c c' : Nat} {vs : List (Value ν)} {v : Value ν}

/-- The expressions evaluate to the values, one each. -/
def Values (E : Env ν) (S : Setting ν) (os : List Operand) (vs : List (Value ν)) : Prop :=
  List.Forall₂ (fun o v => Evaluates E S o.code [v]) os vs

/-- One more position of a comma list. -/
lemma leaves_next {o : Operand} {os : List Operand} (next : p.operands = o :: os) (h : Evaluates E S o.code [v])
    (keep : Bool) :
    Leaves E S 1 p.code (p.parseOperand.emitMask keep).code (if keep then [v] else []) ∧
      (p.parseOperand.emitMask keep).operands = os ∧ (p.parseOperand.emitMask keep).error = p.error := by
  have parsed : p.parseOperand = { p with operands := os, code := p.code ++ o.code, lastExprWasCall := o.isCall } := by
    rw [MaskParser.parseOperand, next]
  rw [parsed]
  exact ⟨leaves_position h keep, rfl, rfl⟩

/-- The positions of a mask against a comma list: they are refused if the list is too short, else they are kept and
dropped one by one. The induction is on the positions. -/
lemma values_leave {bits : List Bool} (parsed : MaskParser.parseMaskValues bits (p, c) = (p', c'))
    (clean : p.error = none) (values : Values E S p.operands vs) :
    (p'.error = none ↔ bits.length ≤ vs.length) ∧ (p'.error ≠ none → p'.operands = []) ∧
      (p'.error = none → Values E S p'.operands (vs.drop bits.length) ∧ p'.operands = p.operands.drop bits.length ∧
        Leaves E S bits.length p.code p'.code (kept bits vs) ∧ c' = c + (kept bits vs).length) := by
  induction bits generalizing p c vs with
  | nil =>
    cases parsed
    exact ⟨⟨fun _ => Nat.zero_le _, fun _ => clean⟩, fun refused => absurd clean refused,
      fun _ => ⟨values, rfl, .refl _, rfl⟩⟩
  | cons keep bits ih =>
    cases e : p.operands with
    | nil =>
      rw [MaskParser.parseMaskValues, if_pos e] at parsed
      rw [e] at values
      cases values
      cases parsed
      simp [MaskParser.fail, clean, e]
    | cons o os =>
      rw [MaskParser.parseMaskValues, if_neg (by rw [e]; exact List.cons_ne_nil _ _)] at parsed
      rw [e] at values
      cases values with
      | cons first others =>
        rename_i v vs
        obtain ⟨leaves, left, same⟩ := leaves_next e first keep
        obtain ⟨accepted, none, tail⟩ := ih parsed (same.trans clean) (left ▸ others)
        rw [left] at tail
        refine ⟨by simpa using accepted, none, fun ok => ?_⟩
        obtain ⟨rest, behind, leaves', count⟩ := tail ok
        refine ⟨rest, behind, ?_, ?_⟩
        · rw [List.length_cons, Nat.add_comm, kept_cons]
          exact leaves.trans (by rw [length_toNat]; exact Bool.toNat_le keep) leaves'
        · rw [count, kept_cons, List.length_append, length_toNat, Nat.add_assoc]

/-- The expressions behind the positions of a pure mask. -/
lemma extras_leave {keep : Bool} {os : List Operand} (listed : p.operands = os)
    (parsed : MaskParser.parseMaskExtras keep os (p, c) = (p', c')) (values : Values E S os vs) :
    p'.error = p.error ∧ p'.operands = [] ∧
      Leaves E S vs.length p.code p'.code (if keep then vs else []) ∧ c' = c + (if keep then vs else []).length := by
  induction os generalizing p c vs with
  | nil =>
    cases values
    cases parsed
    refine ⟨rfl, listed, ?_, ?_⟩
    · rw [ite_self]
      exact .refl _
    · rw [ite_self]
      rfl
  | cons o os ih =>
    cases values with
    | cons first others =>
      rename_i v vs
      obtain ⟨leaves, left, same⟩ := leaves_next listed first keep
      obtain ⟨clean, behind, leaves', count⟩ := ih left parsed others
      have all : (if keep then v :: vs else []) = (if keep then [v] else []) ++ if keep then vs else [] := by
        cases keep <;> rfl
      refine ⟨clean.trans same, behind, ?_, ?_⟩
      · rw [all, List.length_cons, Nat.add_comm]
        exact leaves.trans (by rw [length_toNat]; exact Bool.toNat_le keep) leaves'
      · rw [count, all, List.length_append, length_toNat, Nat.add_assoc]

/-- A single expression behind a mask. -/
lemma select_single (m : Mask) (v : α) : m.select [v] = if m.first then [v] else [] := by
  have past : [v].drop m.bits.length = [] := List.drop_eq_nil_of_le (Nat.succ_le_succ (Nat.zero_le _))
  rw [Mask.select, past, ite_self, List.append_nil, Mask.bits, kept_cons, kept_nil_right, List.append_nil]

/-- More expressions behind a mask: those past it count for a mask of `.` alone. -/
lemma select_cons (m : Mask) (v : α) (vs : List α) :
    m.select (v :: vs) = (if m.first then [v] else []) ++ kept m.others vs ++
      if m.isPure then (if !m.first then vs.drop m.others.length else []) else [] := by
  have pureSkip : m.bits.all (!·) = (m.isPure && !m.first) := by
    rw [Mask.bits, Mask.isPure, List.all_cons]
    cases m.first <;> simp
  rw [Mask.select, pureSkip, Mask.bits, kept_cons, List.length_cons, List.drop_succ_cons]
  cases m.isPure <;> rfl

/-- After the first expression of a comma list. -/
lemma maskList_leaves {m : Mask} {o : Operand} {os : List Operand} (next : p.operands = o :: os)
    (clean : p.error = none) (first : Evaluates E S o.code [v]) (others : Values E S os vs)
    (parsed : p.parseOperand.parseMaskList m = (p', c')) :
    (p'.error = none ↔ os = [] ∨ m.others.length ≤ vs.length) ∧
      (p'.error = none → Leaves E S (v :: vs).length p.code p'.code (m.select (v :: vs)) ∧
        c' = (m.select (v :: vs)).length ∧ p'.operands = if m.isPure then [] else os.drop m.others.length) := by
  obtain ⟨leaves, left, same⟩ := leaves_next next first m.first
  have left₁ : p.parseOperand.operands = os := left
  rw [MaskParser.parseMaskList] at parsed
  by_cases single : os = []
  · subst single
    cases others
    rw [if_pos left₁] at parsed
    cases parsed
    rw [select_single]
    refine ⟨⟨fun _ => .inl rfl, fun _ => same.trans clean⟩, fun _ => ⟨leaves, (length_toNat _ _).symm, ?_⟩⟩
    rw [left, List.drop_nil, ite_self]
  · obtain ⟨⟨p₂, c₂⟩, positions⟩ :
      ∃ st, MaskParser.parseMaskValues m.others (p.parseOperand.emitMask m.first, m.first.toNat) = st := ⟨_, rfl⟩
    obtain ⟨accepted, none, tail⟩ := values_leave positions (same.trans clean) (left ▸ others)
    simp only [if_neg (left₁ ▸ single), positions] at parsed
    have few : (if m.first then [v] else []).length ≤ 1 := by rw [length_toNat]; exact Bool.toNat_le _
    rw [or_iff_right single, select_cons]
    by_cases uniform : m.isPure
    · rw [if_pos uniform] at parsed
      rw [if_pos uniform, if_pos uniform]
      cases ok : p₂.error with
      | some msg =>
        have ended : p₂.operands = [] := none (by rw [ok]; exact Option.some_ne_none _)
        rw [ended] at parsed
        cases parsed
        exact ⟨accepted, fun h => absurd (ok.symm.trans h) (Option.some_ne_none _)⟩
      | none =>
        obtain ⟨values, behind, leaves', count⟩ := tail ok
        obtain ⟨same', ended, leaves'', count'⟩ := extras_leave rfl parsed values
        have long := accepted.mp ok
        refine ⟨by rw [same', accepted], fun _ => ⟨?_, ?_, ended⟩⟩
        · have all := (leaves.trans few leaves').trans (by
            rw [List.length_append]
            exact Nat.add_le_add few (kept_length_left _ _)) leaves''
          exact all.mono (by rw [List.length_drop, List.length_cons]; omega)
        · rw [count', count, List.length_append, List.length_append, length_toNat]
    · rw [if_neg uniform] at parsed
      rw [if_neg uniform, if_neg uniform, List.append_nil]
      cases parsed
      refine ⟨accepted, fun ok => ?_⟩
      obtain ⟨-, behind, leaves', count⟩ := tail ok
      have long := accepted.mp ok
      refine ⟨(leaves.trans few leaves').mono (by rw [List.length_cons]; omega), ?_, by rw [behind, left]⟩
      rw [count, List.length_append, length_toNat]

/-- A mask in front of a comma list: a list that is shorter than the mask is refused, unless it is a single expression;
of any other, the values that the mask selects are left, and the parser knows how many. The expressions past a mixed
mask are not taken from the list. -/
lemma list_leaves {m : Mask} {o : Operand} {os : List Operand} (clean : p.error = none) (listed : p.operands = o :: os)
    (plain : o.isCall → p.callDepth = 0 ∧ os ≠ []) (first : Evaluates E S o.code [v]) (others : Values E S os vs) :
    ((p.parseMaskEmit m).error = none ↔ os = [] ∨ m.others.length ≤ vs.length) ∧
      ((p.parseMaskEmit m).error = none →
        Leaves E S (v :: vs).length p.code (p.parseMaskEmit m).code (m.select (v :: vs)) ∧
        (p.parseMaskEmit m).lastMultiPush = (m.select (v :: vs)).length ∧
        (p.parseMaskEmit m).operands = if m.isPure then [] else os.drop m.others.length) := by
  obtain ⟨p₀, e₀⟩ :
    ∃ p₀ : MaskParser, { p with callDepth := p.callDepth + 1, lastExprWasCall := false } = p₀ := ⟨_, rfl⟩
  have next : p₀.operands = o :: os := by rw [← e₀, ← listed]
  have notCall : p₀.parseOperand.singleCall p.callDepth = false := by
    rw [MaskParser.singleCall, MaskParser.parseOperand, next]
    show (o.isCall && (decide (p.callDepth > 0) || os.isEmpty)) = false
    cases isCall : o.isCall with
    | false => rfl
    | true =>
      obtain ⟨outermost, more⟩ := plain isCall
      simp [outermost, more]
  obtain ⟨⟨p', c'⟩, parsed⟩ : ∃ st, p₀.parseOperand.parseMaskList m = st := ⟨_, rfl⟩
  have code : p₀.code = p.code := by rw [← e₀]
  have run := maskList_leaves next (by rw [← e₀]; exact clean) first others parsed
  rw [code] at run
  simpa only [MaskParser.parseMaskEmit, e₀, MaskParser.parseMaskRest, notCall, Bool.false_eq_true, if_false, parsed]
    using run

end Lists

/-! ### Calls -/

section Calls

variable [F64 ν] {E : Env ν} {S : Setting ν} {p : MaskParser} {vs : List (Value ν)} {vm : VM ν}

lemma Mask.bits_length_lt (m : Mask) : m.bits.length < 65536 := by
  have short := m.short
  rw [Mask.bits, List.length_cons]
  omega

/-- A mask in front of a call is compiled to one instruction. -/
lemma call_code {m : Mask} {o : Operand} {os : List Operand} (listed : p.operands = o :: os) (isCall : o.isCall)
    (alone : 0 < p.callDepth ∨ os = []) :
    (p.parseMaskEmit m).code =
      p.code ++ o.code ++ (Instr.mk .maskApply m.bits.length (bitmaskFrom 0 m.bits)).encode := by
  have width : m.bits.length % 65536 = m.bits.length := Nat.mod_eq_of_lt m.bits_length_lt
  have call : ({ p with callDepth := p.callDepth + 1, lastExprWasCall := false } : MaskParser).parseOperand =
      { p with
        callDepth := p.callDepth + 1
        operands := os
        code := p.code ++ o.code
        lastExprWasCall := o.isCall } := by
    rw [MaskParser.parseOperand, listed]
  have single : MaskParser.singleCall p.callDepth
      { p with callDepth := p.callDepth + 1, operands := os, code := p.code ++ o.code, lastExprWasCall := o.isCall } =
        true := by
    rw [MaskParser.singleCall, isCall, Bool.true_and, Bool.or_eq_true, decide_eq_true_iff, List.isEmpty_iff]
    exact alone
  simp only [MaskParser.parseMaskEmit, call, MaskParser.parseMaskRest, single, if_true, width, MaskParser.emit]

lemma bitmaskFrom_lt (i : Nat) (bits : List Bool) : bitmaskFrom i bits < 65536 := by
  induction bits generalizing i with
  | nil => exact Nat.zero_lt_succ _
  | cons keep bits ih =>
    have bit : (if keep then (1 <<< i) % 65536 else 0) < 2 ^ 16 := by
      split
      · exact Nat.mod_lt _ (Nat.zero_lt_succ _)
      · exact Nat.zero_lt_succ _
    exact Nat.or_lt_two_pow (n := 16) bit (ih (i + 1))

omit [F64 ν] in
/-- `OP_MASK_APPLY` leaves the values at the positions that its sixteen bits keep. -/
lemma opMaskApply_leaves (bits : List Bool) {σ : List (Value ν)} (stack : vm.stack = vs.reverse ++ σ)
    (count : vm.lastRetCount = vs.length) (bounded : vm.height ≤ stackMax) :
    ∃ vm', opMaskApply bits.length (bitmaskFrom 0 bits) vm = .ok () vm' ∧
      vm'.stack = (kept (within16 0 bits) vs).reverse ++ σ ∧ vm'.frames = vm.frames ∧ vm'.chunks = vm.chunks ∧
      vm'.store = vm.store := by
  have nonneg : ¬ vm.lastRetCount < 0 := by omega
  have few := (kept_length_right (within16 0 bits) vs)
  have room : ({ vm with stack := σ, dead := vs ++ vm.dead } : VM ν).height + (kept (within16 0 bits) vs).length ≤
      stackMax := by
    rw [VM.height, stack, List.length_append, List.length_reverse] at bounded
    show σ.length + _ ≤ stackMax
    omega
  refine ⟨{ ({ vm with stack := σ, dead := vs ++ vm.dead } : VM ν).pushed (kept (within16 0 bits) vs) with
    lastRetCount := (kept (within16 0 bits) vs).length }, ?_, rfl, rfl, rfl, rfl⟩
  rw [opMaskApply, bind_apply, get_apply, Outcome.bind_ok, bind_apply, Program.when, if_neg nonneg, pure_apply,
    Outcome.bind_ok, bind_apply, count, Int.toNat_natCast, take_stack vs stack, Outcome.bind_ok, bind_apply,
    maskKeep_eq, pushAll_apply room, Outcome.bind_ok, modify_apply]
  rfl

end Calls

/-! ### Both ways -/

/-- A mask in front of a comma list whose expressions evaluate to these values, and control in front of its code. -/
structure ListCase [F64 ν] (E : Env ν) (m : Mask) (vs : List (Value ν)) where
  parser : MaskParser
  first : Operand
  others : List Operand
  clean : parser.error = none
  listed : parser.operands = first :: others
  /-- the parser does not take the first expression for a single call -/
  plain : first.isCall → parser.callDepth = 0 ∧ others ≠ []
  setting : Setting ν
  placed : (parser.parseMaskEmit m).code <+: setting.chunk.code
  values : Values E setting (first :: others) vs
  room : vs.length ≤ setting.room
  vm : VM ν
  start : setting.At parser.code.length [] vm

/-- The same mask in front of a call that has just returned these values. -/
structure CallCase (m : Mask) (vs : List (Value ν)) where
  parser : MaskParser
  call : Operand
  others : List Operand
  listed : parser.operands = call :: others
  isCall : call.isCall
  alone : 0 < parser.callDepth ∨ others = []
  setting : Setting ν
  placed : (parser.parseMaskEmit m).code <+: setting.chunk.code
  vm : VM ν
  returned : setting.At (parser.code ++ call.code).length vs vm
  count : vm.lastRetCount = vs.length
  bounded : vm.height ≤ stackMax

section Both

variable [F64 ν] {E : Env ν} {m : Mask} {vs out : List (Value ν)}

/-- The list is a syntax error. -/
def ListCase.Refused (l : ListCase E m vs) : Prop := (l.parser.parseMaskEmit m).error ≠ none

/-- The code of the list leaves these values. -/
def ListCase.Selects (l : ListCase E m vs) (out : List (Value ν)) : Prop :=
  ∃ vm', Runs E l.vm vm' ∧ l.setting.At (l.parser.parseMaskEmit m).code.length out vm'

/-- The instruction behind the call leaves these values. -/
def CallCase.Selects (E : Env ν) (c : CallCase m vs) (out : List (Value ν)) : Prop :=
  ∃ vm', step E c.vm = .ok () vm' ∧ c.setting.At (c.parser.parseMaskEmit m).code.length out vm'

/-- An accepted list leaves what the mask selects; a list is refused if it is shorter than the mask and no single
expression. -/
lemma ListCase.selects (l : ListCase E m vs) :
    (l.Refused ↔ 1 < vs.length ∧ vs.length < m.bits.length) ∧ (¬ l.Refused → l.Selects (m.select vs)) := by
  have values := l.values
  cases vs with
  | nil => cases values
  | cons v ws =>
  obtain ⟨first, others⟩ := List.forall₂_cons.mp values
  obtain ⟨accepted, run⟩ := list_leaves (m := m) l.clean l.listed l.plain first others
  have long : l.others.length = ws.length := others.length_eq
  refine ⟨?_, fun ok => ?_⟩
  · rw [ListCase.Refused, ne_eq, accepted, ← List.length_eq_zero_iff, long, Mask.bits, List.length_cons,
      List.length_cons]
    omega
  · obtain ⟨seg, -, leaves⟩ := (run (not_not.mp ok)).1
    have room : ([] : List (Value ν)).length + (v :: ws).length ≤ l.setting.room := by
      rw [List.length_nil, Nat.zero_add]
      exact l.room
    obtain ⟨vm', runs, there⟩ := leaves [] l.vm l.placed room l.start
    exact ⟨vm', runs, there⟩

/-- What the instruction behind a call leaves, and nothing else. -/
lemma CallCase.selects_iff (c : CallCase m vs) : c.Selects E out ↔ out = kept (within16 0 m.bits) vs := by
  have code := call_code (m := m) c.listed c.isCall c.alone
  have placed := c.placed
  rw [code, ← List.append_nil (_ ++ _)] at placed
  have behind := placed_behind placed
  have fits : (Instr.mk .maskApply m.bits.length (bitmaskFrom 0 m.bits)).Fits :=
    ⟨m.bits_length_lt, bitmaskFrom_lt 0 m.bits⟩
  obtain ⟨vm₁, fetched, at₁, count, stack⟩ := fetch_placed c.returned fits behind
  obtain ⟨vm₂, applied, stack₂, frames, chunks, store⟩ := opMaskApply_leaves m.bits at₁.stack
    (count.trans c.count) (by rw [VM.height, stack]; exact c.bounded)
  have turn : step E c.vm = .ok () vm₂ := (step_apply fetched).trans applied
  constructor
  · rintro ⟨vm', turn', at'⟩
    rw [turn] at turn'
    cases turn'
    have same := at'.stack.symm.trans stack₂
    exact List.reverse_inj.mp (List.append_cancel_right same)
  · rintro rfl
    refine ⟨vm₂, turn, stack₂, ?_, chunks.trans at₁.chunks, store ▸ at₁.store⟩
    have size : (c.parser.parseMaskEmit m).code.length =
        (c.parser.code ++ c.call.code).length + Opcode.maskApply.size := by
      rw [code]
      exact List.length_append
    rw [frames, at₁.frames, size]

/-- Literals: `n` constants of a chunk from `i` on. -/
def literals (i : Nat) : (n : Nat) → List Operand
  | 0 => []
  | n + 1 => { code := (Instr.mk .const i 0).encode } :: literals (i + 1) n

/-- A literal evaluates to its constant. -/
lemma evaluates_const {S : Setting ν} {i : Nat} {v : Value ν} (own : S.frame.closure = S.frame.ip.chunk)
    (const : S.chunk.constants[i]? = some v) (small : i < 65536) (room : S.base.length + S.room ≤ stackMax) :
    Evaluates E S (Instr.mk .const i 0).encode [v] := by
  intro off us vm placed fits start
  have encoded : (Instr.mk .const i 0).Fits := ⟨small, rfl⟩
  obtain ⟨vm₁, fetched, at₁, -, -⟩ := fetch_placed start encoded placed
  have read : constAt i vm₁ = .ok v vm₁ := by
    have top : frame vm₁ = .ok { S.frame with ip := ⟨S.frame.ip.chunk, off + Opcode.const.size⟩ } vm₁ := by
      rw [frame, at₁.frames]
    have chunk : chunkOf S.frame.closure vm₁ = .ok S.chunk vm₁ := by
      rw [chunkOf, bind_apply, get_apply, Outcome.bind_ok, at₁.chunks, own, S.running, orCrash_some, pure_apply]
    rw [constAt, bind_apply, top, Outcome.bind_ok, bind_apply, chunk, Outcome.bind_ok, const, orCrash_some, pure_apply]
  have height : vm₁.height < stackMax := by
    rw [List.length_singleton] at fits
    rw [VM.height, at₁.stack, List.length_append, List.length_reverse]
    omega
  have turn : step E vm = .ok () (vm₁.pushed [v]) := by
    rw [step_apply fetched]
    show opConst i vm₁ = _
    rw [opConst, bind_apply, read, Outcome.bind_ok, push_room height]
  refine ⟨vm₁.pushed [v], .step turn, ?_, at₁.frames, at₁.chunks, at₁.store⟩
  rw [VM.pushed, at₁.stack, List.reverse_append, List.append_assoc]

lemma values_literals {S : Setting ν} (own : S.frame.closure = S.frame.ip.chunk)
    (room : S.base.length + S.room ≤ stackMax) {i : Nat}
    (consts : S.chunk.constants.drop i = vs) (small : i + vs.length ≤ 65536) :
    Values E S (literals i vs.length) vs := by
  induction vs generalizing i with
  | nil => exact .nil
  | cons v vs ih =>
    have first : S.chunk.constants[i]? = some v := by
      rw [← List.head?_drop, consts, List.head?_cons]
    have others : S.chunk.constants.drop (i + 1) = vs := by
      rw [← List.tail_drop, consts, List.tail_cons]
    rw [List.length_cons] at small
    exact .cons (evaluates_const own first (by omega) room) (ih others (by omega))

/-- The frame of a script. -/
def scriptFrame (off : Nat) : Frame := { closure := 0, ip := ⟨0, off⟩, slots := 0 }

/-- A script that consists of a masked list of constants. -/
def literalCase (E : Env ν) (m : Mask) (v : Value ν) (vs : List (Value ν)) (room : vs.length + 2 ≤ stackMax) :
    ListCase E m (v :: vs) :=
  let parser : MaskParser := { operands := literals 0 (vs.length + 1) }
  let chunk : Chunk ν := { code := (parser.parseMaskEmit m).code, constants := v :: vs }
  let setting : Setting ν :=
    { frame := scriptFrame 0, outer := [], base := [.null], chunk, chunks := [chunk], running := rfl,
      room := vs.length + 1, good := fun _ => True }
  { parser
    first := { code := (Instr.mk .const 0 0).encode }
    others := literals 1 vs.length
    clean := rfl
    listed := rfl
    plain := nofun
    setting
    placed := List.prefix_rfl
    values := by
      have fits : 1 + (vs.length + 1) ≤ stackMax := by omega
      have small : 0 + (v :: vs).length ≤ 65536 := by
        rw [List.length_cons]
        simp only [stackMax] at room
        omega
      exact values_literals (S := setting) rfl fits rfl small
    room := Nat.le_refl _
    vm := { stack := [.null], frames := [scriptFrame 0], chunks := [chunk] }
    start := ⟨rfl, rfl, rfl, trivial⟩ }

/-- A script that masks a call, which has just returned. -/
def returnedCase (m : Mask) (vs : List (Value ν)) (room : vs.length < stackMax) : CallCase m vs :=
  let call : Operand := { code := (Instr.mk .call 0 0).encode, isCall := true }
  let parser : MaskParser := { operands := [call] }
  let chunk : Chunk ν := { code := (parser.parseMaskEmit m).code }
  { parser
    call
    others := []
    listed := rfl
    isCall := rfl
    alone := .inr rfl
    setting :=
      { frame := scriptFrame 0, outer := [], base := [.null], chunk, chunks := [chunk], running := rfl, room := 0,
        good := fun _ => True }
    placed := List.prefix_rfl
    vm := { stack := vs.reverse ++ [.null], frames := [scriptFrame 3], chunks := [chunk], lastRetCount := vs.length }
    returned := ⟨rfl, rfl, rfl, trivial⟩
    count := rfl
    bounded := by
      rw [VM.height, List.length_append, List.length_reverse]
      exact room }

/-- The mask `(.)`. -/
def skipOne : Mask := { first := false, others := [], short := by decide }

/-- The mask `(~~~~~~~~~~~~~~~~~)`. -/
def keepSeventeen : Mask := { first := true, others := List.replicate 16 true, short := by decide }

/-- The mask `(~.~)`. -/
def keepEnds : Mask := { first := true, others := [false, true], short := by decide }

end Both

end Cando
